import FrankenRemote.AuthorityTickets

/-! A lapse of the view suspends a held lease and leaves no ticket behind. The suspension keeps its
start until it ends, and only a confirmation marks it as released. -/
namespace FrankenRemote.Authority

open Procedure SlotTable SessionAuthority Transition

/-- The calls that confirm a native release. -/
def Op.confirms : Op → Bool
  | .confirmSuspensionRelease _ => true
  | _ => false

def SessionAuthority.NoTickets (s : SessionAuthority) : Prop :=
  ∀ lease, s.lease = some lease → lease.tickets = vacant

/-- A suspension can only begin, unreleased and without tickets. -/
inductive Lapses (s s' : SessionAuthority) : Prop
  | kept (h : s'.suspension = s.suspension) : Lapses s s'
  | begun {at_} (h : s.suspension = none) (h' : s'.suspension = some ⟨at_,false⟩)
      (ht : s'.NoTickets) : Lapses s s'

/-- Only a bounded view that is not ready can be suspended. -/
def SessionAuthority.Suspendable (s : SessionAuthority) : Prop :=
  ∀ x, s.suspension = some x → s.boundedView = true ∧ s.readiness ≠ .ready

section Effects

variable {s s' : SessionAuthority} {op : Op} {r : Reply} {now : HostInstant}

theorem lapseView_noTickets (s : SessionAuthority) (at_ : HostInstant) :
    (s.lapseView at_).NoTickets := by
  intro lease h
  rw [lapseView_eq] at h
  obtain ⟨_,-,rfl⟩ := Option.map_eq_some_iff.mp h
  rfl

theorem lapseView_lapses (s : SessionAuthority) (at_ : HostInstant) :
    Lapses s (s.lapseView at_) := by
  by_cases h : s.readiness = .ready ∧ s.boundedView ∧ s.lease.isSome ∧ s.suspension.isNone
  · have hb : (s.lapseView at_).suspension = some ⟨at_,false⟩ := by
      rw [lapseView_eq]
      exact if_pos h
    exact .begun (Option.isNone_iff_eq_none.mp h.2.2.2) hb (lapseView_noTickets s at_)
  · refine .kept ?_
    rw [lapseView_eq]
    exact if_neg h

theorem lapseIfDue_lapses (s : SessionAuthority) (now : HostInstant) :
    Lapses s (s.lapseIfDue now) := by
  rcases lapseIfDue_cases s now with ⟨h,-⟩ | ⟨u,-,-,h⟩
  · rw [h]
    exact .kept rfl
  · rw [h]
    exact lapseView_lapses s u

theorem advance_lapses (s : SessionAuthority) (now : HostInstant) : Lapses s (s.advance now) := by
  cases lapseIfDue_lapses {s with lastChecked := some now} now with
  | kept h => exact .kept h
  | begun h h' ht => exact .begun h h' ht

theorem Lapses.congr {t : SessionAuthority} (h : Lapses s s') (hs : t.suspension = s'.suspension)
    (ht : s'.NoTickets → t.NoTickets) : Lapses s t := by
  cases h with
  | kept h => exact .kept (hs.trans h)
  | begun h h' hn => exact .begun h (hs.trans h') (ht hn)

theorem dropElapsed_suspension (now : HostInstant) (s : SessionAuthority) :
    (dropElapsed now s).suspension = none ∨ ((dropElapsed now s).suspension = s.suspension ∧
      (dropElapsed now s).boundedView = s.boundedView ∧
      (dropElapsed now s).readiness = s.readiness) := by
  have ho : (expireObservation now s).suspension = none ∨ expireObservation now s = s := by
    unfold expireObservation dropObservation
    split
    · split <;> exact .inl rfl
    · exact .inr rfl
  unfold dropElapsed expireLease
  split
  · exact .inl rfl
  · rcases ho with h | h
    · exact .inl h
    · rw [h]
      exact .inr ⟨rfl,rfl,rfl⟩

theorem dropElapsed_noTickets (h : s.NoTickets) : (dropElapsed now s).NoTickets := by
  intro lease hl
  obtain ⟨lease',hl',rfl⟩ := dropElapsed_lease hl
  funext i
  have hn : lease'.tickets i = none := by rw [h lease' hl']; rfl
  simp [SlotTable.discard,hn]

theorem effect_lapses (h : Effect s op r s') (ho : op.confirms = false) :
    s'.suspension = none ∨ Lapses s s' := by
  have past (now : HostInstant) := advance_lapses s now
  cases h with
  | kept | deaf | capabilities | approval | recovered | invalidated | claimed =>
    exact .inr (.kept rfl)
  | faulted | observed | revived | revoked | closed | refused => exact .inl rfl
  | gated => exact .inr (past _)
  | unpresented | ready | observationChallenged | observationRenewed | observationLate |
    controlChallenged
    | controlLate => exact .inr ((past _).congr rfl id)
  | @evidence now =>
    -- The sample may begin the suspension before the call itself does.
    cases past now with
    | kept h =>
      cases lapseView_lapses {s.advance now with boundedView := true}
          ((s.advance now).lastChecked.getD 0) with
      | kept h' => exact .inr (.kept (h'.trans h))
      | begun hn h' ht => exact .inr (.begun (h.symm.trans hn) h' ht)
    | begun hn h' ht =>
      cases lapseView_lapses {s.advance now with boundedView := true}
          ((s.advance now).lastChecked.getD 0) with
      | kept h'' => exact .inr (.begun hn (h''.trans h') (lapseView_noTickets _ _))
      | begun hn' => cases h'.symm.trans hn'
  | stale => exact .inr (lapseView_lapses s _)
  | confirmed => cases ho
  | monitored => exact .inr (lapseIfDue_lapses s _)
  | granted =>
    refine .inr ((past _).congr rfl fun _ l hl => ?_)
    cases hl
    rfl
  | controlRenewed _ _ hl =>
    refine .inr ((past _).congr rfl fun hn l hls => ?_)
    cases hls
    exact hn _ hl ▸ rfl
  | @issued _ _ now _ _ _ _ _ _ _ hr =>
    obtain ⟨ha,-⟩ := advance_ready hr
    have hs : (s.advance now).suspension = s.suspension := by rw [ha]
    exact .inr (.kept hs)
  | @resumed now =>
    rcases dropElapsed_suspension now (s.advance now) with h | h
    · exact .inl h
    · exact .inr ((past now).congr h.1 dropElapsed_noTickets)
  | suspended =>
    unfold dropObservation
    split <;> exact .inl rfl

theorem lapseView_suspendable (h : s.Suspendable) (at_ : HostInstant) :
    (s.lapseView at_).Suspendable := by
  intro x hx
  rw [lapseView_eq] at hx ⊢
  dsimp only at hx ⊢
  have hr : (if s.readiness = .ready then .stale else s.readiness) ≠ ViewReadiness.ready := by
    split
    · exact nofun
    · assumption
  split at hx
  · rename_i hb
    exact ⟨hb.2.1,hr⟩
  · exact ⟨(h x hx).1,hr⟩

theorem lapseIfDue_suspendable (h : s.Suspendable) (now : HostInstant) :
    (s.lapseIfDue now).Suspendable := by
  rcases lapseIfDue_cases s now with ⟨hs,-⟩ | ⟨u,-,-,hs⟩
  · rw [hs]
    exact h
  · rw [hs]
    exact lapseView_suspendable h u

theorem advance_suspendable (h : s.Suspendable) (now : HostInstant) : (s.advance now).Suspendable :=
  lapseIfDue_suspendable (s := {s with lastChecked := some now}) h now

theorem suspendable_of_none (h : s.suspension = none) : s.Suspendable := by
  intro x hx
  rw [h] at hx
  cases hx

theorem effect_suspendable (h : Effect s op r s') (hs : s.Suspendable) : s'.Suspendable := by
  have past (now : HostInstant) := advance_suspendable hs now
  cases h with
  | kept | deaf | capabilities | approval | recovered | invalidated | claimed => exact hs
  | faulted | observed | revived | revoked | closed | refused => exact suspendable_of_none rfl
  | gated | unpresented | observationChallenged | observationRenewed | observationLate |
    controlChallenged
    | controlLate | granted | controlRenewed | issued => exact past _
  | @ready now _ _ hbound =>
    intro x hx
    have hb := (past now x hx).1
    rw [hbound] at hb
    cases hb
  | @evidence now =>
    refine lapseView_suspendable (s := {s.advance now with boundedView := true}) (fun x hx => ?_) _
    exact ⟨rfl,(past now x hx).2⟩
  | stale => exact lapseView_suspendable hs _
  | confirmed =>
    intro x hx
    obtain ⟨y,hy,-⟩ := Option.map_eq_some_iff.mp hx
    exact hs y hy
  | monitored => exact lapseIfDue_suspendable hs _
  | @resumed now =>
    rcases dropElapsed_suspension now (s.advance now) with h | ⟨h,hbound,hr⟩
    · exact suspendable_of_none h
    · intro x hx
      rw [hbound,hr]
      exact past now x (h ▸ hx)
  | suspended =>
    apply suspendable_of_none
    unfold dropObservation
    split <;> rfl

end Effects

/-- An accepted submission finds no suspension, on a sound clock. -/
theorem submits_unsuspended {s : SessionAuthority} {op : Op} {l t now} (hs : s.Suspendable)
    (ho : op.submits = some (l,t,now)) (hok : (step s op).1.isOk = true) :
    (step s op).2.suspension = none ∧ (step s op).2.clockFaulted = false := by
  obtain ⟨hr,hstep,_,_,hsub⟩ := submits_ok ho hok
  rw [hstep]
  refine ⟨?_,(advance_settled hr).sound⟩
  by_contra hsome
  obtain ⟨x,hx⟩ := Option.ne_none_iff_exists'.mp hsome
  exact (advance_suspendable hs now x hx).2 hsub.ready

theorem claimNativeOwner_frame (s : SessionAuthority) (l : InputLeaseId) :
    (step s (.claimNativeOwner l)).2.suspension = s.suspension ∧
      (step s (.claimNativeOwner l)).2.clockFaulted = s.clockFaulted := by
  simp only [step,answer,claimNativeOwner,exec_get_bind,exec_refuseIf_bind]
  split
  · exact ⟨rfl,rfl⟩
  · split
    · exact ⟨rfl,rfl⟩
    · exact ⟨rfl,rfl⟩

/-! Revivals. -/

/-- Fresh readiness with an end, with or without a presented report. -/
def Op.revives : Op → Option HostInstant
  | .markViewReadyUntil _ now | .markPresentedReadyUntil _ _ now => some now
  | _ => none

/-- A revival of a suspended lease. -/
structure Revives (x : Suspension) (now : HostInstant) (e : Event) : Prop where
  input : e.input.revives = some now
  reply : e.reply = .done (.ok ())
  suspended : e.before.suspension = some x

/-- The suspension that starts at `start` begins in this step. -/
def Suspends (start : HostInstant) (e : Event) : Prop :=
  e.before.suspension = none ∧ (step e.before e.input).2.suspension = some ⟨start,false⟩

section Runs

variable {s : SessionAuthority} {op : Op} {past : List Event}

/-- Whatever a step leaves suspended begins there or was suspended from the same start. -/
theorem suspension_origin (x : Suspension) (hx : (step s op).2.suspension = some x) :
    (Suspends x.since ⟨s,op,(step s op).1⟩ ∧ x.released = false ∧ (step s op).2.NoTickets) ∨
      ∃ y, s.suspension = some y ∧ y.since = x.since ∧ (op.confirms = false → y = x) := by
  have he := step_effect s op
  by_cases ho : op.confirms = false
  · rcases effect_lapses he ho with hn | hl
    · rw [hn] at hx
      cases hx
    · cases hl with
      | kept h => exact .inr ⟨x,h.symm.trans hx,rfl,fun _ => rfl⟩
      | begun h h' ht =>
        cases h'.symm.trans hx
        exact .inl ⟨⟨h,h'⟩,rfl,ht⟩
  · cases op with
    | confirmSuspensionRelease l =>
      generalize (step s (.confirmSuspensionRelease l)).1 = r at he
      generalize (step s (.confirmSuspensionRelease l)).2 = s' at he hx
      cases he with
      | kept => exact .inr ⟨x,hx,rfl,fun _ => rfl⟩
      | confirmed =>
        obtain ⟨y,hy,rfl⟩ := Option.map_eq_some_iff.mp hx
        exact .inr ⟨y,hy,rfl,fun h => absurd h ho⟩
      | faulted hg | gated hg | unpresented hg => cases hg
      | revived h =>
        rcases h with ⟨h,-⟩ | ⟨_,h,-⟩
        · cases h
        · cases h
      | issued h => cases h
    | _ => exact absurd rfl ho

variable {x : Suspension} {now : HostInstant}

theorem released_origin (ho : op.confirms = false) (hx : (step s op).2.suspension = some x)
    (hr : x.released = true) : s.suspension = some x := by
  rcases suspension_origin x hx with ⟨-,hf,-⟩ | ⟨y,hy,-,hs⟩
  · rw [hf] at hr
    cases hr
  · rw [hy,hs ho]

/-- A revival needs the confirmed release, before the limit. -/
theorem revives_ok (h : Revives x now ⟨s,op,(step s op).1⟩) :
    now < x.since+maxViewSuspension ∧ x.released = true := by
  obtain ⟨ho,hrp,hsus⟩ := h
  have he := step_effect s op
  change (step s op).1 = _ at hrp
  rw [hrp] at he
  generalize (step s op).2 = s' at he
  have hrev : (s.advance now).Revivable now := by
    cases he with
    | kept hs hr => cases op <;> first | (cases ho; done) | cases hs
    | faulted _ _ hr | unpresented _ _ hr => cases hr
    | gated _ _ hr => cases op <;> first | (cases ho; done) | cases hr rfl
    | revived h _ _ _ hrev =>
      rcases h with ⟨rfl,-⟩ | ⟨_,rfl,-⟩
      · cases ho
        exact hrev
      · cases ho
        exact hrev
    | _ => cases ho
  have hsm : (s.advance now).suspension = some x := by
    cases advance_lapses s now with
    | kept h => exact h.trans hsus
    | begun h => cases h.symm.trans hsus
  rw [Revivable,hsm] at hrev
  exact hrev

/-- The step that began the present suspension, and nothing but that suspension since. -/
def SuspendedIn (past : List Event) (s : SessionAuthority) : Prop :=
  ∀ x, s.suspension = some x → ∃ earlier lapse since, past = earlier ++ lapse :: since ∧
    Suspends x.since lapse ∧ (step lapse.before lapse.input).2.NoTickets ∧
    ∀ e ∈ since, ∃ y, e.before.suspension = some y ∧ y.since = x.since

theorem SuspendedIn.step (h : SuspendedIn past s) (op : Op) :
    SuspendedIn (past ++ [⟨s,op,(step s op).1⟩]) (step s op).2 := by
  intro x hx
  rcases suspension_origin x hx with ⟨hb,-,ht⟩ | ⟨y,hy,hs,-⟩
  · exact ⟨past,_,[],rfl,hb,ht,by simp⟩
  · obtain ⟨earlier,lapse,since,rfl,hl,ht,hall⟩ := h y hy
    refine ⟨earlier,lapse,since ++ [⟨s,op,(Authority.step s op).1⟩],by simp,hs ▸ hl,ht,
      forall_mem_snoc.mpr ⟨fun e he => ?_,y,hy,hs⟩⟩
    obtain ⟨z,hz,hzs⟩ := hall e he
    exact ⟨z,hz,hzs.trans hs⟩

/-- Every stored ticket was issued in these steps. -/
structure IssuedSince (past : List Event) (s : SessionAuthority) : Prop where
  faulted : s.clockFaulted = true → s.lease = none
  issued : ∀ lease, s.lease = some lease → ∀ i ticket, lease.tickets i = some ticket →
    ∃ e ∈ past, Issues lease.id ticket.id ticket.expiresAt e

theorem IssuedSince.step (h : IssuedSince past s) (op : Op) :
    IssuedSince (past ++ [⟨s,op,(step s op).1⟩]) (step s op).2 := by
  refine ⟨step_faulted_lease h.faulted op,fun l' hl i t hi => ?_⟩
  have hear (l : Lease) (hs : s.lease = some l) (hi : l.tickets i = some t) :
      ∃ e ∈ past ++ [⟨s,op,(Authority.step s op).1⟩], Issues l.id t.id t.expiresAt e := by
    obtain ⟨e,he,hissue⟩ := h.issued l hs i t hi
    exact ⟨e,List.mem_append_left _ he,hissue⟩
  cases lease_origin h.faulted hl with
  | granted _ _ _ _ hv =>
    rw [hv] at hi
    cases hi
  | renewed hs _ _ hid ht | kept hs hid _ ht =>
    rw [hid]
    exact hear _ hs (ht i t hi).1
  | @issued l _ _ _ _ _ hs ho hr heq =>
    subst heq
    rcases store_eq_some.mp hi with ⟨rfl,rfl⟩ | ⟨-,hi⟩
    · exact ⟨_,List.mem_concat_self,_,ho,hr⟩
    · exact hear l hs hi

/-- After a state without tickets, an accepted submission rests on a ticket issued since. -/
theorem submission_since (hf : s.clockFaulted = true → s.lease = none) (hn : s.NoTickets)
    {ops : List Op} {earlier rest : List Event} {e : Event} {l : InputLeaseId} {t : InputTicketId}
    (hrun : trace s ops = earlier ++ e :: rest)
    (ho : e.input.submits = some (l,t,now)) (hok : e.reply.isOk = true) :
    ∃ issue ∈ earlier, ∃ expiry, Issues l t expiry issue := by
  obtain ⟨is₁,op,_,-,rfl,rfl,-⟩ := trace_split step hrun
  have hst : IssuedSince [] s := by
    refine ⟨hf,fun lease hl i ticket hi => ?_⟩
    rw [hn lease hl] at hi
    cases hi
  have hissued := history_invariant step hst (fun _ _ op h => h.step op) is₁
  obtain ⟨-,-,lease,ticket,hs⟩ := submits_ok ho hok
  obtain ⟨ha,-⟩ := advance_ready hs.ready
  rw [ha] at hs
  obtain ⟨⟨i,hi⟩,hid⟩ := find?_entries_some hs.stored
  obtain ⟨issue,hm,hissue⟩ := hissued.issued lease hs.held i ticket hi
  rw [hs.lease_id,of_decide_eq_true hid] at hissue
  exact ⟨issue,hm,_,hissue⟩

/-- A whole suspension, from the state at its beginning to its revival. -/
theorem revival_run (hf : s.clockFaulted = true → s.lease = none) (hn : s.suspension = none)
    {ops : List Op} {later : List Event} {e : Event}
    (hrun : trace s ops = past ++ e :: later) (hr : Revives x now e) :
    now < x.since+maxViewSuspension ∧
    ∃ earlier lapse since, past = earlier ++ lapse :: since ∧ Suspends x.since lapse ∧
      (∀ e ∈ since, ∃ y, e.before.suspension = some y ∧ y.since = x.since) ∧
      ∀ between sub rest l t at_, since ++ e :: later = between ++ sub :: rest →
        sub.input.submits = some (l,t,at_) → sub.reply.isOk = true →
        ∃ issue ∈ between, ∃ expiry, Issues l t expiry issue := by
  obtain ⟨is₁,op,_,-,hpast,he,-⟩ := trace_split step hrun
  have hst : SuspendedIn [] s := fun x hx => by cases hn.symm.trans hx
  have hh := history_invariant step hst (fun _ _ op h => h.step op) is₁
  rw [he] at hr
  obtain ⟨earlier,lapse,since,hs,hl,ht,hsi⟩ := hh x hr.suspended
  refine ⟨(revives_ok hr).1,earlier,lapse,since,hpast.trans hs,hl,hsi,?_⟩
  have hw : trace s ops = earlier ++ lapse :: (since ++ e :: later) := by
    rw [hrun,hpast,hs]
    simp
  obtain ⟨js₁,op',_,-,-,rfl,hre⟩ := trace_split step hw
  have hf' : (final s js₁).clockFaulted = true → (final s js₁).lease = none :=
    final_invariant (I := fun s => s.clockFaulted = true → s.lease = none) step
      (fun _ op h => step_faulted_lease h op) js₁ hf
  intro between sub rest l t at_ hsub ho hok
  exact submission_since (step_faulted_lease hf' op') ht (hre.symm.trans hsub) ho hok

end Runs

end FrankenRemote.Authority
