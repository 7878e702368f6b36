import FrankenRemote.AuthorityDeadlines

/-! A viewer that falls silent, and the owners of native input. However often the host asks, only
an accepted answer moves a deadline; a lease is for one owner. -/
namespace FrankenRemote.Authority

open Procedure SessionAuthority Renewal

/-! Calls that start or renew a deadline. -/

def Op.observes : Op → Bool
  | .authorizeObservation _ | .respondObservationChallenge _ _ => true
  | _ => false

def Op.controls : Op → Bool
  | .grantLease _ _ | .respondControlChallenge _ _ _ => true
  | _ => false

/-- No call of the kind is accepted in the run. -/
def Silent (kind : Op → Bool) (s : SessionAuthority) (ops : List Op) : Prop :=
  ∀ e ∈ trace s ops, e.reply.isOk = true → kind e.input = false

variable {s s' : SessionAuthority} {op : Op} {r : Reply} {now : HostInstant}

/-- A deadline is renewed by an accepted answer, or it stays or ends. -/
theorem effect_silent (h : Effect s op r s') :
    (r.isOk = true ∧ op.observes = true ∨ s'.observationUntil = s.observationUntil ∨
      s'.observationUntil = none) ∧
    (r.isOk = true ∧ op.controls = true ∨ s'.leaseUntil = s.leaseUntil ∨ s'.leaseUntil = none) := by
  have gone (now : HostInstant) := (advance_frame s now).dwindles (advance_leaseUntil s now)
  have lapsed (t : SessionAuthority) (at_ : HostInstant) : Dwindles t (t.lapseView at_) :=
    (lapseView_frame t at_).dwindles (lapseView_leaseUntil t at_)
  have dwindled {t : SessionAuthority} (h : Dwindles s t) {p q : Prop} :
      (p ∨ t.observationUntil = s.observationUntil ∨ t.observationUntil = none) ∧
        (q ∨ t.leaseUntil = s.leaseUntil ∨ t.leaseUntil = none) := ⟨.inr h.observation,.inr h.lease⟩
  cases h with
  | observed => exact ⟨.inl ⟨rfl,rfl⟩,.inr (.inr rfl)⟩
  | observationRenewed => exact ⟨.inl ⟨rfl,rfl⟩,.inr (gone _).lease⟩
  | granted | controlRenewed => exact ⟨.inr (gone _).observation,.inl ⟨rfl,rfl⟩⟩
  | faulted | closed | refused => exact ⟨.inr (.inr rfl),.inr (.inr rfl)⟩
  | revoked => exact ⟨.inr (.inl rfl),.inr (.inr rfl)⟩
  | stale => exact dwindled (lapsed s _)
  | @evidence now =>
    have hb : Dwindles s {s.advance now with boundedView := true} := (gone now).trans {}
    exact dwindled (hb.trans (lapsed _ _))
  | monitored => exact dwindled ((lapseIfDue_frame _ _).dwindles (lapseIfDue_leaseUntil _ _))
  | recovered | invalidated => exact dwindled (dwindles_dropTickets _)
  | issued _ _ _ _ hm =>
    refine ⟨.inr (gone _).observation,.inr (.inl ?_)⟩
    rw [← advance_leaseUntil s,leaseUntil,leaseUntil,hm]
    rfl
  | resumed => exact dwindled ((gone _).trans (dwindles_dropElapsed _ _))
  | suspended => exact dwindled (dwindles_dropObservation s)
  | _ => first | exact dwindled (gone _) | exact ⟨.inr (.inl rfl),.inr (.inl rfl)⟩

/-- Along a silent run a deadline stays behind the bound that it starts behind. -/
theorem silent_run {kind : Op → Bool} {until_ : SessionAuthority → Option HostInstant}
    {b : HostInstant}
    (hstep : ∀ s op, (step s op).1.isOk = true ∧ kind op = true ∨ until_ (step s op).2 = until_ s ∨
      until_ (step s op).2 = none) {Q : Event → Prop}
    (hq : ∀ s op, (∀ u, until_ s = some u → u ≤ b) → Q ⟨s,op,(step s op).1⟩) (ops : List Op)
    (hs : ∀ u, until_ s = some u → u ≤ b) (h : Silent kind s ops) : ∀ e ∈ trace s ops, Q e := by
  induction ops generalizing s with
  | nil => simp [Transition.trace]
  | cons op ops ih =>
    obtain ⟨ho,hrest⟩ := List.forall_mem_cons.mp h
    refine List.forall_mem_cons.mpr ⟨hq s op hs,ih (fun u hu => ?_) hrest⟩
    rcases hstep s op with ⟨hok,hk⟩ | heq | heq
    · cases hk.symm.trans (ho hok)
    · exact hs u (heq.symm.trans hu)
    · cases heq.symm.trans hu

/-- Frames and input pass only under a live observation. -/
theorem passes_live
    (ho : op = .authorizeObservationDelivery now ∨ ∃ l t, op.submits = some (l,t,now))
    (hok : (step s op).1.isOk = true) : ∃ o, s.observationUntil = some o ∧ now < o := by
  rw [← (advance_frame s now).observationUntil]
  rcases ho with rfl | ⟨l,t,ho⟩
  · simp only [step,answer,exec_authorizeObservationDelivery] at hok
    split at hok
    · cases hok
    split at hok
    · exact ObservationLive.deadline ‹_›
    · cases hok
  · obtain ⟨-,-,_,_,h⟩ := submits_ok ho hok
    exact h.observed.deadline

/-- One lifetime after the last clock sample a viewer that answers no observation challenge is
shown nothing and enters nothing, and one that answers no control challenge enters nothing. -/
theorem silence_ends_authority (session : RemoteSessionId) (policy : AuthorityPolicy)
    (ops later : List Op)
    {x : HostInstant} (hs : final (new session policy) ops = s) (hx : s.lastChecked = some x) :
    (Silent Op.observes s later → ∀ e ∈ trace s later, e.reply.isOk = true → ∀ now,
      (e.input = .authorizeObservationDelivery now ∨ ∃ l t, e.input.submits = some (l,t,now)) →
        now < x + policy.authorizationLifetime) ∧
    (Silent Op.controls s later → ∀ e ∈ trace s later, e.reply.isOk = true → ∀ l t now,
      e.input.submits = some (l,t,now) → now < x + policy.authorizationLifetime) := by
  have h := deadlineHistory_run session policy ops
  rw [hs] at h
  constructor
  · refine silent_run (fun s op => (effect_silent (step_effect s op)).1)
      (fun s op hs hok now hpass => ?_) later fun o ho => h.observation.le_checked ho hx
    obtain ⟨o,ho,hlt⟩ := passes_live hpass hok
    exact hlt.trans_le (hs o ho)
  · refine silent_run (fun s op => (effect_silent (step_effect s op)).2)
      (fun s op hs hok l t now hop => ?_) later fun u hu => h.control.le_checked hu hx
    obtain ⟨-,-,lease,_,hsub⟩ := submits_ok hop hok
    have hu := advance_leaseUntil s now
    rw [leaseUntil,hsub.held] at hu
    exact hsub.lease_live.trans_le (hs _ hu.symm)

theorem silence_ends_authority_controlledRun :
    (step (final (new ⟨1⟩ ⟨1000,100⟩) controlledRun) (.authorizeObservationDelivery 999)).1.isOk =
      true ∧ 999 < 3 + 1000 :=
  ⟨rfl,(silence_ends_authority ⟨1⟩ ⟨1000,100⟩ controlledRun
    [.authorizeObservationDelivery 999] rfl rfl).1
    (by simp [Silent,Transition.trace,Op.observes]) _ (.head _) rfl 999 (.inl rfl)⟩

/-! Owners of native input. -/

/-- An owner is given up only with its lease. -/
theorem effect_owner (h : Effect s op r s') {l} (hl : s'.lease = some l)
    (hn : s'.nativeOwner = none) : s.nativeOwner = none := by
  have past (now : HostInstant) := (advance_frame s now).nativeOwner
  cases h with
  | faulted | closed | refused | observed | revoked => cases hl
  | evidence =>
    rw [markViewStale,(lapseView_frame _ _).nativeOwner] at hn
    exact (past _).symm.trans hn
  | stale => exact (lapseView_frame _ _).nativeOwner.symm.trans hn
  | monitored => exact (lapseIfDue_frame _ _).nativeOwner.symm.trans hn
  | resumed =>
    obtain ⟨m,hm,-⟩ := Option.map_eq_some_iff.mp hl
    rw [dropElapsed,expireTickets,expireLease_lease hm] at hn
    rw [expireLease_lease hm] at hm
    rw [expireChallenges,expireObservation_lease hm] at hn
    exact (past _).symm.trans hn
  | suspended => cases hl.symm.trans (dropObservation_lease s)
  | claimed => cases hn
  | _ => first | exact (past _).symm.trans hn | exact hn

theorem claim_ok {l} (h : (step s (.claimNativeOwner l)).1.isOk = true) :
    s.nativeOwner = none ∧ (step s (.claimNativeOwner l)).2.nativeOwner ≠ none := by
  simp only [step,answer,claimNativeOwner,exec_get_bind,exec_refuseIf_bind] at h ⊢
  split at h
  · cases h
  split at h
  · cases h
  · rename_i hl hn
    rw [if_neg hl,if_neg hn]
    exact ⟨by simpa using hn,Option.some_ne_none _⟩

/-- Between two accepted claims of native input the first one's lease ends. -/
theorem owner_per_lease (l l' : InputLeaseId) (later : List Op)
    (h : (step s (.claimNativeOwner l)).1.isOk = true)
    (h' : (step (final (step s (.claimNativeOwner l)).2 later) (.claimNativeOwner l')).1.isOk =
      true) :
    ∃ e ∈ trace (step s (.claimNativeOwner l)).2 later, (step e.before e.input).2.lease = none := by
  have hrun := Transition.history_invariant step (I := fun past s => s.nativeOwner = none →
    ∃ e ∈ past, (step e.before e.input).2.lease = none) (fun hn =>
      absurd hn (claim_ok h).2) ?_ later
  · exact hrun (claim_ok h').1
  intro past s op hs hn
  cases hl : (step s op).2.lease with
  | none => exact ⟨_,List.mem_concat_self,hl⟩
  | some lease =>
    obtain ⟨e,he,hend⟩ := hs (effect_owner (step_effect s op) hl hn)
    exact ⟨e,List.mem_append_left _ he,hend⟩

theorem owner_per_lease_regranted :
    ∃ e ∈ trace (step (final (new ⟨1⟩ ⟨1000,100⟩) controlledRun) (.claimNativeOwner ⟨7⟩)).2
      [.revokeLease,.grantLease ⟨8⟩ 5], (step e.before e.input).2.lease = none :=
  owner_per_lease ⟨7⟩ ⟨8⟩ _ rfl rfl

end FrankenRemote.Authority
