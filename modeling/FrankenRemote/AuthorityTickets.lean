import FrankenRemote.AuthorityEffect

/-! Every accepted submission rests on one ticket issuance under one explicit grant,
with nothing in between that should have fenced it. -/
namespace FrankenRemote.Authority

open Procedure SlotTable SessionAuthority

/-- Steps that must end every ticket issued under the lease. -/
def Withdraws (l : InputLeaseId) (e : Event) : Prop :=
  match e.input with
  | .close | .refuse | .invalidateForSuspend | .revokeLease | .markViewStale => True
  | .invalidateInputTickets l' => l' = l ∧ e.reply.isOk = true
  | .requireViewEvidence _ | .advanceRecovery _ | .authorizeObservation _ => e.reply.isOk = true
  | _ => False

/-- Steps whose clock sample is at or past the view deadline installed before them. -/
def PassesView (e : Event) : Prop :=
  ∃ now u, e.input.sample = some now ∧ e.before.viewUntil = some u ∧ u ≤ now

def Fences (l : InputLeaseId) (e : Event) : Prop := Withdraws l e ∨ PassesView e

def Grants (l : InputLeaseId) (e : Event) : Prop :=
  ∃ now, e.input = .grantLease l now ∧ e.reply = .done (.ok ())

def Issues (l : InputLeaseId) (t : InputTicketId) (expiry : HostInstant) (e : Event) : Prop :=
  ∃ now, e.input.issues = some (l,t,now) ∧ e.reply = .instant (.ok expiry)

/-! Which steps leave tickets alone. -/

variable {s : SessionAuthority} {op : Op} {l : InputLeaseId} {r : Reply}

theorem not_withdraws_of_reads (l : InputLeaseId)
    (h : (step s op).1.isOk = true → op.reads = true) : ¬Withdraws l ⟨s,op,(step s op).1⟩ := by
  cases op <;> simp_all [Withdraws,Op.reads,step,Reply.isOk,Except.isOk,Except.toBool]

theorem gate_sample {now} (h : op.gate = some now) : op.sample = some now := by
  cases op <;> first | exact h | cases h

theorem not_fences_timed {now} (hs : op.sample = some now) (hw : ¬Withdraws l ⟨s,op,r⟩)
    (hu : ∀ u, s.viewUntil = some u → now < u) : ¬Fences l ⟨s,op,r⟩ := by
  rintro (h|⟨now',u,hs',hv,hle⟩)
  · exact hw h
  · cases hs.symm.trans hs'
    exact absurd (hu u hv) (not_lt.mpr hle)

theorem not_fences_untimed (hs : op.sample = none) (hw : ¬Withdraws l ⟨s,op,r⟩) :
    ¬Fences l ⟨s,op,r⟩ := by
  rintro (h|⟨now,u,hs',-⟩)
  · exact hw h
  · cases hs.symm.trans hs'

theorem le_serializedTime (s : SessionAuthority) (now : HostInstant) :
    now ≤ s.serializedTime now := by
  unfold serializedTime
  cases s.lastChecked <;> simp

/-! Where the lease after a step comes from. -/

/-- The lease after a step and the tickets in it. -/
inductive LeaseOrigin (s : SessionAuthority) (e : Event) (lease' : Lease) : Prop
  | granted {now} : e.input = .grantLease lease'.id now → e.reply = .done (.ok ()) →
      ¬s.Regresses now → lease'.authorizedUntil = now + s.policy.authorizationLifetime →
      lease'.tickets = vacant → LeaseOrigin s e lease'
  | renewed {lease nonce now} :
      s.lease = some lease → e.input = .respondControlChallenge lease.id nonce now →
      s.controlChallenge = some ⟨nonce,lease'.authorizedUntil⟩ → lease'.id = lease.id →
      (∀ i ticket, lease'.tickets i = some ticket →
        lease.tickets i = some ticket ∧ ¬Fences lease.id e) → LeaseOrigin s e lease'
  | issued {lease t now expiry o slot} : s.lease = some lease →
      e.input.issues = some (lease.id,t,now) → e.reply = .instant (.ok expiry) →
      lease' = {lease with tickets := store lease.tickets slot ⟨t,expiry⟩} → t.raw ≠ 0 →
      (∀ i ticket, lease.tickets i = some ticket → ticket.id ≠ t) →
      s.observationUntil = some o → expiry ≤ lease.authorizedUntil → expiry ≤ o →
      ¬Fences lease.id e → LeaseOrigin s e lease'
  | kept {lease} : s.lease = some lease → lease'.id = lease.id →
      lease'.authorizedUntil = lease.authorizedUntil →
      (∀ i ticket, lease'.tickets i = some ticket →
        lease.tickets i = some ticket ∧ ¬Fences lease.id e) → LeaseOrigin s e lease'

theorem dropObservation_lease (s : SessionAuthority) : s.dropObservation.lease = none := by
  unfold dropObservation
  split <;> rfl

variable {now : HostInstant}

theorem expireObservation_lease {le}
    (h : (expireObservation now s).lease = some le) : expireObservation now s = s := by
  unfold expireObservation at h ⊢
  split
  · rw [if_pos ‹_›,dropObservation_lease] at h
    cases h
  · rfl

theorem expireLease_lease {le} (h : (expireLease now s).lease = some le) :
    expireLease now s = s := by
  unfold expireLease at h ⊢
  split
  · rw [if_pos ‹_›] at h
    cases h
  · rfl

/-- The resume boundary only clears expired tickets of a lease that it keeps. -/
theorem dropElapsed_lease {lease'} (h : (dropElapsed now s).lease = some lease') :
    ∃ lease, s.lease = some lease ∧
      lease' = {lease with tickets := discard lease.tickets (·.expiresAt ≤ now)} := by
  obtain ⟨m,hm,rfl⟩ := Option.map_eq_some_iff.mp h
  rw [expireLease_lease hm] at hm
  have ho : (expireObservation now s).lease = some m := hm
  rw [expireObservation_lease ho] at ho
  exact ⟨m,ho,rfl⟩

section Origin

variable {lease' : Lease}

theorem LeaseOrigin.of_gate {now r} (hg : op.gate = some now)
    (hw : ∀ l, ¬Withdraws l ⟨s,op,r⟩) (h : (s.advance now).lease = some lease') :
    LeaseOrigin s ⟨s,op,r⟩ lease' := by
  obtain ⟨lease,hs,hid,hu,ht⟩ := advance_retains h
  exact .kept hs hid hu fun i t hi =>
    ⟨(ht i t hi).1,not_fences_timed (gate_sample hg) (hw _) (ht i t hi).2⟩

theorem LeaseOrigin.of_same {r} (h : s.lease = some lease') (hs : op.sample = none)
    (hw : ¬Withdraws lease'.id ⟨s,op,r⟩) : LeaseOrigin s ⟨s,op,r⟩ lease' :=
  .kept h rfl rfl fun _ _ hi => ⟨hi,not_fences_untimed hs hw⟩

theorem LeaseOrigin.of_emptied {e le} (h : s.lease = some le)
    (h' : le' = le.withoutTickets) : LeaseOrigin s e le' := by
  subst h'
  exact .kept h rfl rfl (by simp [Lease.withoutTickets])

/-- The lease in the state a step leaves. A faulted clock ends control, so the monitor
read that a fault makes deaf leaves no lease behind. -/
theorem lease_origin (hf : s.clockFaulted = true → s.lease = none)
    (hl : (step s op).2.lease = some lease') : LeaseOrigin s ⟨s,op,(step s op).1⟩ lease' := by
  have he := step_effect s op
  have hw (l : InputLeaseId) : ((step s op).1.isOk = true → op.reads = true) →
      ¬Withdraws l ⟨s,op,(step s op).1⟩ := not_withdraws_of_reads l
  generalize (step s op).1 = r at he hw ⊢
  generalize (step s op).2 = s' at he hl
  cases he with
  | kept hs hr => exact .of_same hl hs (hw _ hr)
  | deaf h => cases hl.symm.trans (hf h)
  | faulted | observed | revoked | closed | refused => cases hl
  | gated hg _ hr => exact .of_gate hg (fun l => hw l hr) hl
  | unpresented hg _ hr => exact .of_gate hg (fun l => hw l (by simp [hr])) hl
  | capabilities | approval | confirmed | claimed => exact .of_same hl rfl id
  | ready | observationChallenged | observationRenewed | observationLate | controlChallenged
  | controlLate =>
    exact .of_gate rfl (fun _ => id) hl
  | evidence =>
    simp only [markViewStale,lapseView_eq] at hl
    obtain ⟨m,hm,rfl⟩ := Option.map_eq_some_iff.mp hl
    obtain ⟨lease,hs,hid,hu,-⟩ := advance_retains hm
    exact .kept hs hid hu (by simp [Lease.withoutTickets])
  | revived hop =>
    rcases hop with ⟨rfl,-⟩|⟨q,rfl,-⟩
    · exact .of_gate rfl (fun _ => id) hl
    · exact .of_gate rfl (fun _ => id) hl
  | stale =>
    simp only [markViewStale,lapseView_eq] at hl
    obtain ⟨m,hm,rfl⟩ := Option.map_eq_some_iff.mp hl
    exact .of_emptied hm rfl
  | recovered | invalidated =>
    obtain ⟨m,hm,rfl⟩ := Option.map_eq_some_iff.mp hl
    exact .of_emptied hm rfl
  | monitored =>
    obtain ⟨lease,hs,hid,hu,ht⟩ := lapseIfDue_retains hl
    exact .kept hs hid hu fun i ticket hi => ⟨(ht i ticket hi).1,not_fences_timed rfl id
      fun u hv => (le_serializedTime s _).trans_lt ((ht i ticket hi).2 u hv)⟩
  | granted hr _ _ _ _ hd =>
    cases hl
    have hp := (freshDeadline_eq hd).1
    rw [(advance_frame s _).policy] at hp
    exact .granted rfl rfl hr hp rfl
  | controlRenewed _ _ hm _ hc =>
    cases hl
    obtain ⟨lease,hs,hid,-,ht⟩ := advance_retains hm
    rw [(advance_frame s _).controlChallenge] at hc
    exact .renewed hs (by rw [hid]) hc hid fun i ticket hi =>
      ⟨(ht i ticket hi).1,not_fences_timed rfl id (ht i ticket hi).2⟩
  | @issued op t now e o lease slot hop _ _ hready hm ht hfresh ho _ hle hlo =>
    cases hl
    obtain ⟨ha,hu⟩ := advance_ready hready
    rw [ha] at hm ho
    have hs : op.sample = some now ∧ ∀ r, ¬Withdraws lease.id ⟨s,op,r⟩ := by
      cases op <;> cases hop <;> exact ⟨rfl,fun _ => id⟩
    exact .issued hm hop rfl rfl ht hfresh ho hle hlo (not_fences_timed hs.1 (hs.2 _) hu)
  | resumed =>
    obtain ⟨m,hm,rfl⟩ := dropElapsed_lease hl
    obtain ⟨lease,hs,hid,hu,ht⟩ := advance_retains hm
    refine .kept hs hid hu fun i ticket hi => ?_
    have hi' := ht i ticket (discard_eq_some.mp hi).1
    exact ⟨hi'.1,not_fences_timed rfl id hi'.2⟩
  | suspended => cases hl.symm.trans (dropObservation_lease s)

end Origin

/-! Whole runs. -/

theorem effect_clockFaulted {s'} (h : Effect s op r s') :
    s'.clockFaulted = s.clockFaulted ∨ s' = s.fault := by
  have past (now : HostInstant) := (advance_frame s now).clockFaulted
  cases h with
  | faulted => exact .inr rfl
  | evidence => exact .inl ((lapseView_frame _ _).clockFaulted.trans (past _))
  | stale => exact .inl (lapseView_frame _ _).clockFaulted
  | monitored => exact .inl (lapseIfDue_frame _ _).clockFaulted
  | resumed hr =>
    have hs := (dropElapsed_settled (advance_settled hr)).sound
    exact .inl (hs.trans (not_regresses_iff.mp hr).1.symm)
  | suspended =>
    left
    unfold dropObservation
    split <;> rfl
  | _ => first | exact .inl (past _) | exact .inl rfl

theorem step_faulted_lease (hf : s.clockFaulted = true → s.lease = none)
    (op : Op) (h : (step s op).2.clockFaulted = true) : (step s op).2.lease = none := by
  rcases effect_clockFaulted (step_effect s op) with hs|hs
  · rw [hs] at h
    by_contra hl
    obtain ⟨lease',hl'⟩ := Option.ne_none_iff_exists'.mp hl
    cases lease_origin hf hl' with
    | granted _ _ hr => cases h.symm.trans (not_regresses_iff.mp hr).1
    | renewed hm | issued hm | kept hm => cases hm.symm.trans (hf h)
  · rw [hs]
    rfl

/-- The issuance behind a stored ticket, with its grant before it and no fence after it. -/
def IssuedIn (past : List Event) (l : InputLeaseId) (t : InputTicketId) (expiry : HostInstant) :
    Prop :=
  ∃ earlier issue later, past = earlier ++ issue :: later ∧ Issues l t expiry issue ∧
    (∃ g ∈ earlier, Grants l g) ∧ ∀ e ∈ later, ¬Fences l e

theorem IssuedIn.snoc {past t ex e} (h : IssuedIn past l t ex) (he : ¬Fences l e) :
    IssuedIn (past ++ [e]) l t ex := by
  obtain ⟨earlier,issue,later,rfl,hi,hg,hl⟩ := h
  exact ⟨earlier,issue,later++[e],by simp,hi,hg,forall_mem_snoc.mpr ⟨hl,he⟩⟩

structure TicketHistory (past : List Event) (s : SessionAuthority) : Prop where
  faulted : s.clockFaulted = true → s.lease = none
  granted : ∀ lease, s.lease = some lease → ∃ g ∈ past, Grants lease.id g
  issued : ∀ lease, s.lease = some lease → ∀ i ticket, lease.tickets i = some ticket →
    IssuedIn past lease.id ticket.id ticket.expiresAt

theorem TicketHistory.step {past} (h : TicketHistory past s)
    (op : Op) : TicketHistory (past ++ [⟨s,op,(step s op).1⟩]) (step s op).2 where
  faulted := step_faulted_lease h.faulted op
  granted lease' hl := by
    have earlier {lease : Lease} (hs : s.lease = some lease) (hid : lease'.id = lease.id) :
        ∃ g ∈ past ++ [⟨s,op,(Authority.step s op).1⟩], Grants lease'.id g := by
      obtain ⟨g,hg,hgr⟩ := h.granted lease hs
      exact ⟨g,List.mem_append_left _ hg,hid ▸ hgr⟩
    cases lease_origin h.faulted hl with
    | granted ho hr => exact ⟨_,List.mem_concat_self,_,ho,hr⟩
    | renewed hs _ _ hid | kept hs hid => exact earlier hs hid
    | issued hs _ _ heq => exact earlier hs (by rw [heq])
  issued lease' hl i t hi := by
    cases lease_origin h.faulted hl with
    | granted _ _ _ _ hv =>
      rw [hv] at hi
      cases hi
    | renewed hs _ _ hid ht | kept hs hid _ ht =>
      rw [hid]
      exact (h.issued _ hs i t (ht i t hi).1).snoc (ht i t hi).2
    | issued hs ho hr heq _ _ _ _ _ hf =>
      have hg := h.granted _ hs
      subst heq
      rcases store_eq_some.mp hi with ⟨rfl,rfl⟩|⟨-,hi⟩
      · exact ⟨past,_,[],rfl,⟨_,ho,hr⟩,hg,by simp⟩
      · exact (h.issued _ hs i t hi).snoc hf

theorem ticketHistory_run (se : RemoteSessionId) (p : AuthorityPolicy) (ops : List Op) :
    TicketHistory (trace (new se p) ops) (final (new se p) ops) :=
  Transition.history_invariant step ⟨by simp [new],by simp [new],by simp [new]⟩
    (fun _ _ op h => h.step op) ops

/-- The deadlines under which a submission is accepted. -/
structure LiveAt (s : SessionAuthority) (l : InputLeaseId) (now : HostInstant) : Prop where
  observation : ∃ o, s.observationUntil = some o ∧ now < o
  lease : ∃ lease, s.lease = some lease ∧ lease.id = l ∧ now < lease.authorizedUntil
  view : ∀ v, s.viewUntil = some v → now < v

/-- Whenever either submission check accepts, the ticket was issued for exactly this
lease under an earlier grant, it and every current deadline are still ahead, and
nothing since its issuance fenced it. -/
theorem submission_sound (session : RemoteSessionId) (policy : AuthorityPolicy) (ops : List Op)
    (past later : List Event) (e : Event) (l : InputLeaseId) (t : InputTicketId)
    (now : HostInstant) (hrun : trace (new session policy) ops = past ++ e :: later)
    (ho : e.input.submits = some (l,t,now)) (hok : e.reply.isOk = true) :
    (∃ expiry, now < expiry ∧ IssuedIn past l t expiry) ∧ LiveAt e.before l now := by
  obtain ⟨is₁,op,is₂,-,rfl,rfl,-⟩ := Transition.trace_split step hrun
  have hist := ticketHistory_run session policy is₁
  obtain ⟨-,-,lease,ticket,hs⟩ := submits_ok ho hok
  obtain ⟨ha,hv⟩ := advance_ready hs.ready
  rw [ha] at hs
  obtain ⟨⟨i,hi⟩,hid⟩ := find?_entries_some hs.stored
  have ht := hist.issued lease hs.held i ticket hi
  rw [hs.lease_id,of_decide_eq_true hid] at ht
  exact ⟨⟨_,hs.ticket_live,ht⟩,hs.observed.deadline,⟨lease,hs.held,hs.lease_id,hs.lease_live⟩,hv⟩

def controlledRun : List Op :=
  [.markCapabilitiesChecked,.authorizeObservation 0,.markViewReadyUntil 500 1,.grantLease ⟨7⟩ 2,
    .issueInputTicket ⟨7⟩ ⟨9⟩ 3]

theorem submission_sound_controlledRun :
    (∃ expiry, 4 < expiry ∧ IssuedIn (trace (new ⟨1⟩ ⟨1000,100⟩) controlledRun) ⟨7⟩ ⟨9⟩ expiry) ∧
      LiveAt (final (new ⟨1⟩ ⟨1000,100⟩) controlledRun) ⟨7⟩ 4 :=
  submission_sound ⟨1⟩ ⟨1000,100⟩ (controlledRun ++ [.authorizeSubmission ⟨7⟩ ⟨9⟩ 4])
    (trace (new ⟨1⟩ ⟨1000,100⟩) controlledRun) []
    ⟨final (new ⟨1⟩ ⟨1000,100⟩) controlledRun,.authorizeSubmission ⟨7⟩ ⟨9⟩ 4,.done (.ok ())⟩
    ⟨7⟩ ⟨9⟩ 4 rfl rfl rfl

end FrankenRemote.Authority
