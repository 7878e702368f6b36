import FrankenRemote.Authority

/-! The authority as a machine that answers one public call at a time, and the
complete list of what a call can do to it. Every later invariant is a case
analysis on `Effect`; no other proof unfolds a public call. -/
namespace FrankenRemote.Authority

open Procedure SlotTable SessionAuthority

inductive Op
  | markCapabilitiesChecked
  | requireApproval
  | authorizeObservation (now : HostInstant)
  | authorizeObservationDelivery (now : HostInstant)
  | observationDeadline (now : HostInstant)
  | markViewReady (now : HostInstant)
  | requireViewEvidence (now : HostInstant)
  | markViewReadyUntil (until_ now : HostInstant)
  | markPresentedReadyUntil (sequence : ℕ+) (until_ now : HostInstant)
  | markViewStale
  | advanceRecovery (generation : RecoveryGeneration)
  | confirmSuspensionRelease (lease : InputLeaseId)
  | controlStatus (now : HostInstant)
  | issueObservationChallenge (nonce : ℕ) (now : HostInstant)
  | respondObservationChallenge (nonce : ℕ) (now : HostInstant)
  | grantLease (lease : InputLeaseId) (now : HostInstant)
  | issueControlChallenge (nonce : ℕ) (now : HostInstant)
  | respondControlChallenge (lease : InputLeaseId) (nonce : ℕ) (now : HostInstant)
  | issueInputTicket (lease : InputLeaseId) (ticket : InputTicketId) (now : HostInstant)
  | issuePresentedInputTicket (lease : InputLeaseId) (ticket : InputTicketId) (now : HostInstant)
  | invalidateInputTickets (lease : InputLeaseId)
  | authorizeSubmission (lease : InputLeaseId) (ticket : InputTicketId) (now : HostInstant)
  | submissionDeadline (lease : InputLeaseId) (ticket : InputTicketId) (now : HostInstant)
  | revokeLease
  | hasLiveControl (now : HostInstant)
  | controlDeadline
  | leaseDeadline
  | applyResumeBoundary (now : HostInstant)
  | invalidateForSuspend
  | close
  | refuse
  | claimNativeOwner (lease : InputLeaseId)
  deriving DecidableEq, Repr

/-- What the caller receives; calls without a result answer `done (ok ())`. -/
inductive Reply
  | done (r : Except AuthorityError Unit)
  | instant (r : Except AuthorityError HostInstant)
  | status (r : Except AuthorityError ControlStatus)
  | owner (r : Except AuthorityError ℕ)
  | flag (b : Bool)

/-- A positive answer: `Ok`, or `true` for the two Boolean checks. -/
def Reply.isOk : Reply → Bool
  | done r => r.isOk
  | instant r => r.isOk
  | status r => r.isOk
  | owner r => r.isOk
  | flag b => b

def answer {α : Type} (f : Except AuthorityError α → Reply) (m : Call α) (s : SessionAuthority) :
    Reply × SessionAuthority := (f (exec m s).1,(exec m s).2)

def step (s : SessionAuthority) : Op → Reply × SessionAuthority
  | .markCapabilitiesChecked => answer .done Authority.markCapabilitiesChecked s
  | .requireApproval => answer .done Authority.requireApproval s
  | .authorizeObservation now => answer .done (Authority.authorizeObservation now) s
  | .authorizeObservationDelivery now => answer .done (Authority.authorizeObservationDelivery now) s
  | .observationDeadline now => answer .instant (Authority.observationDeadline now) s
  | .markViewReady now => answer .done (Authority.markViewReady now) s
  | .requireViewEvidence now => answer .done (Authority.requireViewEvidence now) s
  | .markViewReadyUntil until_ now => answer .done (Authority.markViewReadyUntil until_ now) s
  | .markPresentedReadyUntil sequence until_ now =>
    answer .done (Authority.markPresentedReadyUntil sequence until_ now) s
  | .markViewStale => (.done (.ok ()),s.markViewStale)
  | .advanceRecovery generation => answer .done (Authority.advanceRecovery generation) s
  | .confirmSuspensionRelease lease => answer .done (Authority.confirmSuspensionRelease lease) s
  | .controlStatus now => answer .status (Authority.controlStatus now) s
  | .issueObservationChallenge nonce now =>
    answer .instant (Authority.issueObservationChallenge nonce now) s
  | .respondObservationChallenge nonce now =>
    answer .instant (Authority.respondObservationChallenge nonce now) s
  | .grantLease lease now => answer .done (Authority.grantLease lease now) s
  | .issueControlChallenge nonce now =>
    answer .instant (Authority.issueControlChallenge nonce now) s
  | .respondControlChallenge lease nonce now =>
    answer .instant (Authority.respondControlChallenge lease nonce now) s
  | .issueInputTicket lease ticket now =>
    answer .instant (Authority.issueInputTicket lease ticket now) s
  | .issuePresentedInputTicket lease ticket now =>
    answer .instant (Authority.issuePresentedInputTicket lease ticket now) s
  | .invalidateInputTickets lease => answer .done (Authority.invalidateInputTickets lease) s
  | .authorizeSubmission lease ticket now =>
    answer .done (Authority.authorizeSubmission lease ticket now) s
  | .submissionDeadline lease ticket now =>
    answer .instant (Authority.submissionDeadline lease ticket now) s
  | .revokeLease => (.done (.ok ()),s.revokeLease)
  | .hasLiveControl now => let r := Authority.hasLiveControl now s; (.flag r.1,r.2)
  | .controlDeadline => (.instant (Authority.controlDeadline s),s)
  | .leaseDeadline => (.instant (Authority.leaseDeadline s),s)
  | .applyResumeBoundary now => let r := Authority.applyResumeBoundary now s; (.flag r.1,r.2)
  | .invalidateForSuspend => (.done (.ok ()),s.dropObservation)
  | .close => (.done (.ok ()),s.close)
  | .refuse => (.done (.ok ()),s.refuse)
  | .claimNativeOwner lease => answer .owner (Authority.claimNativeOwner lease) s

abbrev Event := Transition.Event SessionAuthority Op Reply

abbrev final := Transition.final step

abbrev trace := Transition.trace step

/-- The clock sample a call passes through the regression gate, if it has one. -/
def Op.gate : Op → Option HostInstant
  | .authorizeObservation now | .authorizeObservationDelivery now | .observationDeadline now
  | .markViewReady now | .requireViewEvidence now | .markViewReadyUntil _ now
  | .markPresentedReadyUntil _ _ now | .issueObservationChallenge _ now
  | .respondObservationChallenge _ now | .grantLease _ now | .issueControlChallenge _ now
  | .respondControlChallenge _ _ now | .issueInputTicket _ _ now
  | .issuePresentedInputTicket _ _ now | .authorizeSubmission _ _ now
  | .submissionDeadline _ _ now | .hasLiveControl now | .applyResumeBoundary now => some now
  | _ => none

/-- The clock sample a call carries, including the ungated monitor read. -/
def Op.sample : Op → Option HostInstant
  | .controlStatus now => some now
  | op => op.gate

def Op.issues : Op → Option (InputLeaseId × InputTicketId × HostInstant)
  | .issueInputTicket l t now | .issuePresentedInputTicket l t now => some (l,t,now)
  | _ => none

def Op.submits : Op → Option (InputLeaseId × InputTicketId × HostInstant)
  | .authorizeSubmission l t now | .submissionDeadline l t now => some (l,t,now)
  | _ => none

/-- Calls that only look at the state, apart from the clock gate. -/
def Op.reads : Op → Bool
  | .authorizeObservationDelivery _ | .observationDeadline _ | .authorizeSubmission _ _ _
  | .submissionDeadline _ _ _ | .hasLiveControl _ | .controlDeadline | .leaseDeadline => true
  | _ => false

theorem issues_gate {op : Op} {l t now} (h : op.issues = some (l,t,now)) : op.gate = some now := by
  cases op <;> cases h <;> rfl

def SessionAuthority.ObservationLive (s : SessionAuthority) (now : HostInstant) : Prop :=
  (s.phase = .viewOpening ∨ s.phase = .viewing) ∧ s.observationUntil.any (now < ·) = true

instance (s : SessionAuthority) (now : HostInstant) : Decidable (s.ObservationLive now) :=
  inferInstanceAs (Decidable (_ ∧ _))

theorem SessionAuthority.ObservationLive.deadline {s : SessionAuthority} {now}
    (h : s.ObservationLive now) : ∃ o, s.observationUntil = some o ∧ now < o := by
  have hh := h.2
  cases ho : s.observationUntil with
  | none => simp [ho] at hh
  | some o => exact ⟨o,rfl,by simpa [ho] using hh⟩

/-- The deadline a fresh grant or challenge gets, if the clock can represent it. -/
def SessionAuthority.freshDeadline (s : SessionAuthority) (now : HostInstant) :
    Option HostInstant :=
  (checkedAdd now s.policy.authorizationLifetime).filter (now < ·)

theorem freshDeadline_eq {s : SessionAuthority} {now d}
    (h : s.freshDeadline now = some d) : d = now + s.policy.authorizationLifetime ∧ now < d := by
  simp only [freshDeadline,Option.filter_eq_some_iff,checkedAdd_eq_some,decide_eq_true_eq] at h
  exact ⟨h.1.1.symm,h.2⟩

/-! The guards as single branches. -/

theorem exec_checkTime (now : HostInstant) (s : SessionAuthority) : exec (checkTime now) s =
      if s.Regresses now then (.error .clockRegression,s.fault) else (.ok (),s.advance now) := by
  simp only [checkTime,exec_get_bind,exec_ite,exec_modify_bind,exec_throw,exec_modify]

variable {α : Type}

theorem exec_checkTime_bind (now : HostInstant) (f : Unit → Call α) (s : SessionAuthority) :
    exec (checkTime now >>= f) s = if s.Regresses now then (.error .clockRegression,s.fault)
      else exec (f ()) (s.advance now) := by
  rw [exec_bind,exec_checkTime]
  by_cases h : s.Regresses now <;> simp [h]

/-- Why `checkObservationLive` refuses. -/
def SessionAuthority.observationRefusal (s : SessionAuthority) : AuthorityError :=
  if s.phase = .viewOpening ∨ s.phase = .viewing then .observationExpired else .invalidState s.phase

theorem exec_checkObservationLive (now : HostInstant) (s : SessionAuthority) :
    exec (checkObservationLive now) s =
      if s.ObservationLive now then (.ok (),s) else (.error s.observationRefusal,s) := by
  simp only [checkObservationLive,exec_get_bind,exec_refuseIf_bind,exec_refuseIf,ObservationLive,
    observationRefusal]
  by_cases hp : s.phase = .viewOpening ∨ s.phase = .viewing <;>
    by_cases ho : s.observationUntil.any (now < ·) = true <;> simp [hp,ho]

theorem exec_checkObservationLive_bind (now : HostInstant) (f : Unit → Call α)
    (s : SessionAuthority) : exec (checkObservationLive now >>= f) s =
      if s.ObservationLive now then exec (f ()) s else (.error s.observationRefusal,s) := by
  rw [exec_bind,exec_checkObservationLive]
  by_cases h : s.ObservationLive now <;> simp [h]

theorem exec_deadlineFrom_bind (now : HostInstant) (f : HostInstant → Call α)
    (s : SessionAuthority) : exec (deadlineFrom now >>= f) s = match s.freshDeadline now with
      | some d => exec (f d) s
      | none => (.error .deadlineOverflow,s) := by
  rw [exec_bind]
  simp only [deadlineFrom,exec_get_bind,freshDeadline]
  cases (checkedAdd now s.policy.authorizationLifetime).filter (now < ·) <;> rfl

/-- Readiness may be installed: no suspension is running, or the running one is
within its limit and its native release is confirmed. -/
def SessionAuthority.Revivable (s : SessionAuthority) (now : HostInstant) : Prop :=
  match s.suspension with
  | some suspension => now < suspension.since + maxViewSuspension ∧ suspension.released = true
  | none => ¬(s.boundedView = true ∧ s.readiness ≠ .ready ∧ s.lease.isSome = true)

/-- Everything one public call can do, with the guards that held. -/
inductive Effect (s : SessionAuthority) : Op → Reply → SessionAuthority → Prop
  | kept {op r} : op.sample = none → (r.isOk = true → op.reads = true) → Effect s op r s
  | deaf {now e} : s.clockFaulted = true → Effect s (.controlStatus now) (.status (.error e)) s
  | faulted {op now r} : op.gate = some now → s.Regresses now → r.isOk = false →
      Effect s op r s.fault
  | gated {op now r} : op.gate = some now → ¬s.Regresses now → (r.isOk = true → op.reads = true) →
      Effect s op r (s.advance now)
  | unpresented {op now r} : op.gate = some now → ¬s.Regresses now → r.isOk = false →
      Effect s op r {s.advance now with presentedSequence := none}
  | capabilities : s.phase = .identified →
      Effect s .markCapabilitiesChecked (.done (.ok ())) {s with phase := .capabilitiesChecked}
  | approval : s.phase = .capabilitiesChecked →
      Effect s .requireApproval (.done (.ok ())) {s with phase := .waitingApproval}
  | observed {now d} : ¬s.Regresses now →
      (s.advance now).phase = .capabilitiesChecked ∨ (s.advance now).phase = .waitingApproval →
      (s.advance now).freshDeadline now = some d →
      Effect s (.authorizeObservation now) (.done (.ok ()))
        {(s.advance now).clearAuthority with observationUntil := some d, phase := .viewOpening}
  | ready {now} : ¬s.Regresses now → (s.advance now).ObservationLive now →
      (s.advance now).boundedView = false → Effect s (.markViewReady now) (.done (.ok ()))
        {s.advance now with presentedSequence := none, phase := .viewing, readiness := .ready}
  | evidence {now} : ¬s.Regresses now → (s.advance now).ObservationLive now →
      Effect s (.requireViewEvidence now) (.done (.ok ()))
        {s.advance now with boundedView := true}.markViewStale
  | revived {op until_ now sequence} :
      (op = .markViewReadyUntil until_ now ∧ sequence = none) ∨
        (∃ q, op = .markPresentedReadyUntil q until_ now ∧ sequence = some q) →
      ¬s.Regresses now → (s.advance now).ObservationLive now → now < until_ →
      (s.advance now).Revivable now →
      Effect s op (.done (.ok ()))
        {s.advance now with
          presentedSequence := sequence
          suspension := none
          boundedView := true
          viewUntil := some until_
          phase := .viewing
          readiness := .ready}
  | stale : Effect s .markViewStale (.done (.ok ())) s.markViewStale
  | recovered {generation} :
      s.readiness ≠ .ready → Effect s (.advanceRecovery generation) (.done (.ok ()))
        {s with recovery := some generation, presentedSequence := none}.dropTickets
  | confirmed {l} : s.leaseId = some l → Effect s (.confirmSuspensionRelease l) (.done (.ok ()))
        {s with suspension := s.suspension.map ({· with released := true})}
  | monitored {now r} : s.clockFaulted = false →
      Effect s (.controlStatus now) (.status r) (s.lapseIfDue (s.serializedTime now))
  | observationChallenged {nonce now d} : ¬s.Regresses now → (s.advance now).ObservationLive now →
      (s.advance now).freshDeadline now = some d →
      Effect s (.issueObservationChallenge nonce now) (.instant (.ok d))
        {s.advance now with observationChallenge := some ⟨nonce,d⟩}
  | observationRenewed {nonce now d} : ¬s.Regresses now → (s.advance now).ObservationLive now →
      (s.advance now).observationChallenge = some ⟨nonce,d⟩ → now < d →
      Effect s (.respondObservationChallenge nonce now) (.instant (.ok d))
        {s.advance now with observationChallenge := none, observationUntil := some d}
  | observationLate {nonce now e} : ¬s.Regresses now →
      Effect s (.respondObservationChallenge nonce now) (.instant (.error e))
        {s.advance now with observationChallenge := none}
  | granted {l now d} : ¬s.Regresses now → (s.advance now).ObservationLive now →
      (s.advance now).phase = .viewing → (s.advance now).readiness = .ready →
      (s.advance now).lease = none → (s.advance now).freshDeadline now = some d →
      Effect s (.grantLease l now) (.done (.ok ()))
        {s.advance now with lease := some ⟨l,d,vacant⟩, controlChallenge := none}
  | controlChallenged {nonce now d lease} : ¬s.Regresses now →
      (s.advance now).ObservationLive now → (s.advance now).lease = some lease →
      now < lease.authorizedUntil → (s.advance now).freshDeadline now = some d →
      Effect s (.issueControlChallenge nonce now) (.instant (.ok d))
        {s.advance now with controlChallenge := some ⟨nonce,d⟩}
  | controlRenewed {nonce now d lease} : ¬s.Regresses now →
      (s.advance now).ObservationLive now → (s.advance now).lease = some lease →
      now < lease.authorizedUntil → (s.advance now).controlChallenge = some ⟨nonce,d⟩ → now < d →
      Effect s (.respondControlChallenge lease.id nonce now) (.instant (.ok d))
        {s.advance now with
          controlChallenge := none
          lease := some {lease with authorizedUntil := d}}
  | controlLate {l nonce now e} : ¬s.Regresses now →
      Effect s (.respondControlChallenge l nonce now) (.instant (.error e))
        {s.advance now with controlChallenge := none}
  | issued {op t now e o lease slot} : op.issues = some (lease.id,t,now) → ¬s.Regresses now →
      (s.advance now).ObservationLive now → (s.advance now).readiness = .ready →
      (s.advance now).lease = some lease → t.raw ≠ 0 →
      (∀ i ticket, lease.tickets i = some ticket → ticket.id ≠ t) →
      (s.advance now).observationUntil = some o → now < e → e ≤ lease.authorizedUntil → e ≤ o →
      Effect s op (.instant (.ok e))
        {s.advance now with
          lease := some {lease with tickets := store lease.tickets slot ⟨t,e⟩}}
  | invalidated {lease} : s.lease = some lease →
      Effect s (.invalidateInputTickets lease.id) (.done (.ok ())) s.dropTickets
  | revoked : Effect s .revokeLease (.done (.ok ())) s.revokeLease
  | resumed {now b} : ¬s.Regresses now →
      Effect s (.applyResumeBoundary now) (.flag b) (dropElapsed now (s.advance now))
  | suspended : Effect s .invalidateForSuspend (.done (.ok ())) s.dropObservation
  | closed : Effect s .close (.done (.ok ())) s.close
  | refused : Effect s .refuse (.done (.ok ())) s.refuse
  | claimed {l} : s.leaseId = some l → s.nativeOwner = none →
      Effect s (.claimNativeOwner l) (.owner (.ok s.owners))
        {s with nativeOwner := some s.owners, owners := s.owners+1}

end FrankenRemote.Authority
