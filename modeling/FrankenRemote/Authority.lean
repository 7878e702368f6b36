import FrankenRemote.Primitives
import FrankenRemote.Procedure
import FrankenRemote.SlotTable
import FrankenRemote.Transition

/-! The serialized policy owner of one remote session. Observation, view readiness
and control are independent; every time-bearing decision passes one clock gate.
Deadlines are exclusive, and a clock regression fences the session terminally. -/
namespace FrankenRemote.Authority

open Procedure SlotTable

structure AuthorityPolicy where
  authorizationLifetime : HostDuration
  ticketLifetime : HostDuration
  deriving DecidableEq, Repr

inductive Phase
  | identified | capabilitiesChecked | waitingApproval | viewOpening | viewing | refused | closed
  deriving DecidableEq, Repr

inductive AuthorityError
  | invalidState (phase : Phase)
  | observationExpired | noLease | staleLease | leaseExpired | viewUnready
  | controllerBusy | controllerCleanupRequired
  | ticketInvalid | ticketExpired | ticketCapacity
  | challengeMismatch | challengePending | challengeExpired
  | clockRegression | deadlineOverflow | releasePending | staleGeneration
  deriving DecidableEq, Repr

inductive ViewReadiness
  | unready | ready | stale
  deriving DecidableEq, Repr

/-- Longest a stale view may suspend a held lease before control ends. -/
@[irreducible] def maxViewSuspension : HostDuration := 10000000

inductive ControlStatus
  | live (until_ : HostInstant)
  | suspended (until_ : HostInstant) (released : Bool)
  deriving DecidableEq, Repr

structure Suspension where
  since : HostInstant
  released : Bool
  deriving DecidableEq, Repr

structure Challenge where
  nonce : ℕ
  deadline : HostInstant
  deriving DecidableEq, Repr

structure Ticket where
  id : InputTicketId
  expiresAt : HostInstant
  deriving DecidableEq, Repr

/-- Bounded overlap for in-flight input during periodic ticket renewal. -/
def maxLiveInputTickets : ℕ := 8

structure Lease where
  id : InputLeaseId
  authorizedUntil : HostInstant
  tickets : Slots maxLiveInputTickets Ticket
  deriving DecidableEq

def Lease.withoutTickets (l : Lease) : Lease := {l with tickets := vacant}

/-- A native owner is compared by allocation identity, so the model counts the
allocations made so far in `owners` and names each claim by its number. -/
structure SessionAuthority where
  session : RemoteSessionId
  policy : AuthorityPolicy
  phase : Phase
  observationUntil : Option HostInstant
  readiness : ViewReadiness
  viewUntil : Option HostInstant
  presentedSequence : Option ℕ+
  boundedView : Bool
  lease : Option Lease
  suspension : Option Suspension
  recovery : Option RecoveryGeneration
  nativeOwner : Option ℕ
  observationChallenge : Option Challenge
  controlChallenge : Option Challenge
  lastChecked : Option HostInstant
  clockFaulted : Bool
  owners : ℕ
  deriving DecidableEq

abbrev Call := Proc SessionAuthority AuthorityError

def new (session : RemoteSessionId) (policy : AuthorityPolicy) : SessionAuthority where
  session := session
  policy := policy
  phase := .identified
  observationUntil := none
  readiness := .unready
  viewUntil := none
  presentedSequence := none
  boundedView := false
  lease := none
  suspension := none
  recovery := none
  nativeOwner := none
  observationChallenge := none
  controlChallenge := none
  lastChecked := none
  clockFaulted := false
  owners := 0

namespace SessionAuthority

def clearAuthority (s : SessionAuthority) : SessionAuthority :=
  {s with
    observationUntil := none
    readiness := .unready
    viewUntil := none
    presentedSequence := none
    lease := none
    suspension := none
    nativeOwner := none
    observationChallenge := none
    controlChallenge := none}

def close (s : SessionAuthority) : SessionAuthority := {s.clearAuthority with phase := .closed}

def refuse (s : SessionAuthority) : SessionAuthority := {s.clearAuthority with phase := .refused}

def dropObservation (s : SessionAuthority) : SessionAuthority :=
  if s.phase = .viewOpening ∨ s.phase = .viewing then
    {s.clearAuthority with phase := .capabilitiesChecked}
  else s.clearAuthority

def revokeLease (s : SessionAuthority) : SessionAuthority :=
  {s with
    lease := none
    suspension := none
    nativeOwner := none
    controlChallenge := none
    presentedSequence := none}

/-- `lease.tickets.fill(None)` on the current lease, if any. -/
def dropTickets (s : SessionAuthority) : SessionAuthority :=
  {s with lease := s.lease.map Lease.withoutTickets}

/-- The view stopped being trustworthy at `at`. A bounded view under a held lease
starts a suspension there, unless one is already running. -/
def lapseView (s : SessionAuthority) (at_ : HostInstant) : SessionAuthority :=
  let s := {s with viewUntil := none, presentedSequence := none}
  let s :=
    if s.readiness = .ready then
      {s with
        readiness := .stale
        suspension :=
          if s.boundedView ∧ s.lease.isSome ∧ s.suspension.isNone then some ⟨at_,false⟩
          else s.suspension}
    else s
  s.dropTickets

/-- `if let Some(until) = self.view_until.filter(|until| now >= *until)`. -/
def lapseIfDue (s : SessionAuthority) (now : HostInstant) : SessionAuthority :=
  match s.viewUntil with
  | some until_ => if until_ ≤ now then s.lapseView until_ else s
  | none => s

def markViewStale (s : SessionAuthority) : SessionAuthority := s.lapseView (s.lastChecked.getD 0)

def leaseId (s : SessionAuthority) : Option InputLeaseId := s.lease.map Lease.id

def isNativeOwner (s : SessionAuthority) (owner : ℕ) : Bool := s.nativeOwner = some owner

def serializedTime (s : SessionAuthority) (sampled : HostInstant) : HostInstant :=
  s.lastChecked.elim sampled (max · sampled)

/-- The session after a checked clock sample: its high-water mark moves and a
passed view deadline lapses. -/
def advance (s : SessionAuthority) (now : HostInstant) : SessionAuthority :=
  {s with lastChecked := some now}.lapseIfDue now

/-- The session after a clock regression. -/
def fault (s : SessionAuthority) : SessionAuthority := {s with clockFaulted := true}.close

/-- Whether the clock gate refuses the sample. -/
def Regresses (s : SessionAuthority) (now : HostInstant) : Prop :=
  s.clockFaulted = true ∨ s.lastChecked.any (now < ·) = true

instance (s : SessionAuthority) (now : HostInstant) : Decidable (s.Regresses now) :=
  inferInstanceAs (Decidable (_ ∨ _))

end SessionAuthority

open SessionAuthority

def checkTime (now : HostInstant) : Call Unit := do
  let s ← get
  if s.Regresses now then
    modify fault
    throw .clockRegression
  else
    modify (advance · now)

def checkObservationLive (now : HostInstant) : Call Unit := do
  let s ← get
  refuseIf (¬(s.phase = .viewOpening ∨ s.phase = .viewing)) (.invalidState s.phase)
  refuseIf (¬s.observationUntil.any (now < ·)) .observationExpired

def deadlineFrom (now : HostInstant) : Call HostInstant := do
  let s ← get
  okOr ((checkedAdd now s.policy.authorizationLifetime).filter (now < ·)) .deadlineOverflow

def checkChallengeSlot (challenge : Option Challenge) (now : HostInstant) : Call Unit :=
  refuseIf (challenge.any (now < ·.deadline)) .challengePending

/-- Consume the challenge in one of the two slots: a mismatch leaves it pending,
a matching reply removes it even when it arrives too late. -/
def consumeChallenge (slot : SessionAuthority → Option Challenge)
    (clear : SessionAuthority → SessionAuthority) (nonce : ℕ) (now : HostInstant) :
    Call Challenge := do
  let challenge ← okOr (slot (← get)) .challengeMismatch
  refuseIf (challenge.nonce ≠ nonce) .challengeMismatch
  modify clear
  refuseIf (challenge.deadline ≤ now) .challengeExpired
  pure challenge

def markCapabilitiesChecked : Call Unit := do
  let s ← get
  refuseIf (s.phase ≠ .identified) (.invalidState s.phase)
  modify ({· with phase := .capabilitiesChecked})

def requireApproval : Call Unit := do
  let s ← get
  refuseIf (s.phase ≠ .capabilitiesChecked) (.invalidState s.phase)
  modify ({· with phase := .waitingApproval})

def authorizeObservation (now : HostInstant) : Call Unit := do
  checkTime now
  let s ← get
  refuseIf (¬(s.phase = .capabilitiesChecked ∨ s.phase = .waitingApproval)) (.invalidState s.phase)
  let until_ ← deadlineFrom now
  modify fun s => {s.clearAuthority with observationUntil := some until_, phase := .viewOpening}

def authorizeObservationDelivery (now : HostInstant) : Call Unit := do
  checkTime now
  checkObservationLive now

def observationDeadline (now : HostInstant) : Call HostInstant := do
  authorizeObservationDelivery now
  let s ← get
  okOr s.observationUntil .observationExpired

def markViewReady (now : HostInstant) : Call Unit := do
  modify ({· with presentedSequence := none})
  checkTime now
  checkObservationLive now
  let s ← get
  refuseIf s.boundedView .viewUnready
  modify ({· with phase := .viewing, readiness := .ready})

def requireViewEvidence (now : HostInstant) : Call Unit := do
  checkTime now
  checkObservationLive now
  let s ← get
  refuseIf (s.lease.isSome ∧ ¬s.boundedView) .controllerBusy
  modify fun s => {s with boundedView := true}.markViewStale

/-- Fresh readiness must not outrun the suspension limit, nor a native release
that is still pending. -/
def checkSuspension (now : HostInstant) : Call Unit := do
  let s ← get
  match s.suspension with
  | some suspension =>
    let limit ← okOr (checkedAdd suspension.since maxViewSuspension) .deadlineOverflow
    refuseIf (limit ≤ now) .viewUnready
    refuseIf (¬suspension.released) .releasePending
  | none => refuseIf (s.boundedView ∧ s.readiness ≠ .ready ∧ s.lease.isSome) .viewUnready

def markViewReadyUntil (until_ now : HostInstant) : Call Unit := do
  modify ({· with presentedSequence := none})
  checkTime now
  checkObservationLive now
  refuseIf (until_ ≤ now) .viewUnready
  checkSuspension now
  let s ← get
  refuseIf (s.viewUntil.any (until_ < ·)) .viewUnready
  modify ({· with
    suspension := none
    boundedView := true
    viewUntil := some until_
    phase := .viewing
    readiness := .ready})

def markPresentedReadyUntil (sequence : ℕ+) (until_ now : HostInstant) : Call Unit := do
  markViewReadyUntil until_ now
  modify ({· with presentedSequence := some sequence})

def advanceRecovery (generation : RecoveryGeneration) : Call Unit := do
  let s ← get
  refuseIf (s.readiness = .ready) (.invalidState s.phase)
  refuseIf (s.recovery.any (!generation.supersedes ·)) .staleGeneration
  modify fun s => {s with recovery := some generation, presentedSequence := none}.dropTickets

def confirmSuspensionRelease (leaseId : InputLeaseId) : Call Unit := do
  let s ← get
  refuseIf (s.leaseId ≠ some leaseId) .staleLease
  modify fun s => {s with suspension := s.suspension.map ({· with released := true})}

/-- The status decision proper, after a passed view deadline has lapsed. -/
def statusAt (now : HostInstant) : Call ControlStatus := do
  checkObservationLive now
  let s ← get
  let lease ← okOr s.lease .noLease
  let observation ← okOr s.observationUntil .observationExpired
  let leaseUntil := min lease.authorizedUntil observation
  refuseIf (leaseUntil ≤ now) .leaseExpired
  if s.phase = .viewing ∧ s.readiness = .ready then
    pure (.live (s.viewUntil.elim leaseUntil (min leaseUntil ·)))
  else do
    let suspension ← okOr s.suspension .viewUnready
    let limit ← okOr (checkedAdd suspension.since maxViewSuspension) .deadlineOverflow
    refuseIf (limit ≤ now) .viewUnready
    pure (.suspended (min leaseUntil limit) suspension.released)

/-- A monitor read: it lapses a passed view deadline but never moves the checked
high-water mark, and an overtaken sample is serialized instead of faulting. -/
def controlStatus (now : HostInstant) : Call ControlStatus := do
  let s ← get
  refuseIf s.clockFaulted .clockRegression
  modify (lapseIfDue · (s.serializedTime now))
  statusAt (s.serializedTime now)

def issueObservationChallenge (nonce : ℕ) (now : HostInstant) : Call HostInstant := do
  checkTime now
  checkObservationLive now
  let s ← get
  checkChallengeSlot s.observationChallenge now
  let deadline ← deadlineFrom now
  modify ({· with observationChallenge := some ⟨nonce,deadline⟩})
  pure deadline

def respondObservationChallenge (nonce : ℕ) (now : HostInstant) : Call HostInstant := do
  checkTime now
  checkObservationLive now
  let challenge ← consumeChallenge observationChallenge ({· with observationChallenge := none})
    nonce now
  modify ({· with observationUntil := some challenge.deadline})
  pure challenge.deadline

def grantLease (leaseId : InputLeaseId) (now : HostInstant) : Call Unit := do
  checkTime now
  checkObservationLive now
  let s ← get
  refuseIf (s.phase ≠ .viewing) (.invalidState s.phase)
  refuseIf (s.readiness ≠ .ready) .viewUnready
  match s.lease with
  | some existing =>
    throw (if now < existing.authorizedUntil then .controllerBusy else .controllerCleanupRequired)
  | none => do
    let until_ ← deadlineFrom now
    modify ({· with lease := some ⟨leaseId,until_,vacant⟩, controlChallenge := none})

def issueControlChallenge (nonce : ℕ) (now : HostInstant) : Call HostInstant := do
  checkTime now
  checkObservationLive now
  let s ← get
  let lease ← okOr s.lease .noLease
  refuseIf (lease.authorizedUntil ≤ now) .leaseExpired
  checkChallengeSlot s.controlChallenge now
  let deadline ← deadlineFrom now
  modify ({· with controlChallenge := some ⟨nonce,deadline⟩})
  pure deadline

def respondControlChallenge (leaseId : InputLeaseId) (nonce : ℕ) (now : HostInstant) :
    Call HostInstant := do
  checkTime now
  checkObservationLive now
  let s ← get
  let lease ← okOr s.lease .noLease
  refuseIf (lease.id ≠ leaseId) .staleLease
  if lease.authorizedUntil ≤ now then
    modify ({· with controlChallenge := none})
    throw .leaseExpired
  else do
    let challenge ← consumeChallenge controlChallenge ({· with controlChallenge := none}) nonce now
    modify ({· with lease := some {lease with authorizedUntil := challenge.deadline}})
    pure challenge.deadline

def issueTicketChecked (leaseId : InputLeaseId) (ticketId : InputTicketId) (now : HostInstant)
    (requirePresented : Bool) : Call HostInstant := do
  checkTime now
  checkObservationLive now
  let s ← get
  refuseIf (s.readiness ≠ .ready ∨ (requirePresented ∧ s.presentedSequence = none)) .viewUnready
  let lease ← okOr s.lease .noLease
  refuseIf (lease.id ≠ leaseId) .staleLease
  refuseIf (lease.authorizedUntil ≤ now) .leaseExpired
  refuseIf (ticketId.raw = 0 ∨ (entries lease.tickets).any (·.id = ticketId)) .ticketInvalid
  let uncapped ← okOr ((checkedAdd now s.policy.ticketLifetime).filter (now < ·)) .deadlineOverflow
  let observation ← okOr s.observationUntil .observationExpired
  let expiresAt := min (min uncapped lease.authorizedUntil) observation
  let slot ← okOr (firstIndex lease.tickets (·.all (·.expiresAt ≤ now))) .ticketCapacity
  modify ({· with
    lease := some {lease with tickets := store lease.tickets slot ⟨ticketId,expiresAt⟩}})
  pure expiresAt

def issueInputTicket (leaseId : InputLeaseId) (ticketId : InputTicketId) (now : HostInstant) :
    Call HostInstant := issueTicketChecked leaseId ticketId now false

def issuePresentedInputTicket (leaseId : InputLeaseId) (ticketId : InputTicketId)
    (now : HostInstant) : Call HostInstant := issueTicketChecked leaseId ticketId now true

def invalidateInputTickets (leaseId : InputLeaseId) : Call Unit := do
  let s ← get
  let lease ← okOr s.lease .noLease
  refuseIf (lease.id ≠ leaseId) .staleLease
  modify dropTickets

def authorizeSubmission (leaseId : InputLeaseId) (ticketId : InputTicketId) (now : HostInstant) :
    Call Unit := do
  checkTime now
  let s ← get
  refuseIf (s.phase ≠ .viewing) (.invalidState s.phase)
  checkObservationLive now
  refuseIf (s.readiness ≠ .ready) .viewUnready
  let lease ← okOr s.lease .noLease
  refuseIf (lease.id ≠ leaseId) .staleLease
  refuseIf (lease.authorizedUntil ≤ now) .leaseExpired
  let ticket ← okOr ((entries lease.tickets).find? (·.id = ticketId)) .ticketInvalid
  refuseIf (ticket.expiresAt ≤ now) .ticketExpired

def submissionDeadline (leaseId : InputLeaseId) (ticketId : InputTicketId) (now : HostInstant) :
    Call HostInstant := do
  authorizeSubmission leaseId ticketId now
  let s ← get
  let lease ← okOr s.lease .noLease
  let ticket ← okOr ((entries lease.tickets).find? (·.id = ticketId)) .ticketInvalid
  let observation ← okOr s.observationUntil .observationExpired
  let until_ := min (min ticket.expiresAt lease.authorizedUntil) observation
  pure (s.viewUntil.elim until_ (min until_ ·))

def hasLiveControl (now : HostInstant) (s : SessionAuthority) : Bool × SessionAuthority :=
  match exec (authorizeObservationDelivery now) s with
  | (.ok _,s) =>
    (decide (s.phase = .viewing ∧ s.readiness = .ready ∧ s.lease.any (now < ·.authorizedUntil)),s)
  | (.error _,s) => (false,s)

/-! Elapsed-deadline cleanup of a session whose clock sample was accepted, in the
order of the resume boundary. -/

def expireObservation (now : HostInstant) (s : SessionAuthority) : SessionAuthority :=
  if s.observationUntil.any (· ≤ now) then s.dropObservation else s

def expireChallenges (now : HostInstant) (s : SessionAuthority) : SessionAuthority :=
  {s with
    observationChallenge := s.observationChallenge.filter (now < ·.deadline)
    controlChallenge := s.controlChallenge.filter (now < ·.deadline)}

def expireLease (now : HostInstant) (s : SessionAuthority) : SessionAuthority :=
  if s.lease.any (·.authorizedUntil ≤ now) then s.revokeLease else s

def expireTickets (now : HostInstant) (s : SessionAuthority) : SessionAuthority :=
  {s with lease := s.lease.map fun l => {l with tickets := discard l.tickets (·.expiresAt ≤ now)}}

def dropElapsed (now : HostInstant) (s : SessionAuthority) : SessionAuthority :=
  expireTickets now (expireLease now (expireChallenges now (expireObservation now s)))

def applyResumeBoundary (now : HostInstant) (s : SessionAuthority) : Bool × SessionAuthority :=
  match exec (checkTime now) s with
  | (.ok _,s) => hasLiveControl now (dropElapsed now s)
  | (.error _,s) => (false,s)

def leaseDeadline (s : SessionAuthority) : Except AuthorityError HostInstant := do
  if s.phase ≠ .viewing ∨ s.readiness ≠ .ready then throw .viewUnready
  let some observation := s.observationUntil | throw .observationExpired
  let some lease := s.lease | throw .noLease
  pure (min lease.authorizedUntil observation)

def controlDeadline (s : SessionAuthority) : Except AuthorityError HostInstant := do
  let until_ ← leaseDeadline s
  pure (s.viewUntil.elim until_ (min until_ ·))

/-- One native owner per explicit grant; the claim outlives its holder. -/
def claimNativeOwner (lease : InputLeaseId) : Call ℕ := do
  let s ← get
  refuseIf (s.leaseId ≠ some lease) .staleLease
  refuseIf s.nativeOwner.isSome .controllerBusy
  modify ({· with nativeOwner := some s.owners, owners := s.owners+1})
  pure s.owners

end FrankenRemote.Authority
