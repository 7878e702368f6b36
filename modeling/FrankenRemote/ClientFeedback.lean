import FrankenRemote.ClientInput

/-! What the host sends to the owner of a grant: receipts, challenges and tickets, and the
presentation reports that its tickets acknowledge. -/
namespace FrankenRemote.Client

open Bytes Procedure SlotTable Wire Input Freshness

/-! Receipts. -/

/-- Whether a receipt can be one of this action. -/
def Pending.accepts (p : Pending) (outcome : InputOutcome) (count : ℕ) : Bool :=
  match outcome with
  | .submittedToOs => count = p.minimum || count = p.maximum
  | .partiallySubmittedToOs | .effectUnknown => count < p.maximum
  | .appliedLocally => false
  | _ => count = 0

def stopUnless (succeeded : Bool) (reason : StopReason) : Owner Unit :=
  if succeeded then pure () else modify (·.stop reason)

/-- A pointer's result never acknowledges an action with the same number. -/
def pointerResult (result : InputResult) : Owner ResultEvent := do
  failIf ((← get).nextPointer.any (· ≤ result.sequence) = true) .invalidReceipt
  stopUnless (result.outcome = .submittedToOs) .actionFailed
  pure (.pointer result)

def completeAction (result : InputResult) (slot : Fin maxPendingActions) (p : Pending) :
    Owner ResultEvent := do
  failIf (p.accepts result.outcome result.submittedOperations = false) .invalidReceipt
  modify fun c =>
    {c with
      pending := erase c.pending slot
      receipts := store c.receipts c.receiptCursor result
      receiptCursor := c.receiptCursor+1}
  stopUnless (result.outcome = .submittedToOs) .actionFailed
  pure (.completed result)

/-- The pending action with this sequence, by its slot. -/
def InputClient.owed (c : InputClient) (sequence : ℕ) : Option (Fin maxPendingActions × Pending) :=
  (indexed c.pending).find? (·.2.sequence = sequence)

def actionResult (result : InputResult) : Owner ResultEvent := do
  let c ← get
  match (entries c.receipts).find? (·.sequence = result.sequence) with
  | some old => do
    failIf (old ≠ result) .invalidReceipt
    pure (.duplicate result)
  | none =>
    match c.owed result.sequence with
    | some (slot,p) => completeAction result slot p
    | none => do
      failIf (c.nextAction.any (· ≤ result.sequence) = true) .invalidReceipt
      pure .unretained

/-- Receipts are kept during a closing drain too. A replayed one neither frees a slot nor enables
input again. -/
def result (bytes : List Byte) (now : ClientInstant) : Owner ResultEvent := do
  let c ← get
  let result ← ofResult
    ((decodeInputResult bytes c.limits c.binding .hostToViewer .reliable).mapError .wire)
  let _ ← caught (tick now)
  match result.space with
  | .pointer => pointerResult result
  | .action => actionResult result

/-! Control renewal. -/

def enableControlRenewal (channel : ℕ) (now : ClientInstant) : Owner Unit := do
  tick now
  let c ← get
  refuseIf (c.controlResponse.isSome = true) .invalidConfiguration
  let responder ← ofResult
    ((ObservationResponder.forControl ⟨channel,c.credentials.session⟩ c.credentials.lease
    c.limits now).mapError .control)
  modify ({· with controlResponse := some responder})

/-- A suspension pauses input, not the lease. -/
def controlReady (now : ClientInstant) : Owner Unit := do
  tick now
  let c ← get
  refuseIf (c.mapped = false) .mappingUnconfirmed
  refuseIf (c.viewUntil = none ∧ c.suspendedSince = none) .noPresentedView

def onResponder {α : Type} (m : ObservationResponder.Responder α) :
    Owner (Except ResponderError α) := do
  let r ← okOr (← get).controlResponse .invalidConfiguration
  let reply := exec m r
  modify ({· with controlResponse := some reply.2})
  pure reply.1

/-- The responder's refusal, after this owner stopped by it or not. -/
def controlOf {α : Type} (stops : ResponderError → Bool) : Except ResponderError α → Owner α
  | .ok a => pure a
  | .error error => do
    stopUnless (!stops error) .invalidControl
    throw (.control error)

def acceptControlChallenge (bytes : List Byte) (now : ClientInstant) : Owner Unit := do
  controlReady now
  let reply ← onResponder (ObservationResponder.accept bytes now)
  controlOf (· ≠ .backpressure) reply

def pendingControlResponse (now : ClientInstant) : Owner (Option (List Byte)) := do
  controlReady now
  let reply ← onResponder (ObservationResponder.pending now)
  controlOf (fun _ => false) reply

def controlResponseSent (now : ClientInstant) : Owner Unit := do
  controlReady now
  let reply ← onResponder (ObservationResponder.sent now)
  controlOf (fun _ => true) reply

/-! Readiness feedback. -/

/-- Enabled once. This resumes nothing. -/
def expectReadinessFeedback (now : ClientInstant) : Owner Unit := do
  tick now
  refuseIf ((← get).ticketState = none) .invalidConfiguration
  modify fun c => {c with readiness := some (c.readiness.getD (.new c.suspendedSince.isSome))}

def InputClient.matchesReportBinding (c : InputClient) (binding : ReportBinding) : Bool :=
  binding.parent.remoteSession = c.credentials.session && c.ticketState.any
    (·.boot = binding.parent.hostBoot) &&
    (⟨binding.geometry,binding.viewport,binding.configuration,binding.recovery⟩ : InputView) =
      c.credentials.view

/-- Binds the reporter, with the reports that it has already sent. -/
def InputClient.bindReporter (c : InputClient) (r : ReadinessState) (cursor : AdmittedCursor) :
    InputClient :=
  {c with readiness := some {r with ceiling := cursor.sequence, reporter := some cursor}}

/-- A negative report may be older than this grant's own lapse, so it starts a new barrier. -/
def bindReadinessReporter (cursor : AdmittedCursor) (now : ClientInstant) : Owner Unit := do
  tick now
  let c ← get
  failIf (c.matchesReportBinding cursor.binding = false) .invalidTicket
  let r ← okOr c.readiness .invalidConfiguration
  match r.reporter with
  | some original => failIf (cursor.isFrom original = false ∨
    cursor.sequence ≠ r.ceiling) .invalidTicket
  | none => do
    modify (·.bindReporter r cursor)
    if cursor.sequence ≠ 0 ∧ cursor.visible = false then modify fun c => c.lapse.suspend now
    else pure ()

/-- A negative report is the barrier of the current suspension. -/
def InputClient.markLoss (c : InputClient) (sequence : ℕ) : InputClient :=
  match c.readiness with
  | some r => {c with
    readiness := some {r with resume := .afterLoss sequence}, awaitingTicket := true}
  | none => c

/-- Called once the transport has taken the report, and for every report in turn. -/
def reportAdmitted (receipt : QueuedReport) (now : ClientInstant) : Owner Unit := do
  tick now
  let r ← okOr (← get).readiness .invalidConfiguration
  failIf (r.reporter.any receipt.isFrom = false ∨ checkedAdd r.ceiling 1 ≠ some receipt.sequence)
    .invalidTicket
  modify ({· with readiness := some {r with ceiling := receipt.sequence}})
  if receipt.visible = false then do
    suspendIf (r.resume ≠ .needLossReport) now
    modify (·.markLoss receipt.sequence)
  else pure ()

/-! Tickets. -/

/-- A bare ticket, before any came over the wire. -/
def ticket (id : InputTicketId) (now : ClientInstant) : Owner Unit := do
  tick now
  let c ← get
  failIf (c.ticketState.isSome = true ∨ c.awaitingRecoveryTicket = true) .invalidTicket
  refuseIf (id.raw = 0) .invalidConfiguration
  modify ({· with credentials.ticket := id})

/-- A ticket queued before the host's recovery fence, that arrives after this owner moved on. -/
def InputClient.Obsolete (c : InputClient) (view : InputView) : Prop :=
  c.awaitingRecoveryTicket = true ∧
    {view with recovery := c.credentials.view.recovery} = c.credentials.view ∧
    c.credentials.view.recovery.supersedes view.recovery = true ∧
    c.ticketState.any (·.recovery.raw ≤ view.recovery.raw) = true

instance (c : InputClient) (view : InputView) : Decidable (c.Obsolete view) :=
  inferInstanceAs (Decidable (_ ∧ _))

/-- A ticket of another grant or view, or a replay. -/
def InputClient.Foreign (c : InputClient) (t : Ticket) (clock : ClockCorrelation) : Prop :=
  t.credentials.session ≠ c.credentials.session ∨ t.credentials.lease ≠ c.credentials.lease ∨
    (t.credentials.view ≠ c.credentials.view ∧ ¬c.Obsolete t.credentials.view) ∨
    (c.ticketState.isSome = true ∧ t.credentials.ticket = c.credentials.ticket) ∨
    c.ticketState.any (fun s => t.sequence ≤ s.sequence || t.issuedAt < s.issuedAt ||
      clock.hostBoot ≠ s.boot) = true

instance (c : InputClient) (t : Ticket) (clock : ClockCorrelation) :
    Decidable (c.Foreign t clock) :=
  inferInstanceAs (Decidable (_ ∨ _))

/-- Only replay metadata changes. -/
def InputClient.drain (c : InputClient) (t : Ticket) : InputClient :=
  {c with ticketState := c.ticketState.map fun s =>
    {s with
      sequence := t.sequence, issuedAt := t.issuedAt, recovery := t.credentials.view.recovery}}

/-- The sequence is consumed even by a late delivery. -/
def InputClient.consume (c : InputClient) (t : Ticket) (until_ : ClientInstant)
    (boot : HostBootId) : InputClient :=
  {c with ticketState := some ⟨until_,t.sequence,boot,t.issuedAt,t.credentials.view.recovery⟩}

/-- `acknowledge` on the selected profile. -/
def acknowledge : Option ℕ → Owner Bool
  | none => pure false
  | some sequence => do
    match ((← get).readiness.getD (.new false)).acknowledge sequence with
    | none => fail .invalidTicket
    | some (ready,r) => do
      modify ({· with readiness := some r})
      pure ready

/-- Whether a ticket was issued after the host's own lapse, which comes at most one source-age
ceiling after this suspension. -/
def issuedAfterLapse (t : Ticket) (clock : ClockCorrelation) (since now : ClientInstant) : Bool :=
  match clock.ageUpper t.issuedAt now with
  | .ok age => min (age+maxSourceAge) (2^64-1) < now - since
  | .error _ => false

/-- What a timely ticket of the current view ends. A recovered view could not have had a ticket
before the host installed it, so that one alone proves the fence. -/
def InputClient.admitTicket (c : InputClient) (t : Ticket) (clock : ClockCorrelation)
    (now : ClientInstant) (causal : Bool) : InputClient :=
  if c.awaitingRecoveryTicket then
    {c with
      awaitingRecoveryTicket := false
      awaitingTicket := c.awaitingTicket && !(c.readiness.isNone || causal)}.tryResume
  else match c.suspendedSince with
    | some since =>
      if causal = true ∨ (c.readiness = none ∧ issuedAfterLapse t clock since now = true) then
        {c with awaitingTicket := false}.tryResume
      else c
    | none => c

def installTicket (t : Ticket) (presentedSequence : Option ℕ) (clock : ClockCorrelation)
    (now : ClientInstant) : Owner Unit := do
  let c ← get
  failIf (presentedSequence.isSome ≠ c.readiness.isSome) .invalidTicket
  failIf (c.Foreign t clock) .invalidTicket
  failIf ((clock.ageUpper t.issuedAt now).isOk = false) .invalidTicket
  let until_ ← okOrFail (clock.deadlineLower t.expiresAt now).toOption .invalidTicket
  if c.Obsolete t.credentials.view then modify (·.drain t)
  else do
    modify (·.consume t until_ clock.hostBoot)
    refuseIf (until_ ≤ now) .ticketExpired
    let causal ← acknowledge presentedSequence
    modify fun c => {c with credentials.ticket := t.credentials.ticket}.admitTicket t
      clock now causal

/-- A record that cannot be read ends the grant. -/
def ticketOf {α : Type} : Except WireError α → Owner α
  | .ok t => pure t
  | .error error => do
    modify (·.stop .invalidTicket)
    throw (.wire error)

def acceptTicket (bytes : List Byte) (clock : ClockCorrelation) (now : ClientInstant) :
    Owner Unit := do
  tick now
  let c ← get
  let t ← ticketOf (decodeTicket bytes c.limits c.binding.channel .hostToViewer .reliable)
  installTicket t none clock now

/-- The authority deadline serves auxiliary lanes; it never extends the ticket. -/
def acceptAuthorityTicket (bytes : List Byte) (clock : ClockCorrelation) (now : ClientInstant) :
    Owner Unit := do
  tick now
  let c ← get
  let t ← ticketOf (decodeAuthority bytes c.limits c.binding.channel .hostToViewer .reliable)
  installTicket t.ticket none clock now

def acceptReadinessTicket (bytes : List Byte) (clock : ClockCorrelation) (now : ClientInstant) :
    Owner Unit := do
  tick now
  let c ← get
  let t ← ticketOf (decodeReadiness bytes c.limits c.binding.channel .hostToViewer .reliable)
  installTicket t.authority.ticket (some t.presentedSequence) clock now

/-! Runs. -/

inductive Op
  | stop (reason : StopReason)
  | tick (now : ClientInstant)
  | advanceRecovery (generation : RecoveryGeneration) (now : ClientInstant)
  | confirmMapping (session : RemoteSessionId) (view : InputView) (now : ClientInstant)
  | presented (evidence : PresentedObservation) (now : ClientInstant)
  | suspend (now : ClientInstant)
  | abandonUnsent (unsent : Unsent)
  | setViewBound (bound : ℕ)
  | followPathRtt (smoothedRtt : Option ℕ)
  | ticket (id : InputTicketId) (now : ClientInstant)
  | pointer (position : DesktopPoint) (room : ℕ) (now : ClientInstant)
  | action (action : Action) (room : ℕ) (now : ClientInstant)
  | reconcileHeld (observed : HeldState) (room : ℕ) (now : ClientInstant)
  | result (bytes : List Byte) (now : ClientInstant)
  | enableControlRenewal (channel : ℕ) (now : ClientInstant)
  | acceptControlChallenge (bytes : List Byte) (now : ClientInstant)
  | pendingControlResponse (now : ClientInstant)
  | controlResponseSent (now : ClientInstant)
  | expectReadinessFeedback (now : ClientInstant)
  | bindReadinessReporter (cursor : AdmittedCursor) (now : ClientInstant)
  | reportAdmitted (receipt : QueuedReport) (now : ClientInstant)
  | acceptTicket (bytes : List Byte) (clock : ClockCorrelation) (now : ClientInstant)
  | acceptAuthorityTicket (bytes : List Byte) (clock : ClockCorrelation) (now : ClientInstant)
  | acceptReadinessTicket (bytes : List Byte) (clock : ClockCorrelation) (now : ClientInstant)

inductive Answer
  | done
  | bound (bound : ℕ)
  | encoded (record : Encoded)
  | held (record : Option EncodedHeldState)
  | result (event : ResultEvent)
  | response (bytes : Option (List Byte))

def call : Op → Owner Answer
  | .stop reason => do modify (·.stop reason); pure .done
  | .tick now => do tick now; pure .done
  | .advanceRecovery generation now => do advanceRecovery generation now; pure .done
  | .confirmMapping session view now => do confirmMapping session view now; pure .done
  | .presented evidence now => do presented evidence now; pure .done
  | .suspend now => do suspendView now; pure .done
  | .abandonUnsent unsent => do abandonUnsent unsent; pure .done
  | .setViewBound bound => do setViewBound bound; pure .done
  | .followPathRtt smoothedRtt => do let bound ← followPathRtt smoothedRtt; pure (.bound bound)
  | .ticket id now => do ticket id now; pure .done
  | .pointer position room now => do let record ← pointer position room now; pure (.encoded record)
  | .action a room now => do let record ← action a room now; pure (.encoded record)
  | .reconcileHeld observed room now => do
    let record ← reconcileHeld observed room now
    pure (.held record)
  | .result bytes now => do let event ← result bytes now; pure (.result event)
  | .enableControlRenewal channel now => do enableControlRenewal channel now; pure .done
  | .acceptControlChallenge bytes now => do acceptControlChallenge bytes now; pure .done
  | .pendingControlResponse now => do let bytes ← pendingControlResponse now; pure (.response bytes)
  | .controlResponseSent now => do controlResponseSent now; pure .done
  | .expectReadinessFeedback now => do expectReadinessFeedback now; pure .done
  | .bindReadinessReporter cursor now => do bindReadinessReporter cursor now; pure .done
  | .reportAdmitted receipt now => do reportAdmitted receipt now; pure .done
  | .acceptTicket bytes clock now => do acceptTicket bytes clock now; pure .done
  | .acceptAuthorityTicket bytes clock now => do acceptAuthorityTicket bytes clock now; pure .done
  | .acceptReadinessTicket bytes clock now => do acceptReadinessTicket bytes clock now; pure .done

def step (c : InputClient) (op : Op) : Except ClientError Answer × InputClient := exec (call op) c

abbrev Event := Transition.Event InputClient Op (Except ClientError Answer)

def Starts (c : InputClient) : Prop :=
  ∃ credentials channel bounds capabilities limits policy now,
    InputClient.new credentials channel bounds capabilities limits policy now = .ok c

end FrankenRemote.Client
