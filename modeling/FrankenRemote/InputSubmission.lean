import FrankenRemote.InputSession

/-! Public calls of the submission owner. Every native operation of an action has its own
final check, and what the owner holds is only ever released after a revocation. -/
namespace FrankenRemote.Input

open Procedure
open Authority (SessionAuthority AuthorityError ControlStatus)

/-- Final authorization of one submission. An installed recovery makes every older view stale,
also for an action that is already on its way. -/
def check (credentials : InputCredentials) (now : HostInstant) : Owner HostInstant := do
  checkActive
  others
  modify fun w => {w with view := w.view.followRecovery w.authority}
  let w ← get
  refuseIf (credentials.view ≠ w.view) (.refused .staleView)
  let reply ← withTime now (.submissionDeadline w.lease credentials.ticket)
  instantOf reply

def requireCapability (capability : Capability) : Owner Unit := do
  refuseIf ((← get).capabilities.contains capability = false) (.refused .unsupported)

/-- `position`. -/
def checkPosition (position : DesktopPoint) : Owner Unit := do
  requireCapability .absolute
  refuseIf ((← get).mode ≠ .absolute) (.refused .modeMismatch)
  refuseIf ((← get).bounds.contains position = false) (.refused .outOfBounds)

/-- Older pointer states are obsolete from here on. -/
def InputSession.barrier (s : InputSession) (barrier : ℕ) : InputSession :=
  {s with pointerFloor := some (s.pointerFloor.elim barrier (max · barrier))}

/-! One native operation. -/

/-- The check passed, and nothing else happened since: a press may follow. -/
def World.grant (w : World) (credentials : InputCredentials) (op : Operation) : World :=
  { w.note (.warrant credentials w.view op) with
    toSyntheticHeld := w.track op true
    uncertain := true }

/-- The final authorization callback. -/
def authorize (credentials : InputCredentials) (op : Operation) : Owner Unit := do
  let now ← sampleClock
  let _ ← check credentials now
  modify (·.grant credentials op)

/-- The sink calls back, and a refusal is its to handle. A callback that unwinds takes the sink
with it. Returns whether some callback let it submit. -/
def callBack (credentials : InputCredentials) (op : Operation) : ℕ → Owner Bool
  | 0 => pure false
  | n+1 => do
    match ← caught (authorize credentials op) with
    | .error .panicked => throw .panicked
    | .error (.refused _) => callBack credentials op n
    | .ok _ => do
      let _ ← callBack credentials op n
      pure true

/-- The native call comes after the last callback, and the others may come between. -/
def submitAuthorized (credentials : InputCredentials) (op : Operation) :
    Owner (Except Refusal Submission) := do
  let a ← ask
  let warranted ← callBack credentials op a.callbacks
  others
  if a.panics then
    modify (·.note (.unwound op warranted))
    throw .panicked
  else
    modify (·.note (.report op warranted a.authorized))
    pure a.authorized

def World.takeBack (w : World) (old : SyntheticHeld) (op : Operation) : World :=
  {w with toSyntheticHeld := w.restore old op, uncertain := false}

def World.confirm (w : World) (op : Operation) : World :=
  {w with toSyntheticHeld := w.track op false, uncertain := false, submitted := w.submitted+1}

/-- Why a submission that returned is not a success. -/
def refusalOf : Except Refusal Submission → Refusal
  | .ok .submitted | .ok .unknown => .unknownEffect
  | .ok (.notSubmitted error) => .platform error
  | .ok .expired => .expiredAtBoundary
  | .ok .fenced => .revoked
  | .error refusal => refusal

def one (credentials : InputCredentials) (op : Operation) : Owner Unit := do
  match ← prepare op with
  | .error error => throw (.refused (.platform error))
  | .ok _ => do
    let old ← get
    match ← submitAuthorized credentials op with
    | .ok .submitted => modify (·.confirm op)
    | .ok .unknown => throw (.refused .unknownEffect)
    | result => do
      modify (·.takeBack old.toSyntheticHeld op)
      throw (.refused (refusalOf result))

/-! One action. -/

def keyTransition (credentials : InputCredentials) (key : PhysicalKey)
    (transition : KeyTransition) : Owner Unit := do
  requireCapability .keys
  let held := (← get).keys key
  match transition with
  | .repeat_ => do
    requireCapability .repeat_
    refuseIf (held = false) (.refused .invalidTransition)
    if ← repeatRequiresPair then
      one credentials (.key key .release)
      one credentials (.key key .press)
    else one credentials (.key key .repeat_)
  | .press => do
    refuseIf (held = true) (.refused .invalidTransition)
    one credentials (.key key .press)
  | .release => do
    refuseIf (held = false) (.refused .invalidTransition)
    one credentials (.key key .release)

def each {α : Type} (f : α → Owner Unit) : List α → Owner Unit
  | [] => pure ()
  | a :: rest => do
    f a
    each f rest

def wheelSteps (credentials : InputCredentials) (discrete : LineScroll) : Owner Unit :=
  each (fun direction => do
    one credentials (.wheel direction true)
    one credentials (.wheel direction false)) discrete.steps

/-- `new.checked_sub(old)` in the range of one native motion. -/
def motion (new old : Int64) : Option Int32 :=
  let d := new.toInt - old.toInt
  if -2^31 ≤ d ∧ d < 2^31 then some (Int32.ofInt d) else none

/-- Standing still is no native call. -/
def moveBy (credentials : InputCredentials) (x y : Int32) : Owner Unit :=
  if x ≠ 0 ∨ y ≠ 0 then one credentials (.relative x y) else pure ()

/-- The whole native work of a scroll is bounded before it even positions. -/
def discreteScroll (x y : Int32) (unit : ScrollUnit) : Owner (Option LineScroll) :=
  match unit with
  | .pixels => pure none
  | .lines => do
    if ← lineScrollRequiresPairs then
      let discrete ← okOr (LineScroll.new x y) (.refused .unsupported)
      pure (some discrete)
    else pure none

def executeEvent (credentials : InputCredentials) : InputEvent → Owner Unit
  | .key key transition => keyTransition credentials key transition
  | .pointer position => do
    checkPosition position
    one credentials (.absolute position)
  | .button button pressed position barrier => do
    requireCapability .buttons
    checkPosition position
    refuseIf ((← get).buttons button = pressed) (.refused .invalidTransition)
    modify fun w => {w with toInputSession := w.barrier barrier}
    one credentials (.absolute position)
    one credentials (.button button pressed)
  | .scroll position barrier x y unit => do
    requireCapability (match unit with | .pixels => .pixelScroll | .lines => .lineScroll)
    checkPosition position
    let discrete ← discreteScroll x y unit
    modify fun w => {w with toInputSession := w.barrier barrier}
    one credentials (.absolute position)
    match discrete with
    | some discrete => wheelSteps credentials discrete
    | none => one credentials (.scroll x y unit)
  | .text text => do
    requireCapability .text
    refuseIf (text.utf8ByteSize = 0 ∨ maxCommittedTextBytes < text.utf8ByteSize)
      (.refused .unsupported)
    each (fun scalar => one credentials (.text scalar)) text.toList
  | .relative modeEpoch cumulativeX cumulativeY => do
    requireCapability .relative
    let w ← get
    refuseIf (w.mode ≠ .relative ∨ modeEpoch ≠ w.modeEpoch) (.refused .modeMismatch)
    let x ← okOr (motion cumulativeX w.cumulative.1) (.refused .relativeOverflow)
    let y ← okOr (motion cumulativeY w.cumulative.2) (.refused .relativeOverflow)
    moveBy credentials x y
    modify ({· with cumulative := (cumulativeX,cumulativeY)})
  | .mode mode epoch => do
    requireCapability (match mode with | .absolute => .absolute | .relative => .relative)
    let w ← get
    refuseIf (epoch ≤ w.modeEpoch ∨ w.heldCount ≠ 0) (.refused .invalidTransition)
    modify ({· with mode, modeEpoch := epoch, cumulative := (0,0)})
    -- Old absolute states carry no mode epoch, so no ticket outlives the change.
    let reply ← locked fun _ => .invalidateInputTickets w.lease
    doneOf reply

def execute (request : InputRequest) : Owner Unit := do
  let now ← sampleClock
  let _ ← check request.credentials now
  executeEvent request.credentials request.event

def Attempt.outcome (a : Attempt) (refusal : Option Refusal) : InputOutcome :=
  if a.uncertain then .effectUnknown
  else match refusal with
    | none => if a.submitted = 0 then .appliedLocally else .submittedToOs
    | some refusal =>
      if 0 < a.submitted then .partiallySubmittedToOs
      else match refusal with
        | .authority .ticketExpired | .authority .leaseExpired | .authority .observationExpired
        | .expiredAtBoundary => .expiredBeforeSubmission
        | .revoked => .cancelledBeforeSubmission
        | _ => .rejectedBeforeSubmission

def Attempt.receipt (a : Attempt) (sequence : ℕ) (refusal : Option Refusal) : Receipt :=
  ⟨sequence,a.outcome refusal,a.submitted,refusal⟩

def World.account (w : World) (receipt : Receipt) : World :=
  match exec (InputSequenceLedger.recordOutcome w.lease receipt.sequence receipt.outcome)
      w.ledger with
  | (.ok _,ledger) => {w with ledger}
  | (.error _,ledger) => {w with ledger}.revoke

def World.keep (w : World) (receipt : Receipt) : World :=
  {w with
    receipts := Function.update w.receipts w.receiptCursor (some receipt)
    receiptCursor := (w.receiptCursor+1) % maxRetainedInputReceipts}

def World.revokeUnless (w : World) (succeeded : Bool) : World := if succeeded then w else w.revoke

def World.record (w : World) (receipt : Receipt) (pointer : Bool) : World :=
  ((if pointer then w else (w.account receipt).keep receipt).revokeUnless
    receipt.outcome.succeeded).note (.record receipt pointer)

/-- The refusal that the drop guard records. -/
def Attempt.unwindRefusal (a : Attempt) : Refusal :=
  if a.uncertain then .unknownEffect else .revoked

/-- The result is recorded on every way out, also when the attempt unwinds. -/
def attempt (request : InputRequest) : Owner Dispatch := do
  modify ({· with submitted := 0, uncertain := false})
  let result ← caught (execute request)
  let w ← get
  match result with
  | .ok _ => do
    let receipt := w.receipt request.sequence none
    modify (·.record receipt request.event.isPointer)
    pure (.completed receipt)
  | .error (.refused refusal) => do
    let receipt := w.receipt request.sequence (some refusal)
    modify (·.record receipt request.event.isPointer)
    pure (.completed receipt)
  | .error .panicked => do
    modify (·.record (w.receipt request.sequence (some w.unwindRefusal)) request.event.isPointer)
    throw .panicked

def revokeIf (fenced : Bool) : Owner Unit := if fenced then modify World.revoke else pure ()

def dispatch (request : InputRequest) : Owner Dispatch := do
  let w ← get
  refuseIf (request.credentials.session ≠ w.session) (.refused .staleSession)
  refuseIf (request.credentials.lease ≠ w.lease) (.refused .staleLease)
  if request.event.isPointer then
    if w.pointerFloor.any (request.sequence ≤ ·) then pure .obsoletePointer
    else do
      checkActive
      modify ({· with pointerFloor := some request.sequence})
      attempt request
  else do
    let admitted := exec (InputSequenceLedger.admitAction w.lease request.sequence) w.ledger
    modify ({· with ledger := admitted.2})
    match admitted.1 with
    | .ok .admitted => attempt request
    | .ok (.completed _) =>
      pure ((w.retainedReceipt request.sequence).elim .consumedWithoutReceipt .completed)
    | .ok .consumedWithoutReceipt | .ok .inFlight => pure .consumedWithoutReceipt
    | .error error => do
      revokeIf admitted.2.fenced
      throw (.refused (.sequence error))

/-! Releases. -/

/-- The release of every key and button, in the order of the arrays. -/
def releases : List Operation :=
  PhysicalKey.all.map (.key · .release) ++ PointerButton.all.map (.button · false)

/-- One release of local cleanup. Unless it is confirmed, the input stays tracked. -/
def tryRelease (op : Operation) : Owner ℕ := do
  match ← prepare op with
  | .error _ => pure 0
  | .ok _ => do
    if (← submit op) = .submitted then
      modify fun w => {w with toSyntheticHeld := w.track op false}
      pure 1
    else pure 0

def releaseTracked : List Operation → Owner ℕ
  | [] => pure 0
  | op :: rest => do
    let submitted ← if (← get).tracked op then tryRelease op else pure 0
    let others ← releaseTracked rest
    pure (submitted+others)

def releaseWheel : Owner ℕ := do
  match (← get).wheel with
  | some direction => tryRelease (.wheel direction false)
  | none => pure 0

/-- Release-only, without fencing this owner. -/
def releaseHeld : Owner Cleanup := do
  let wheel ← releaseWheel
  let submitted ← releaseTracked releases
  pure ⟨wheel+submitted,(← get).heldCount⟩

def cleanup : Owner Cleanup := do
  modify World.revoke
  releaseHeld

/-- The end of `maintain` when no suspension was found. -/
def settle : Owner Cleanup := do
  others
  let w ← get
  if w.revoked then cleanup else pure ⟨0,w.heldCount⟩

/-- Serviced while idle. A stale view releases what is held without revoking, and only then lets
fresh readiness revive input. -/
def maintain (now : HostInstant) : Owner Cleanup := do
  others
  if (← get).revoked then settle
  else do
    match ← caught (withTime now .controlStatus >>= statusOf) with
    | .ok (.live _) => settle
    | .ok (.suspended _ released) => do
      let cleanup ← releaseHeld
      if cleanup.remaining = 0 ∧ released = false then
        let w ← get
        let _ ← caught (locked fun _ => .confirmSuspensionRelease w.lease)
        pure cleanup
      else pure cleanup
    | .error _ => do
      modify World.revoke
      settle

/-! Reconciliation. -/

def World.report (w : World) (f : Reconciliation → Reconciliation) : World :=
  {w with reconciliation := w.reconciliation.map f}

def checkReconciliation (now : HostInstant) : Owner Unit := do
  checkActive
  let reply ← withTime now .hasLiveControl
  flagOf .noLease reply

/-- Whether the snapshot still shows the input of the operation. -/
def HeldState.shows (held : HeldState) : Operation → Bool
  | .key key _ => held.key key
  | .button button _ => held.button button
  | _ => false

def SyntheticHeld.missingReleases (h : SyntheticHeld) (held : HeldState) : List Operation :=
  releases.filter fun op => h.tracked op && !held.shows op

/-- One release of a snapshot. Its prefix is preserved before it may have an effect. -/
def reconcileOne (op : Operation) : Owner Unit := do
  match ← prepare op with
  | .error error => throw (.refused (.platform error))
  | .ok _ => do
    let now ← sampleClock
    checkReconciliation now
    modify (·.report ({· with outcome := .effectUnknown}))
    match ← submit op with
    | .submitted =>
      modify fun w => {w with toSyntheticHeld := w.track op false}.report fun r =>
        {r with
          submittedReleases := r.submittedReleases+1
          remainingReleases := r.remainingReleases-1
          outcome := .interrupted}
    | .unknown => throw (.refused .unknownEffect)
    | result => do
      modify (·.report ({· with outcome := .refused}))
      throw (.refused (refusalOf (.ok result)))

def reconcileRun (operations : List Operation) : Owner Unit := do
  let now ← sampleClock
  checkReconciliation now
  each reconcileOne operations

/-- The report of an interrupted or refused snapshot. -/
def Reconciliation.refusedBy (r : Reconciliation) (error : Refusal) : Reconciliation :=
  {r with
    outcome := if r.outcome = .effectUnknown then .effectUnknown else .refused
    refusal := some error}

/-- The guard revokes unless every release was confirmed. -/
def concludeReconciliation : Except Stop Unit → Owner Unit
  | .ok _ => modify (·.report ({· with outcome := .applied}))
  | .error (.refused error) => modify (·.revoke.report (·.refusedBy error))
  | .error .panicked => do
    modify World.revoke
    throw .panicked

def reconcileAll (operations : List Operation) : Owner Reconciliation := do
  let result ← caught (reconcileRun operations)
  concludeReconciliation result
  okOr (← get).reconciliation .panicked

def reconcileHeld (request : HeldStateRequest) : Owner Reconciliation := do
  let ignored : Reconciliation := ⟨request.sequence,.ignored,0,0,none⟩
  others
  let w ← get
  if request.session ≠ w.session ∨ request.lease ≠ w.lease ∨ w.isActive = false ∨
      w.reconciliationFloor.any (request.sequence ≤ ·) then pure ignored
  else match w.ledger.nextSequence with
    | none => pure ignored
    | some expected =>
      if request.nextAction < expected then pure ignored
      else if expected < request.nextAction ∨ w.ledger.pending.isSome then do
        modify World.revoke
        throw (.refused (.sequence (.sequenceGap expected request.nextAction)))
      else do
        let operations := w.missingReleases request.held
        modify ({· with
          reconciliationFloor := some request.sequence
          reconciliation := some ⟨request.sequence,.interrupted,0,operations.length,none⟩})
        reconcileAll operations

/-! Renewals. -/

structure IssuedTicketProof where
  issuedAt : HostInstant
  expiresAt : HostInstant
  authorityUntil : HostInstant
  presentedSequence : Option ℕ+

/-- A renewal on the lease of this owner: the policy call of that name, at a serialized time. -/
def renewal (op : HostInstant → Authority.Op) (now : HostInstant) : Owner HostInstant := do
  checkActive
  let reply ← withTime now op
  instantOf reply

def issueObservationChallenge (nonce : ℕ) : HostInstant → Owner HostInstant :=
  renewal (.issueObservationChallenge nonce)

def renewObservation (nonce : ℕ) : HostInstant → Owner HostInstant :=
  renewal (.respondObservationChallenge nonce)

def issueControlChallenge (nonce : ℕ) : HostInstant → Owner HostInstant :=
  renewal (.issueControlChallenge nonce)

def renewControl (nonce : ℕ) (now : HostInstant) : Owner HostInstant := do
  let w ← get
  renewal (.respondControlChallenge w.lease nonce) now

/-- The ticket call, with or without the presented-report requirement. -/
def ticketOp (lease : InputLeaseId) (ticket : InputTicketId) (requirePresented : Bool)
    (now : HostInstant) : Authority.Op :=
  if requirePresented then .issuePresentedInputTicket lease ticket now
  else .issueInputTicket lease ticket now

/-- `issue_ticket_snapshot`: the deadlines are read in the transition that issues the ticket,
and the view follows the recovery that is installed then. -/
def issueTicketSnapshot (ticket : InputTicketId) (now : HostInstant) (requirePresented : Bool) :
    Owner IssuedTicketProof := do
  checkActive
  let w ← get
  let reply ← withTime now (ticketOp w.lease ticket requirePresented)
  modify fun w => {w with view := w.view.followRecovery w.authority}
  let expiresAt ← instantOf reply
  let w ← get
  let authorityUntil ← ofResult ((Authority.leaseDeadline w.authority).mapError fun e =>
    .refused (.authority e))
  pure ⟨w.authority.serializedTime now,expiresAt,authorityUntil,w.authority.presentedSequence⟩

/-! The owner as a machine. -/

inductive SessionCall
  | dispatch (request : InputRequest)
  | reconcileHeld (request : HeldStateRequest)
  | maintain (now : HostInstant)
  | cleanup
  | releaseHeld
  | revoke
  | issueObservationChallenge (nonce : ℕ) (now : HostInstant)
  | renewObservation (nonce : ℕ) (now : HostInstant)
  | issueControlChallenge (nonce : ℕ) (now : HostInstant)
  | renewControl (nonce : ℕ) (now : HostInstant)
  | issueTicket (ticket : InputTicketId) (now : HostInstant) (requirePresented : Bool)

inductive SessionReply
  | dispatched (r : Except Stop Dispatch)
  | reconciled (r : Except Stop Reconciliation)
  | cleaned (r : Except Stop Cleanup)
  | renewed (r : Except Stop HostInstant)
  | issued (r : Except Stop IssuedTicketProof)
  | done

/-- A call and its reply. The owner survives a call that unwinds, with what the guards left. -/
def call {α : Type} (f : Except Stop α → SessionReply) (m : Owner α) (w : World) :
    SessionReply × World := (f (exec m w).1,(exec m w).2)

def step (w : World) : SessionCall → SessionReply × World
  | .dispatch request => call .dispatched (Input.dispatch request) w
  | .reconcileHeld request => call .reconciled (Input.reconcileHeld request) w
  | .maintain now => call .cleaned (Input.maintain now) w
  | .cleanup => call .cleaned Input.cleanup w
  | .releaseHeld => call .cleaned Input.releaseHeld w
  | .revoke => (.done,w.revoke)
  | .issueObservationChallenge nonce now =>
    call .renewed (Input.issueObservationChallenge nonce now) w
  | .renewObservation nonce now => call .renewed (Input.renewObservation nonce now) w
  | .issueControlChallenge nonce now => call .renewed (Input.issueControlChallenge nonce now) w
  | .renewControl nonce now => call .renewed (Input.renewControl nonce now) w
  | .issueTicket ticket now requirePresented =>
    call .issued (issueTicketSnapshot ticket now requirePresented) w

/-- A world in which the owner was just attached to the policy `a`. -/
def Opens (a : SessionAuthority) (w : World) : Prop :=
  (∃ credentials bounds capabilities now,
    exec (fromSharedAuthority credentials bounds capabilities now) a =
      (.ok w.toInputSession,w.authority)) ∧
  w.revoked = false ∧ w.trail = []

abbrev SessionEvent := Transition.Event World SessionCall SessionReply

abbrev final := Transition.final step

abbrev trace := Transition.trace step

end FrankenRemote.Input
