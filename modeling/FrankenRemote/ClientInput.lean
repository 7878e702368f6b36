import FrankenRemote.ClockCorrelation
import FrankenRemote.Responder
import FrankenRemote.WireHeld
import FrankenRemote.WireInputResult
import FrankenRemote.WireTicket

/-! The viewer's owner of one input grant, from UI actions to wire records and back from the
host's receipts. Encoding consumes an identity, and nothing resumes a stopped owner. -/
namespace FrankenRemote.Client

open Bytes Procedure SlotTable Wire Input Freshness

def maxPendingActions : ℕ := 32

instance : NeZero maxPendingActions := ⟨by decide⟩

/-- `MAX_VIEW_SUSPENSION_US`. -/
def maxClientSuspension : ℕ := 10000000

def heldStateInterval : ℕ := 250000

def maxSourceAge : ℕ := 1000000

def viewerRttMultiple : ℕ := 3

/-- The largest source-age bound of a path. -/
def maxViewBound : ℕ := 1500000

structure Policy where
  viewAge : ℕ
  receiptTimeout : ℕ
  deriving DecidableEq

/-- Evidence of the renderer. Its age includes transport and clock uncertainty at `receivedAt`. -/
structure PresentedObservation where
  session : RemoteSessionId
  serial : ℕ
  view : InputView
  receivedAt : ClientInstant
  sourceAgeUpper : ℕ
  deriving DecidableEq

/-- What the user does. Committed text is separate from physical keys. -/
inductive Action
  | key (key : PhysicalKey) (transition : KeyTransition)
  | button (button : PointerButton) (pressed : Bool) (position : DesktopPoint)
  | scroll (position : DesktopPoint) (x y : Int32) (unit : ScrollUnit)
  | text (text : String)
  deriving DecidableEq

inductive StopReason
  | focusLost | suspended | disconnected | viewChanged | viewStale | clockRegression
  | counterExhausted | receiptTimeout | actionFailed | invalidReceipt | invalidTicket |
      invalidControl
  deriving DecidableEq, Repr

inductive ClientError
  | invalidConfiguration
  | stopped (reason : StopReason)
  | mappingUnconfirmed | noPresentedView | obsoleteObservation | staleSession | unsupported
  | outOfBounds | invalidTransition | backpressure | ticketExpired | viewSuspended
  | releasedBySuspension
  | control (error : ResponderError)
  | wire (error : WireError)
  deriving DecidableEq

/-- A record that was encoded but that the transport never took. -/
inductive Unsent
  | action (sequence : ℕ)
  | pointer
  | held (sequence : ℕ)
  deriving DecidableEq

structure Encoded where
  bytes : List Byte
  sequence : ℕ
  space : SequenceSpace
  deriving DecidableEq

structure EncodedHeldState where
  bytes : List Byte
  sequence : ℕ
  nextAction : ℕ
  deriving DecidableEq

inductive ResultEvent
  | completed (result : InputResult)
  | duplicate (result : InputResult)
  | unretained
  | pointer (result : InputResult)
  deriving DecidableEq

/-- An action whose receipt is owed, with the numbers of operations of a whole one. -/
structure Pending where
  sequence : ℕ
  deadline : ClientInstant
  minimum : ℕ
  maximum : ℕ
  deriving DecidableEq

/-! Causal readiness. -/

structure ControlBinding where
  id : ℕ
  hostBoot : HostBootId
  osSession : ℕ
  remoteSession : RemoteSessionId
  deriving DecidableEq

structure ReportBinding where
  parent : ControlBinding
  display : ℕ
  geometry : ℕ
  configuration : ℕ
  recovery : RecoveryGeneration
  viewport : ℕ
  deriving DecidableEq

/-- A reporter's last report that its transport took, and whether that showed a picture. The
lineage is the identity of the reporter. -/
structure AdmittedCursor where
  binding : ReportBinding
  sequence : ℕ
  visible : Bool
  lineage : ℕ
  deriving DecidableEq

abbrev QueuedReport := AdmittedCursor

def AdmittedCursor.isFrom (c other : AdmittedCursor) : Bool :=
  c.lineage = other.lineage && c.binding = other.binding

/-- What a resumption still waits for. -/
inductive Resume
  | clear
  | needLossReport
  | afterLoss (sequence : ℕ)
  deriving DecidableEq

structure ReadinessState where
  reporter : Option AdmittedCursor
  ceiling : ℕ
  acknowledged : ℕ
  resume : Resume
  deriving DecidableEq

namespace ReadinessState

def new (suspended : Bool) : ReadinessState :=
  ⟨none,0,0,if suspended then .needLossReport else .clear⟩

def lapse (r : ReadinessState) : ReadinessState := {r with resume := .needLossReport}

/-- A reporter of this view said so, and nothing older than what it said before. -/
def Acknowledges (r : ReadinessState) (sequence : ℕ) : Prop :=
  r.reporter.isSome ∧ sequence ≠ 0 ∧ sequence ≤ r.ceiling ∧ r.acknowledged ≤ sequence

instance (r : ReadinessState) (sequence : ℕ) : Decidable (r.Acknowledges sequence) :=
  inferInstanceAs (Decidable (_ ∧ _))

/-- Whether an acknowledgement lets input resume. -/
def crosses (r : ReadinessState) (sequence : ℕ) : Bool :=
  match r.resume with
  | .clear => true
  | .afterLoss loss => loss < sequence
  | .needLossReport => false

/-- The state after an acknowledgement, and whether input may resume by it. -/
def acknowledge (r : ReadinessState) (sequence : ℕ) : Option (Bool × ReadinessState) :=
  if r.Acknowledges sequence then
    some (r.crosses sequence,{r with
        acknowledged := sequence
        resume := if r.crosses sequence then .clear else r.resume})
  else none

end ReadinessState

/-- The last ticket that was consumed, and the expiry of the installed one. -/
structure TicketState where
  until_ : ClientInstant
  sequence : ℕ
  boot : HostBootId
  issuedAt : ℕ
  recovery : RecoveryGeneration
  deriving DecidableEq

/-! The owner. -/

structure InputClient where
  credentials : InputCredentials
  binding : ResultBinding
  bounds : InputBounds
  capabilities : Capabilities
  limits : ProtocolLimits
  policy : Policy
  viewBound : ℕ
  clock : ClientInstant
  started : ClientInstant
  stopped : Option StopReason
  mapped : Bool
  observation : Option ℕ
  viewUntil : Option ClientInstant
  nextAction : Option ℕ
  nextPointer : Option ℕ
  nextHeld : Option ℕ
  heldAfter : Option ClientInstant
  pending : Slots maxPendingActions Pending
  receipts : Slots maxPendingActions InputResult
  receiptCursor : Fin maxPendingActions
  ticketState : Option TicketState
  readiness : Option ReadinessState
  /-- A recovered view needs a ticket of its own. -/
  awaitingRecoveryTicket : Bool
  controlResponse : Option ObservationResponder
  keys : PhysicalKey → Bool
  buttons : PointerButton → Bool
  suspendedSince : Option ClientInstant
  /-- What a suspension released on the host, until the user's own release or next press. -/
  releasedKeys : PhysicalKey → Bool
  releasedButtons : PointerButton → Bool
  /-- A suspension ends only with a ticket that the host issued after its own lapse. -/
  awaitingTicket : Bool

namespace InputClient

def new (credentials : InputCredentials) (channel : ℕ) (bounds : InputBounds)
    (capabilities : Capabilities) (limits : ProtocolLimits) (policy : Policy)
    (now : ClientInstant) : Except ClientError InputClient :=
  if channel = 0 ∨ credentials.session.raw = 0 ∨ credentials.lease.raw = 0 ∨
      credentials.ticket.raw = 0 ∨ ¬(1 ≤ policy.viewAge ∧ policy.viewAge ≤ maxViewBound) ∨
      ¬(1 ≤ policy.receiptTimeout ∧ policy.receiptTimeout ≤ 10000000) then
        .error .invalidConfiguration
  else .ok
    { credentials
      binding := ⟨channel,credentials.session,credentials.lease⟩
      bounds, capabilities, limits, policy
      viewBound := policy.viewAge
      clock := now
      started := now
      stopped := none
      mapped := false
      observation := none
      viewUntil := none
      nextAction := some 0
      nextPointer := some 0
      nextHeld := some 0
      heldAfter := none
      pending := vacant
      receipts := vacant
      receiptCursor := 0
      ticketState := none
      readiness := none
      awaitingRecoveryTicket := false
      controlResponse := none
      keys := fun _ => false
      buttons := fun _ => false
      suspendedSince := none
      releasedKeys := fun _ => false
      releasedButtons := fun _ => false
      awaitingTicket := false }

def stop (c : InputClient) (reason : StopReason) : InputClient :=
  {c with
    stopped := some (c.stopped.getD reason)
    controlResponse := c.controlResponse.map ObservationResponder.stop}

/-- A lapse needs a causal barrier of its own. -/
def lapse (c : InputClient) : InputClient :=
  match c.readiness with
  | some r => {c with readiness := some r.lapse, awaitingTicket := true}
  | none => c

/-- The host releases what is held at its own lapse, so the mirror starts empty again. -/
def release (c : InputClient) : InputClient :=
  {c with
    releasedKeys := fun k => c.releasedKeys k || c.keys k
    releasedButtons := fun b => c.releasedButtons b || c.buttons b
    keys := fun _ => false
    buttons := fun _ => false}

/-- A stale or unknown view suspends input. A second lapse keeps the timer of the first one. -/
def suspend (c : InputClient) (now : ClientInstant) : InputClient :=
  let lapsed :=
    {if (c.viewUntil.isSome ∨ c.suspendedSince = none) ∧ c.stopped = none then c.lapse else c with
      viewUntil := none}
  if c.suspendedSince = none ∧ c.stopped = none then
    {lapsed.release with suspendedSince := some now, awaitingTicket := true}
  else lapsed

def tryResume (c : InputClient) : InputClient :=
  if c.awaitingTicket = false ∧ c.awaitingRecoveryTicket = false ∧ c.viewUntil.isSome then
    {c with suspendedSince := none}
  else c

end InputClient

abbrev Owner := Proc InputClient ClientError

def fail {α : Type} (reason : StopReason) : Owner α := do
  modify (·.stop reason)
  throw (.stopped ((← get).stopped.getD reason))

def failIf (c : Prop) [Decidable c] (reason : StopReason) : Owner Unit :=
  if c then fail reason else pure ()

def okOrFail {α : Type} (o : Option α) (reason : StopReason) : Owner α :=
  match o with
  | some a => pure a
  | none => fail reason

def checkStopped : Owner Unit := do
  match (← get).stopped with
  | some reason => throw (.stopped reason)
  | none => pure ()

def responderTick (now : ClientInstant) : Owner Unit := do
  match (← get).controlResponse with
  | none => pure ()
  | some r => do
    let reply := exec (ObservationResponder.tick now) r
    modify ({· with controlResponse := some reply.2})
    match reply.1 with
    | .ok _ => pure ()
    | .error error => do
      modify (·.stop .invalidControl)
      throw (.control error)

def suspendIf (c : Prop) [Decidable c] (now : ClientInstant) : Owner Unit :=
  if c then modify (·.suspend now) else pure ()

/-- Serviced on idle too. A receipt that comes after its timeout restores nothing. -/
def tick (now : ClientInstant) : Owner Unit := do
  checkStopped
  failIf (now < (← get).clock) .clockRegression
  modify ({· with clock := now})
  responderTick now
  failIf ((entries (← get).pending).any (·.deadline ≤ now) = true) .receiptTimeout
  suspendIf ((← get).viewUntil.any (· ≤ now) = true) now
  failIf ((← get).suspendedSince.any (maxClientSuspension ≤ now - ·) = true) .viewStale

/-! The view. -/

/-- Never under a live view, and only forward. -/
def advanceRecovery (generation : RecoveryGeneration) (now : ClientInstant) : Owner Unit := do
  tick now
  let c ← get
  refuseIf (c.suspendedSince = none ∧ c.viewUntil.isSome = true) .invalidTransition
  failIf (generation.supersedes c.credentials.view.recovery = false) .viewChanged
  modify fun c =>
    {c with
      credentials.view.recovery := generation
      viewUntil := none
      awaitingRecoveryTicket := true
      readiness := c.readiness.map fun _ => .new false
      observation := none}

def confirmMapping (session : RemoteSessionId) (view : InputView) (now : ClientInstant) :
    Owner Unit := do
  refuseIf (session ≠ (← get).credentials.session) .staleSession
  tick now
  failIf (view ≠ (← get).credentials.view) .viewChanged
  modify ({· with mapped := true})

/-- Delayed evidence cannot reset the age of what it shows. -/
def presented (evidence : PresentedObservation) (now : ClientInstant) : Owner Unit := do
  refuseIf (evidence.session ≠ (← get).credentials.session) .staleSession
  tick now
  let c ← get
  refuseIf (evidence.receivedAt < c.started) .obsoleteObservation
  failIf (evidence.view ≠ c.credentials.view) .viewChanged
  refuseIf (c.observation.any (evidence.serial ≤ ·) = true) .obsoleteObservation
  failIf (now < evidence.receivedAt) .clockRegression
  if c.viewBound < evidence.sourceAgeUpper then
    modify fun c => {c with observation := some evidence.serial}.suspend now
  else do
    let until_ ← okOrFail (checkedAdd evidence.receivedAt (c.viewBound - evidence.sourceAgeUpper))
      .counterExhausted
    modify ({· with observation := some evidence.serial})
    if until_ ≤ now then modify (·.suspend now)
    else modify fun c => {c with viewUntil := some until_}.tryResume

def suspendView (now : ClientInstant) : Owner Unit := modify (·.suspend now)

def setViewBound (bound : ℕ) : Owner Unit := do
  refuseIf (¬((← get).policy.viewAge ≤ bound ∧ bound ≤ maxViewBound)) .invalidConfiguration
  modify ({· with viewBound := bound})

/-- `source_age_bound_us`, with saturating arithmetic. -/
def sourceAgeBound (base : ℕ) (smoothedRtt : Option ℕ) (multiple : ℕ) : ℕ :=
  match smoothedRtt with
  | none => base
  | some rtt => max (min (min (base + min (rtt*multiple) (2^64-1)) (2^64-1)) maxSourceAge) base

def followPathRtt (smoothedRtt : Option ℕ) : Owner ℕ := do
  let bound := sourceAgeBound (← get).policy.viewAge smoothedRtt viewerRttMultiple
  setViewBound bound
  pure bound

/-! Taking back. -/

/-- While suspended, the last record that the transport never took is returned, and its sequence
is used again: the host sees no gap. -/
def abandonUnsent (unsent : Unsent) : Owner Unit := do
  let c ← get
  refuseIf (c.suspendedSince = none) .invalidTransition
  match unsent with
  | .action sequence => do
    refuseIf (c.nextAction ≠ checkedAdd sequence 1) .invalidTransition
    let slot ← okOr (firstIndex c.pending fun p => p.any (·.sequence = sequence)) .invalidTransition
    modify ({· with pending := erase c.pending slot, nextAction := some sequence})
  | .held sequence => do
    refuseIf (c.nextHeld ≠ checkedAdd sequence 1) .invalidTransition
    modify ({· with nextHeld := some sequence, heldAfter := none})
  | .pointer => pure ()

/-! Encoding. -/

/-- Everything that a new action or pointer state needs at this time. -/
def ready (now : ClientInstant) : Owner Unit := do
  tick now
  let c ← get
  refuseIf (c.suspendedSince.isSome = true) .viewSuspended
  refuseIf (c.awaitingRecoveryTicket = true ∨ c.ticketState.any (·.until_ ≤ now) = true)
    .ticketExpired
  refuseIf (c.mapped = false) .mappingUnconfirmed
  refuseIf (c.viewUntil = none) .noPresentedView

def require (capability : Capability) : Owner Unit := do
  refuseIf ((← get).capabilities.contains capability = false) .unsupported

/-- `position`. -/
def requirePosition (p : DesktopPoint) : Owner Unit := do
  require .absolute
  refuseIf ((← get).bounds.contains p = false) .outOfBounds

/-- Pointer states are replaceable: they take neither an action's sequence nor a receipt slot. -/
def pointer (position : DesktopPoint) (room : ℕ) (now : ClientInstant) : Owner Encoded := do
  ready now
  requirePosition position
  let sequence ← okOrFail (← get).nextPointer .counterExhausted
  let c ← get
  let bytes ← ofResult
    ((encodeInput ⟨c.credentials,sequence,.pointer position⟩ room c.limits c.binding.channel
    .viewerToHost .datagram).mapError .wire)
  modify ({· with nextPointer := checkedAdd sequence 1})
  pure ⟨bytes,sequence,.pointer⟩

/-- Native operations of a whole scroll on a host with discrete wheels, or two. -/
def compoundScroll (x y : Int32) : ScrollUnit → ℕ
  | .pixels => 2
  | .lines => ((LineScroll.new x y).map LineScroll.nativeOperations).getD 2

/-- `event`: the wire event of an action, and the least and the most that a whole one submits. -/
def event (action : Action) (barrier : ℕ) : Owner (InputEvent × ℕ × ℕ) := do
  match action with
  | .key key transition => do
    require .keys
    let c ← get
    refuseIf (transition ≠ .press ∧ c.keys key = false ∧ c.releasedKeys key = true)
      .releasedBySuspension
    refuseIf (decide (transition = .press) = c.keys key) .invalidTransition
    if transition = .repeat_ then
      require .repeat_
      pure (.key key transition,1,2)
    else pure (.key key transition,1,1)
  | .button button pressed position => do
    require .buttons
    requirePosition position
    let c ← get
    refuseIf (pressed = false ∧ c.buttons button = false ∧ c.releasedButtons button = true)
      .releasedBySuspension
    refuseIf (c.buttons button = pressed) .invalidTransition
    pure (.button button pressed position barrier,2,2)
  | .scroll position x y unit => do
    requirePosition position
    require (match unit with | .pixels => .pixelScroll | .lines => .lineScroll)
    let compound := compoundScroll x y unit
    pure (.scroll position barrier x y unit,min 2 compound,max 2 compound)
  | .text text => do
    require .text
    refuseIf (text.utf8ByteSize = 0 ∨ maxCommittedTextBytes < text.utf8ByteSize) .unsupported
    pure (.text text,text.length,text.length)

/-- What the owner remembers as held after an action. -/
def InputClient.remember (c : InputClient) : InputEvent → InputClient
  | .key key transition =>
    {c with
      keys := Function.update c.keys key (transition ≠ .release)
      releasedKeys := Function.update c.releasedKeys key false}
  | .button button pressed _ _ =>
    {c with
      buttons := Function.update c.buttons button pressed
      releasedButtons := Function.update c.releasedButtons button false}
  | _ => c

def Action.isCoordinate : Action → Bool
  | button .. | scroll .. => true
  | _ => false

/-- The barrier of a coordinate action takes a place among the pointer states. -/
def barrierOf (action : Action) : Owner ℕ := do
  if action.isCoordinate then okOrFail (← get).nextPointer .counterExhausted
  else pure 0

/-- A failed encoding consumes nothing. A successful one may have been sent. -/
def action (action : Action) (room : ℕ) (now : ClientInstant) : Owner Encoded := do
  ready now
  let slot ← okOr (firstIndex (← get).pending Option.isNone) .backpressure
  let sequence ← okOrFail (← get).nextAction .counterExhausted
  let barrier ← barrierOf action
  let (event,minimum,maximum) ← event action barrier
  let c ← get
  let deadline ← okOrFail (checkedAdd now c.policy.receiptTimeout) .counterExhausted
  let bytes ← ofResult ((encodeInput ⟨c.credentials,sequence,event⟩ room c.limits c.binding.channel
    .viewerToHost .reliable).mapError .wire)
  modify fun c =>
    {c.remember event with
      pending := store c.pending slot ⟨sequence,deadline,minimum,maximum⟩
      nextAction := checkedAdd sequence 1
      nextPointer := if action.isCoordinate then checkedAdd barrier 1 else c.nextPointer}
  pure ⟨bytes,sequence,.action⟩

/-! Held state. -/

/-- The byte whose bits are the members of `set` from `8*i` on. -/
def maskByte (set : ℕ → Bool) (i : ℕ) : Byte :=
  (List.range 8).foldl (fun acc j => if set (8*i+j) then acc ||| (1 <<< UInt8.ofNat j) else acc) 0

theorem and_ne_zero_left {a b m : Byte} (h : a &&& b &&& m ≠ 0) : a &&& m ≠ 0 := by
  intro hz
  apply h
  rw [UInt8.and_assoc,UInt8.and_comm b m,← UInt8.and_assoc,hz,UInt8.zero_and]

def restrictHeld (observed : HeldState) (keys : PhysicalKey → Bool)
    (buttons : PointerButton → Bool) : HeldState where
  keys := observed.keys.mapIdx fun i b =>
    b &&& maskByte (fun usage => (PhysicalKey.new usage).any keys) i
  buttons := observed.buttons &&& maskByte (fun i => PointerButton.all.any
    fun b => b.index = i && buttons b) 0
  length_keys := by
    rw [List.length_mapIdx]
    exact observed.length_keys
  valid := by
    refine ⟨?_,fun usage husage hset => observed.valid.2 usage husage ?_⟩
    · have hbuttons := observed.valid.1
      rw [UInt8.and_assoc,UInt8.and_comm (maskByte _ _),← UInt8.and_assoc,hbuttons,UInt8.zero_and]
    · have hlt : usage/8 < observed.keys.length := by
        rw [observed.length_keys]
        unfold keyBitmapBytes
        omega
      unfold keyBit at hset ⊢
      rw [List.getD_eq_getElem?_getD,List.getElem?_mapIdx,List.getElem?_eq_getElem hlt] at hset
      rw [List.getD_eq_getElem?_getD,List.getElem?_eq_getElem hlt]
      simp only [Option.map_some,Option.getD_some,ne_eq,decide_not,Bool.not_eq_true',
        decide_eq_false_iff_not] at hset ⊢
      exact and_ne_zero_left hset

/-- Only what this owner sent can stay held. The sample never creates a press. -/
def reconcileHeld (observed : HeldState) (room : ℕ) (now : ClientInstant) :
    Owner (Option EncodedHeldState) := do
  tick now
  let c ← get
  refuseIf (c.suspendedSince.isSome = true) .viewSuspended
  if c.heldAfter.any (now < ·) = true then pure none
  else do
    let sequence ← okOrFail c.nextHeld .counterExhausted
    let nextAction ← okOrFail c.nextAction .counterExhausted
    let nextDue ← okOrFail (checkedAdd now heldStateInterval) .counterExhausted
    let held := restrictHeld observed c.keys c.buttons
    let bytes ← ofResult
      ((encodeHeldState ⟨c.credentials.session,c.credentials.lease,sequence,nextAction,held⟩
      room c.limits c.binding.channel .viewerToHost .reliable).mapError .wire)
    modify fun c =>
      {c with
        keys := fun k => c.keys k && held.key k
        buttons := fun b => c.buttons b && held.button b
        nextHeld := checkedAdd sequence 1
        heldAfter := some nextDue}
    pure (some ⟨bytes,sequence,nextAction⟩)

end FrankenRemote.Client
