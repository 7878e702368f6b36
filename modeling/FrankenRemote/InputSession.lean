import FrankenRemote.AuthorityRun
import FrankenRemote.HeldState
import FrankenRemote.InputSequence

/-! The serialized final input boundary. One owner holds a granted lease, its ledger and what
it has pressed; the policy and the revocation flag are shared, and change between any two
calls that it makes. -/
namespace FrankenRemote.Input

open Procedure
open Authority (SessionAuthority AuthorityError ControlStatus)

inductive Capability
  | keys | repeat_ | absolute | buttons | relative | pixelScroll | lineScroll | text
  deriving DecidableEq, Repr

/-- A set of qualified operations, by membership. -/
structure Capabilities where
  contains : Capability → Bool

inductive WheelDirection
  | left | right | up | down
  deriving DecidableEq, Repr

inductive Operation
  | key (key : PhysicalKey) (transition : KeyTransition)
  | absolute (point : DesktopPoint)
  | button (button : PointerButton) (pressed : Bool)
  | relative (x y : Int32)
  | scroll (x y : Int32) (unit : ScrollUnit)
  | wheel (direction : WheelDirection) (pressed : Bool)
  | text (scalar : Char)
  deriving DecidableEq

def Operation.isRelease : Operation → Bool
  | key _ .release | button _ false | wheel _ false => true
  | _ => false

inductive PlatformError
  | unsupported | permission | geometryChanged | unavailable
  deriving DecidableEq, Repr

inductive Submission
  | submitted
  | notSubmitted (error : PlatformError)
  | unknown | expired | fenced
  deriving DecidableEq, Repr

inductive Refusal
  | authority (error : AuthorityError)
  | sequence (error : InputSequenceError)
  | staleSession | staleLease | staleView | outOfBounds | unsupported | invalidTransition
  | relativeOverflow | modeMismatch | revoked
  | platform (error : PlatformError)
  | unknownEffect | authorityUnavailable | expiredAtBoundary
  deriving DecidableEq, Repr

structure Receipt where
  sequence : ℕ
  outcome : InputOutcome
  submittedOperations : ℕ
  refusal : Option Refusal
  deriving DecidableEq

inductive Dispatch
  | completed (receipt : Receipt)
  | consumedWithoutReceipt
  | obsoletePointer
  deriving DecidableEq

structure Cleanup where
  submittedReleases : ℕ
  remaining : ℕ
  deriving DecidableEq

inductive ReconciliationOutcome
  | applied | ignored | refused | interrupted | effectUnknown
  deriving DecidableEq, Repr

structure Reconciliation where
  sequence : ℕ
  outcome : ReconciliationOutcome
  submittedReleases : ℕ
  remainingReleases : ℕ
  refusal : Option Refusal
  deriving DecidableEq

/-! Discrete wheels. -/

/-- `LINE`: one line in signed 16.16. -/
def line : ℤ := 65536

def maxSteps : ℕ := 32

structure LineScroll where
  horizontal : ℕ
  vertical : ℕ
  x : WheelDirection
  y : WheelDirection

namespace LineScroll

/-- Only a bounded number of whole lines is a number of steps. -/
def new (x y : Int32) : Option LineScroll :=
  if x.toInt.tmod line ≠ 0 ∨ y.toInt.tmod line ≠ 0 then none
  else
    let horizontal := (x.toInt.tdiv line).natAbs
    let vertical := (y.toInt.tdiv line).natAbs
    if maxSteps < horizontal+vertical then none
    else some ⟨horizontal,vertical,if x.toInt < 0 then .left else .right,if y.toInt < 0 then
      .up else .down⟩

/-- Submissions of the whole action, with the positioning before it. -/
def nativeOperations (s : LineScroll) : ℕ := 1+2*(s.horizontal+s.vertical)

def steps (s : LineScroll) : List WheelDirection :=
  List.replicate s.horizontal s.x ++ List.replicate s.vertical s.y

end LineScroll

/-! The owner. -/

/-- Every usage that a key can have, in the order of the key array. -/
def PhysicalKey.all : List PhysicalKey := (List.range 256).filterMap PhysicalKey.new

def PointerButton.all : List PointerButton := [.primary,.secondary,.middle,.back,.forward]

/-- Synthetic held state: what this owner may have pressed. The entries of reserved usages are
never written and are left out. -/
structure SyntheticHeld where
  keys : PhysicalKey → Bool
  buttons : PointerButton → Bool
  wheel : Option WheelDirection

namespace SyntheticHeld

def none_ : SyntheticHeld := ⟨fun _ => false,fun _ => false,none⟩

/-- A press counts from the moment it may happen, a release only once it is confirmed. -/
def track (h : SyntheticHeld) (op : Operation) (before : Bool) : SyntheticHeld :=
  match op,before with
  | .wheel direction true,_ => {h with wheel := some direction}
  | .wheel _ false,false => {h with wheel := none}
  | .key key .press,_ => {h with keys := Function.update h.keys key true}
  | .key key .release,false => {h with keys := Function.update h.keys key false}
  | .button button true,_ => {h with buttons := Function.update h.buttons button true}
  | .button button false,false => {h with buttons := Function.update h.buttons button false}
  | _,_ => h

/-- Take back the tracking of a press that certainly did not happen. -/
def restore (h old : SyntheticHeld) (op : Operation) : SyntheticHeld :=
  match op with
  | .wheel _ true => {h with wheel := old.wheel}
  | .key key .press => {h with keys := Function.update h.keys key (old.keys key)}
  | .button button true => {h with buttons := Function.update h.buttons button (old.buttons button)}
  | _ => h

def tracked (h : SyntheticHeld) : Operation → Bool
  | .key key _ => h.keys key
  | .button button _ => h.buttons button
  | .wheel direction _ => h.wheel = some direction
  | _ => false

def heldCount (h : SyntheticHeld) : ℕ :=
  PhysicalKey.all.countP h.keys + PointerButton.all.countP h.buttons + h.wheel.isSome.toNat

end SyntheticHeld

/-- What is kept against replays. -/
structure ReplayRecord where
  ledger : InputSequenceLedger
  receipts : ℕ → Option Receipt
  receiptCursor : ℕ

structure InputSession extends SyntheticHeld, ReplayRecord where
  session : RemoteSessionId
  lease : InputLeaseId
  /-- The claim by which the shared policy knows this owner. -/
  nativeOwner : ℕ
  view : InputView
  bounds : InputBounds
  capabilities : Capabilities
  pointerFloor : Option ℕ
  mode : PointerMode
  modeEpoch : ℕ
  cumulative : Int64 × Int64
  reconciliationFloor : Option ℕ
  reconciliation : Option Reconciliation
  clock : HostInstant

/-- `retained_receipt`. -/
def ReplayRecord.retainedReceipt (r : ReplayRecord) (sequence : ℕ) : Option Receipt :=
  (Ring.recent maxRetainedInputReceipts r.receipts).find? (·.sequence = sequence)

/-- The granted view at the latest recovery generation that the media owner installed. -/
def InputView.followRecovery (view : InputView) (authority : SessionAuthority) : InputView :=
  match authority.recovery with
  | some generation =>
    if generation.supersedes view.recovery then {view with recovery := generation} else view
  | none => view

/-- Attach native input to a policy that already granted the lease. -/
def fromSharedAuthority (credentials : InputCredentials) (bounds : InputBounds)
    (capabilities : Capabilities) (now : HostInstant) :
    Proc SessionAuthority Refusal InputSession := do
  let a ← get
  refuseIf (a.session ≠ credentials.session) .staleSession
  adapt .authority (Authority.authorizeSubmission credentials.lease credentials.ticket
    (a.serializedTime now))
  let nativeOwner ← adapt .authority (Authority.claimNativeOwner credentials.lease)
  let ledger ← ofResult
    ((InputSequenceLedger.new credentials.lease maxRetainedInputReceipts).mapError .sequence)
  pure
    { toSyntheticHeld := .none_
      ledger
      receipts := fun _ => none
      receiptCursor := 0
      session := credentials.session
      lease := credentials.lease
      nativeOwner
      view := credentials.view
      bounds
      capabilities
      pointerFloor := none
      mode := .absolute
      modeEpoch := 0
      cumulative := (0,0)
      reconciliationFloor := none
      reconciliation := none
      clock := now }

/-! Its surroundings. -/

/-- What other holders of the policy and of the revoke handle may do at any time. -/
inductive Interference
  | revoke
  | authority (op : Authority.Op)

/-- What the clock or the sink answers to one call. A sink may call back any number of times
before it answers an authorized submission, and any call may unwind instead of returning. -/
structure Answer where
  clock : HostInstant
  prepared : Except PlatformError Unit
  submission : Submission
  callbacks : ℕ
  authorized : Except Refusal Submission
  repeatRequiresPair : Bool
  lineScrollRequiresPairs : Bool
  panics : Bool

/-- A call that unwinds at once, which is also the answer of exhausted surroundings. -/
def Answer.unwinds : Answer where
  clock := 0
  prepared := .ok ()
  submission := .unknown
  callbacks := 0
  authorized := .ok .unknown
  repeatRequiresPair := false
  lineScrollRequiresPairs := false
  panics := true

/-- What an observer sees, in order. -/
inductive Occurrence
  /-- A call on the shared policy, by anyone, and how much the owner held then. -/
  | authority (held : ℕ) (event : Authority.Event)
  | revoke
  | prepare (op : Operation)
  /-- The final check let a request submit, for the view installed then. -/
  | warrant (credentials : InputCredentials) (view : InputView) (op : Operation)
  /-- An authorized submission returned, with a check of its own that passed or without. -/
  | report (op : Operation) (warranted : Bool) (result : Except Refusal Submission)
  /-- An authorized submission unwound. -/
  | unwound (op : Operation) (warranted : Bool)
  /-- A submission without a final check, and whether its input was tracked then. -/
  | submit (op : Operation) (tracked : Bool) (result : Submission)
  | record (receipt : Receipt) (pointer : Bool)

/-- The attempt at one admitted action. -/
structure Attempt where
  submitted : ℕ
  uncertain : Bool

structure World extends InputSession, Attempt where
  authority : SessionAuthority
  revoked : Bool
  schedule : List (List Interference)
  answers : List Answer
  trail : List Occurrence

namespace World

def note (w : World) (o : Occurrence) : World := {w with trail := w.trail ++ [o]}

/-- The one-way flag, without the ledger. -/
def flag (w : World) : World := {w with revoked := true}.note .revoke

def consult (w : World) (op : Authority.Op) : World :=
  {w with authority := (Authority.step w.authority op).2}.note
    (.authority w.heldCount ⟨w.authority,op,(Authority.step w.authority op).1⟩)

def disturb (w : World) : Interference → World
  | .revoke => w.flag
  | .authority op => w.consult op

/-- The others take their turn. -/
def interleave (w : World) : World :=
  (w.schedule.headD []).foldl disturb {w with schedule := w.schedule.tail}

/-- Fence first: the flag is set before the ledger. -/
def revoke (w : World) : World := {w.flag with ledger := w.ledger.fence}

def isActive (w : World) : Bool := !w.revoked && !w.ledger.fenced

end World

/-- Why a call did not return: a refusal, or a call out of the owner that unwound. -/
inductive Stop
  | refused (refusal : Refusal)
  | panicked
  deriving DecidableEq

abbrev Owner := Proc World Stop

/-! Calls on the surroundings. The others run before each of them. -/

def others : Owner Unit := modify World.interleave

def ask : Owner Answer := do
  others
  let w ← get
  modify ({· with answers := w.answers.tail})
  pure (w.answers.headD .unwinds)

def sampleClock : Owner HostInstant := do
  let a ← ask
  refuseIf (a.panics = true) .panicked
  pure a.clock

def prepare (op : Operation) : Owner (Except PlatformError Unit) := do
  let a ← ask
  modify (·.note (.prepare op))
  refuseIf (a.panics = true) .panicked
  pure a.prepared

def repeatRequiresPair : Owner Bool := do
  let a ← ask
  refuseIf (a.panics = true) .panicked
  pure a.repeatRequiresPair

def lineScrollRequiresPairs : Owner Bool := do
  let a ← ask
  refuseIf (a.panics = true) .panicked
  pure a.lineScrollRequiresPairs

/-- A native call that unwinds has an unknown effect. -/
def submit (op : Operation) : Owner Submission := do
  let a ← ask
  modify fun w => w.note (.submit op (w.tracked op) (if a.panics then .unknown else a.submission))
  refuseIf (a.panics = true) .panicked
  pure a.submission

/-- `with`: one call on the policy, for the granted lease of this very owner. -/
def locked (op : SessionAuthority → Authority.Op) : Owner Authority.Reply := do
  others
  refuseIf ((← get).revoked = true) (.refused .revoked)
  others
  let w ← get
  refuseIf (w.revoked = true) (.refused .revoked)
  refuseIf (w.authority.leaseId ≠ some w.lease ∨ ¬w.authority.isNativeOwner w.nativeOwner)
    (.refused (.authority .staleLease))
  modify (·.consult (op w.authority))
  pure (Authority.step w.authority (op w.authority)).1

/-- A sample behind the owner's own clock is terminal. One that another writer overtook is not. -/
def withTime (sampled : HostInstant) (op : HostInstant → Authority.Op) : Owner Authority.Reply := do
  let w ← get
  if sampled < w.clock then
    modify World.flag
    throw (.refused (.authority .clockRegression))
  else
    modify ({· with clock := sampled})
    locked fun a => op (a.serializedTime sampled)

/-- The policy answers a call in the kind of that call. -/
def instantOf : Authority.Reply → Owner HostInstant
  | .instant r => ofResult (r.mapError fun e => .refused (.authority e))
  | _ => throw .panicked

def statusOf : Authority.Reply → Owner ControlStatus
  | .status r => ofResult (r.mapError fun e => .refused (.authority e))
  | _ => throw .panicked

def doneOf : Authority.Reply → Owner Unit
  | .done r => ofResult (r.mapError fun e => .refused (.authority e))
  | _ => throw .panicked

/-- A Boolean check whose refusal has one error. -/
def flagOf (error : AuthorityError) : Authority.Reply → Owner Unit
  | .flag b => refuseIf (b = false) (.refused (.authority error))
  | _ => throw .panicked

def checkActive : Owner Unit := do
  others
  refuseIf ((← get).isActive = false) (.refused .revoked)

end FrankenRemote.Input
