import FrankenRemote.Assembly
import FrankenRemote.SlotTable
import Mathlib.Data.List.MinMax

/-! One receiver subscription: admission of fragments, recovery chunks and announcements
into a fixed slot table, and the hand-over of complete pictures to one decoder. -/
namespace FrankenRemote.Delivery

open Wire Bytes Procedure SlotTable

inductive ReceiveState
  | awaitingConfiguration | awaitingRecovery | decodingRecovery | streaming | needsRecovery | closed
  deriving DecidableEq, Repr

structure InFlight where
  frame : ℕ
  deadline : ℕ
  deriving DecidableEq

/-- A complete picture handed to the decoder with its reservation. -/
structure ReceivedPicture where
  scope : ℕ
  descriptor : FrameDescriptor
  epoch : MediaEpoch
  bindings : MediaBindings
  queueFresh : Bool
  newest : Bool
  displayUntil : ℕ
  referenceUntil : ℕ
  bytes : List Byte
  /-- Ledger that the picture's reservation belongs to. -/
  ledger : ℕ
  deriving DecidableEq

structure RepairOffer where
  packet : List Byte
  frame : ℕ
  referenceDeadline : ℕ
  deriving DecidableEq

/-- `REASSEMBLY_WINDOW_CEILING`. -/
abbrev windowCeiling : ℕ := 12

structure ReceivePipeline where
  /-- Identity and state of the fence that pictures of this epoch share. -/
  scope : ℕ
  live : Bool
  config : ReceiveConfig
  budget : MediaBudget
  /-- Ledger credit of everything outside the slot table. -/
  outside : BudgetUsage
  state : ReceiveState
  failure : Option DeliveryError
  failureAt : Option ℕ
  activeSlots : ℕ
  slots : Slots windowCeiling Assembly
  lastNow : Option ℕ
  recoveryUntil : Option ℕ
  recoveryFrame : Option ℕ
  lastDecoded : Option ℕ
  inFlight : Option InFlight
  progress : Option Progress

abbrev Receiver := Proc ReceivePipeline DeliveryError

namespace ReceivePipeline

/-- A pipeline with its own fence, on a ledger where `outside` is already charged. -/
def new (config : ReceiveConfig) (budget : MediaBudget) (outside : BudgetUsage) :
    Except DeliveryError ReceivePipeline := do
  config.policy.validate
  if ¬budget.fits config.limits.protocol then .error .resourceLimit
  else .ok {
    scope := 0
    live := true
    config := config
    budget := budget
    outside := outside
    state := .awaitingConfiguration
    failure := none
    failureAt := none
    activeSlots := config.limits.protocol.reassemblyWindowPictures
    slots := vacant
    lastNow := none
    recoveryUntil := none
    recoveryFrame := none
    lastDecoded := none
    inFlight := none
    progress := none
  }

def used (r : ReceivePipeline) : BudgetUsage :=
  ⟨r.outside.bytes + ((entries r.slots).map (·.charge)).sum,r.outside.pictures +
    (entries r.slots).length⟩

def clear (r : ReceivePipeline) : ReceivePipeline :=
  {r with
    live := false
    failureAt := none
    slots := vacant
    inFlight := none
    recoveryUntil := none
    recoveryFrame := none
    lastDecoded := none
    progress := none}

def close (r : ReceivePipeline) : ReceivePipeline := {r.clear with state := .closed}

/-- The state after a failure; a closed pipeline stays closed. -/
def failed (r : ReceivePipeline) (e : DeliveryError) : ReceivePipeline :=
  {r.clear with
    failure := some e
    failureAt := r.lastNow
    state := if r.state = .closed then .closed else .needsRecovery}

def located (r : ReceivePipeline) (frame : ℕ) : Option (Fin windowCeiling × Assembly) :=
  (indexed r.slots).find? (·.2.descriptor.frame = frame)

/-- The newest complete independent datagram picture, once streaming. -/
def queuedIndependentFrame (r : ReceivePipeline) : Option ℕ :=
  if r.state ≠ .streaming then none
  else
    (((entries r.slots).filter fun a =>
      a.complete ∧ a.reliableOffset.isNone ∧ a.descriptor.reference.isNone).map
        (·.descriptor.frame)).max?

def obsolete (r : ReceivePipeline) (frame : ℕ) : Prop :=
  r.lastDecoded.any (frame ≤ ·) ∨ r.inFlight.any (frame ≤ ·.frame) ∨
    r.queuedIndependentFrame.any (frame < ·)

instance (r : ReceivePipeline) (frame : ℕ) : Decidable (r.obsolete frame) :=
  inferInstanceAs (Decidable (_ ∨ _ ∨ _))

/-- A complete independent candidate retires everything older. -/
def discardSuperseded (r : ReceivePipeline) : ReceivePipeline :=
  match r.queuedIndependentFrame with
  | none => r
  | some frame => {r with slots := discard r.slots (·.descriptor.frame < frame)}

/-- What the decoder may take: the bootstrap, then whatever extends the decoded chain. -/
def eligible (r : ReceivePipeline) (a : Assembly) : Bool :=
  match r.state with
  | .awaitingRecovery => a.reliableOffset.isSome ∧ r.recoveryFrame = some a.descriptor.frame
  | .streaming => a.descriptor.reference = none ∨ a.descriptor.reference = r.lastDecoded
  | _ => false

/-- The complete eligible picture with the least frame. -/
def selected (r : ReceivePipeline) : Option (Fin windowCeiling × Assembly) :=
  ((indexed r.slots).filter fun (_,a) => a.complete ∧ r.eligible a).argmin (·.2.descriptor.frame)

end ReceivePipeline

open ReceivePipeline

/-! Procedures. -/

def fail {α : Type} (e : DeliveryError) : Receiver α := do
  modify (failed · e)
  throw e

def checkClock (now : ℕ) : Receiver Unit := do
  let r ← get
  if r.lastNow.any (now < ·) then
    modify fun r => {r.close with failure := some .clockRegression}
    throw .clockRegression
  else modify ({· with lastNow := some now})

def tick (now : ℕ) : Receiver Unit := do
  checkClock now
  let r ← get
  if ¬r.live ∧ ¬(r.state = .needsRecovery ∨ r.state = .closed) then
    modify close
    throw .wrongState
  else if r.state = .needsRecovery ∨ r.state = .closed then throw (r.failure.getD .wrongState)
  else if r.recoveryUntil.any (· ≤ now) then fail .recoveryExpired
  else if r.inFlight.any (·.deadline ≤ now) ∨
      (entries r.slots).any (·.referenceUntil ≤ now) then fail .referenceExpired
  else pure ()

/-- The slot of this picture, fresh if none assembles its frame. -/
def slot (platform : Platform) (d : FrameDescriptor) (now : ℕ) (reliable : Bool) :
    Receiver (Fin windowCeiling) := do
  let r ← get
  match r.located d.frame with
  | some (i,a) =>
    refuseIf (a.descriptor ≠ d ∨ a.reliableOffset.isSome ≠ reliable) .conflictingPicture
    pure i
  | none =>
    let (length,_,metadata) ← ofResult (Assembly.storage platform d reliable)
    ofResult (r.budget.checkAllocation length metadata)
    let i ← okOr ((List.finRange windowCeiling).find? fun i =>
      i.val < r.activeSlots ∧ (r.slots i).isNone) .referenceCapacityExceeded
    let t ← okOr (if reliable then r.recoveryUntil.map some else some none) .wrongState
    let a ← ofResult (Assembly.new platform r.budget r.used d r.config now t)
    modify fun r => {r with slots := store r.slots i a}
    pure i

/-- Datagrams may overtake the reliable bootstrap, but only into space it does not need. -/
def datagramSlot (platform : Platform) (d : FrameDescriptor) (now : ℕ) :
    Receiver (Option (Fin windowCeiling)) := do
  let r ← get
  if r.state ≠ .awaitingRecovery ∨ r.recoveryFrame.isSome ∨ (r.located d.frame).isSome then
    let i ← slot platform d now false
    pure (some i)
  else
    ofResult ((d.validate r.config.limits).mapError .wire)
    let (length,_,metadata) ← ofResult (Assembly.storage platform d false)
    ofResult (r.budget.checkAllocation length metadata)
    let recoveryBytes ← okOr (checkedAdd r.config.limits.protocol.maxEncodedAccessUnitBytes
      platform.pictureRecords) .resourceLimit
    let required ← okOr ((checkedAdd length metadata).bind (checkedAdd · recoveryBytes))
      .resourceLimit
    if r.activeSlots - 1 ≤ (entries r.slots).length ∨ ¬r.budget.hasHeadroom r.used required 2 then
      pure none
    else
      let i ← slot platform d now false
      let r ← get
      if r.budget.hasHeadroom r.used recoveryBytes 1 then pure (some i)
      else
        modify fun r => {r with slots := erase r.slots i}
        pure none

/-- Run a picture's own procedure in place. -/
def onSlot {α : Type} (i : Fin windowCeiling) (m : Proc Assembly DeliveryError α) : Receiver α := do
  let r ← get
  let a ← okOr (r.slots i) .wrongState
  modify fun r => {r with slots := store r.slots i (exec m a).2}
  ofResult (exec m a).1

def onFragment (platform : Platform) (f : Fragment) (now : ℕ) : Receiver ReceiveUpdate := do
  let r ← get
  if r.obsolete f.descriptor.frame then pure .obsolete
  else
    match ← datagramSlot platform f.descriptor now with
    | none => pure .deferred
    | some i =>
      let update ← onSlot i (Assembly.fragment f now r.config.policy.repairDelayMicros)
      if update = .pictureComplete then modify discardSuperseded
      pure update

def onRecovery (platform : Platform) (c : RecoveryChunk) (now : ℕ) : Receiver ReceiveUpdate := do
  let r ← get
  refuseIf (r.state ≠ .awaitingRecovery) .wrongState
  refuseIf (r.recoveryFrame.any (· ≠ c.frame)) .conflictingPicture
  let i ← slot platform ⟨c.frame,c.totalBytes,r.config.limits.fragmentStride,c.captureMicros,none⟩
    now true
  modify ({· with recoveryFrame := some c.frame})
  onSlot i (Assembly.recovery c r.config.limits.maxFragments)

def onProgress (platform : Platform) (p : Progress) (now : ℕ) : Receiver ReceiveUpdate := do
  let r ← get
  if p.pipeline = .failed then throw .referenceExpired
  else if r.progress.any (p.descriptor.frame < ·.descriptor.frame) then pure .obsolete
  else if r.obsolete p.descriptor.frame then
    modify ({· with progress := some p})
    pure .obsolete
  else if r.state = .awaitingRecovery ∧ p.descriptor.reference = none ∧
      r.recoveryFrame.all (· = p.descriptor.frame) then
    -- The first independent announcement declares the bootstrap.
    let _ ← slot platform p.descriptor now true
    modify ({· with recoveryFrame := some p.descriptor.frame, progress := some p})
    pure .accepted
  else
    let i ← datagramSlot platform p.descriptor now
    refuseIf (i = none) .referenceCapacityExceeded
    modify ({· with progress := some p})
    pure .accepted

/-- Read the record of a channel as its one message and apply it. -/
def dispatch (platform : Platform) (channel : Channel) (record : Record) (now : ℕ) :
    Receiver ReceiveUpdate := do
  let r ← get
  match channel with
  | .video =>
    let f ← ofResult ((decodeFragment record r.config.limits).mapError .wire)
    onFragment platform f now
  | .recovery =>
    let c ← ofResult ((decodeRecovery record r.config.limits).mapError .wire)
    onRecovery platform c now
  | .mediaConfig =>
    let p ← ofResult ((decodeProgress record r.config.limits).mapError .wire)
    onProgress platform p now
  | .control => throw (.wire .wrongChannel)

/-- Only an established chain may abandon bounded work; a startup that does not fit is
refused for good, and a record in the wrong state is ignored. -/
def settle (e : DeliveryError) : Receiver ReceiveUpdate := do
  let r ← get
  if e = .wrongState then throw .wrongState
  else if e = .referenceCapacityExceeded ∧ r.state ≠ .streaming then fail .resourceLimit
  else fail e

/-- The states in which media is admitted. -/
def ReceiveState.admits : ReceiveState → Bool
  | .awaitingRecovery | .decodingRecovery | .streaming => true
  | _ => false

def receive (platform : Platform) (channel : Channel) (packet : List Byte) (now : ℕ) :
    Receiver ReceiveUpdate := do
  let r ← get
  match Record.decode packet r.config.limits (r.config.bindings.forChannel channel) channel with
  | .error .invalidBinding => throw .staleGeneration
  | .error e => fail (.wire e)
  | .ok record =>
    tick now
    let r ← get
    refuseIf (¬r.state.admits) .wrongState
    tryCatch (dispatch platform channel record now) settle

/-- The pipeline once this picture has gone to the decoder. -/
def ReceivePipeline.handedOver (r : ReceivePipeline) (i : Fin windowCeiling) (a : Assembly) :
    ReceivePipeline :=
  let slots := erase r.slots i
  {r with
    slots := if a.descriptor.reference = none
      then discard slots (·.descriptor.frame < a.descriptor.frame) else slots
    outside := ⟨r.outside.bytes + a.charge,r.outside.pictures + 1⟩
    state := if r.state = .awaitingRecovery then .decodingRecovery else r.state
    inFlight := some ⟨a.descriptor.frame,a.referenceUntil⟩}

/-- The hand-over value of this picture, in the state that it leaves. -/
def ReceivePipeline.picture (r : ReceivePipeline) (a : Assembly) (now : ℕ) : ReceivedPicture where
  scope := r.scope
  descriptor := a.descriptor
  epoch := r.config.epoch
  bindings := r.config.bindings
  queueFresh := now < a.displayUntil
  newest := r.progress.all (·.descriptor.frame ≤ a.descriptor.frame) &&
    !(entries r.slots).any (a.descriptor.frame < ·.descriptor.frame)
  displayUntil := a.displayUntil
  referenceUntil := a.referenceUntil
  bytes := a.bytes
  ledger := r.budget.ledger

def takeDecodable (now : ℕ) : Receiver (Option ReceivedPicture) := do
  tick now
  let r ← get
  if r.inFlight.isSome then pure none
  else
    match r.selected with
    | none => pure none
    | some (i,a) =>
      modify (·.handedOver i a)
      let r ← get
      pure (some (r.picture a now))

def acknowledgeDecode (p : ReceivedPicture) (success : Bool) (now : ℕ) : Receiver Unit := do
  let r ← get
  refuseIf (p.scope ≠ r.scope ∨ ¬r.live ∨ p.epoch ≠ r.config.epoch ∨
    p.bindings ≠ r.config.bindings ∨ p.ledger ≠ r.budget.ledger) .staleGeneration
  tick now
  let r ← get
  refuseIf (r.inFlight.all (·.frame ≠ p.descriptor.frame)) .decodeMismatch
  if success then
    modify fun r =>
      {r with
        lastDecoded := some p.descriptor.frame
        inFlight := none
        recoveryUntil := none
        state := .streaming}
    modify discardSuperseded
  else fail .decodeFailed

/-- Narrow the active window to the reference horizon of an admitted frame rate. -/
def configureFrameRate (fps : ℕ) : Receiver ℕ := do
  let r ← get
  refuseIf (¬(1 ≤ fps ∧ fps ≤ 240)) .invalidPolicy
  refuseIf (r.state ≠ .awaitingConfiguration ∨ r.inFlight.isSome ∨ entries r.slots ≠ []) .wrongState
  let requested := (fps*r.config.policy.referenceBudgetMicros + 999999)/1000000 + 2
  let active := max 2 (min requested r.config.limits.protocol.reassemblyWindowPictures)
  modify ({· with activeSlots := active})
  pure active

def decoderConfigured (now : ℕ) : Receiver Unit := do
  checkClock now
  let r ← get
  refuseIf (r.state ≠ .awaitingConfiguration) .wrongState
  let t ← ofResult (deadline now r.config.policy.recoveryBudgetMicros)
  modify ({· with recoveryUntil := some t, state := .awaitingRecovery})

/-- The incomplete datagram picture with the least frame whose repair is due. -/
def ReceivePipeline.repairable (r : ReceivePipeline) (now : ℕ) :
    Option (Fin windowCeiling × Assembly) :=
  ((indexed r.slots).filter fun (_,a) =>
    ¬a.complete ∧ a.reliableOffset.isNone ∧ a.repairDue ≤ now ∧
      a.repairAttempts < r.config.policy.maxRepairAttempts).argmin (·.2.descriptor.frame)

def repairOffer (room now : ℕ) : Receiver (Option RepairOffer) := do
  tick now
  let r ← get
  match r.repairable now with
  | none => pure none
  | some (i,a) =>
    let limits := r.config.limits
    let ranges ← ofResult (a.missing (min limits.maxRepairRanges ((limits.recordBytes - 36)/8)) now)
    let next ← ofResult (deadline now r.config.policy.repairIntervalMicros)
    let count ← ofResult (a.descriptor.fragmentCount.mapError .wire)
    let packet ← ofResult ((encodeRepair a.descriptor.frame ranges count
      (r.config.bindings.forChannel .control) limits room).mapError .wire)
    let asked := {a with nextRepair := next, repairAttempts := a.repairAttempts+1}
    modify fun r => {r with slots := store r.slots i asked}
    pure (some ⟨packet,a.descriptor.frame,a.referenceUntil⟩)

/-- Install a later epoch with later bindings; everything of the old one is fenced. -/
def replace (epoch : MediaEpoch) (bindings : MediaBindings) (now : ℕ) : Receiver Unit := do
  checkClock now
  let r ← get
  refuseIf (r.state = .closed) .wrongState
  refuseIf (¬epoch.replaces r.config.epoch ∨ ¬bindings.allNewerThan r.config.bindings)
    .staleGeneration
  modify fun r =>
    {r.clear with
      scope := r.scope+1
      live := true
      config := {r.config with epoch := epoch, bindings := bindings}
      state := .awaitingConfiguration
      failure := none}

end FrankenRemote.Delivery
