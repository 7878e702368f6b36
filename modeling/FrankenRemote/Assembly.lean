import FrankenRemote.Delivery

/-! One picture under reassembly: its bytes, the bit set of fragments seen, and the
soft and hard deadlines that repair requests follow. -/
namespace FrankenRemote.Delivery

open Wire Bytes Procedure Tiling

structure ReceivePolicy where
  displayBudgetMicros : ℕ
  referenceBudgetMicros : ℕ
  recoveryBudgetMicros : ℕ
  repairDelayMicros : ℕ
  repairIntervalMicros : ℕ
  maxRepairAttempts : ℕ
  deriving DecidableEq

def ReceivePolicy.default : ReceivePolicy := ⟨50000,250000,2000000,20000,60000,3⟩

def ReceivePolicy.validate (p : ReceivePolicy) : Except DeliveryError Unit :=
  if p.displayBudgetMicros = 0 ∨ p.referenceBudgetMicros < p.displayBudgetMicros ∨
      250000 < p.referenceBudgetMicros ∨ p.recoveryBudgetMicros = 0 ∨
      5000000 < p.recoveryBudgetMicros ∨ p.repairDelayMicros = 0 ∨
      p.referenceBudgetMicros ≤ p.repairDelayMicros ∨ p.repairIntervalMicros = 0 ∨
      p.referenceBudgetMicros < p.repairIntervalMicros ∨
      ¬(1 ≤ p.maxRepairAttempts ∧ p.maxRepairAttempts ≤ 8) then .error .invalidPolicy
  else .ok ()

structure ReceiveConfig where
  limits : MediaLimits
  bindings : MediaBindings
  epoch : MediaEpoch
  policy : ReceivePolicy
  deriving DecidableEq

inductive ReceiveUpdate
  | accepted | duplicate | obsolete | deferred | pictureComplete
  deriving DecidableEq, Repr

structure Assembly where
  descriptor : FrameDescriptor
  bytes : List Byte
  /-- Ledger credit of the reservation behind `bytes` and `seen`. -/
  charge : ℕ
  seen : List ℕ
  received : ℕ
  reliableOffset : Option ℕ
  reliableChunks : ℕ
  displayUntil : ℕ
  referenceUntil : ℕ
  nextRepair : ℕ
  receivedEnd : ℕ
  tailProbeAfter : ℕ
  prefixProbeAfter : Option ℕ
  repairAttempts : ℕ
  deriving DecidableEq

namespace Assembly

/-- Byte length, bit-set words and metadata of a picture. -/
def storage (platform : Platform) (d : FrameDescriptor) (reliable : Bool) :
    Except DeliveryError (ℕ × ℕ × ℕ) := do
  let count ← d.fragmentCount.mapError .wire
  let words := if reliable then 0 else (count+63)/64
  let metadata ← orElse (checkedAdd (words*8) platform.pictureRecords) .resourceLimit
  .ok (d.totalBytes,words,metadata)

/-- `n.checked_mul(8)`. -/
def wordBytes (n : ℕ) : Except DeliveryError ℕ :=
  if 2^64 ≤ n*8 then .error .resourceLimit else .ok (n*8)

/-- The bootstrap keeps the recovery's deadline; every other picture starts its own. -/
def referenceDeadline (policy : ReceivePolicy) (now : ℕ) :
    Option ℕ → Except DeliveryError ℕ
  | some t => .ok t
  | none => deadline now policy.referenceBudgetMicros

/-- A fresh picture beside the retained work `used`; only the bootstrap is reliable. -/
def new (platform : Platform) (budget : MediaBudget) (used : BudgetUsage) (d : FrameDescriptor)
    (config : ReceiveConfig) (now : ℕ) (reliableUntil : Option ℕ) :
    Except DeliveryError Assembly := do
  (d.validate config.limits).mapError .wire
  let (length,words,metadata) ← storage platform d reliableUntil.isSome
  let (charge,used) ← budget.allocate used platform length metadata
  let slack ← orElse (platform.reserveWords words) .allocationFailed
  let extra ← wordBytes slack
  let (charge,_) ← budget.grow used charge extra
  let displayUntil ← deadline now config.policy.displayBudgetMicros
  let referenceUntil ← referenceDeadline config.policy now reliableUntil
  let nextRepair ← deadline now config.policy.repairDelayMicros
  let tailProbeAfter ← deadline now config.policy.repairDelayMicros
  .ok {
    descriptor := d
    bytes := List.replicate length 0
    charge := charge
    seen := List.replicate words 0
    received := 0
    reliableOffset := reliableUntil.map fun _ => 0
    reliableChunks := 0
    displayUntil := displayUntil
    referenceUntil := referenceUntil
    nextRepair := nextRepair
    receivedEnd := 0
    tailProbeAfter := tailProbeAfter
    prefixProbeAfter := none
    repairAttempts := 0
  }

def complete (a : Assembly) : Prop := a.received = a.descriptor.totalBytes

instance (a : Assembly) : Decidable a.complete := inferInstanceAs (Decidable (_ = _))

def hasFragment (a : Assembly) (index : ℕ) : Bool := marked a.seen index

def hasPrefixHole (a : Assembly) : Prop :=
  a.received < min (a.receivedEnd*a.descriptor.stride) a.descriptor.totalBytes

instance (a : Assembly) : Decidable a.hasPrefixHole := inferInstanceAs (Decidable (_ < _))

/-- A unique fragment moves the tail probe; a prefix hole keeps its first grace. -/
def probe (a : Assembly) (now repairDelay : ℕ) : Assembly :=
  let tail := min (min (now+repairDelay) (2^64-1)) a.referenceUntil
  let first := if a.repairAttempts = 0 ∧ now < a.nextRepair then a.nextRepair else tail
  {a with
    tailProbeAfter := tail
    prefixProbeAfter := if a.hasPrefixHole then a.prefixProbeAfter.or (some first) else none}

def fragment (f : Fragment) (now repairDelay : ℕ) : Proc Assembly DeliveryError ReceiveUpdate := do
  let a ← get
  refuseIf (a.reliableOffset.isSome ∨ f.descriptor ≠ a.descriptor) .conflictingPicture
  match a.descriptor.fragmentRange f.index with
  | .error e => throw (.wire e)
  | .ok (start,stop) =>
    if a.hasFragment f.index then
      refuseIf (slice a.bytes start (stop-start) ≠ f.bytes) .conflictingPicture
      pure .duplicate
    else
      modify fun a => {a with bytes := splice a.bytes start f.bytes, seen := mark a.seen f.index}
      refuseIf (2^32 ≤ f.bytes.length) .resourceLimit
      modify fun a =>
        {a with
          received := a.received + f.bytes.length, receivedEnd := max a.receivedEnd (f.index+1)}
      modify (probe · now repairDelay)
      let a ← get
      pure (if a.complete then .pictureComplete else .accepted)

def recovery (c : RecoveryChunk) (maxChunks : ℕ) : Proc Assembly DeliveryError ReceiveUpdate := do
  let a ← get
  refuseIf (a.reliableOffset ≠ some c.offset ∨ a.descriptor.frame ≠ c.frame ∨
    a.descriptor.totalBytes ≠ c.totalBytes ∨ a.descriptor.captureMicros ≠ c.captureMicros ∨
    maxChunks ≤ a.reliableChunks) .noncontiguousRecovery
  let stop := c.offset + c.bytes.length
  refuseIf (a.bytes.length < stop) .noncontiguousRecovery
  modify fun a => {a with bytes := splice a.bytes c.offset c.bytes}
  refuseIf (2^32 ≤ stop) .resourceLimit
  modify fun a =>
    {a with received := stop, reliableOffset := some stop, reliableChunks := a.reliableChunks+1}
  let a ← get
  pure (if a.complete then .pictureComplete else .accepted)

def repairDue (a : Assembly) : ℕ := max a.nextRepair (a.prefixProbeAfter.getD a.tailProbeAfter)

/-- Maximal runs of missing fragments among the first `n`. -/
def holes (a : Assembly) : ℕ → List RepairRange
  | 0 => []
  | n+1 =>
    if a.hasFragment n then a.holes n
    else
      match (a.holes n).getLast? with
      | some last =>
        if last.stop = n then (a.holes n).dropLast ++ [⟨last.start,n+1⟩]
        else a.holes n ++ [⟨n,n+1⟩]
      | none => [⟨n,n+1⟩]

/-- Observed holes while the tail still moves, then everything missing. -/
def probedCount (a : Assembly) (now : ℕ) : Except DeliveryError ℕ :=
  if now < a.tailProbeAfter then .ok a.receivedEnd else a.descriptor.fragmentCount.mapError .wire

def missing (a : Assembly) (capacity now : ℕ) : Except DeliveryError (List RepairRange) := do
  let total ← a.probedCount now
  if capacity = 0 then .error .resourceLimit
  else .ok ((a.holes total).foldl (admitRange capacity) [])

end Assembly
end FrankenRemote.Delivery
