import FrankenRemote.WireMedia
import FrankenRemote.Primitives

/-! Shared parts of encoded-media delivery: bindings, epochs, deadlines, and the ledger
that charges every compressed picture a receiver retains. -/
namespace FrankenRemote.Delivery

open Wire

inductive DeliveryError
  | wire (error : WireError) | invalidPolicy | wrongState | resourceLimit
  | referenceCapacityExceeded | allocationFailed | conflictingPicture | noncontiguousRecovery
  | referenceExpired | recoveryExpired | clockRegression | clockOverflow | staleGeneration
  | decodeFailed | decodeMismatch
  deriving DecidableEq, Repr

/-- `o.ok_or(e)`. -/
def orElse {ε α : Type} (o : Option α) (e : ε) : Except ε α :=
  match o with
  | some a => .ok a
  | none => .error e

/-- Installed channel bindings of one subscription. -/
structure MediaBindings where
  video : UInt32
  recovery : UInt32
  progress : UInt32
  repair : UInt32
  deriving DecidableEq

namespace MediaBindings

def new (video recovery progress repair : UInt32) : Except DeliveryError MediaBindings :=
  if 0 ∈ [video,recovery,progress,repair] ∨ ¬[video,recovery,progress,repair].Nodup then
    .error .staleGeneration
  else .ok ⟨video,recovery,progress,repair⟩

/-- The negotiated layout shares the video binding with its progress and repair lanes. -/
def negotiated (video recovery : UInt32) : Except DeliveryError MediaBindings :=
  if video = 0 ∨ recovery = 0 ∨ video = recovery then .error .staleGeneration
  else .ok ⟨video,recovery,video,video⟩

def forChannel (b : MediaBindings) : Channel → ℕ
  | .video => b.video.toNat
  | .recovery => b.recovery.toNat
  | .mediaConfig => b.progress.toNat
  | .control => b.repair.toNat

def allNewerThan (b old : MediaBindings) : Bool :=
  let highest := max (max (max old.video.toNat old.recovery.toNat) old.progress.toNat)
    old.repair.toNat
  [b.video,b.recovery,b.progress,b.repair].all (highest < ·.toNat)

theorem forChannel_lt (b : MediaBindings) (ch : Channel) : b.forChannel ch < 256^4 := by
  cases ch <;> exact UInt32.toNat_lt _

end MediaBindings

structure MediaEpoch where
  configuration : ℕ
  recovery : ℕ
  deriving DecidableEq

/-- A later configuration, or a later recovery of the same one. -/
def MediaEpoch.replaces (e old : MediaEpoch) : Prop :=
  old.configuration < e.configuration ∨
    (e.configuration = old.configuration ∧ old.recovery < e.recovery)

instance (e old : MediaEpoch) : Decidable (e.replaces old) :=
  inferInstanceAs (Decidable (_ ∨ _))

/-- The current epoch, or one that the current epoch replaced. -/
def Since (epoch current : MediaEpoch) : Prop := epoch = current ∨ current.replaces epoch

theorem MediaEpoch.replaces_irrefl (e : MediaEpoch) : ¬e.replaces e := by
  unfold MediaEpoch.replaces
  omega

theorem Since.replaced {e c next : MediaEpoch} (h : Since e c) (hn : next.replaces c) :
    next.replaces e := by
  rcases h with rfl | h
  · exact hn
  · unfold MediaEpoch.replaces at *
    omega

def deadline (now duration : ℕ) : Except DeliveryError ℕ :=
  orElse (checkedAdd now duration) .clockOverflow

theorem deadline_eq_ok {now d t} (h : deadline now d = .ok t) : now+d = t ∧ t < 2^64 := by
  cases hadd : checkedAdd now d with
  | none =>
    rw [deadline,hadd] at h
    cases h
  | some u =>
    rw [deadline,hadd] at h
    cases h
    exact checkedAdd_eq_some.mp hadd

theorem deadline_eq_error {now d e} (h : deadline now d = .error e) :
    e = .clockOverflow ∧ 2^64 ≤ now+d := by
  cases hadd : checkedAdd now d with
  | some u =>
    rw [deadline,hadd] at h
    cases h
  | none =>
    rw [deadline,hadd] at h
    cases h
    refine ⟨rfl,not_lt.mp fun hlt => ?_⟩
    cases hadd.symm.trans (checkedAdd_eq_some.mpr ⟨rfl,hlt⟩)

/-! The ledger. Its usage is passed in: it is the credit of every reservation that still
has an owner, and a reservation that is dropped is no longer counted. -/

structure BudgetUsage where
  bytes : ℕ
  pictures : ℕ
  deriving DecidableEq

/-- The allowance shared by all generations of one viewer. -/
structure MediaBudget where
  /-- Identity of the shared ledger. -/
  ledger : ℕ
  maxBytes : ℕ
  maxPictures : ℕ
  deriving DecidableEq

/-- What the target decides: the size of the two picture records, and how much more
than requested the allocator returns, if it succeeds. -/
structure Platform where
  pictureRecords : ℕ
  reserveBytes : ℕ → Option ℕ
  reserveWords : ℕ → Option ℕ

namespace MediaBudget

def new (ledger : ℕ) (limits : ProtocolLimits) : MediaBudget :=
  ⟨ledger,limits.perViewerCompressedBytes,limits.reassemblyWindowPictures⟩

def fits (b : MediaBudget) (limits : ProtocolLimits) : Bool :=
  b.maxBytes ≤ limits.perViewerCompressedBytes ∧ b.maxPictures ≤ limits.reassemblyWindowPictures

def checkAllocation (b : MediaBudget) (length metadata : ℕ) : Except DeliveryError Unit := do
  let bytes ← orElse (checkedAdd length metadata) .resourceLimit
  if b.maxBytes < bytes then .error .resourceLimit else .ok ()

def hasHeadroom (b : MediaBudget) (used : BudgetUsage) (bytes pictures : ℕ) : Bool :=
  (checkedAdd used.bytes bytes).any (· ≤ b.maxBytes) &&
    (checkedAdd used.pictures pictures).any (· ≤ b.maxPictures)

def reserve (b : MediaBudget) (used : BudgetUsage) (bytes : ℕ) :
    Except DeliveryError BudgetUsage := do
  if b.maxBytes < bytes then .error .resourceLimit
  else
    let next ← orElse (checkedAdd used.bytes bytes) .resourceLimit
    if b.maxBytes < next ∨ b.maxPictures ≤ used.pictures then .error .referenceCapacityExceeded
    else .ok ⟨next,used.pictures+1⟩

def grow (b : MediaBudget) (used : BudgetUsage) (own extra : ℕ) :
    Except DeliveryError (ℕ × BudgetUsage) := do
  let own ← orElse (checkedAdd own extra) .resourceLimit
  if b.maxBytes < own then .error .resourceLimit
  else
    let next ← orElse (checkedAdd used.bytes extra) .resourceLimit
    if b.maxBytes < next then .error .referenceCapacityExceeded
    else .ok (own,⟨next,used.pictures⟩)

/-- The charge of a fresh zeroed buffer, and the usage with it. -/
def allocate (b : MediaBudget) (used : BudgetUsage) (platform : Platform) (length metadata : ℕ) :
    Except DeliveryError (ℕ × BudgetUsage) := do
  let bytes ← orElse (checkedAdd length metadata) .resourceLimit
  let used ← b.reserve used bytes
  let slack ← orElse (platform.reserveBytes length) .allocationFailed
  b.grow used bytes slack

end MediaBudget
/-! Bounded range lists. A list at its maximum bridges the smallest gap, so that every
fragment asked for stays covered. -/

/-- The number of ranges before the smallest gap, and that gap; a tie keeps the last. -/
def smallestGap (ranges : List RepairRange) (next : RepairRange) : ℕ × ℕ :=
  let at' (i : ℕ) := ranges.getD i ⟨0,0⟩
  let last := ranges.length - 1
  (List.range last).foldl
    (fun (merge,gap) i =>
      let candidate := (at' (i+1)).start - (at' i).stop
      if candidate < gap then (i,candidate) else (merge,gap))
    (last,next.start - (at' last).stop)

def bridge (ranges : List RepairRange) (next : RepairRange) : List RepairRange :=
  let merge := (smallestGap ranges next).1
  if merge = ranges.length - 1 then ranges.modify merge ({· with stop := next.stop})
  else
    let after := ranges.getD (merge+1) ⟨0,0⟩
    (ranges.modify merge ({· with stop := after.stop})).eraseIdx (merge+1) ++ [next]

def admitRange (maximum : ℕ) (ranges : List RepairRange) (next : RepairRange) : List RepairRange :=
  if ranges.length < maximum then ranges ++ [next] else bridge ranges next

end FrankenRemote.Delivery
