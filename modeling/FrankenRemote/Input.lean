import FrankenRemote.Primitives

/-! Input vocabulary of the wire codec and of the submission owner. Coordinates are signed
host desktop pixels, after the client's transform. -/
namespace FrankenRemote.Input

/-- The generations that an action was made for. -/
structure InputView where
  geometry : ℕ
  viewport : ℕ
  configuration : ℕ
  recovery : RecoveryGeneration
  deriving DecidableEq

structure InputCredentials where
  session : RemoteSessionId
  lease : InputLeaseId
  ticket : InputTicketId
  view : InputView
  deriving DecidableEq

structure DesktopPoint where
  x : Int32
  y : Int32
  deriving DecidableEq

/-- The selected display. The right and bottom edges are exclusive, and no point of it is
beyond the range of a coordinate. -/
structure InputBounds where
  origin : DesktopPoint
  width : ℕ
  height : ℕ
  width_pos : 0 < width
  height_pos : 0 < height
  right_le : origin.x.toInt + width - 1 ≤ 2^31 - 1
  bottom_le : origin.y.toInt + height - 1 ≤ 2^31 - 1

namespace InputBounds

def new (origin : DesktopPoint) (width height : ℕ) : Option InputBounds :=
  if h : 0 < width ∧ 0 < height ∧ origin.x.toInt + width - 1 ≤ 2^31 - 1 ∧
      origin.y.toInt + height - 1 ≤ 2^31 - 1 then
    some ⟨origin,width,height,h.1,h.2.1,h.2.2.1,h.2.2.2⟩
  else none

def contains (b : InputBounds) (point : DesktopPoint) : Bool :=
  let x := point.x.toInt - b.origin.x.toInt
  let y := point.y.toInt - b.origin.y.toInt
  0 ≤ x && 0 ≤ y && x < b.width && y < b.height

end InputBounds

/-- A usage of the USB keyboard page, without the reserved and vendor ones. -/
structure PhysicalKey where
  usage : ℕ
  valid : (4 ≤ usage ∧ usage ≤ 0xa4) ∨ (0xe0 ≤ usage ∧ usage ≤ 0xe7)
  deriving DecidableEq

namespace PhysicalKey

def new (usage : ℕ) : Option PhysicalKey :=
  if h : (4 ≤ usage ∧ usage ≤ 0xa4) ∨ (0xe0 ≤ usage ∧ usage ≤ 0xe7) then some ⟨usage,h⟩ else none

theorem usage_lt (key : PhysicalKey) : key.usage < 256 := by
  have hv := key.valid
  omega

theorem new_eq_some {u key} : new u = some key ↔ u = key.usage := by
  constructor
  · intro h
    unfold new at h
    split at h
    · cases h
      rfl
    · cases h
  · rintro rfl
    exact dif_pos key.valid

end PhysicalKey

inductive KeyTransition
  | release | press | repeat_
  deriving DecidableEq, Repr

inductive PointerButton
  | primary | secondary | middle | back | forward
  deriving DecidableEq, Repr

inductive ScrollUnit
  | pixels | lines
  deriving DecidableEq, Repr

inductive PointerMode
  | absolute | relative
  deriving DecidableEq, Repr

def maxCommittedTextBytes : ℕ := 4096

inductive InputEvent
  | key (key : PhysicalKey) (transition : KeyTransition)
  | button (button : PointerButton) (pressed : Bool) (position : DesktopPoint) (barrier : ℕ)
  | pointer (position : DesktopPoint)
  | relative (modeEpoch : ℕ) (cumulativeX cumulativeY : Int64)
  | scroll (position : DesktopPoint) (barrier : ℕ) (x y : Int32) (unit : ScrollUnit)
  | text (text : String)
  | mode (mode : PointerMode) (epoch : ℕ)
  deriving DecidableEq

def InputEvent.isPointer : InputEvent → Bool
  | pointer _ => true
  | _ => false

/-- Reliable actions and replaceable pointer states use separate sequence spaces. -/
structure InputRequest where
  credentials : InputCredentials
  sequence : ℕ
  event : InputEvent
  deriving DecidableEq

/-! A display and a key for concrete runs. -/

def sampleBounds : InputBounds := ⟨⟨0,0⟩,100,100,by decide,by decide,by decide,by decide⟩

def sampleKey : PhysicalKey := ⟨4,by decide⟩

end FrankenRemote.Input
