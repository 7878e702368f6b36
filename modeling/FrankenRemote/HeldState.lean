import FrankenRemote.Input
import FrankenRemote.Bytes

/-! Keyboard and button state for reconciliation. A snapshot is not a command: it can only
show that something is no longer held. -/
namespace FrankenRemote.Input

open Bytes

def keyBitmapBytes : ℕ := 32

def keyBit (keys : List Byte) (usage : ℕ) : Bool :=
  keys.getD (usage/8) 0 &&& (1 <<< UInt8.ofNat (usage%8)) ≠ 0

/-- No reserved usage and no reserved button is set. -/
def HeldBits (keys : List Byte) (buttons : Byte) : Prop :=
  buttons &&& ~~~0x1f = 0 ∧ ∀ usage < 256, keyBit keys usage → (PhysicalKey.new usage).isSome

instance (keys : List Byte) (buttons : Byte) : Decidable (HeldBits keys buttons) :=
  inferInstanceAs (Decidable (_ ∧ _))

structure HeldState where
  keys : List Byte
  buttons : Byte
  length_keys : keys.length = keyBitmapBytes
  valid : HeldBits keys buttons

namespace HeldState

def fromBits (keys : List Byte) (buttons : Byte) : Option HeldState :=
  if h : keys.length = keyBitmapBytes ∧ HeldBits keys buttons then some ⟨keys,buttons,h.1,
    h.2⟩ else none

theorem fromBits_eq_some {keys b held} : fromBits keys b = some held ↔ keys = held.keys ∧
    b = held.buttons := by
  constructor
  · intro h
    unfold fromBits at h
    split at h
    · cases h
      exact ⟨rfl,rfl⟩
    · cases h
  · rintro ⟨rfl,rfl⟩
    exact dif_pos ⟨held.length_keys,held.valid⟩

def key (held : HeldState) (key : PhysicalKey) : Bool := keyBit held.keys key.usage

end HeldState

def PointerButton.index : PointerButton → ℕ
  | primary => 0
  | secondary => 1
  | middle => 2
  | back => 3
  | forward => 4

def HeldState.button (held : HeldState) (button : PointerButton) : Bool :=
  held.buttons &&& (1 <<< UInt8.ofNat button.index) ≠ 0

/-- A snapshot after all actions before `nextAction`. -/
structure HeldStateRequest where
  session : RemoteSessionId
  lease : InputLeaseId
  sequence : ℕ
  nextAction : ℕ
  held : HeldState

end FrankenRemote.Input
