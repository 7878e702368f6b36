import Mathlib.Algebra.BigOperators.Group.Finset.Piecewise
import Mathlib.Tactic

/-! Charges of live owners. A counter that follows every acquisition, change and release
of a charge is the sum over the owners that are live. -/
namespace FrankenRemote

open Finset

structure Holdings (κ M : Type) where
  live : Finset κ
  charge : κ → M

namespace Holdings

variable {κ M : Type}

def none_ [Zero M] : Holdings κ M := ⟨∅,fun _ => 0⟩

def total [AddCommMonoid M] (h : Holdings κ M) : M := ∑ l ∈ h.live, h.charge l

@[simp] theorem live_none [Zero M] : (none_ : Holdings κ M).live = ∅ := rfl

@[simp] theorem total_none [AddCommMonoid M] :
    (none_ : Holdings κ M).total = 0 := by simp [total,none_]

variable [DecidableEq κ]

def acquire (h : Holdings κ M) (k : κ) (c : M) : Holdings κ M :=
  ⟨insert k h.live,Function.update h.charge k c⟩

def recharge (h : Holdings κ M) (k : κ) (c : M) : Holdings κ M :=
  ⟨h.live,Function.update h.charge k c⟩

def release (h : Holdings κ M) (k : κ) : Holdings κ M := ⟨h.live.erase k,h.charge⟩

@[simp] theorem live_acquire (h : Holdings κ M) (k : κ) (c : M) :
    (h.acquire k c).live = insert k h.live := rfl
@[simp] theorem live_recharge (h : Holdings κ M) (k : κ) (c : M) : (h.recharge k c).live = h.live :=
  rfl
@[simp] theorem live_release (h : Holdings κ M) (k : κ) : (h.release k).live = h.live.erase k := rfl
@[simp] theorem charge_release (h : Holdings κ M) (k : κ) : (h.release k).charge = h.charge := rfl

@[simp] theorem charge_acquire_self (h : Holdings κ M) (k : κ) (c : M) :
    (h.acquire k c).charge k = c := by
  simp [acquire]

@[simp] theorem charge_recharge_self (h : Holdings κ M) (k : κ) (c : M) :
    (h.recharge k c).charge k = c := by
  simp [recharge]

theorem charge_acquire_of_ne (h : Holdings κ M) {k l} (c : M) (hne : l ≠ k) :
    (h.acquire k c).charge l = h.charge l := by
  simp [acquire,hne]

theorem charge_recharge_of_ne (h : Holdings κ M) {k l} (c : M) (hne : l ≠ k) :
    (h.recharge k c).charge l = h.charge l := by
  simp [recharge,hne]

section Total

variable [AddCommMonoid M] (h : Holdings κ M) {k : κ}

theorem total_acquire (hk : k ∉ h.live) (c : M) : (h.acquire k c).total = c+h.total := by
  simp [total,acquire,sum_insert hk,sum_update_of_notMem hk]

theorem total_release (hk : k ∈ h.live) : h.charge k+(h.release k).total = h.total :=
  add_sum_erase h.live h.charge hk

theorem total_recharge (hk : k ∈ h.live) (c : M) :
    (h.recharge k c).total+h.charge k = h.total+c := by
  have hr := add_sum_erase h.live h.charge hk
  have hsum : (h.recharge k c).total = c+∑ l ∈ h.live.erase k, h.charge l := by
    rw [erase_eq]
    exact sum_update_of_mem hk h.charge c
  rw [hsum,total,← hr]
  abel

end Total

theorem charge_le_total (h : Holdings κ ℕ) {k} (hk : k ∈ h.live) : h.charge k ≤ h.total := by
  have hr := h.total_release hk
  omega

end Holdings
end FrankenRemote
