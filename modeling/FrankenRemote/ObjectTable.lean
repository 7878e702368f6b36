import Mathlib.Algebra.BigOperators.Group.Finset.Piecewise
import Mathlib.Tactic

/-! Tables of objects under identities that are never reused, and weights summed over
the objects that are present. -/
namespace FrankenRemote

open Finset

structure ObjectTable (α : Type) where
  fresh : ℕ
  slot : ℕ → Option α
  unborn : ∀ k, fresh ≤ k → slot k = none

namespace ObjectTable

variable {α M : Type}

def empty : ObjectTable α := ⟨0,fun _ => none,fun _ _ => rfl⟩

def add (t : ObjectTable α) (a : α) : ObjectTable α where
  fresh := t.fresh+1
  slot := Function.update t.slot t.fresh (some a)
  unborn k hk := by
    rw [Function.update_of_ne (by omega)]
    exact t.unborn k (by omega)

/-- Another value, or none, for an identity in use. -/
def set (t : ObjectTable α) (k : ℕ) (v : Option α) : ObjectTable α where
  fresh := t.fresh
  slot := Function.update t.slot k (if k < t.fresh then v else none)
  unborn j hj := by
    by_cases h : j = k
    · subst h
      simp [Nat.not_lt.mpr hj]
    · rw [Function.update_of_ne h]
      exact t.unborn j hj

def weigh [AddCommMonoid M] (w : α → M) (t : ObjectTable α) : M :=
  ∑ k ∈ Finset.range t.fresh, (t.slot k).elim 0 w

@[simp] theorem slot_empty (k : ℕ) : (empty : ObjectTable α).slot k = none := rfl

@[simp] theorem fresh_empty : (empty : ObjectTable α).fresh = 0 := rfl

@[simp] theorem fresh_add (t : ObjectTable α) (a : α) : (t.add a).fresh = t.fresh+1 := rfl

@[simp] theorem fresh_set (t : ObjectTable α) (k : ℕ) (v : Option α) :
    (t.set k v).fresh = t.fresh := rfl

variable {t : ObjectTable α} {k j : ℕ} {a b : α} {v : Option α}

theorem lt_fresh (h : t.slot k = some a) : k < t.fresh := by
  by_contra hk
  rw [t.unborn k (by omega)] at h
  cases h

theorem slot_add_of_lt (h : k < t.fresh) : (t.add a).slot k = t.slot k :=
  Function.update_of_ne (by omega) _ _

theorem slot_add_fresh : (t.add a).slot t.fresh = some a := Function.update_self _ _ _

theorem slot_set_self (h : t.slot k = some a) : (t.set k v).slot k = v := by
  simp [set,lt_fresh h]

theorem slot_set_of_ne (h : j ≠ k) : (t.set k v).slot j = t.slot j := Function.update_of_ne h _ _

@[simp] theorem weigh_empty [AddCommMonoid M] (w : α → M) : (empty : ObjectTable α).weigh w = 0 :=
  rfl

theorem weigh_add [AddCommMonoid M] (w : α → M) : (t.add a).weigh w = t.weigh w + w a := by
  rw [weigh,fresh_add,sum_range_succ,slot_add_fresh]
  congr 1
  refine sum_congr rfl fun k hk => ?_
  rw [slot_add_of_lt (mem_range.mp hk)]

theorem weigh_set [AddCommMonoid M] (w : α → M) (h : t.slot k = some a) :
    (t.set k v).weigh w + w a = t.weigh w + v.elim 0 w := by
  have hm : k ∈ Finset.range t.fresh := mem_range.mpr (lt_fresh h)
  have hr : ∑ j ∈ (Finset.range t.fresh).erase k, ((t.set k v).slot j).elim 0 w =
      ∑ j ∈ (Finset.range t.fresh).erase k, (t.slot j).elim 0 w := by
    refine sum_congr rfl fun j hj => ?_
    rw [slot_set_of_ne (ne_of_mem_erase hj)]
  rw [weigh,weigh,fresh_set,← add_sum_erase _ _ hm,← add_sum_erase _ _ hm,hr,
    slot_set_self h,h]
  simp only [Option.elim_some]
  abel

theorem le_weigh {w : α → ℕ} (h : t.slot k = some a) : w a ≤ t.weigh w := by
  have hs := weigh_set (v := none) w h
  simp only [Option.elim_none] at hs
  omega

end ObjectTable
end FrankenRemote
