import Mathlib.Tactic

/-! Fixed tables of optional entries: bounded storage that is scanned in index
order, filled at the first index a predicate accepts, and cleared in place. -/
namespace FrankenRemote.SlotTable

open List Function

abbrev Slots (n : ℕ) (α : Type) := Fin n → Option α

variable {n : ℕ} {α : Type}

def vacant : Slots n α := fun _ => none

def entries (s : Slots n α) : List α := (List.finRange n).filterMap s

def indexed (s : Slots n α) : List (Fin n × α) :=
  (List.finRange n).filterMap fun i => (s i).map (i,·)

def firstIndex (s : Slots n α) (p : Option α → Bool) : Option (Fin n) :=
  (List.finRange n).find? fun i => p (s i)

def store (s : Slots n α) (i : Fin n) (a : α) : Slots n α := Function.update s i (some a)

def erase (s : Slots n α) (i : Fin n) : Slots n α := Function.update s i none

/-- Clear in place every entry the predicate accepts. -/
def discard (s : Slots n α) (p : α → Bool) : Slots n α := fun i => (s i).filter fun a => !p a

@[simp] theorem vacant_apply (i : Fin n) : (vacant : Slots n α) i = none := rfl

variable {s : Slots n α} {i : Fin n} {a b : α}

@[simp] theorem mem_entries : a ∈ entries s ↔ ∃ i, s i = some a := by
  simp [entries]

@[simp] theorem mem_indexed : (i,a) ∈ indexed s ↔ s i = some a := by
  simp [indexed]

@[simp] theorem entries_vacant : entries (vacant : Slots n α) = [] := by
  simp [entries,vacant]

theorem firstIndex_some {p} (h : firstIndex s p = some i) : p (s i) = true := by
  simpa using List.find?_some h

theorem store_eq_some {j} : store s i a j = some b ↔ (j = i ∧ a = b) ∨ (j ≠ i ∧ s j = some b) := by
  by_cases h : j = i <;> simp [store,h]

theorem store_self (h : s i = some a) : store s i a = s := by
  rw [store,← h,update_eq_self]

@[simp] theorem store_store (s : Slots n α) (i : Fin n) (a b : α) :
    store (store s i a) i b = store s i b := by
  rw [store,store,update_idem]
  rfl

@[simp] theorem store_apply (s : Slots n α) (i : Fin n) (a : α) : store s i a i = some a := by
  simp [store]

theorem erase_eq_some {j} : erase s i j = some b ↔ j ≠ i ∧ s j = some b := by
  by_cases h : j = i <;> simp [erase,h]

theorem erase_store (h : s i = none) : erase (store s i a) i = s := by
  rw [erase,store,update_idem,← h,update_eq_self]

@[simp] theorem discard_eq_some {p} : discard s p i = some a ↔ s i = some a ∧ p a = false := by
  simp [discard,Option.filter_eq_some_iff]

/-- No two entries have the same key. -/
def Keyed {κ : Type} (key : α → κ) (s : Slots n α) : Prop :=
  ∀ i j a b, s i = some a → s j = some b → key a = key b → i = j

theorem keyed_store {κ : Type} {key : α → κ} (h : Keyed key s)
    (hnew : ∀ j b, j ≠ i → s j = some b → key b ≠ key a) : Keyed key (store s i a) := by
  intro j k b c hb hc heq
  rcases store_eq_some.mp hb with ⟨hj,rfl⟩ | ⟨hj,hb⟩ <;> rcases store_eq_some.mp hc with ⟨hk,
    rfl⟩ | ⟨hk,hc⟩
  · exact hj.trans hk.symm
  · exact absurd heq.symm (hnew k c hk hc)
  · exact absurd heq (hnew j b hj hb)
  · exact h j k b c hb hc heq

/-- Dropping entries, or changing what is not their key, keeps them apart. -/
theorem Keyed.revise {κ : Type} {key : α → κ} {t : Slots n α} (h : Keyed key s)
    (ht : ∀ i b, t i = some b → ∃ a, s i = some a ∧ key b = key a) : Keyed key t := by
  intro i j b c hb hc heq
  obtain ⟨a,ha,hba⟩ := ht i b hb
  obtain ⟨d,hd,hcd⟩ := ht j c hc
  exact h i j a d ha hd (hba.symm.trans (heq.trans hcd))

theorem find?_entries_some {p} (h : (entries s).find? p = some a) :
    (∃ i, s i = some a) ∧ p a = true :=
  ⟨mem_entries.mp (mem_of_find?_eq_some h),List.find?_some h⟩

/-! Totals over a table. -/

theorem finRange_split (i : Fin n) : ∃ before after, List.finRange n = before ++ i :: after ∧
    i ∉ before ∧ i ∉ after := by
  obtain ⟨before,after,hs⟩ := append_of_mem (mem_finRange i)
  have hn := nodup_finRange n
  rw [hs] at hn
  have hm := nodup_middle.mp hn
  simp only [nodup_cons,mem_append,not_or] at hm
  exact ⟨before,after,hs,hm.1⟩

/-- A stored entry joins the others, in place of what its slot held. -/
theorem entries_store_perm (s : Slots n α) (i : Fin n) (a : α) :
    (entries (store s i a)).Perm (a :: entries (erase s i)) := by
  obtain ⟨before,after,hsp,hb,ha⟩ := finRange_split i
  have hs : ∀ js : List (Fin n), i ∉ js →
      js.filterMap (store s i a) = js.filterMap (erase s i) := by
    intro js hjs
    refine filterMap_congr fun j hj => ?_
    have hne : j ≠ i := fun h => hjs (h ▸ hj)
    simp [store,erase,hne]
  have hgone : erase s i i = none := by simp [erase]
  simp only [entries,hsp,filterMap_append,filterMap_cons,store_apply,hgone,
    hs before hb,hs after ha]
  exact perm_middle

theorem erase_vacant (h : s i = none) : erase s i = s := by
  rw [erase,← h,update_eq_self]

theorem entries_erase_perm (h : s i = some a) : (entries s).Perm (a :: entries (erase s i)) := by
  have hs := entries_store_perm s i a
  rwa [store_self h] at hs

theorem entries_discard (s : Slots n α) (p : α → Bool) :
    entries (discard s p) = (entries s).filter fun a => !p a := by
  rw [entries,entries,filter_filterMap]
  rfl

/-- What a filter keeps and what it drops add up. -/
theorem sum_filter_add_sum_filter_not (f : α → ℕ) (p : α → Bool) (as : List α) :
    ((as.filter p).map f).sum + ((as.filter fun a => !p a).map f).sum = (as.map f).sum := by
  induction as with
  | nil => rfl
  | cons a as ih => cases h : p a <;> simp [h] <;> omega

def total (f : α → ℕ) (s : Slots n α) : ℕ := ((entries s).map f).sum

@[simp] theorem total_vacant (f : α → ℕ) : total f (vacant : Slots n α) = 0 := by
  simp [total]

theorem total_store_vacant (f : α → ℕ) (h : s i = none) (a : α) :
    total f (store s i a) = total f s + f a := by
  have hperm := (entries_store_perm s i a).map f
  rw [erase_vacant h] at hperm
  simp only [total,hperm.sum_eq,map_cons,sum_cons]
  omega

/-- Replacing an entry by one of the same weight. -/
theorem total_store_same (f : α → ℕ) (h : s i = some a) (hf : f b = f a) :
    total f (store s i b) = total f s := by
  have hnew := (entries_store_perm s i b).map f
  have hold := (entries_erase_perm h).map f
  simp only [total,hnew.sum_eq,hold.sum_eq,map_cons,hf]

theorem total_discard (f : α → ℕ) (s : Slots n α) (p : α → Bool) :
    total f (discard s p) = total f s - (((entries s).filter p).map f).sum := by
  have hsum := sum_filter_add_sum_filter_not f p (entries s)
  rw [total,total,entries_discard]
  omega

end FrankenRemote.SlotTable
