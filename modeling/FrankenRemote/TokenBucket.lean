import Mathlib.Tactic

/-! Token buckets. A bucket refills with time up to its capacity and pays for what is spent;
so over any interval the spending is at most the capacity and what the interval refills. -/
namespace FrankenRemote.TokenBucket

/-- What was spent from `a` to `b`, of a list of times and costs. -/
def spentIn (spends : List (ℕ × ℕ)) (a b : ℕ) : ℕ :=
  ((spends.filter fun x => a ≤ x.1 ∧ x.1 ≤ b).map Prod.snd).sum

def refilled (capacity rate tokens elapsed : ℕ) : ℕ := min (tokens + elapsed*rate) capacity

@[simp] theorem spentIn_nil (a b : ℕ) : spentIn [] a b = 0 := rfl

theorem spentIn_snoc (spends : List (ℕ × ℕ)) (time cost a b : ℕ) :
    spentIn (spends++[(time,cost)]) a b = spentIn spends a b + if a ≤ time ∧ time ≤ b then
      cost else 0 := by
  by_cases h : a ≤ time ∧ time ≤ b <;> simp [spentIn,List.filter_append,h]

theorem spentIn_eq_zero {spends last a b} (h : ∀ x ∈ spends, x.1 ≤ last) (ha : last < a) :
    spentIn spends a b = 0 := by
  have hnil : spends.filter (fun x => a ≤ x.1 ∧ x.1 ≤ b) = [] := by
    rw [List.filter_eq_nil_iff]
    intro x hx
    have hle := h x hx
    simp only [decide_eq_true_eq]
    omega
  rw [spentIn,hnil]
  rfl

theorem spentIn_scaled (spends : List (ℕ × ℕ)) (k a b : ℕ) :
    spentIn (spends.map fun x => (x.1,x.2*k)) a b = spentIn spends a b*k := by
  simp [spentIn,List.filter_map,Function.comp_def,List.sum_map_mul_right]

/-- The spending from `a` on, and what is left, are covered by the refill since `a`. -/
structure Metered (capacity rate tokens last : ℕ) (spends : List (ℕ × ℕ)) : Prop where
  past : ∀ x ∈ spends, x.1 ≤ last
  tokens_le : tokens ≤ capacity
  covered : ∀ a ≤ last, spentIn spends a last + tokens ≤ capacity + rate*(last-a)
  limited : ∀ a span, spentIn spends a (a+span) ≤ capacity + rate*span

namespace Metered

variable {cap rate tokens last : ℕ} {spends : List (ℕ × ℕ)}

theorem full (cap rate last : ℕ) : Metered cap rate cap last [] := by
  constructor <;> simp

theorem mono {tokens'} (h : Metered cap rate tokens last spends) (hle : tokens' ≤ tokens) :
    Metered cap rate tokens' last spends :=
  {h with
    tokens_le := hle.trans h.tokens_le
    covered := fun a ha => (Nat.add_le_add_left hle _).trans (h.covered a ha)}

theorem spentIn_last (h : Metered cap rate tokens last spends) (a : ℕ) {b} (hb : last ≤ b) :
    spentIn spends a b = spentIn spends a last := by
  unfold spentIn
  congr 2
  apply List.filter_congr
  intro x hx
  have hle := h.past x hx
  simp only [decide_eq_decide]
  omega

theorem refill (h : Metered cap rate tokens last spends) {now} (hn : last ≤ now) :
    Metered cap rate (refilled cap rate tokens (now-last)) now spends := by
  refine ⟨fun x hx => (h.past x hx).trans hn,min_le_right _ _,?_,h.limited⟩
  intro a ha
  rw [h.spentIn_last a hn]
  by_cases hl : a ≤ last
  · have hc := h.covered a hl
    have hs : rate*(now-a) = rate*(last-a) + (now-last)*rate := by
      rw [Nat.mul_comm (now-last),← Nat.mul_add]
      congr 1
      omega
    have hmin : refilled cap rate tokens (now-last) ≤ tokens + (now-last)*rate := min_le_left _ _
    omega
  · rw [spentIn_eq_zero h.past (by omega)]
    have hmin : refilled cap rate tokens (now-last) ≤ cap := min_le_right _ _
    omega

theorem spend (h : Metered cap rate tokens last spends) {cost} (hcost : cost ≤ tokens) :
    Metered cap rate (tokens-cost) last (spends++[(last,cost)]) := by
  have hle := h.tokens_le
  constructor
  · simp only [List.forall_mem_append,List.forall_mem_singleton]
    exact ⟨h.past,le_rfl⟩
  · omega
  · intro a ha
    have hc := h.covered a ha
    rw [spentIn_snoc,if_pos ⟨ha,le_rfl⟩]
    omega
  · intro a span
    rw [spentIn_snoc]
    by_cases hi : a ≤ last ∧ last ≤ a+span
    · have hc := h.covered a hi.1
      rw [if_pos hi,h.spentIn_last a hi.2]
      have hmono : rate*(last-a) ≤ rate*span := Nat.mul_le_mul_left _ (by omega)
      omega
    · rw [if_neg hi]
      exact h.limited a span

end Metered
end FrankenRemote.TokenBucket
