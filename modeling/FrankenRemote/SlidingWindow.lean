import FrankenRemote.SlotTable

/-! A rate limit over a sliding window. The admissions that still count are kept in the first
`bound` slots of a table; one that is `window` old gives its slot back. -/
namespace FrankenRemote.SlidingWindow

open SlotTable List

variable {n : ℕ}

/-- The table once everything that no longer counts at `now` is forgotten. -/
def recent (slots : Slots n ℕ) (bound window now : ℕ) : Slots n ℕ := fun i =>
  if i.val < bound then (slots i).filter (now - · < window) else slots i

/-- The slots with an admission from `a` on. -/
def held (slots : Slots n ℕ) (bound a : ℕ) : Finset (Fin n) :=
  Finset.univ.filter fun i => i.val < bound ∧ (slots i).any (a ≤ ·) = true

@[simp] theorem mem_held {slots : Slots n ℕ} {bound a : ℕ} {i : Fin n} :
    i ∈ held slots bound a ↔ i.val < bound ∧ ∃ t, slots i = some t ∧ a ≤ t := by
  simp [held,Option.any_eq_true]

theorem card_held_le (slots : Slots n ℕ) (bound a : ℕ) : (held slots bound a).card ≤ bound := by
  have hmaps : ∀ i ∈ held slots bound a, i.val ∈ Finset.range bound := by
    intro i hi
    simpa using (mem_held.mp hi).1
  have hcard := Finset.card_le_card_of_injOn (fun i : Fin n => i.val) hmaps
    fun i _ j _ hij => Fin.ext hij
  simpa using hcard

/-- At `now` the table remembers whatever still counts, and no interval of the window's length
has seen more admissions than allowed. -/
structure Limited (bound window now : ℕ) (slots : Slots n ℕ) (times : List ℕ) : Prop where
  past : ∀ t ∈ times, t ≤ now
  remembered : ∀ a, now < a + window → (times.filter (a ≤ ·)).length ≤ (held slots bound a).card
  limited : ∀ a, (times.filter fun t => a ≤ t ∧ t < a + window).length ≤ bound

namespace Limited

variable {bound w now : ℕ} {slots : Slots n ℕ} {times : List ℕ}

theorem nil : Limited bound w now slots [] := by
  constructor <;> simp

theorem later {now'} (h : Limited bound w now slots times) (hn : now ≤ now') :
    Limited bound w now' slots times where
  past t ht := (h.past t ht).trans hn
  remembered a ha := h.remembered a (by omega)
  limited := h.limited

theorem forget (h : Limited bound w now slots times) (hw : 0 < w) :
    Limited bound w now (recent slots bound w now) times := by
  refine ⟨h.past,fun a ha => (h.remembered a ha).trans (Finset.card_le_card ?_),h.limited⟩
  intro i hi
  obtain ⟨hb,t,ht,hat⟩ := mem_held.mp hi
  refine mem_held.mpr ⟨hb,t,?_,hat⟩
  have hc : now - t < w := by omega
  simp [recent,hb,ht,hc]

theorem enter {i : Fin n} (h : Limited bound w now slots times) (hi : i.val < bound)
    (hfree : slots i = none) : Limited bound w now (store slots i now) (times ++ [now]) := by
  have hr : ∀ a, now < a + w →
      ((times ++ [now]).filter (a ≤ ·)).length ≤ (held (store slots i now) bound a).card := by
    intro a ha
    have hold := h.remembered a ha
    have hs : ∀ j, j ≠ i → (j ∈ held (store slots i now) bound a ↔ j ∈ held slots bound a) := by
      intro j hj
      simp [store,hj]
    have hnot : i ∉ held slots bound a := by simp [hfree]
    by_cases hn : a ≤ now
    · have hinsert : held (store slots i now) bound a = insert i (held slots bound a) := by
        ext j
        by_cases hj : j = i
        · subst hj
          simp [hi,hn]
        · simp only [hs j hj,Finset.mem_insert,hj,false_or]
      rw [hinsert,Finset.card_insert_of_notMem hnot]
      simpa [hn] using hold
    · have hsub : held slots bound a ⊆ held (store slots i now) bound a := by
        intro j hj
        refine (hs j ?_).mpr hj
        rintro rfl
        exact hnot hj
      have hcard := Finset.card_le_card hsub
      have hf : (times ++ [now]).filter (a ≤ ·) = times.filter (a ≤ ·) := by simp [hn]
      rw [hf]
      exact hold.trans hcard
  refine ⟨?_,hr,fun a => ?_⟩
  · intro t ht
    rcases mem_append.mp ht with ht | ht
    · exact h.past t ht
    · exact (mem_singleton.mp ht).le
  · by_cases hins : a ≤ now ∧ now < a + w
    · -- Nothing in the interval is forgotten yet.
      have hf : (times ++ [now]).filter (fun t => a ≤ t ∧ t < a + w) =
          (times ++ [now]).filter (a ≤ ·) := by
        refine filter_congr fun t ht => ?_
        have hpast : t ≤ now := by
          rcases mem_append.mp ht with ht | ht
          · exact h.past t ht
          · exact (mem_singleton.mp ht).le
        have hb : t < a + w := by omega
        simp [hb]
      rw [hf]
      exact (hr a hins.2).trans (card_held_le _ _ _)
    · have hl : decide (a ≤ now ∧ now < a + w) = false := by simpa using hins
      rw [filter_append,filter_cons_of_neg (by rw [hl]; simp),filter_nil,append_nil]
      exact h.limited a

end Limited
end FrankenRemote.SlidingWindow
