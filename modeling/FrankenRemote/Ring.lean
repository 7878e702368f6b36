import Mathlib.Tactic

/-! A ring of places that are overwritten in turn. Together they hold the latest entries of
the log that was written through it. -/
namespace FrankenRemote.Ring

open List

variable {α : Type} {cap c : ℕ} {slots : ℕ → Option α} {log : List α}

/-- The entries in the order of their places. -/
def recent (capacity : ℕ) (slots : ℕ → Option α) : List α := (List.range capacity).filterMap slots

/-- Each place holds the latest log entry that was written to it. -/
structure Holds (capacity cursor : ℕ) (slots : ℕ → Option α) (log : List α) : Prop where
  cursor : cursor = log.length % capacity
  slot : ∀ i < capacity, ∀ a,
    slots i = some a ↔ ∃ p, p % capacity = i ∧ log.length ≤ p+capacity ∧ log[p]? = some a

namespace Holds

theorem nil : Holds cap 0 (fun _ => (none : Option α)) [] := by
  constructor
  · simp
  · simp

theorem push (h : Holds cap c slots log) (a : α) :
    Holds cap ((c+1) % cap) (Function.update slots c (some a)) (log++[a]) := by
  have hc := h.cursor
  refine ⟨by rw [hc,length_append,length_singleton,Nat.mod_add_mod],fun i hi b => ?_⟩
  rw [length_append,length_singleton]
  by_cases hs : i = c
  · subst hs
    rw [Function.update_self]
    constructor
    · intro ha
      cases ha
      exact ⟨log.length,hc.symm,by omega,by simp⟩
    · rintro ⟨p,hp,hr,hg⟩
      -- The only recent position of this place is the one just written.
      have hlt : p < log.length+1 := by
        have hlt := (List.getElem?_eq_some_iff.mp hg).1
        simpa using hlt
      have hp' : p = log.length := by
        by_contra hne
        have hdvd : cap ∣ log.length - p := (Nat.modEq_iff_dvd' (by omega)).mp (hp.trans hc)
        have hle := Nat.le_of_dvd (by omega) hdvd
        omega
      subst hp'
      simpa using hg
  · rw [Function.update_of_ne hs,h.slot i hi b]
    constructor
    · rintro ⟨p,hp,hr,hg⟩
      have hlt := (List.getElem?_eq_some_iff.mp hg).1
      have hne : log.length ≠ p+cap := by
        intro heq
        apply hs
        rw [hc,← hp,heq,Nat.add_mod_right]
      exact ⟨p,hp,by omega,by rw [List.getElem?_append_left hlt,hg]⟩
    · rintro ⟨p,hp,hr,hg⟩
      have hlt : p < log.length := by
        by_contra hge
        have hlt := (List.getElem?_eq_some_iff.mp hg).1
        simp only [length_append,length_singleton] at hlt
        obtain rfl : p = log.length := by omega
        exact hs (hp.symm.trans hc.symm)
      rw [List.getElem?_append_left hlt] at hg
      exact ⟨p,hp,by omega,hg⟩

theorem mem_recent (h : Holds cap c slots log) (hpos : 0 < cap) {a} :
    a ∈ recent cap slots ↔ ∃ p, log.length ≤ p+cap ∧ log[p]? = some a := by
  simp only [recent,mem_filterMap,mem_range]
  constructor
  · rintro ⟨i,hi,hs⟩
    obtain ⟨p,_,hr,hg⟩ := (h.slot i hi a).mp hs
    exact ⟨p,hr,hg⟩
  · rintro ⟨p,hr,hg⟩
    have hi := Nat.mod_lt p hpos
    exact ⟨p % cap,hi,(h.slot _ hi a).mpr ⟨p,rfl,hr,hg⟩⟩

/-- Entries that are numbered by their position are found while they are among the latest. -/
theorem find?_recent (h : Holds cap c slots log) (hpos : 0 < cap) {key : α → ℕ}
    (hkey : ∀ p a, log[p]? = some a → key a = p) (k : ℕ) :
    (recent cap slots).find? (key · = k) = if log.length ≤ k+cap then log[k]? else none := by
  cases hfind : (recent cap slots).find? (key · = k) with
  | some a =>
    have hm := mem_of_find?_eq_some hfind
    have hk : key a = k := by simpa using List.find?_some hfind
    obtain ⟨p,hr,hg⟩ := (h.mem_recent hpos).mp hm
    obtain rfl : p = k := (hkey p a hg).symm.trans hk
    rw [if_pos hr,hg]
  | none =>
    symm
    split
    · rename_i hr
      by_contra hsome
      obtain ⟨a,ha⟩ := Option.ne_none_iff_exists'.mp hsome
      have hm := (h.mem_recent hpos).mpr ⟨k,hr,ha⟩
      have hn := List.find?_eq_none.mp hfind a hm
      simp [hkey k a ha] at hn
    · rfl

end Holds

/-! A ring that is also emptied at times, against the history of its owner. -/

variable {ε : Type} {recorded : ε → Option α} {Clears : ε → Prop} {past : List ε} {e : ε}

/-- Each place holds what one of the latest recordings put there, with nothing emptied since. -/
structure Traced (recorded : ε → Option α) (Clears : ε → Prop) (capacity cursor : ℕ)
    (slots : ℕ → Option α) (past : List ε) : Prop where
  cursor : cursor = (past.filterMap recorded).length % capacity
  slot : ∀ i < capacity, ∀ a, slots i = some a → ∃ earlier e later, past = earlier ++ e :: later ∧
    recorded e = some a ∧ (earlier.filterMap recorded).length % capacity = i ∧
    (later.filterMap recorded).length < capacity ∧ ∀ x ∈ later, ¬Clears x

namespace Traced

theorem nil : Traced recorded Clears cap 0 (fun _ => none) [] := by
  constructor <;> simp

section

variable (h : Traced recorded Clears cap c slots past)

include h

theorem keep (hr : recorded e = none)
    (hc : ¬Clears e) : Traced recorded Clears cap c slots (past++[e]) := by
  constructor
  · simpa [hr] using h.cursor
  · intro i hi a ha
    obtain ⟨earlier,x,later,rfl,hx,hp,hct,hn⟩ := h.slot i hi a ha
    refine ⟨earlier,x,later++[e],by simp,hx,hp,by simpa [hr] using hct,?_⟩
    intro y hy
    rcases mem_append.mp hy with hy | hy
    · exact hn y hy
    · rwa [mem_singleton.mp hy]

theorem clear (hr : recorded e = none) : Traced recorded Clears cap c (fun _ => none)
    (past++[e]) := by
  constructor
  · simpa [hr] using h.cursor
  · simp

theorem push {a} (hr : recorded e = some a) (hc : ¬Clears e) (hpos : 0 < cap) :
    Traced recorded Clears cap ((c+1) % cap) (Function.update slots c (some a))
      (past++[e]) := by
  have hcu := h.cursor
  constructor
  · simp [hr,hcu,Nat.mod_add_mod]
  intro i hi b hb
  by_cases hs : i = c
  · subst hs
    rw [Function.update_self] at hb
    cases hb
    exact ⟨past,e,[],rfl,hr,hcu.symm,by simpa using hpos,by simp⟩
  · rw [Function.update_of_ne hs] at hb
    obtain ⟨earlier,x,later,rfl,hx,hp,_,hn⟩ := h.slot i hi b hb
    -- A full turn of the ring would have come back to this place.
    have ht : (later.filterMap recorded).length+1 ≠ cap := by
      intro heq
      apply hs
      rw [hcu,← hp]
      simp only [filterMap_append,filterMap_cons,hx,length_append,length_cons]
      rw [heq,Nat.add_mod_right]
    refine ⟨earlier,x,later++[e],by simp,hx,hp,?_,?_⟩
    · simp only [filterMap_append,filterMap_cons,hr,length_append,filterMap_nil,
        length_singleton]
      omega
    · intro y hy
      rcases mem_append.mp hy with hy | hy
      · exact hn y hy
      · rwa [mem_singleton.mp hy]

theorem mem_recent {a}
    (ha : a ∈ recent cap slots) : ∃ earlier e later, past = earlier ++ e :: later ∧
      recorded e = some a ∧ (later.filterMap recorded).length < cap ∧ ∀ x ∈ later, ¬Clears x := by
  simp only [recent,mem_filterMap,mem_range] at ha
  obtain ⟨i,hi,hs⟩ := ha
  obtain ⟨earlier,e,later,hpast,he,_,hc,hn⟩ := h.slot i hi a hs
  exact ⟨earlier,e,later,hpast,he,hc,hn⟩

end

end Traced
end FrankenRemote.Ring
