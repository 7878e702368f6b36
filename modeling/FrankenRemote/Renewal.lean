import Mathlib.Tactic

/-! A deadline that is extended only by answering a challenge. Granting and issuing a
challenge are dated; both the deadline and a pending challenge stay within one
lifetime of the latest such date. -/
namespace FrankenRemote.Renewal

variable {ε ν : Type}

/-- The latest dated event of a history: its time, and its nonce if it issued a challenge. -/
def latest (date : ε → Option (ℕ × Option ν)) (past : List ε) : Option (ℕ × Option ν) :=
  (past.filterMap date).getLast?

theorem latest_snoc (date : ε → Option (ℕ × Option ν)) (past : List ε) (e : ε) :
    latest date (past++[e]) = (date e).or (latest date past) := by
  cases h : date e <;> simp [latest,h]

theorem latest_mem {date : ε → Option (ℕ × Option ν)} {past : List ε} {d : ℕ × Option ν}
    (h : latest date past = some d) : ∃ e ∈ past, date e = some d :=
  List.mem_filterMap.mp (List.mem_of_getLast? h)

variable {lifetime : ℕ} {until_ checked checked' : Option ℕ} {pending : Option (ν × ℕ)}
  {last date : Option (ℕ × Option ν)}

/-- The deadline, the pending challenge with its own deadline, the clock high-water
mark and the latest date. -/
structure Bounded (lifetime : ℕ) (until_ : Option ℕ) (pending : Option (ν × ℕ))
    (checked : Option ℕ) (last : Option (ℕ × Option ν)) : Prop where
  granted : ∀ u, until_ = some u → ∃ g n, last = some (g,n) ∧ u ≤ g+lifetime
  challenged : ∀ n d, pending = some (n,d) → ∃ g, last = some (g,some n) ∧ d = g+lifetime
  dated : ∀ g n, last = some (g,n) → ∃ x, checked = some x ∧ g ≤ x

theorem bounded_none (lifetime : ℕ) (checked : Option ℕ) :
    Bounded lifetime none (none : Option (ν × ℕ)) checked none := ⟨by simp,by simp,by simp⟩

/-- Answering the pending challenge never shortens the deadline. -/
theorem Bounded.le_challenge (h : Bounded lifetime until_ pending checked last) {u d n}
    (hu : until_ = some u) (hc : pending = some (n,d)) : u ≤ d := by
  obtain ⟨g,m,hg,hle⟩ := h.granted u hu
  obtain ⟨_,hg',rfl⟩ := h.challenged n d hc
  cases hg.symm.trans hg'
  exact hle

/-- How one step may move the deadline and the challenge, and the date it sets. -/
inductive Move (lifetime : ℕ) (until_ : Option ℕ) (pending : Option (ν × ℕ)) :
    Option (ℕ × Option ν) → Option ℕ → Option (ν × ℕ) → Prop
  | shrink {u c} : (u = until_ ∨ u = none) → (c = pending ∨ c = none) →
      Move lifetime until_ pending none u c
  | grant (now : ℕ) : Move lifetime until_ pending (some (now,none)) (some (now+lifetime)) none
  | issue (now : ℕ) (n : ν) :
      Move lifetime until_ pending (some (now,some n)) until_ (some (n,now+lifetime))
  | renew {n d} : pending = some (n,d) → Move lifetime until_ pending none (some d) none

/-- A step that respects the clock: its own date is the new high-water mark. -/
structure Paced (checked checked' : Option ℕ) (date : Option (ℕ × Option ν)) : Prop where
  mono : ∀ x, checked = some x → ∃ y, checked' = some y ∧ x ≤ y
  dated : ∀ g n, date = some (g,n) → checked' = some g

section

variable (h : Bounded lifetime until_ pending checked last)

include h

/-- A deadline is within one lifetime of the clock's high-water mark. -/
theorem Bounded.le_checked {u x} (hu : until_ = some u) (hx : checked = some x) :
    u ≤ x+lifetime := by
  obtain ⟨g,n,hg,hle⟩ := h.granted u hu
  obtain ⟨y,hy,hgy⟩ := h.dated g n hg
  cases hx.symm.trans hy
  omega

theorem Bounded.dated_after (hp : Paced checked checked' date) {g n} (hg : last = some (g,n)) :
    ∃ y, checked' = some y ∧ g ≤ y := by
  obtain ⟨x,hx,hle⟩ := h.dated g n hg
  obtain ⟨y,hy,hle'⟩ := hp.mono x hx
  exact ⟨y,hy,hle.trans hle'⟩

/-- The deadline stays behind the horizon of any date a paced step sets. -/
theorem Bounded.le_horizon (hp : Paced checked checked' date) {u now n} (hu : until_ = some u)
    (hd : date = some (now,n)) : u ≤ now+lifetime := by
  obtain ⟨g,m,hg,_⟩ := h.granted u hu
  obtain ⟨y,hy,_⟩ := h.dated_after hp hg
  cases (hp.dated now n hd).symm.trans hy
  omega

theorem Bounded.move {u c} (hm : Move lifetime until_ pending date u c)
    (hp : Paced checked checked' date) : Bounded lifetime u c checked' (date.or last) := by
  cases hm with
  | shrink hu hc =>
    refine ⟨fun x hx => ?_,fun n d hx => ?_,fun g n hg => h.dated_after hp hg⟩
    · rcases hu with rfl|rfl
      · exact h.granted x hx
      · cases hx
    · rcases hc with rfl|rfl
      · exact h.challenged n d hx
      · cases hx
  | grant now =>
    have hc := hp.dated now none rfl
    exact ⟨by simp,by simp,by simp [hc]⟩
  | issue now n =>
    have hc := hp.dated now (some n) rfl
    exact ⟨fun x hx => ⟨now,some n,rfl,h.le_horizon hp hx rfl⟩,by simp,by simp [hc]⟩
  | renew hc =>
    obtain ⟨g,hg,rfl⟩ := h.challenged _ _ hc
    exact ⟨by simp [hg],by simp,fun g n hg => h.dated_after hp hg⟩

/-- A deadline that survives a step is never shortened by it. -/
theorem Bounded.move_le {u c} (hm : Move lifetime until_ pending date u c)
    (hp : Paced checked checked' date) {x y} (hx : until_ = some x) (hy : u = some y) : x ≤ y := by
  cases hm with
  | shrink hu _ =>
    rcases hu with rfl|rfl
    · cases hx.symm.trans hy
      exact le_rfl
    · cases hy
  | grant now =>
    cases hy
    exact h.le_horizon hp hx rfl
  | issue =>
    cases hx.symm.trans hy
    exact le_rfl
  | renew hc =>
    cases hy
    exact h.le_challenge hx hc

end

end FrankenRemote.Renewal
