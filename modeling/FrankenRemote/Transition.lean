import Mathlib.Tactic

/-! Runs of a deterministic machine that answers every input. A trace keeps, for
each step, the state before it, the input and the reply, so that properties of
whole runs can speak about what was installed at the time of a step. -/
namespace FrankenRemote

open List

variable {α : Type}

theorem forall_mem_snoc {l : List α} {a : α} {P : α → Prop} :
    (∀ x ∈ l ++ [a], P x) ↔ (∀ x ∈ l, P x) ∧ P a := by
  simp only [forall_mem_append,forall_mem_singleton]

theorem pairwise_snoc {R : α → α → Prop} {l : List α} {a : α} :
    (l ++ [a]).Pairwise R ↔ l.Pairwise R ∧ ∀ x ∈ l, R x a := by simp [pairwise_append]

namespace Transition

/-- One step of a run as an observer of the machine's owner sees it. -/
structure Event (σ ι ρ : Type) where
  before : σ
  input : ι
  reply : ρ

variable {σ ι ρ : Type} (step : σ → ι → ρ × σ)

def final : σ → List ι → σ
  | s, [] => s
  | s, i::is => final (step s i).2 is

def trace : σ → List ι → List (Event σ ι ρ)
  | _, [] => []
  | s, i::is => ⟨s,i,(step s i).1⟩ :: trace (step s i).2 is

@[simp] theorem final_append (s : σ) (is js : List ι) :
    final step s (is++js) = final step (final step s is) js := by
  induction is generalizing s with
  | nil => rfl
  | cons i is ih => exact ih _

@[simp] theorem trace_append (s : σ) (is js : List ι) :
    trace step s (is++js) = trace step s is ++ trace step (final step s is) js := by
  induction is generalizing s with
  | nil => rfl
  | cons i is ih => simp only [cons_append,trace,final,ih]

theorem map_input_trace (s : σ) (is : List ι) : (trace step s is).map Event.input = is := by
  induction is generalizing s with
  | nil => rfl
  | cons i is ih => simp only [trace,map_cons,ih]

/-- What every step preserves holds after every run. -/
theorem final_invariant {I : σ → Prop} (hstep : ∀ s i, I s → I (step s i).2)
    (is : List ι) {s : σ} (hs : I s) : I (final step s is) := by
  induction is generalizing s with
  | nil => exact hs
  | cons i is ih => exact ih (hstep s i hs)

/-- An invariant may also mention everything that happened so far. -/
theorem history_invariant {I : List (Event σ ι ρ) → σ → Prop} {s : σ} (hs : I [] s)
    (hstep : ∀ past t i, I past t → I (past ++ [⟨t,i,(step t i).1⟩]) (step t i).2)
    (is : List ι) : I (trace step s is) (final step s is) := by
  induction is using List.reverseRecOn with
  | nil => exact hs
  | append_singleton is i ih =>
    simp only [trace_append,final_append,trace,final]
    exact hstep _ _ _ ih

/-- What every step from a state that satisfies the invariant shows, every event of a run shows. -/
theorem trace_invariant {I : σ → Prop} {P : Event σ ι ρ → Prop}
    (hstep : ∀ s i, I s → I (step s i).2 ∧ P ⟨s,i,(step s i).1⟩) (is : List ι) {s : σ} (hs : I s) :
    ∀ e ∈ trace step s is, P e := by
  induction is generalizing s with
  | nil => simp [trace]
  | cons i is ih =>
    obtain ⟨hn,hp⟩ := hstep s i hs
    exact forall_mem_cons.mpr ⟨hp,ih hn⟩

/-- An event of a history that has just grown is the new one or an earlier one. -/
theorem snoc_split {past earlier later : List α} {e x : α}
    (h : past ++ [e] = earlier ++ x :: later) :
    (earlier = past ∧ x = e ∧ later = []) ∨ ∃ rest, later = rest ++ [e] ∧
    past = earlier ++ x :: rest := by
  rcases eq_nil_or_concat later with rfl | ⟨rest,last,rfl⟩
  · obtain ⟨rfl,he⟩ := append_inj' h rfl
    cases he
    exact .inl ⟨rfl,rfl,rfl⟩
  · rw [concat_eq_append,← cons_append,← append_assoc] at h
    obtain ⟨rfl,he⟩ := append_inj' h rfl
    cases he
    exact .inr ⟨rest,concat_eq_append,rfl⟩

/-- Every event of a run is a step from the state that its predecessors reach. -/
theorem trace_split {s is past later e} (h : trace step s is = past ++ e :: later) :
    ∃ is₁ i is₂, is = is₁ ++ i :: is₂ ∧ past = trace step s is₁ ∧
      e = ⟨final step s is₁,i,(step (final step s is₁) i).1⟩ ∧
      later = trace step (step (final step s is₁) i).2 is₂ := by
  induction is generalizing s past with
  | nil => simp [trace] at h
  | cons i is ih =>
    cases past with
    | nil =>
      simp only [trace,nil_append,List.cons.injEq] at h
      exact ⟨[],i,is,rfl,rfl,h.1.symm,h.2.symm⟩
    | cons p past =>
      simp only [trace,cons_append,List.cons.injEq] at h
      obtain ⟨is₁,j,is₂,his,hpast,he,hl⟩ := ih h.2
      refine ⟨i::is₁,j,is₂,?_,?_,he,hl⟩
      · simp [his]
      · simp only [trace,← h.1,← hpast]

end Transition
end FrankenRemote
