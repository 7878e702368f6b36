import Mathlib.Order.Interval.Finset.Nat
import Mathlib.Tactic

/-! Covers of numbers by few intervals. Intervals that lie apart are joined until few enough are
left; a list that always joins across its smallest gap is the shortest cover of its size. -/
namespace FrankenRemote.IntervalCover

open List Finset Nat

variable {ι : Type*} (start stop : ι → ℕ)

/-- Intervals are half open. -/
def Within (x : ℕ) (l : List ι) : Prop := ∃ r ∈ l, start r ≤ x ∧ x < stop r

def total (l : List ι) : ℕ := (l.map fun r => stop r - start r).sum

/-- The gaps before the intervals, when the one before them stops at `e`. -/
def gapsFrom (e : ℕ) : List ι → List ℕ
  | [] => []
  | r::rest => (start r - e)::gapsFrom (stop r) rest

def gaps : List ι → List ℕ
  | [] => []
  | r::rest => gapsFrom start stop (stop r) rest

/-- The sum of the gaps, none of which counts for more than `θ`. -/
def capped (θ : ℕ) (gs : List ℕ) : ℕ := (gs.map (min · θ)).sum

/-- Non-empty intervals in their order, with a gap between any two. -/
structure Apart (l : List ι) : Prop where
  gaps : l.Pairwise (stop · < start ·)
  proper : ∀ r ∈ l, start r < stop r

section Lists

variable {start stop} {l : List ι} {a b : ι} {x θ : ℕ}

@[simp] theorem within_nil : ¬Within start stop x [] := by
  rintro ⟨_,h,_⟩
  cases h

@[simp] theorem within_cons : Within start stop x (a::l) ↔ (start a ≤ x ∧ x < stop a) ∨
    Within start stop x l := by
  simp [Within]

@[simp] theorem within_append {k} :
    Within start stop x (l ++ k) ↔ Within start stop x l ∨ Within start stop x k := by
  simp [Within,or_and_right,exists_or]

@[simp] theorem total_nil : total start stop [] = 0 := rfl

@[simp] theorem total_cons : total start stop (a::l) = stop a - start a + total start stop l := by
  simp [total]

@[simp] theorem total_append {k} :
    total start stop (l ++ k) = total start stop l + total start stop k := by
  simp [total]

@[simp] theorem capped_nil : capped θ [] = 0 := rfl

@[simp] theorem capped_cons {g gs} : capped θ (g::gs) = min g θ + capped θ gs := by
  simp [capped]

@[simp] theorem capped_append {gs hs} : capped θ (gs ++ hs) = capped θ gs + capped θ hs := by
  simp [capped]

theorem capped_of_le {gs} (h : ∀ g ∈ gs, θ ≤ g) : capped θ gs = θ*gs.length := by
  induction gs with
  | nil => rfl
  | cons g gs ih =>
    have hg := h g (by simp)
    rw [capped_cons,ih fun g hg => h g (mem_cons_of_mem _ hg),length_cons,mul_succ]
    omega

theorem length_gapsFrom (e : ℕ) (l : List ι) : (gapsFrom start stop e l).length = l.length := by
  induction l generalizing e with
  | nil => rfl
  | cons r l ih => simp [gapsFrom,ih]

theorem length_gaps (l : List ι) : (gaps start stop l).length = l.length - 1 := by
  cases l with
  | nil => rfl
  | cons r l => simp [gaps,length_gapsFrom]

theorem gapsFrom_append (e : ℕ) (k : List ι) :
    gapsFrom start stop e (l ++ a::k) = gapsFrom start stop e (l ++ [a]) ++ gapsFrom start stop
      (stop a) k := by
  induction l generalizing e with
  | nil => simp [gapsFrom]
  | cons r l ih => simp [gapsFrom,ih]

theorem gaps_append (k : List ι) :
    gaps start stop (l ++ a::k) = gaps start stop (l ++ [a]) ++ gapsFrom start stop (stop a) k := by
  cases l with
  | nil => simp [gaps,gapsFrom]
  | cons r l => exact gapsFrom_append _ _

theorem gaps_snoc : gaps start stop (l ++ [a]) =
    gaps start stop l ++ ((l.getLast?.map stop).map (start a - ·)).toList := by
  cases l using List.reverseRecOn with
  | nil => rfl
  | append_singleton l b =>
    rw [append_assoc,singleton_append,gaps_append,List.getLast?_concat]
    rfl

theorem mem_gaps {g} (h : g ∈ gaps start stop l) :
    ∃ before a b after, l = before ++ a::b::after ∧ g = start b - stop a := by
  induction l with
  | nil => cases h
  | cons r l ih =>
    cases l with
    | nil => cases h
    | cons b after =>
      rcases mem_cons.mp h with rfl | h
      · exact ⟨[],r,b,after,rfl,rfl⟩
      · obtain ⟨before,c,d,after,hs,rfl⟩ := ih h
        exact ⟨r::before,c,d,after,by rw [hs]; rfl,rfl⟩

end Lists

/-! No cover is shorter. -/

section Covers

variable {start stop} {l : List ι} {κ : Type*} {first past : κ → ℕ} {cover : List κ}

theorem card_le_total {s : Finset ℕ} (h : ∀ x ∈ s, Within first past x cover) :
    s.card ≤ total first past cover := by
  induction cover generalizing s with
  | nil =>
    rw [eq_empty_of_forall_notMem fun x hx => within_nil (h x hx)]
    rfl
  | cons r cover ih =>
    have hre : (s \ Finset.Ico (first r) (past r)).card ≤ total first past cover := by
      refine ih fun x hx => ?_
      obtain ⟨hx,hnot⟩ := mem_sdiff.mp hx
      exact (within_cons.mp (h x hx)).resolve_left fun hr => hnot (mem_Ico.mpr hr)
    have hcard := card_le_card_sdiff_add_card (s := s) (t := Finset.Ico (first r) (past r))
    rw [card_Ico] at hcard
    rw [total_cons]
    omega

/-- Ordered intervals contain as many numbers as their total. -/
theorem exists_card_eq_total (ho : l.Pairwise (stop · ≤ start ·)) :
    ∃ s : Finset ℕ, (∀ x, x ∈ s ↔ Within start stop x l) ∧ s.card = total start stop l := by
  induction l with
  | nil => exact ⟨∅,by simp,rfl⟩
  | cons r l ih =>
    obtain ⟨hr,hl⟩ := pairwise_cons.mp ho
    obtain ⟨s,hs,hcard⟩ := ih hl
    refine ⟨Finset.Ico (start r) (stop r) ∪ s,by simp [hs],?_⟩
    rw [card_union_of_disjoint,card_Ico,hcard,total_cons]
    refine disjoint_left.mpr fun x hx hxs => ?_
    obtain ⟨q,hq,_,_⟩ := (hs x).mp hxs
    have hx := (mem_Ico.mp hx).2
    have ha := hr q hq
    omega

/-- Each interval of a cover beyond the first saves at most one gap. -/
theorem capped_le_cover {l : List ι} (θ : ℕ) {s e : ℕ} (hl : Apart start stop l)
    (ha : ∀ r ∈ l, e < start r) (hs : s < e) (hf : ∀ x, s ≤ x → x < e → Within first past x cover)
    (hcover : ∀ x, Within start stop x l → Within first past x cover) :
    e - s + total start stop l + capped θ (gapsFrom start stop e l) ≤
      total first past cover + θ*(cover.length - 1) := by
  induction l generalizing s e cover with
  | nil =>
    have hcard : (Finset.Ico s e).card ≤ total first past cover :=
      card_le_total fun x hx => hf x (mem_Ico.mp hx).1 (mem_Ico.mp hx).2
    rw [card_Ico] at hcard
    simp only [gapsFrom,total_nil,capped_nil]
    omega
  | cons r l ih =>
    obtain ⟨hr,hpairs⟩ := pairwise_cons.mp hl.gaps
    have hl' : Apart start stop l := ⟨hpairs,fun q hq => hl.proper q (mem_cons_of_mem _ hq)⟩
    have hp := hl.proper r (by simp)
    have hgap := ha r (by simp)
    simp only [gapsFrom,total_cons,capped_cons]
    by_cases hb : ∃ c ∈ cover, first c < e ∧ start r < past c
    · -- the gap is covered as well, so that the two intervals count as one
      obtain ⟨c,hc,_,_⟩ := hb
      have hj := ih hl' hr (s := s) (by omega) (fun x hx hxr => by
        by_cases hxe : x < e
        · exact hf x hx hxe
        · by_cases hxr' : x < start r
          · exact ⟨c,hc,by omega,by omega⟩
          · exact hcover x (within_cons.mpr (.inl ⟨by omega,hxr⟩)))
              fun x hx => hcover x (within_cons.mpr (.inr hx))
      omega
    · -- the intervals up to the gap cover nothing behind it
      obtain ⟨here,there,hperm,hhere,hthere⟩ : ∃ here there : List κ, (here ++ there).Perm cover ∧
          (∀ c ∈ here, first c < e) ∧ ∀ c ∈ there, e ≤ first c :=
        ⟨_,_,filter_append_perm (first · < e) cover,by simp,by simp⟩
      have hm : ∀ x, Within first past x cover → Within first past x here ∨
          Within first past x there := by
        rintro x ⟨c,hc,hx⟩
        exact within_append.mp ⟨c,hperm.mem_iff.mpr hc,hx⟩
      have hfront : ∀ x, s ≤ x → x < e → Within first past x here := by
        intro x hx hxe
        refine (hm x (hf x hx hxe)).resolve_right ?_
        rintro ⟨c,hc,_,_⟩
        have hec := hthere c hc
        omega
      have hcov : ∀ x, Within start stop x (r::l) → Within first past x there := by
        intro x hx
        refine (hm x (hcover x hx)).resolve_left ?_
        rintro ⟨c,hc,_,hxc⟩
        refine hb ⟨c,hperm.mem_iff.mp (mem_append_left _ hc),hhere c hc,lt_of_le_of_lt ?_ hxc⟩
        obtain ⟨q,hq,hqx,_⟩ := hx
        rcases mem_cons.mp hq with rfl | hq
        · exact hqx
        · exact (hp.trans (hr q hq)).le.trans hqx
      have hcard : (Finset.Ico s e).card ≤ total first past here :=
        card_le_total fun x hx => hfront x (mem_Ico.mp hx).1 (mem_Ico.mp hx).2
      have hre := ih hl' hr hp (fun x hx hxr => hcov x (within_cons.mpr (.inl ⟨hx,hxr⟩)))
        fun x hx => hcov x (within_cons.mpr (.inr hx))
      obtain ⟨c,hc,_⟩ := hfront s le_rfl hs
      obtain ⟨d,hd,_⟩ := hcov (start r) (within_cons.mpr (.inl ⟨le_rfl,hp⟩))
      have hhere := length_pos_of_mem hc
      have hthere := length_pos_of_mem hd
      have hlen := hperm.length_eq
      have ht : total first past here + total first past there = total first past cover := by
        rw [← total_append]
        exact (hperm.map _).sum_eq
      have hθ : θ*(there.length - 1) + θ ≤ θ*(cover.length - 1) := by
        rw [← mul_succ,← hlen,length_append]
        exact mul_le_mul_left _ (by omega)
      rw [card_Ico] at hcard
      omega

end Covers

/-! Joining across the smallest gap. -/

/-- The list joins intervals of `runs` across the gaps up to some bound, and is full if it
joined any. -/
structure Bridged (limit : ℕ) (runs out : List ι) : Prop where
  few : out.length ≤ limit
  last : out.getLast?.map stop = runs.getLast?.map stop
  cut : ∃ θ, (θ = 0 ∨ out.length = limit) ∧ (∀ g ∈ gaps start stop out, θ ≤ g) ∧ ∀ t, θ ≤ t →
    total start stop out + capped t (gaps start stop out) = total start stop runs + capped t
      (gaps start stop runs)

/-- Dropping the smallest of all gaps, one of which is new, leaves none below the old ones. -/
theorem le_of_dropped {gs before after : List ℕ} {g m θ : ℕ} (h : gs ++ [g] = before ++ m::after)
    (hwide : ∀ x ∈ gs, θ ≤ x) (hl : ∀ x ∈ gs ++ [g], m ≤ x) : ∀ x ∈ before ++ after, θ ≤ x := by
  intro x hx
  cases after using List.reverseRecOn with
  | nil =>
    -- the new gap is the one that goes
    obtain ⟨rfl,_⟩ := append_inj' h rfl
    exact hwide x (by simpa using hx)
  | append_singleton after z =>
    rw [← cons_append,← append_assoc] at h
    obtain ⟨rfl,hg⟩ := append_inj' h rfl
    cases hg
    have hm := hwide m (by simp)
    have hmx := hl x (by simp at hx ⊢; tauto)
    omega

namespace Bridged

variable {start stop} {limit : ℕ} {runs out : List ι}

theorem nil (limit : ℕ) : Bridged start stop limit [] [] :=
  ⟨zero_le _,rfl,0,.inl rfl,fun g hg => (by cases hg),fun _ _ => rfl⟩

/-- No cover by as many intervals is shorter. -/
theorem least {κ : Type*} {first past : κ → ℕ} {cover : List κ}
    (h : Bridged start stop limit runs out)
    (hruns : Apart start stop runs) (hc : ∀ x, Within start stop x runs → Within first past x cover)
    (hfew : cover.length ≤ limit) : total start stop out ≤ total first past cover := by
  obtain ⟨θ,hfull,hwide,hcut⟩ := h.cut
  cases runs with
  | nil =>
    have hnil : out = [] := by simpa using h.last
    simp [hnil]
  | cons r rest =>
    obtain ⟨hr,hp⟩ := pairwise_cons.mp hruns.gaps
    have hproper := hruns.proper r (by simp)
    have hb := capped_le_cover θ (Apart.mk hp
      fun q hq => hruns.proper q (mem_cons_of_mem _ hq)) hr hproper
      (fun x hx hxr => hc x (within_cons.mpr (.inl ⟨hx,hxr⟩)))
        fun x hx => hc x (within_cons.mpr (.inr hx))
    have hcut := hcut θ le_rfl
    rw [capped_of_le hwide,length_gaps,total_cons] at hcut
    simp only [gaps] at hcut
    have hθ : θ*(cover.length - 1) ≤ θ*(out.length - 1) := by
      rcases hfull with rfl | hfull
      · simp
      · exact mul_le_mul_left _ (by omega)
    omega

theorem snoc (h : Bridged start stop limit runs out) (hr : out.length < limit) (a : ι) :
    Bridged start stop limit (runs ++ [a]) (out ++ [a]) := by
  obtain ⟨θ,hfull,_,hc⟩ := h.cut
  obtain rfl : θ = 0 := hfull.resolve_right hr.ne
  refine ⟨by simpa using hr,by simp,0,.inl rfl,fun _ _ => zero_le _,fun t ht => ?_⟩
  have hc := hc t ht
  rw [gaps_snoc,gaps_snoc,h.last,capped_append,capped_append,total_append,total_append]
  omega

theorem grow {a b a' b'} (h : Bridged start stop limit (runs ++ [a]) (out ++ [b]))
    (ha : start a ≤ stop a)
    (hb : start b ≤ stop b) (hs : start a' = start a) (hs' : start b' = start b)
    (hg : stop b ≤ stop b')
    (hstop : stop a' = stop b') : Bridged start stop limit (runs ++ [a']) (out ++ [b']) := by
  obtain ⟨θ,hfull,_,hc⟩ := h.cut
  have hl : stop b = stop a := by simpa using h.last
  have hgaps : gaps start stop (out ++ [b']) = gaps start stop (out ++ [b]) := by
    rw [gaps_snoc,gaps_snoc,hs']
  have hgaps' : gaps start stop (runs ++ [a']) = gaps start stop (runs ++ [a]) := by
    rw [gaps_snoc,gaps_snoc,hs]
  have hfew := h.few
  rw [length_append,length_singleton] at hfew hfull
  refine ⟨by simpa using hfew,by simp [hstop],θ,by simpa using hfull,by rwa [hgaps],fun t ht => ?_⟩
  have hc := hc t ht
  simp only [total_append,total_cons,total_nil] at hc ⊢
  rw [hgaps,hgaps']
  omega

/-- A full list takes one more interval and joins two neighbours across a smallest gap. -/
theorem bridge {a b c m : ι} {before after : List ι} (h : Bridged start stop limit runs out)
    (hfull : out.length = limit) (hs : out ++ [c] = before ++ a::b::after)
    (hapart : Apart start stop (out ++ [c])) (hst : start m = start a) (hstop : stop m = stop b)
    (hl : ∀ g ∈ gaps start stop (out ++ [c]), start b - stop a ≤ g) :
    Bridged start stop limit (runs ++ [c]) (before ++ m::after) := by
  obtain ⟨θ,_,hwide,hc⟩ := h.cut
  have hsnoc : gaps start stop (out ++ [c]) =
      gaps start stop (before ++ [a]) ++ (start b - stop a)::gapsFrom start stop
          (stop b) after := by
    rw [hs,gaps_append]
    rfl
  have hgaps : gaps start stop (before ++ m::after) =
      gaps start stop (before ++ [a]) ++ gapsFrom start stop (stop b) after := by
    rw [gaps_append,gaps_snoc,gaps_snoc,hst,hstop]
  have hlen := congrArg List.length hs
  simp only [length_append,length_cons,length_nil] at hlen
  have hgap : out.getLast?.map stop ≠ none := by
    have hne : out ≠ [] := fun hnil => by simp [hnil] at hlen; omega
    simpa using hne
  obtain ⟨e,he⟩ := Option.ne_none_iff_exists'.mp hgap
  rw [hs] at hapart
  obtain ⟨_,htail,_⟩ := pairwise_append.mp hapart.gaps
  have hab : stop a < start b := (pairwise_cons.mp htail).1 b (by simp)
  have ha := hapart.proper a (by simp)
  have hb := hapart.proper b (by simp)
  refine ⟨?_,?_,max θ (start b - stop a),.inr ?_,fun g hg => max_le ?_ ?_,fun t ht => ?_⟩
  · simp only [length_append,length_cons]
    omega
  · have hla := congrArg (·.getLast?.map stop) hs
    simp only [List.getLast?_append,List.getLast?_cons] at hla ⊢
    cases hafter : after.getLast? <;> simp_all
  · simp only [length_append,length_cons]
    omega
  · rw [gaps_snoc,he] at hsnoc
    rw [gaps_snoc,he] at hl
    exact le_of_dropped hsnoc hwide hl g (hgaps ▸ hg)
  · refine hl g ?_
    rw [hgaps] at hg
    rw [hsnoc]
    rcases mem_append.mp hg with hg | hg <;> simp [hg]
  · have hc := hc t (by omega)
    have hone : total start stop (out ++ [c]) + capped t (gaps start stop (out ++ [c])) =
        total start stop (runs ++ [c]) + capped t (gaps start stop (runs ++ [c])) := by
      rw [gaps_snoc,gaps_snoc,h.last,capped_append,capped_append,total_append,total_append]
      omega
    rw [← hone,hgaps,hsnoc,hs]
    simp only [total_append,total_cons,capped_append,capped_cons]
    omega

end Bridged

end FrankenRemote.IntervalCover
