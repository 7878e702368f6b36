import FrankenRemote.IntervalCover
import FrankenRemote.SendEffect
import Mathlib.Data.List.GetD

/-! Ranges of a repair job. Whatever is joined or bridged, a range starts where some request
started and ends where some request ended, so a job costs no more per fragment than its
requests did. -/
namespace FrankenRemote.Delivery

open Wire Bytes SlotTable Tiling IntervalCover List

/-- A non-empty range that starts as `S` allows and ends by `n`. -/
abbrev Lies (S : ℕ → Prop) (n : ℕ) (r : RepairRange) : Prop :=
  S r.start ∧ r.start < r.stop ∧ r.stop ≤ n

/-- Such ranges with gaps between them. -/
structure Separated (S : ℕ → Prop) (n : ℕ) (ranges : List RepairRange) : Prop where
  gaps : ranges.Pairwise (·.stop < ·.start)
  inside : ∀ r ∈ ranges, Lies S n r

section Ranges

variable {S : ℕ → Prop} {n : ℕ} {xs : List RepairRange} {next : RepairRange}

theorem separated_nil : Separated S n [] := by
  constructor <;> simp

theorem separated_snoc (h : Separated S n xs)
    (hgap : ∀ last, xs.getLast? = some last → last.stop < next.start) (hn : Lies S n next) :
    Separated S n (xs ++ [next]) := by
  constructor
  · refine pairwise_append.mpr ⟨h.gaps,pairwise_singleton _ _,fun a ha b hb => ?_⟩
    obtain rfl := mem_singleton.mp hb
    cases xs using List.reverseRecOn with
    | nil => cases ha
    | append_singleton rs last =>
      have hl : last.stop < b.start := hgap last (by simp)
      rcases mem_append.mp ha with ha | ha
      · have hbefore := (pairwise_append.mp h.gaps).2.2 a ha last (mem_singleton_self _)
        have hi := (h.inside last (by simp)).2.1
        omega
      · obtain rfl := mem_singleton.mp ha
        exact hl
  · intro r hr
    rcases mem_append.mp hr with hr | hr
    · exact h.inside r hr
    · obtain rfl := mem_singleton.mp hr
      exact hn

/-- Joining two neighbours closes the gap between them. -/
theorem separated_join {before after a b} (h : Separated S n (before ++ a :: b :: after)) :
    Separated S n (before ++ ⟨a.start,b.stop⟩ :: after) := by
  have ha := h.inside a (by simp)
  have hb := h.inside b (by simp)
  obtain ⟨hbefore,hre,hc⟩ := pairwise_append.mp h.gaps
  simp only [pairwise_cons,mem_cons,forall_eq_or_imp] at hre hc
  obtain ⟨⟨_,_⟩,hba,hp⟩ := hre
  constructor
  · refine pairwise_append.mpr ⟨hbefore,pairwise_cons.mpr ⟨hba,hp⟩,?_⟩
    intro r hr x hx
    rcases mem_cons.mp hx with rfl | hx
    · exact (hc r hr).1
    · exact (hc r hr).2.2 x hx
  · intro r hr
    rcases mem_append.mp hr with hr | hr
    · exact h.inside r (by simp [hr])
    · rcases mem_cons.mp hr with rfl | hr
      · refine ⟨ha.1,?_,hb.2.2⟩
        change a.start < b.stop
        omega
      · exact h.inside r (by simp [hr])

theorem foldl_least (f : ℕ → ℕ) (is : List ℕ) (k : ℕ) :
    ∃ j, is.foldl (fun x i => if f i < x.2 then (i,f i) else x)
      (k,f k) = (j,f j) ∧ (j = k ∨ j ∈ is) ∧ ∀ i ∈ k::is, f j ≤ f i := by
  induction is generalizing k with
  | nil => exact ⟨k,rfl,.inl rfl,by simp⟩
  | cons i is ih =>
    rw [foldl_cons]
    by_cases hless : f i < f k
    · obtain ⟨j,hj,hm,hl⟩ := ih i
      rw [if_pos hless]
      refine ⟨j,hj,.inr (by simpa using hm),forall_mem_cons.mpr ⟨?_,hl⟩⟩
      exact (hl i (by simp)).trans hless.le
    · obtain ⟨j,hj,hm,hl⟩ := ih k
      rw [if_neg hless]
      obtain ⟨hk,hr⟩ := forall_mem_cons.mp hl
      refine ⟨j,hj,hm.imp_right (mem_cons_of_mem _),?_⟩
      exact forall_mem_cons.mpr ⟨hk,forall_mem_cons.mpr ⟨hk.trans (not_lt.mp hless),hr⟩⟩

/-- The gap after the first `i+1` ranges. -/
def gapAfter (ranges : List RepairRange) (i : ℕ) : ℕ :=
  (ranges.getD (i+1) ⟨0,0⟩).start - (ranges.getD i ⟨0,0⟩).stop

theorem gapAfter_length (before after : List RepairRange) (a b : RepairRange) :
    gapAfter (before ++ a::b::after) before.length = b.start - a.stop := by
  simp [gapAfter]

theorem smallestGap_least (next : RepairRange) (hne : xs ≠ []) :
    (smallestGap xs next).1 < xs.length ∧ ∀ i < xs.length,
      gapAfter (xs ++ [next]) (smallestGap xs next).1 ≤ gapAfter (xs ++ [next]) i := by
  have hpos := length_pos_iff.mpr hne
  have hla : next.start - (xs.getD (xs.length - 1) ⟨0,0⟩).stop =
      gapAfter (xs ++ [next]) (xs.length - 1) := by
    have hn : xs.length - 1 + 1 = xs.length := by omega
    rw [gapAfter,hn,getD_append xs [next] _ (xs.length - 1) (by omega)]
    simp
  have hfold : smallestGap xs next = (List.range (xs.length - 1)).foldl
      (fun x i => if gapAfter (xs ++ [next]) i < x.2 then (i,gapAfter (xs ++ [next]) i) else x)
      (xs.length - 1,gapAfter (xs ++ [next]) (xs.length - 1)) := by
    rw [← hla]
    refine foldl_ext _ _ _ fun x i hi => ?_
    have hi := mem_range.mp hi
    rw [gapAfter,getD_append _ _ _ _ (by omega),getD_append _ _ _ _ (by omega)]
  obtain ⟨j,hj,hm,hl⟩ := foldl_least (gapAfter (xs ++ [next])) (List.range (xs.length - 1))
    (xs.length - 1)
  rw [hfold,hj]
  simp only [mem_cons,mem_range] at hm hl
  exact ⟨by omega,fun i hi => hl i (by omega)⟩

/-- Bridging joins two neighbours of the extended list, with no smaller gap elsewhere. -/
theorem bridge_join (next : RepairRange) (hne : xs ≠ []) : ∃ before a b after,
    xs ++ [next] = before ++ a :: b :: after ∧
    bridge xs next = before ++ ⟨a.start,b.stop⟩ :: after ∧
      ∀ g ∈ gaps RepairRange.start RepairRange.stop (xs ++ [next]), b.start - a.stop ≤ g := by
  obtain ⟨hm,hl⟩ := smallestGap_least next hne
  generalize hmerge : (smallestGap xs next).1 = m at hm hl
  have hs : ∀ before a b after, xs ++ [next] = before ++ a::b::after → before.length = m →
      ∀ g ∈ gaps RepairRange.start RepairRange.stop (xs ++ [next]), b.start - a.stop ≤ g := by
    rintro before a b after hsp rfl g hg
    obtain ⟨before',c,d,_,ho,rfl⟩ := mem_gaps hg
    have hlength := congrArg List.length ho
    simp only [length_append,length_cons,length_nil] at hlength
    have hle := hl before'.length (by omega)
    rw [hsp,gapAfter_length] at hle
    rwa [← hsp,ho,gapAfter_length] at hle
  have hsp : xs ++ [next] = xs.take m ++ xs[m] :: (xs.drop (m+1) ++ [next]) := by
    have hr : xs = xs.take m ++ xs[m] :: xs.drop (m+1) := by simp
    have hsnoc := congrArg (· ++ [next]) hr
    simpa only [append_assoc,cons_append] using hsnoc
  have hlen : (xs.take m).length = m := by simp; omega
  unfold bridge
  simp only [hmerge]
  split
  · rename_i hla
    have hdrop : xs.drop (m+1) = [] := drop_eq_nil_of_le (by omega)
    have hjoin : xs ++ [next] = xs.take m ++ xs[m]::next::[] := by rw [hsp,hdrop,nil_append]
    refine ⟨xs.take m,xs[m],next,[],hjoin,?_,hs _ _ _ _ hjoin hlen⟩
    rw [modify_eq_take_cons_drop hm,hdrop]
  · rename_i hi
    have hm' : m+1 < xs.length := by omega
    have hdrop : xs.drop (m+1) = xs[m+1] :: xs.drop (m+2) := drop_eq_getElem_cons hm'
    have hjoin : xs ++ [next] = xs.take m ++ xs[m]::xs[m+1]::(xs.drop (m+2) ++ [next]) := by
      rw [hsp,hdrop,cons_append]
    refine ⟨xs.take m,xs[m],xs[m+1],xs.drop (m+2) ++ [next],hjoin,?_,hs _ _ _ _ hjoin hlen⟩
    have ha : xs.getD (m+1) ⟨0,0⟩ = xs[m+1] := by simp [hm']
    rw [ha,modify_eq_take_cons_drop hm,hdrop,eraseIdx_append_of_length_le (by omega),hlen]
    simp

section Admission

variable {m : ℕ} (hmaximum : 0 < m)
include hmaximum

theorem separated_admitRange (h : Separated S n xs)
    (hgap : ∀ last, xs.getLast? = some last → last.stop < next.start) (hn : Lies S n next) :
    Separated S n (admitRange m xs next) ∧ admitRange m xs next ≠ [] ∧
      (xs.length ≤ m → (admitRange m xs next).length ≤ m) := by
  have hsnoc := separated_snoc h hgap hn
  unfold admitRange
  split
  · rename_i hr
    exact ⟨hsnoc,by simp,fun _ => by simpa using hr⟩
  · rename_i hfull
    have hne : xs ≠ [] := by
      rintro rfl
      simp at hfull
      omega
    obtain ⟨_,a,b,_,hs,hb,_⟩ := bridge_join next hne
    have hlen := congrArg List.length hs
    rw [hs] at hsnoc
    rw [hb]
    refine ⟨separated_join hsnoc,by simp,fun hfew => ?_⟩
    simp only [length_append,length_cons,length_nil] at hlen ⊢
    omega

theorem separated_absorb (h : Separated S n xs) (hn : Lies S n next) :
    Separated S n (RepairJob.absorb m xs next) ∧ RepairJob.absorb m xs next ≠ [] ∧
      (xs.length ≤ m → (RepairJob.absorb m xs next).length ≤ m) := by
  cases xs using List.reverseRecOn with
  | nil => exact separated_admitRange hmaximum h (by simp) hn
  | append_singleton rs last =>
    have hl := h.inside last (by simp)
    simp only [RepairJob.absorb,List.getLast?_concat,dropLast_concat]
    split
    · obtain ⟨hrs,_,hc⟩ := pairwise_append.mp h.gaps
      refine ⟨⟨?_,?_⟩,by simp,by simp⟩
      · refine pairwise_append.mpr ⟨hrs,pairwise_singleton _ _,fun a ha b hb => ?_⟩
        obtain rfl := mem_singleton.mp hb
        exact hc a ha last (mem_singleton_self _)
      · intro r hr
        rcases mem_append.mp hr with hr | hr
        · exact h.inside r (by simp [hr])
        · obtain rfl := mem_singleton.mp hr
          exact ⟨hl.1,lt_max_of_lt_left hl.2.1,max_le hl.2.2 hn.2.2⟩
    · rename_i hgap
      refine separated_admitRange hmaximum h (fun r hr => ?_) hn
      simp only [List.getLast?_concat,Option.some.injEq] at hr
      subst hr
      exact not_le.mp hgap

theorem separated_fold {more} (hmore : ∀ r ∈ more, Lies S n r)
    (h : Separated S n xs) (hfew : xs.length ≤ m) (hne : more ≠ []) :
    Separated S n (more.foldl (RepairJob.absorb m) xs) ∧
      more.foldl (RepairJob.absorb m) xs ≠ [] ∧
      (more.foldl (RepairJob.absorb m) xs).length ≤ m := by
  induction more generalizing xs with
  | nil => exact absurd rfl hne
  | cons r rs ih =>
    obtain ⟨hr,hrne,hrfew⟩ := separated_absorb hmaximum h (hmore r mem_cons_self)
    rw [foldl_cons]
    by_cases hrs : rs = []
    · subst hrs
      exact ⟨hr,hrne,hrfew hfew⟩
    · exact ih (fun x hx => hmore x (mem_cons_of_mem _ hx)) hr (hrfew hfew) hrs

end Admission

end Ranges

/-! Jobs. -/

/-- What is left of a job: ranges in their order, not too many of them, that start as `S` allows
and end by `n`. -/
structure JobSound (S : ℕ → Prop) (n limit : ℕ) (job : RepairJob) : Prop where
  unfinished : job.remaining ≠ []
  ordered : job.remaining.Pairwise (·.stop ≤ ·.start)
  inside : ∀ r ∈ job.remaining, Lies S n r
  few : job.remaining.length ≤ limit

section Jobs

variable {S : ℕ → Prop} {n limit : ℕ} {job next : RepairJob} {xs rest : List RepairRange}
    {r : RepairRange}

theorem getD_of_drop {α : Type} {xs rest : List α} {x i} (h : xs.drop i = x::rest) (d : α) :
    xs.getD i d = x := by
  have hg : xs[i]? = some x := by
    rw [← List.head?_drop,h]
    rfl
  simp [List.getD,hg]

theorem remaining_start (xs : List RepairRange) :
    RepairJob.remaining ⟨xs,0,(xs.headD ⟨0,0⟩).start⟩ = xs := by
  cases xs <;> rfl

theorem jobSound_start (hr : xs ≠ []) (ho : xs.Pairwise (·.stop ≤ ·.start))
    (hi : ∀ r ∈ xs, Lies S n r) (hfew : xs.length ≤ limit) :
    JobSound S n limit ⟨xs,0,(xs.headD ⟨0,0⟩).start⟩ := by
  constructor <;> rw [remaining_start]
  exacts [hr,ho,hi,hfew]

theorem remaining_cons (h : job.remaining = r::rest) :
    r.start = job.fragment ∧ ∃ q, job.ranges.drop job.range = q::rest ∧ q.stop = r.stop := by
  unfold RepairJob.remaining at h
  split at h
  · cases h
  rename_i q qs hdrop
  cases h
  exact ⟨rfl,q,hdrop,rfl⟩

theorem JobSound.fragment (h : JobSound S n limit job) : S job.fragment ∧ job.fragment < n := by
  obtain ⟨r,_,hrem⟩ := exists_cons_of_ne_nil h.unfinished
  have hr := h.inside r (by simp [hrem])
  rw [← (remaining_cons hrem).1]
  exact ⟨hr.1,hr.2.1.trans_le hr.2.2⟩

theorem remaining_advance (h : job.remaining = r::rest) (ha : job.advance = some next) :
    next.remaining ≠ [] ∧
    (next.remaining = rest ∨ next.remaining = ⟨r.start+1,r.stop⟩::rest ∧ r.start+1 ≠ r.stop) := by
  obtain ⟨hs,q,hdrop,hstop⟩ := remaining_cons h
  have hre : job.ranges.drop (job.range+1) = rest := by
    rw [← drop_drop,hdrop]
    rfl
  unfold RepairJob.advance at ha
  rw [getD_of_drop hdrop] at ha
  split at ha
  · split at ha
    · cases ha
    cases ha
    have hlen := congrArg List.length hdrop
    cases rest with
    | nil =>
      simp only [length_drop,length_singleton] at hlen
      omega
    | cons x xs =>
      have hr : RepairJob.remaining
          ⟨job.ranges,job.range+1,(job.ranges.getD (job.range+1) ⟨0,0⟩).start⟩ = x::xs := by
        rw [getD_of_drop hre,RepairJob.remaining]
        simp [hre]
      rw [hr]
      exact ⟨by simp,.inl rfl⟩
  · cases ha
    have hr : RepairJob.remaining {job with fragment := job.fragment+1} =
        ⟨r.start+1,r.stop⟩::rest := by
      simp [RepairJob.remaining,hdrop,hs,hstop]
    rw [hr]
    exact ⟨by simp,.inr ⟨rfl,by rwa [hs,← hstop]⟩⟩

theorem JobSound.advance (hS : ∀ i j, S i → i ≤ j → j < n → S j) (h : JobSound S n limit job)
    (ha : job.advance = some next) : JobSound S n limit next := by
  obtain ⟨hu,ho,hi,hfew⟩ := h
  obtain ⟨r,_,hrem⟩ := exists_cons_of_ne_nil hu
  obtain ⟨hsome,hn⟩ := remaining_advance hrem ha
  rw [hrem,pairwise_cons] at ho
  rw [hrem,forall_mem_cons] at hi
  rw [hrem,length_cons] at hfew
  rcases hn with hn | ⟨hn,hmore⟩
  · exact ⟨hsome,hn ▸ ho.2,hn ▸ hi.2,by rw [hn]; omega⟩
  · obtain ⟨⟨hr,_,hstop⟩,hre⟩ := hi
    refine ⟨hsome,?_,?_,by rw [hn,length_cons]; omega⟩ <;> rw [hn]
    · exact pairwise_cons.mpr ho
    · exact forall_mem_cons.mpr
        ⟨⟨hS r.start (r.start+1) hr (Nat.le_succ _) (by omega),by simp only; omega,hstop⟩,hre⟩

theorem JobSound.coalesce {m} (h : JobSound S n limit job) (hran : ∀ r ∈ xs, Lies S n r)
    (hc : job.coalesce xs m = .ok next) : JobSound S n m next := by
  unfold RepairJob.coalesce at hc
  dsimp only at hc
  split at hc
  · cases hc
  rename_i hmaximum
  split at hc
  · cases hc
  cases hc
  have hm : List.merge job.remaining xs (fun a b => a.start ≤ b.start) ≠ [] := by
    intro hnil
    have hlen := congrArg List.length hnil
    rw [length_merge] at hlen
    have hpos := length_pos_iff.mpr h.unfinished
    simp only [length_nil] at hlen
    omega
  have hall : ∀ r ∈ List.merge job.remaining xs (fun a b => a.start ≤ b.start), Lies S n r := by
    intro r hr
    exact (mem_merge.mp hr).elim (h.inside r) (hran r)
  obtain ⟨hs,hres,hfew⟩ := separated_fold (Nat.pos_of_ne_zero hmaximum) hall separated_nil
    (Nat.zero_le _) hm
  exact jobSound_start hres (hs.gaps.imp fun h => h.le) hs.inside
    (hfew.trans (min_le_left _ _))

end Jobs

end FrankenRemote.Delivery
