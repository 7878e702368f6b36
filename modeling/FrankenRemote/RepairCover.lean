import FrankenRemote.RepairService

/-! The ranges that a receiver asks for, and those of a repair job. Both sides admit ranges one
by one and bridge the smallest gap when there is one too many, which covers what is needed with as
few fragments as any list of that size. -/
namespace FrankenRemote.Delivery

open Wire Bytes Procedure SlotTable Transition IntervalCover List Nat

/-- The fragments of some range. -/
def Includes (ranges : List RepairRange) (x : ℕ) : Prop :=
  Within RepairRange.start RepairRange.stop x ranges

/-- Ranges in their order that cover what is needed, with no fragment more than any other cover by
at most `limit` ranges. -/
structure ShortestCover (needed : ℕ → Prop) (limit : ℕ) (ranges : List RepairRange) : Prop where
  sorted : ranges.Pairwise (·.stop < ·.start)
  nonempty : ∀ r ∈ ranges, r.start < r.stop
  covers : ∀ x, needed x → Includes ranges x
  few : ranges.length ≤ limit
  least : ∀ cover : List RepairRange, cover.length ≤ limit → (∀ x, needed x → Includes cover x) →
    RepairJob.covered ranges ≤ RepairJob.covered cover

theorem covered_eq_total (xs : List RepairRange) :
    RepairJob.covered xs = total RepairRange.start RepairRange.stop xs := rfl

/-- A range that began or ended with a fragment nobody needs could do without it. -/
theorem ShortestCover.ends {needed limit xs} (h : ShortestCover needed limit xs) {r} (hr : r ∈ xs) :
    needed r.start ∧ needed (r.stop - 1) := by
  obtain ⟨before,after,rfl⟩ := append_of_mem hr
  have hp := h.nonempty r hr
  have hs : ∀ q : RepairRange, q.stop - q.start < r.stop - r.start →
      (∀ x, needed x → r.start ≤ x → x < r.stop → q.start ≤ x ∧ x < q.stop) → False := by
    intro q hshort hi
    have hl := h.least (before ++ q::after) (by simpa using h.few) fun x hx => by
      have hc := h.covers x hx
      simp only [Includes,within_append,within_cons] at hc ⊢
      exact hc.imp_right (Or.imp_left fun hxr => hi x hx hxr.1 hxr.2)
    simp only [covered_eq_total,total_append,total_cons] at hl
    omega
  constructor
  · by_contra hnot
    refine hs ⟨r.start+1,r.stop⟩ (by simp only; omega) fun x hx hst hstop => ⟨?_,hstop⟩
    exact lt_of_le_of_ne hst fun heq => hnot (heq ▸ hx)
  · by_contra hnot
    refine hs ⟨r.start,r.stop-1⟩ (by simp only; omega) fun x hx hst hstop => ⟨hst,?_⟩
    exact lt_of_le_of_ne (le_sub_one_of_lt hstop)
      fun heq => hnot ((show x = r.stop-1 from heq) ▸ hx)

/-! Admission keeps the cover shortest. -/

/-- Where the admitted ranges stand: the runs of needed fragments, all started by `s`, and the
list that joins some of them. -/
structure Compact (limit n s : ℕ) (needed : ℕ → Prop) (runs out : List RepairRange) : Prop where
  separated : Separated (· ≤ s) n runs ∧ Separated (· ≤ s) n out
  exact : ∀ x, Includes runs x ↔ needed x
  covers : ∀ x, needed x → Includes out x
  joined : Bridged RepairRange.start RepairRange.stop limit runs out

section Admission

variable {limit n s : ℕ} {needed : ℕ → Prop} {xs runs out : List RepairRange} {next : RepairRange}

theorem Separated.apart {S} (h : Separated S n xs) : Apart RepairRange.start RepairRange.stop xs :=
  ⟨h.gaps,fun r hr => (h.inside r hr).2.1⟩

theorem Separated.imp {S T} (h : Separated S n xs) (hST : ∀ x, S x → T x) : Separated T n xs :=
  ⟨h.gaps,fun r hr => (h.inside r hr).imp_left (hST _)⟩

theorem Compact.shortest (h : Compact limit n s needed runs out) :
    ShortestCover needed limit out where
  sorted := h.separated.2.gaps
  nonempty r hr := (h.separated.2.inside r hr).2.1
  covers := h.covers
  few := h.joined.few
  least _ hfew hc := h.joined.least h.separated.1.apart (fun x hx => hc x ((h.exact x).mp hx)) hfew

theorem Compact.imp {needed' s'} (h : Compact limit n s needed runs out) (hs : s ≤ s')
    (hn : ∀ x, needed x ↔ needed' x) : Compact limit n s' needed' runs out where
  separated := ⟨h.separated.1.imp fun _ hx => hx.trans hs,h.separated.2.imp fun _ hx => hx.trans hs⟩
  exact x := (h.exact x).trans (hn x)
  covers x hx := h.covers x ((hn x).mpr hx)
  joined := h.joined

theorem compact_nil (limit n s : ℕ) : Compact limit n s (fun _ => False) [] [] :=
  ⟨⟨separated_nil,separated_nil⟩,fun _ => ⟨within_nil,False.elim⟩,fun _ => False.elim,.nil limit⟩

theorem last_stop (h : Compact limit n s needed runs out) {b} (hb : out.getLast? = some b) :
    ∃ a, runs.getLast? = some a ∧ a.stop = b.stop := by
  have hl := h.joined.last
  rw [hb] at hl
  exact Option.map_eq_some_iff.mp hl.symm

/-- A range behind all others. -/
theorem Compact.take (h : Compact limit n s needed runs out) (hlm : 0 < limit)
    (hn : next.start ≤ s ∧ next.start < next.stop ∧ next.stop ≤ n)
    (hgap : ∀ last, runs.getLast? = some last → last.stop < next.start) :
    Compact limit n s (fun x => needed x ∨ (next.start ≤ x ∧ x < next.stop)) (runs ++ [next])
      (admitRange limit out next) := by
  have hgap' : ∀ last, out.getLast? = some last → last.stop < next.start := by
    intro b hb
    obtain ⟨a,ha,hab⟩ := last_stop h hb
    exact hab ▸ hgap a ha
  have hsnoc := separated_snoc h.separated.2 hgap' hn
  have hc : ∀ x, needed x ∨ (next.start ≤ x ∧ x < next.stop) → Includes (out ++ [next]) x := by
    intro x hx
    rw [Includes,within_append,within_cons]
    exact hx.imp (h.covers x) .inl
  have he : ∀ x, Includes (runs ++ [next]) x ↔ needed x ∨ (next.start ≤ x ∧ x < next.stop) := by
    intro x
    rw [Includes,within_append,within_cons]
    exact or_congr (h.exact x) (or_iff_left within_nil)
  have hsep := (separated_admitRange hlm h.separated.2 hgap' hn).1
  have hruns := separated_snoc h.separated.1 hgap hn
  by_cases hr : out.length < limit
  · rw [admitRange,if_pos hr] at hsep ⊢
    exact ⟨⟨hruns,hsep⟩,he,hc,h.joined.snoc hr next⟩
  have hne : out ≠ [] := fun hnil => by simp [hnil] at hr; omega
  obtain ⟨_,a,b,_,hs,hbridge,hl⟩ := bridge_join next hne
  rw [admitRange,if_neg hr,hbridge] at hsep ⊢
  refine ⟨⟨hruns,hsep⟩,he,fun x hx => ?_,?_⟩
  · have hx := hc x hx
    rw [hs] at hx hsnoc
    have ha := hsnoc.inside a (by simp)
    have hab : a.stop < b.start :=
      (pairwise_cons.mp (pairwise_append.mp hsnoc.gaps).2.1).1 b (by simp)
    have hb := hsnoc.inside b (by simp)
    simp only [Includes,within_append,within_cons] at hx ⊢
    rcases hx with hx | hx | hx | hx
    · exact .inl hx
    · exact .inr (.inl ⟨hx.1,by omega⟩)
    · exact .inr (.inl ⟨by omega,hx.2⟩)
    · exact .inr (.inr hx)
  · exact h.joined.bridge (le_antisymm h.joined.few (not_lt.mp hr)) hs hsnoc.apart rfl rfl hl

/-- With room for it, a range that starts no earlier than the others adds its own fragments. -/
theorem includes_absorb {m} (h : Separated (· ≤ next.start) n xs) (hr : xs.length < m)
    (x : ℕ) : Includes (RepairJob.absorb m xs next) x ↔
      Includes xs x ∨ (next.start ≤ x ∧ x < next.stop) := by
  cases xs using List.reverseRecOn with
  | nil =>
    simp only [RepairJob.absorb,List.getLast?_nil,admitRange,if_pos hr]
    simp [Includes]
  | append_singleton rs last =>
    have hl := h.inside last (by simp)
    simp only [RepairJob.absorb,List.getLast?_concat,dropLast_concat]
    split
    · simp only [Includes,within_append,within_cons,within_nil,or_false,or_assoc]
      refine or_congr_right ?_
      omega
    · rw [admitRange,if_pos hr]
      simp [Includes,or_assoc]

theorem Compact.absorb (h : Compact limit n s needed runs out) (hl : 0 < limit)
    (hs : s ≤ next.start)
    (hn : next.start < next.stop ∧ next.stop ≤ n) : ∃ runs', Compact limit n next.start
      (fun x => needed x ∨ (next.start ≤ x ∧ x < next.stop)) runs'
        (RepairJob.absorb limit out next) := by
  have h := h.imp hs fun _ => Iff.rfl
  have hsound := (separated_absorb hl h.separated.2 ⟨le_rfl,hn⟩).1
  cases out using List.reverseRecOn with
  | nil =>
    have hruns : runs = [] := by simpa using h.joined.last
    subst hruns
    exact ⟨_,h.take hl ⟨le_rfl,hn⟩ (by simp)⟩
  | append_singleton os b =>
    obtain ⟨a,ha,hab⟩ := last_stop h List.getLast?_concat
    obtain ⟨rs,rfl⟩ := List.getLast?_eq_some_iff.mp ha
    have hruns := (separated_absorb (succ_pos (rs ++ [a]).length) h.separated.1 ⟨le_rfl,hn⟩).1
    have he := includes_absorb h.separated.1 (lt_succ_self _)
    simp only [RepairJob.absorb,List.getLast?_concat,dropLast_concat] at hsound hruns he ⊢
    by_cases hgap : next.start ≤ b.stop
    · have hai := h.separated.1.inside a (by simp)
      have hb := h.separated.2.inside b (by simp)
      rw [hab,if_pos hgap] at hruns he
      rw [if_pos hgap] at hsound ⊢
      refine ⟨_,⟨hruns,hsound⟩,fun x => (he x).trans (or_congr_left (h.exact x)),fun x hx => ?_,?_⟩
      · have hc := hx.imp_left (h.covers x)
        simp only [Includes,within_append,within_cons,within_nil,or_false] at hc ⊢
        rcases hc with (hx | hx) | hx
        · exact .inl hx
        all_goals exact .inr ⟨by omega,by omega⟩
      · exact h.joined.grow hai.2.1.le hb.2.1.le rfl rfl (le_max_left _ _) rfl
    · rw [if_neg hgap]
      refine ⟨_,h.take hl ⟨le_rfl,hn⟩ fun last hla => ?_⟩
      rw [List.getLast?_concat] at hla
      cases hla
      omega

theorem Compact.fold {more : List RepairRange} (hl : 0 < limit)
    (hsorted : more.Pairwise (·.start ≤ ·.start))
    (hs : ∀ r ∈ more, s ≤ r.start) (hmore : ∀ r ∈ more, r.start < r.stop ∧ r.stop ≤ n)
    (h : Compact limit n s needed runs out) : ∃ s' runs', Compact limit n s'
      (fun x => needed x ∨ Includes more x) runs' (more.foldl (RepairJob.absorb limit) out) := by
  induction more generalizing s needed runs out with
  | nil => exact ⟨s,runs,h.imp le_rfl fun x => (or_iff_left within_nil).symm⟩
  | cons r more ih =>
    obtain ⟨hr,hsorted⟩ := pairwise_cons.mp hsorted
    obtain ⟨runs',h'⟩ := h.absorb hl (hs r (by simp)) (hmore r (by simp))
    obtain ⟨s',runs',h'⟩ := ih hsorted hr (fun q hq => hmore q (mem_cons_of_mem _ hq)) h'
    refine ⟨s',runs',h'.imp le_rfl fun x => ?_⟩
    rw [or_assoc,Includes,Includes,within_cons]

theorem Compact.admitAll (hl : 0 < limit) (hruns : Separated (· ≤ s) n runs) :
    Compact limit n s (Includes runs) runs (runs.foldl (admitRange limit) []) := by
  induction runs using List.reverseRecOn with
  | nil => exact (compact_nil limit n s).imp le_rfl fun _ => ⟨False.elim,within_nil⟩
  | append_singleton rs r ih =>
    obtain ⟨hr,_,hc⟩ := pairwise_append.mp hruns.gaps
    have hr : Separated (· ≤ s) n rs := ⟨hr,fun q hq => hruns.inside q (mem_append_left _ hq)⟩
    rw [foldl_append]
    refine ((ih hr).take hl (hruns.inside r (by simp)) fun last hla => ?_).imp le_rfl fun x => ?_
    · exact hc last (mem_of_getLast? hla) r (by simp)
    · simp [Includes]

end Admission

/-! What a receiver asks for. -/

/-- The holes of a prefix are the runs of its missing fragments. -/
theorem holes_runs (a : Assembly) (n : ℕ) :
    Separated (· ≤ n) n (a.holes n) ∧ ∀ x, Includes (a.holes n) x ↔ x < n ∧
    a.hasFragment x = false := by
  induction n with
  | zero => exact ⟨separated_nil,fun x =>
    ⟨fun h => absurd h within_nil,fun h => absurd h.1 (not_lt_zero x)⟩⟩
  | succ n ih =>
    obtain ⟨hh,he⟩ := ih
    have hs : Separated (· ≤ n) (n+1) (a.holes n) :=
      ⟨hh.gaps,fun r hr => (hh.inside r hr).imp_right (.imp_right le_succ_of_le)⟩
    by_cases hn : a.hasFragment n = true
    · rw [Assembly.holes,if_pos hn]
      refine ⟨hs.imp fun _ => le_succ_of_le,fun x =>
        (he x).trans ⟨fun h => ⟨by omega,h.2⟩,fun h => ⟨?_,h.2⟩⟩⟩
      refine lt_of_le_of_ne (le_of_lt_succ h.1) ?_
      rintro rfl
      simp [hn] at h
    · have hnx : a.holes (n+1) = RepairJob.absorb ((a.holes n).length+1) (a.holes n) ⟨n,n+1⟩ := by
        rw [Assembly.holes,if_neg hn,RepairJob.absorb,admitRange,if_pos (lt_succ_self _)]
        cases hl : (a.holes n).getLast? with
        | none => simp [List.getLast?_eq_none_iff.mp hl]
        | some last =>
          have hstop := (hh.inside last (mem_of_getLast? hl)).2.2
          by_cases hj : last.stop = n
          · simp [hj]
          · have hgap : ¬n ≤ last.stop := by omega
            simp [hj,hgap]
      rw [hnx]
      refine ⟨(separated_absorb (succ_pos _) hs ⟨le_rfl,by simp⟩).1.imp
        fun _ => le_succ_of_le,fun x => ?_⟩
      rw [includes_absorb hs (lt_succ_self _),he]
      rcases eq_or_ne x n with rfl | hx
      · simpa using hn
      · have hle : x < n ↔ x < n+1 := by omega
        rw [hle,or_iff_left (by simp only; omega)]

/-- Missing among the fragments that are looked at: those up to the last one received while the
tail still moves, then all of them. -/
def Assembly.Absent (a : Assembly) (now x : ℕ) : Prop :=
  x < (if now < a.tailProbeAfter then a.receivedEnd
    else (a.descriptor.totalBytes + a.descriptor.stride - 1) / a.descriptor.stride) ∧
      a.hasFragment x = false

/-- A picture asks for all that it misses, in as few fragments as its ranges allow. -/
theorem missing_shortest {limits : MediaLimits} {a : Assembly} (hvalid : a.descriptor.Valid limits)
    {capacity : ℕ} (hcapacity : 0 < capacity) (now : ℕ) : ∃ xs, a.missing capacity now = .ok xs ∧
      ShortestCover (a.Absent now) capacity xs ∧
      ∀ r ∈ xs, a.Absent now r.start ∧ a.Absent now (r.stop - 1) := by
  have hc : a.probedCount now = .ok (if now < a.tailProbeAfter then a.receivedEnd
      else (a.descriptor.totalBytes + a.descriptor.stride - 1) / a.descriptor.stride) := by
    rw [Assembly.probedCount,fragmentCount_valid hvalid]
    split <;> rfl
  obtain ⟨hruns,he⟩ := holes_runs a (if now < a.tailProbeAfter then a.receivedEnd
    else (a.descriptor.totalBytes + a.descriptor.stride - 1) / a.descriptor.stride)
  have hs := ((Compact.admitAll hcapacity hruns).imp le_rfl he).shortest
  refine ⟨_,?_,hs,fun r hr => hs.ends hr⟩
  rw [Assembly.missing,hc]
  exact if_neg hcapacity.ne'

/-- The second and the last of four fragments are here. -/
def sampleGaps : Assembly := ⟨⟨7,4,1,0,none⟩,[0,5,0,6],68,[10],2,none,0,50,60,9,4,9,some 9,0⟩

theorem missing_shortest_sampleGaps : sampleGaps.missing 1 9 = .ok [⟨0,3⟩] ∧
    ShortestCover (sampleGaps.Absent 9) 1 [⟨0,3⟩] := by
  have hv : sampleGaps.descriptor.Valid sampleConfig.limits := FrameDescriptor.validate_eq_ok.mp rfl
  obtain ⟨_,hm,hs,_⟩ := missing_shortest hv one_pos 9
  have heval : sampleGaps.missing 1 9 = .ok [⟨0,3⟩] := by decide
  cases hm.symm.trans heval
  exact ⟨heval,hs⟩

/-! Jobs. -/

section Jobs

variable {S : ℕ → Prop} {n limit : ℕ} {job next : RepairJob} {xs : List RepairRange}
  (h : JobSound S n limit job) (hordered : xs.Pairwise (·.stop ≤ ·.start))
  (hnonempty : ∀ r ∈ xs, r.start < r.stop)

include h hordered hnonempty in
/-- The union of a job and a request, as both sides built it. -/
theorem merge_shortest {limit'} (hlm : 0 < limit') :
    ShortestCover (fun x => Includes job.remaining x ∨ Includes xs x) limit'
      ((List.merge job.remaining xs (fun a b => a.start ≤ b.start)).foldl
        (RepairJob.absorb limit') []) := by
  have hp : ∀ r ∈ job.remaining, r.start < r.stop := fun r hr => (h.inside r hr).2.1
  have hs : ∀ l : List RepairRange, l.Pairwise (·.stop ≤ ·.start) → (∀ r ∈ l, r.start < r.stop) →
      l.Pairwise fun a b => decide (a.start ≤ b.start) = true := by
    intro l hl hp
    refine hl.imp_of_mem fun ha _ hab => decide_eq_true ?_
    exact (hp _ ha).le.trans hab
  have hm : (List.merge job.remaining xs (fun a b => a.start ≤ b.start)).Pairwise
      fun a b => decide (a.start ≤ b.start) = true :=
    pairwise_merge (fun a b c hab hbc => by simp only [decide_eq_true_eq] at *; omega)
      (fun a b => by simp; omega) _ _ (hs _ h.ordered hp) (hs _ hordered hnonempty)
  have hi : ∀ r ∈ List.merge job.remaining xs (fun a b => a.start ≤ b.start), r.start < r.stop ∧
      r.stop ≤ ((List.merge job.remaining xs (fun a b => a.start ≤ b.start)).map
          RepairRange.stop).sum := by
    intro r hr
    exact ⟨(mem_merge.mp hr).elim (hp r) (hnonempty r),le_sum_of_mem (mem_map_of_mem hr)⟩
  obtain ⟨s,_,hc⟩ := (compact_nil limit' _ 0).fold hlm (hm.imp fun h => of_decide_eq_true h)
    (fun _ _ => zero_le _) hi
  refine (hc.imp le_rfl fun x => ?_).shortest
  simp only [Includes,Within,mem_merge,or_and_right,exists_or,false_or]

include h in
/-- As many fragments as before are exactly those from before. -/
theorem covered_eq_iff {limit' out} (hle : limit ≤ limit')
    (ho : ShortestCover (fun x => Includes job.remaining x ∨ Includes xs x) limit' out) :
    RepairJob.covered job.remaining = RepairJob.covered out ↔
      ∀ x, Includes xs x → Includes job.remaining x := by
  obtain ⟨s,hs,hcard⟩ := exists_card_eq_total h.ordered
  have hless : s.card ≤ RepairJob.covered out :=
    card_le_total fun x hx => ho.covers x (.inl ((hs x).mp hx))
  constructor
  · intro heq x hx
    by_contra hnew
    have hmore : (insert x s).card ≤ RepairJob.covered out := by
      refine card_le_total fun y hy => ho.covers y ?_
      rcases Finset.mem_insert.mp hy with rfl | hy
      · exact .inr hx
      · exact .inl ((hs y).mp hy)
    rw [Finset.card_insert_of_notMem fun hxs => hnew ((hs x).mp hxs),hcard] at hmore
    have hsm : total RepairRange.start RepairRange.stop job.remaining = RepairJob.covered out := heq
    omega
  · intro hold
    refine le_antisymm ?_ (ho.least _ (h.few.trans hle) fun x hx => hx.elim id (hold x))
    rwa [hcard] at hless

include h hordered hnonempty

theorem JobSound.coalesce_ok {m} (hn : job.coalesce xs m = .ok next) :
    next = ⟨next.ranges,0,(next.ranges.headD ⟨0,0⟩).start⟩ ∧
      ShortestCover (fun x => Includes job.remaining x ∨ Includes xs x) (min m 64) next.ranges := by
  unfold RepairJob.coalesce at hn
  dsimp only at hn
  split at hn
  · cases hn
  rename_i hm
  split at hn
  · cases hn
  cases hn
  exact ⟨rfl,merge_shortest h hordered hnonempty (pos_of_ne_zero hm)⟩

theorem JobSound.coalesce_error {m e} (hl : limit ≤ 64)
    (hm : m = 0 ∨ limit ≤ m) : job.coalesce xs m = .error e ↔
      e = .repairBusy ∧ (m = 0 ∨ ∀ x, Includes xs x → Includes job.remaining x) := by
  unfold RepairJob.coalesce
  dsimp only
  rcases Nat.eq_zero_or_pos m with rfl | hpos
  · simp [eq_comm]
  have hs := covered_eq_iff h (le_min (hm.resolve_left hpos.ne') hl)
    (merge_shortest h hordered hnonempty (lt_min hpos (by decide : 0 < 64)))
  rw [if_neg (by omega)]
  split
  · rename_i heq
    rw [and_iff_left (.inr (hs.mp heq))]
    exact ⟨fun h => (by cases h; rfl),fun h => by rw [h]⟩
  · rename_i hne
    refine ⟨fun h => (by cases h),fun ⟨_,hold⟩ => absurd (hs.mpr (hold.resolve_left hpos.ne')) hne⟩

end Jobs

/-- A pending job takes on a request as the shortest cover of both, refuses it exactly when it
brings nothing new, and a request that fails leaves every job as it was. -/
theorem coalesce_shortest {owner : ℕ} {limits : MediaLimits} {bindings : MediaBindings}
    {epoch : MediaEpoch} {policy : SendPolicy} {c : SendCache}
    (hnew : SendCache.new owner limits bindings epoch policy = .ok c)
    (ops : List SendOp) {i : Fin cacheSlots} {p : CachedPicture} {job : RepairJob}
    (hp : (final sendStep c ops).pictures i = some p) (hj : p.repair = some job)
    {record : Record} {count : ℕ}
    {request : RepairRequest} (hrequest : decodeRepair record count limits = .ok request) :
    (∀ maximum next, maximum ≤ 64 → job.coalesce request.ranges maximum = .ok next →
      next = ⟨next.ranges,0,(next.ranges.headD ⟨0,0⟩).start⟩ ∧
      ShortestCover (fun x => Includes job.remaining x ∨ Includes request.ranges x) maximum
        next.ranges) ∧
    (∀ maximum e, maximum = 0 ∨ limits.maxRepairRanges ≤ maximum →
      (job.coalesce request.ranges maximum = .error e ↔ e = .repairBusy ∧
        (maximum = 0 ∨ ∀ x, Includes request.ranges x → Includes job.remaining x))) ∧
    ∀ packet now e t, exec (SendCache.queueRepair packet now)
      (final sendStep c ops) = (.error e,t) →
      ∀ j q, t.pictures j = some q → (final sendStep c ops).pictures j = some q := by
  have hs := (((repairing_run hnew ops).rounds.worked i p hp).job job hj).2
  obtain ⟨_,_,hordered,hnonempty⟩ := decodeRepair_ranges hrequest
  refine ⟨fun maximum next hm hn => ?_,fun maximum e hm =>
    ?_,fun packet now e t hqueue j q hq => ?_⟩
  · have hc := hs.coalesce_ok hordered hnonempty hn
    rwa [min_eq_left hm] at hc
  · exact hs.coalesce_error hordered hnonempty limits.ranges_le hm
  · have hr : Ensures (SendCache.queueRepair packet now) (final sendStep c ops) fun res t =>
        ∀ e, res = .error e → ∀ j q, t.pictures j = some q →
            (final sendStep c ops).pictures j = some q :=
      SendCache.queueRepair_ensures (fun _ _ h _ _ _ _ => h.cached)
        fun _ _ _ _ _ _ _ _ _ _ _ he => by cases he
    rw [Ensures,hqueue] at hr
    exact hr e rfl j q hq

theorem coalesce_shortest_sampleRequest : ∃ c p job,
    SendCache.new 0 sampleConfig.limits sampleConfig.bindings sampleConfig.epoch sampleSendPolicy =
      .ok c ∧
    (final sendStep c (sampleStream ++ [.queueRepair sampleRequest 8])).pictures 1 = some p ∧
    p.repair = some job ∧ job.coalesce [⟨0,2⟩] 4 = .error .repairBusy := by
  obtain ⟨c,hc⟩ := exists_sampleCache
  obtain ⟨p,job,hp,hj,hrem⟩ : ∃ p job,
      (final sendStep c (sampleStream ++ [.queueRepair sampleRequest 8])).pictures 1 = some p ∧
        p.repair = some job ∧ job.remaining = [⟨0,2⟩] := by
    cases hc
    exact ⟨_,_,rfl,rfl,rfl⟩
  have hr : decodeRepair ⟨.repair,4,beBytes 8 8 ++ beBytes 4 1 ++ beBytes 4 0 ++ beBytes 4 2⟩ 2
      sampleConfig.limits = .ok ⟨8,[⟨0,2⟩]⟩ := by decide +kernel
  refine ⟨c,p,job,hc,hp,hj,?_⟩
  refine ((coalesce_shortest hc _ hp hj hr).2.1 4 .repairBusy (.inr le_rfl)).mpr ⟨rfl,.inr
    fun x hx => ?_⟩
  rwa [hrem]

end FrankenRemote.Delivery
