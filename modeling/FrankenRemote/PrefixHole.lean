import FrankenRemote.Reassembly

/-! Holes before the last fragment seen. The receiver compares byte counts only; between the bit
set, the counter and the end of what arrived this finds exactly the missing fragments. -/
namespace FrankenRemote.Delivery

open Wire Procedure Tiling Assembly Finset

/-- What reaches a picture in its slot: a decoded fragment of any picture, or a repair round. -/
inductive SlotCall (limits : MediaLimits)
  | fragment (f : Fragment) (valid : f.validate limits = .ok ()) (now repairDelay : ℕ)
  | repaired (next : ℕ)

variable {l : MediaLimits} {d : FrameDescriptor} {S : Finset ℕ} {a : Assembly}

def SlotCall.apply (a : Assembly) : SlotCall limits → Assembly
  | .fragment f _ now repairDelay => (exec (Assembly.fragment f now repairDelay) a).2
  | .repaired next => {a with nextRepair := next, repairAttempts := a.repairAttempts+1}

/-- The datagram picture that has seen exactly the fragments `S`. -/
structure Tallied (d : FrameDescriptor) (S : Finset ℕ) (a : Assembly) : Prop where
  descriptor : a.descriptor = d
  datagram : a.reliableOffset = none
  words : a.seen.length = ((d.totalBytes + d.stride - 1)/d.stride + 63)/64
  seen : ∀ i, marked a.seen i = decide (i ∈ S)
  received : a.received = ∑ i ∈ S, blockLength d.totalBytes d.stride i
  below : S ⊆ Finset.range a.receivedEnd
  reach : Finset.range a.receivedEnd ⊆ blocks d.totalBytes d.stride

theorem tallied_new {p b used c now} (h : new p b used d c now none = .ok a) : Tallied d ∅ a := by
  obtain ⟨_,hd,_,hseen,hr,ho,_,_,he⟩ := new_ok h
  refine ⟨hd,ho,by rw [hseen]; simp,fun i => ?_,by rw [hr,sum_empty],?_,?_⟩
  · rw [hseen,marked_replicate]
    simp
  · exact empty_subset _
  · rw [he]
    exact empty_subset _

namespace Tallied

/-- The blocks before the end are all counted exactly when each of them was seen. -/
theorem hasPrefixHole_iff (hv : d.Valid l) (h : Tallied d S a) :
    a.hasPrefixHole ↔ ∃ i < a.receivedEnd, a.hasFragment i = false := by
  have hsum := sum_blockLength d.totalBytes d.stride a.receivedEnd
  rw [hasPrefixHole,h.descriptor,min_comm,← hsum,h.received]
  constructor
  · intro hlt
    by_contra hno
    have hall : Finset.range a.receivedEnd ⊆ S := by
      intro i hi
      by_contra hni
      refine hno ⟨i,mem_range.mp hi,?_⟩
      rw [hasFragment,h.seen,decide_eq_false hni]
    rw [h.below.antisymm hall] at hlt
    exact lt_irrefl _ hlt
  · rintro ⟨i,hi,hu⟩
    rw [hasFragment,h.seen,decide_eq_false_iff_not] at hu
    have hir := mem_range.mpr hi
    exact sum_lt_sum_of_subset h.below hir hu (blockLength_pos hv.stride_pos (h.reach hir))
      fun _ _ _ => Nat.zero_le _

theorem received_eq (h : Tallied d S a) : a.received =
    ∑ i ∈ (blocks d.totalBytes d.stride).filter
      (a.hasFragment ·), blockLength d.totalBytes d.stride i := by
  rw [h.received]
  congr 1
  ext i
  rw [mem_filter,hasFragment,h.seen,decide_eq_true_iff]
  exact ⟨fun hi => ⟨h.reach (h.below hi),hi⟩,And.right⟩

theorem stored (h : Tallied d S a) {f : Fragment} (hd : f.descriptor = d)
    (hf : f.validate l = .ok ())
    (hnew : f.index ∉ S) (now r : ℕ) : Tallied d (insert f.index S) (a.stored f now r) := by
  obtain ⟨hv,hi,hlen⟩ := Fragment.validate_eq_ok.mp hf
  rw [hd] at hv hi hlen
  have hm := (mem_blocks hv.stride_pos).mpr hi
  have hc := mem_range.mp hm
  have hword : f.index/64 < a.seen.length := by
    rw [h.words]
    omega
  refine ⟨h.descriptor,h.datagram,(length_mark _ _).trans h.words,?_,?_,?_,?_⟩
  · intro j
    change marked (mark a.seen f.index) j = _
    rw [marked_mark hword,h.seen,Bool.or_comm]
    simp
  · change a.received + f.bytes.length = _
    rw [sum_insert hnew,h.received,hlen,add_comm]
  · refine insert_subset (mem_range.mpr ?_) fun j hj => mem_range.mpr ?_
    · exact lt_max_of_lt_right (Nat.lt_succ_self _)
    · exact lt_max_of_lt_left (mem_range.mp (h.below hj))
  · intro j hj
    rcases lt_max_iff.mp (mem_range.mp hj) with hj | hj
    · exact h.reach (mem_range.mpr hj)
    · exact mem_range.mpr (by omega)

/-- One call: the set can only grow, and a grace that was given outlasts every hole. -/
theorem apply (h : Tallied d S a) (x : SlotCall l) : ∃ S', Tallied d S' (x.apply a) ∧
    ∀ p, a.prefixProbeAfter = some p → (x.apply a).hasPrefixHole →
      (x.apply a).prefixProbeAfter = some p := by
  cases x with
  | repaired next => exact ⟨S,{h with},fun _ hp _ => hp⟩
  | fragment f hf now r =>
    rw [SlotCall.apply]
    by_cases hd : f.descriptor = d
    · rw [exec_fragment (hd.trans h.descriptor.symm) hf h.datagram]
      by_cases hm : f.index ∈ S
      · rw [if_pos (by rw [hasFragment,h.seen,decide_eq_true hm])]
        split <;> exact ⟨S,h,fun _ hp _ => hp⟩
      · rw [if_neg (by rw [hasFragment,h.seen,decide_eq_false hm]; simp)]
        refine ⟨_,h.stored hd hf hm now r,fun p hp hhole => ?_⟩
        refine (if_pos hhole).trans ?_
        rw [hp,Option.some_or]
    · have ho : f.descriptor ≠ a.descriptor := fun he => hd (he.trans h.descriptor)
      rw [Assembly.fragment,exec_get_bind,exec_refuseIf_bind,if_pos (.inr ho)]
      exact ⟨S,h,fun _ hp _ => hp⟩

/-- A grace is kept for as long as some fragment before the end is missing. -/
theorem probe_kept (hv : d.Valid l) (h : Tallied d S a) {p} (hp : a.prefixProbeAfter = some p)
    {later : List (SlotCall l)} (hmiss : ∀ past, past <+: later →
      ∃ i < (past.foldl SlotCall.apply a).receivedEnd, (past.foldl SlotCall.apply a).hasFragment
        i = false) :
    (later.foldl SlotCall.apply a).prefixProbeAfter = some p := by
  induction later generalizing S a with
  | nil => exact hp
  | cons x later ih =>
    obtain ⟨S',h',hkeep⟩ := h.apply x
    have hhole := (h'.hasPrefixHole_iff hv).mpr (hmiss [x] ⟨later,rfl⟩)
    exact ih h' (hkeep p hp hhole) fun past ⟨rest,hrest⟩ =>
      hmiss (x::past) ⟨rest,by rw [← hrest]; rfl⟩

end Tallied

/-- Prefix holes are found exactly, in every picture that fragments and repair rounds can reach. -/
theorem prefix_holes_exact {platform : Platform} {budget : MediaBudget} {used : BudgetUsage}
    {d : FrameDescriptor} {config : ReceiveConfig} {now : ℕ} {a₀ : Assembly}
    (hnew : Assembly.new platform budget used d config now none = .ok a₀)
    (calls : List (SlotCall config.limits)) {a : Assembly}
    (ha : a = calls.foldl SlotCall.apply a₀) :
    (a.hasPrefixHole ↔ ∃ i < a.receivedEnd, a.hasFragment i = false) ∧
    a.received = ∑ i ∈ (blocks d.totalBytes d.stride).filter (a.hasFragment ·),
      blockLength d.totalBytes d.stride i ∧
    ∀ p, a.prefixProbeAfter = some p → ∀ later : List (SlotCall config.limits),
      (∀ past, past <+: later → ∃ i < (past.foldl SlotCall.apply a).receivedEnd,
        (past.foldl SlotCall.apply a).hasFragment i = false) →
      (later.foldl SlotCall.apply a).prefixProbeAfter = some p := by
  have hv := (new_ok hnew).1
  have hrun : ∃ S, Tallied d S a := by
    subst ha
    refine List.foldlRecOn calls SlotCall.apply (motive :=
      fun a => ∃ S, Tallied d S a) ⟨∅,tallied_new hnew⟩ ?_
    rintro a ⟨S,h⟩ x _
    obtain ⟨S',h',_⟩ := h.apply x
    exact ⟨S',h'⟩
  obtain ⟨S,h⟩ := hrun
  exact ⟨h.hasPrefixHole_iff hv,h.received_eq,fun p hp later hmiss => h.probe_kept hv hp hmiss⟩

/-- The second of two fragments comes first. -/
def sampleTail : SlotCall sampleConfig.limits := .fragment ⟨samplePicture,1,[3]⟩ rfl 10 5

theorem prefix_holes_exact_samplePicture : ∃ a₀,
    Assembly.new ⟨64,some,some⟩ (MediaBudget.new 0 sampleConfig.limits.protocol) ⟨0,0⟩ samplePicture
      sampleConfig 10 none = .ok a₀ ∧ (sampleTail.apply a₀).hasPrefixHole := by
  have h := prefix_holes_exact (show Assembly.new ⟨64,some,some⟩
    (MediaBudget.new 0 sampleConfig.limits.protocol) ⟨0,0⟩ samplePicture sampleConfig 10 none =
      .ok _ from rfl)
    [sampleTail] rfl
  exact ⟨_,rfl,h.1.mpr ⟨0,by decide,by decide⟩⟩

end FrankenRemote.Delivery
