import FrankenRemote.Assembly
import FrankenRemote.Transition

/-! A datagram picture is the set of fragments that arrived: its bytes, its counter and
its bit set are functions of that set, whatever the order and the duplicates. -/
namespace FrankenRemote.Delivery

open Wire Bytes Procedure Tiling Transition Assembly Finset

def pieceOf (d : FrameDescriptor) (unit : List Byte) (index : ℕ) : Fragment :=
  ⟨d,index,block d.stride unit index⟩

/-- The datagram picture that has received exactly the fragments `S` of `unit`. -/
structure Holds (d : FrameDescriptor) (unit : List Byte) (S : Finset ℕ) (a : Assembly) : Prop where
  descriptor : a.descriptor = d
  datagram : a.reliableOffset = none
  inside : S ⊆ blocks d.totalBytes d.stride
  bytes : a.bytes = painted d.stride unit 0 S
  words : a.seen.length = ((d.totalBytes + d.stride - 1)/d.stride + 63)/64
  seen : ∀ i, marked a.seen i = decide (i ∈ S)
  received : a.received = ∑ i ∈ S, blockLength d.totalBytes d.stride i

variable {d : FrameDescriptor} {l : MediaLimits}

/-- What `Assembly.new` leaves, apart from its deadlines and its charge. -/
theorem Assembly.new_ok {p b used c now r a} (h : new p b used d c now r = .ok a) :
    d.Valid c.limits ∧ a.descriptor = d ∧ a.bytes = List.replicate d.totalBytes 0 ∧
      a.seen = List.replicate
        (if r.isSome then 0 else ((d.totalBytes + d.stride - 1)/d.stride + 63)/64) 0 ∧
      a.received = 0 ∧ a.reliableOffset = r.map (fun _ => 0) ∧ a.reliableChunks = 0 ∧
      (∀ t, r = some t → a.referenceUntil = t) ∧ a.receivedEnd = 0 := by
  obtain ⟨_,hv,h⟩ := bind_eq_ok.mp h
  have hva : d.Valid c.limits := by
    rw [← FrameDescriptor.validate_eq_ok]
    cases hd : d.validate c.limits with
    | ok _ => rfl
    | error e =>
      rw [hd] at hv
      cases hv
  obtain ⟨⟨_,_,_⟩,hs,h⟩ := bind_eq_ok.mp h
  rw [storage,fragmentCount_valid hva] at hs
  obtain ⟨_,hc,hs⟩ := bind_eq_ok.mp hs
  obtain ⟨_,_,hs⟩ := bind_eq_ok.mp hs
  cases hc
  cases hs
  obtain ⟨⟨_,_⟩,_,h⟩ := bind_eq_ok.mp h
  obtain ⟨_,_,h⟩ := bind_eq_ok.mp h
  obtain ⟨_,_,h⟩ := bind_eq_ok.mp h
  obtain ⟨⟨_,_⟩,_,h⟩ := bind_eq_ok.mp h
  obtain ⟨_,_,h⟩ := bind_eq_ok.mp h
  obtain ⟨_,hu,h⟩ := bind_eq_ok.mp h
  obtain ⟨_,_,h⟩ := bind_eq_ok.mp h
  obtain ⟨_,_,h⟩ := bind_eq_ok.mp h
  cases h
  refine ⟨hva,rfl,rfl,rfl,rfl,rfl,rfl,?_,rfl⟩
  rintro t rfl
  cases hu
  rfl

section Picture

variable {d : FrameDescriptor} {l : MediaLimits} {unit : List Byte} {S : Finset ℕ} {a : Assembly}

theorem holds_new {p b used c now} (hlen : unit.length = d.totalBytes)
    (h : new p b used d c now none = .ok a) : Holds d unit ∅ a := by
  obtain ⟨_,hd,hb,hseen,hr,ho,_,_⟩ := new_ok h
  refine ⟨hd,ho,empty_subset _,?_,?_,?_,?_⟩
  · rw [hb,painted_empty,hlen]
  · rw [hseen]
    simp
  · intro i
    rw [hseen,marked_replicate]
    simp
  · rw [hr,sum_empty]

def Assembly.stored (a : Assembly) (f : Fragment) (now repairDelay : ℕ) : Assembly :=
  Assembly.probe {a with
    bytes := splice a.bytes (f.index*a.descriptor.stride) f.bytes
    seen := mark a.seen f.index
    received := a.received + f.bytes.length
    receivedEnd := max a.receivedEnd (f.index+1)} now repairDelay

/-- Every reply of `fragment` to a validated fragment of this picture. -/
theorem exec_fragment {f : Fragment} {now r} (hd : f.descriptor = a.descriptor)
    (hf : f.validate l = .ok ()) (hr : a.reliableOffset = none) :
    exec (fragment f now r) a = if a.hasFragment f.index then
        if slice a.bytes (f.index*a.descriptor.stride)
            (blockLength a.descriptor.totalBytes a.descriptor.stride f.index) = f.bytes
        then (.ok .duplicate,a) else (.error .conflictingPicture,a)
      else (.ok (if (a.stored f now r).complete then .pictureComplete else .accepted),
          a.stored f now r) := by
  obtain ⟨hv,hi,_⟩ := Fragment.validate_eq_ok.mp hf
  have hword := total_lt_word hv
  have hs : blockLength f.descriptor.totalBytes f.descriptor.stride f.index ≤
      f.descriptor.totalBytes := (min_le_right _ _).trans (Nat.sub_le _ _)
  rw [fragment,exec_get_bind,exec_refuseIf_bind,if_neg (by simp [hr,hd])]
  rw [← hd,fragmentRange_valid hv hi]
  simp only [exec_ite]
  split
  · rw [exec_refuseIf_bind,exec_pure,Nat.add_sub_cancel_left,ite_not]
  · rw [exec_modify_bind,exec_refuseIf_bind,if_neg (by omega),exec_modify_bind,exec_modify_bind,
      exec_get_bind,exec_pure,hd]
    rfl

variable {i : ℕ}

theorem validate_pieceOf (hv : d.Valid l) (hlen : unit.length = d.totalBytes)
    (hi : i ∈ blocks d.totalBytes d.stride) : (pieceOf d unit i).validate l = .ok () := by
  have hs := (mem_blocks hv.stride_pos).mp hi
  refine Fragment.validate_eq_ok.mpr ⟨hv,hs,?_⟩
  rw [pieceOf,length_block i (by rw [hlen]; exact hs),hlen]

theorem complete_iff (hv : d.Valid l) (h : Holds d unit S a) :
    a.complete ↔ S = blocks d.totalBytes d.stride := by
  rw [complete,h.received,h.descriptor]
  exact sum_eq_total_iff hv.stride_pos h.inside

theorem holds_stored (hv : d.Valid l) (hlen : unit.length = d.totalBytes) (h : Holds d unit S a)
    (hi : i ∈ blocks d.totalBytes d.stride) (hnew : i ∉ S) (now r : ℕ) :
    Holds d unit (insert i S) (a.stored (pieceOf d unit i) now r) := by
  have hs : i*d.stride < unit.length := by
    rw [hlen]
    exact (mem_blocks hv.stride_pos).mp hi
  have hword : i/64 < a.seen.length := by
    have hc := mem_range.mp hi
    rw [h.words]
    omega
  refine ⟨h.descriptor,h.datagram,?_,?_,?_,?_,?_⟩
  · exact insert_subset hi h.inside
  · change splice a.bytes (i*a.descriptor.stride) (block d.stride unit i) = _
    rw [h.descriptor,h.bytes,splice_painted hv.stride_pos hs]
  · exact (length_mark _ _).trans h.words
  · intro j
    change marked (mark a.seen i) j = _
    rw [marked_mark hword,h.seen,Bool.or_comm]
    simp
  · change a.received + (block d.stride unit i).length = _
    rw [sum_insert hnew,h.received,length_block i hs,hlen,add_comm]

/-- The reply to a fragment, as a function of the set before it. -/
def updateOf (d : FrameDescriptor) (S : Finset ℕ) (index : ℕ) : ReceiveUpdate :=
  if index ∈ S then .duplicate
  else if insert index S = blocks d.totalBytes d.stride then .pictureComplete
  else .accepted

theorem exec_pieceOf (hv : d.Valid l) (hlen : unit.length = d.totalBytes) (h : Holds d unit S a)
    (hi : i ∈ blocks d.totalBytes d.stride) (now r : ℕ) :
    (exec (fragment (pieceOf d unit i) now r) a).1 = .ok (updateOf d S i) ∧
      Holds d unit (insert i S) (exec (fragment (pieceOf d unit i) now r) a).2 := by
  have hp : (pieceOf d unit i).bytes = block d.stride unit i := rfl
  have hind : (pieceOf d unit i).index = i := rfl
  rw [exec_fragment h.descriptor.symm (validate_pieceOf hv hlen hi) h.datagram,
    hasFragment,hind,h.seen,updateOf]
  by_cases hm : i ∈ S
  · have hsm : slice a.bytes (i*a.descriptor.stride)
        (blockLength a.descriptor.totalBytes a.descriptor.stride i) = block d.stride unit i := by
      rw [h.bytes,h.descriptor,← hlen]
      exact slice_painted hv.stride_pos hm
    rw [if_pos (decide_eq_true hm),hp,if_pos hsm,if_pos hm,insert_eq_of_mem hm]
    exact ⟨rfl,h⟩
  · have hs := holds_stored hv hlen h hi hm now r
    rw [if_neg (by simpa using hm),if_neg hm]
    simp only [complete_iff hv hs]
    exact ⟨trivial,hs⟩

/-- A seen index with other bytes is refused without a trace. -/
theorem exec_fragment_conflict (hv : d.Valid l) (hlen : unit.length = d.totalBytes)
    (h : Holds d unit S a) {f : Fragment} (hf : f.validate l = .ok ()) (hd : f.descriptor = d)
    (hm : f.index ∈ S) (ho : f.bytes ≠ block d.stride unit f.index) (now r : ℕ) :
    exec (fragment f now r) a = (.error .conflictingPicture,a) := by
  have hs : slice a.bytes (f.index*a.descriptor.stride)
      (blockLength a.descriptor.totalBytes a.descriptor.stride f.index) =
          block d.stride unit f.index := by
    rw [h.bytes,h.descriptor,← hlen]
    exact slice_painted hv.stride_pos hm
  rw [exec_fragment (hd.trans h.descriptor.symm) hf h.datagram,hasFragment,h.seen,
    if_pos (decide_eq_true hm),hs,if_neg ho.symm]

end Picture

/-! Whole runs. -/

/-- One fragment of the picture reaches the receiver. -/
structure Arrival (d : FrameDescriptor) where
  index : ℕ
  inside : index ∈ blocks d.totalBytes d.stride
  now : ℕ
  repairDelay : ℕ

def arrive (d : FrameDescriptor) (unit : List Byte) (a : Assembly) (x : Arrival d) :
    Except DeliveryError ReceiveUpdate × Assembly :=
  exec (Assembly.fragment (pieceOf d unit x.index) x.now x.repairDelay) a

abbrev ArrivalEvent (d : FrameDescriptor) :=
  Transition.Event Assembly (Arrival d) (Except DeliveryError ReceiveUpdate)

/-- Distinct indices among the fragments that arrived. -/
def arrived {d : FrameDescriptor} (arrivals : List (Arrival d)) : Finset ℕ :=
  (arrivals.map (·.index)).toFinset

theorem arrived_snoc (ar : List (Arrival d)) (x : Arrival d) :
    arrived (ar ++ [x]) = insert x.index (arrived ar) := by
  ext i
  simp [arrived]

def completes : Except DeliveryError ReceiveUpdate → Bool
  | .ok .pictureComplete => true
  | _ => false

/-- Everything that arrived so far is held, and completion was reported once, at the end. -/
structure ArrivalHistory (d : FrameDescriptor) (unit : List Byte) (past : List (ArrivalEvent d))
    (a : Assembly) : Prop where
  holds : Holds d unit (arrived (past.map Transition.Event.input)) a
  replies : ∀ earlier e later, past = earlier ++ e :: later →
    e.reply = .ok (updateOf d (arrived (earlier.map Transition.Event.input)) e.input.index)
  completions : past.countP (completes ·.reply) =
    if arrived (past.map Transition.Event.input) = blocks d.totalBytes d.stride then 1 else 0

theorem arrive_history {unit : List Byte}
    (hv : d.Valid l) (hlen : unit.length = d.totalBytes) {past a} (x : Arrival d)
    (h : ArrivalHistory d unit past a) :
    ArrivalHistory d unit (past ++ [⟨a,x,(arrive d unit a x).1⟩]) (arrive d unit a x).2 := by
  obtain ⟨hr,hh⟩ := exec_pieceOf hv hlen h.holds x.inside x.now x.repairDelay
  have hset : arrived ((past ++ [(⟨a,x,(arrive d unit a x).1⟩ : ArrivalEvent d)]).map
      Transition.Event.input) = insert x.index (arrived (past.map Transition.Event.input)) := by
    rw [List.map_append]
    exact arrived_snoc _ x
  refine ⟨by rw [hset]; exact hh,?_,?_⟩
  · intro earlier e later hs
    rcases snoc_split hs with ⟨rfl,rfl,_⟩ | ⟨rest,_,rfl⟩
    · exact hr
    · exact h.replies _ _ rest rfl
  · have hc := h.completions
    rw [List.countP_append,hc,hset]
    simp only [List.countP_singleton,arrive,hr,updateOf]
    -- A new index cannot follow a complete set, so completion is never reported again.
    by_cases hm : x.index ∈ arrived (past.map Transition.Event.input)
    · rw [if_pos hm,insert_eq_of_mem hm]
      rfl
    · have hpart : arrived (past.map Transition.Event.input) ≠ blocks d.totalBytes d.stride :=
        fun heq => hm (heq ▸ x.inside)
      rw [if_neg hm,if_neg hpart]
      split <;> rfl

/-- The fragments of a picture, as positions of its bytes. -/
theorem fragmentRange_iff (hv : d.Valid l) {i start stop} : d.fragmentRange i = .ok (start,stop) ↔
      i ∈ blocks d.totalBytes d.stride ∧ start = i*d.stride ∧
        stop = i*d.stride + blockLength d.totalBytes d.stride i := by
  rw [mem_blocks hv.stride_pos]
  rcases lt_or_ge (i*d.stride) d.totalBytes with hi | hi
  · rw [fragmentRange_valid hv hi]
    simp [hi,eq_comm]
  · rw [fragmentRange_outside hv hi]
    simp [hi]

/-- Every byte of a picture is in exactly one fragment, and fragments end inside it. -/
def Partitioned (d : FrameDescriptor) : Prop :=
  (∀ p < d.totalBytes, ∃! i, ∃ start stop, d.fragmentRange i = .ok (start,stop) ∧
    start ≤ p ∧ p < stop) ∧
  ∀ i start stop, d.fragmentRange i = .ok (start,stop) → start < stop ∧ stop ≤ d.totalBytes

theorem partitioned_of_valid (hv : d.Valid l) : Partitioned d := by
  have hs := hv.stride_pos
  constructor
  · intro p hp
    refine ⟨p/d.stride,⟨_,_,(fragmentRange_iff hv).mpr ⟨div_mem_blocks hs hp,rfl,rfl⟩,?_⟩,?_⟩
    · exact (mem_block_iff _ hs hp).mpr rfl
    · rintro i ⟨start,stop,hr,hp'⟩
      obtain ⟨_,rfl,rfl⟩ := (fragmentRange_iff hv).mp hr
      exact ((mem_block_iff _ hs hp).mp hp').symm
  · intro i start stop hr
    obtain ⟨hi,rfl,rfl⟩ := (fragmentRange_iff hv).mp hr
    have hpos := blockLength_pos hs hi
    have he : i*d.stride + blockLength d.totalBytes d.stride i ≤ d.totalBytes := by
      have := (mem_blocks hs).mp hi
      rw [blockLength]
      omega
    omega

/-- What a receiver holds after any arrivals, and what it replied on the way. -/
structure Reassembled (d : FrameDescriptor) (limits : MediaLimits) (unit : List Byte)
    (arrivals : List (Arrival d)) (events : List (ArrivalEvent d)) (a : Assembly) : Prop where
  /-- The buffer has the unit's bytes where a fragment arrived, and is zero elsewhere. -/
  bytes : a.bytes = painted d.stride unit 0 (arrived arrivals)
  whole : arrived arrivals = blocks d.totalBytes d.stride → a.bytes = unit
  received : a.received = ∑ i ∈ arrived arrivals, (block d.stride unit i).length
  replies : ∀ earlier e later, events = earlier ++ e :: later →
    e.reply = .ok (updateOf d (arrived (earlier.map Transition.Event.input)) e.input.index)
  completions : events.countP (completes ·.reply) =
    if arrived arrivals = blocks d.totalBytes d.stride then 1 else 0
  /-- A seen index with other bytes is refused and nothing changes. -/
  conflict : ∀ (f : Fragment) (now repairDelay : ℕ), f.validate limits = .ok () →
    f.descriptor = d → f.index ∈ arrived arrivals → f.bytes ≠ block d.stride unit f.index →
    exec (Assembly.fragment f now repairDelay) a = (.error .conflictingPicture,a)

/-- Reassembly is exact: whatever the order and the duplicates, a picture holds the bytes
of the fragments that arrived, counts each once, and reports completion once. -/
theorem reassembly_exact {platform : Platform} {budget : MediaBudget} {used : BudgetUsage}
    {d : FrameDescriptor} {config : ReceiveConfig} {now : ℕ} {a : Assembly}
    (hnew : Assembly.new platform budget used d config now none = .ok a) {unit : List Byte}
    (hlen : unit.length = d.totalBytes) (arrivals : List (Arrival d)) :
    Partitioned d ∧ Reassembled d config.limits unit arrivals
      (trace (arrive d unit) a arrivals) (final (arrive d unit) a arrivals) := by
  have hv : d.Valid config.limits := (Assembly.new_ok hnew).1
  have hs := hv.stride_pos
  have hst : ArrivalHistory d unit [] a := by
    refine ⟨holds_new hlen hnew,fun _ _ _ h => by simp at h,?_⟩
    have he : arrived (d := d) [] ≠ blocks d.totalBytes d.stride := by
      intro h
      have h0 := div_mem_blocks hs hv.total_pos
      rw [← h] at h0
      simp [arrived] at h0
    exact (if_neg he).symm
  have hrun := history_invariant (arrive d unit) hst
    (fun _ _ x h => arrive_history hv hlen x h) arrivals
  obtain ⟨hh,hr,hc⟩ := hrun
  rw [map_input_trace] at hh hc
  refine ⟨partitioned_of_valid hv,hh.bytes,?_,?_,hr,hc,?_⟩
  · intro hfull
    rw [hh.bytes,hfull,← hlen]
    exact painted_full hs
  · rw [hh.received]
    refine sum_congr rfl fun i hi => ?_
    rw [length_block i (by rw [hlen]; exact (mem_blocks hs).mp (hh.inside hi)),hlen]
  · intro f t delay hf hd hm ho
    exact exec_fragment_conflict hv hlen hh hf hd hm ho t delay

/-- A viewer with the default receive policy and room for two pictures. -/
def sampleConfig : ReceiveConfig where
  limits := {
    protocol := sampleProtocolLimits
    recordBytes := 75
    maxFragments := 4
    maxRepairRanges := 4
    record_gt := by decide
    record_le := by decide
    fragments_pos := by decide
    fragments_le := by decide
    ranges_pos := by decide
    ranges_le := by decide }
  bindings := ⟨1,2,3,4⟩
  epoch := ⟨1,1⟩
  policy := ReceivePolicy.default

/-- Three bytes in two fragments. -/
def samplePicture : FrameDescriptor := ⟨7,3,2,0,none⟩

def sampleArrivals : List (Arrival samplePicture) :=
  [⟨1,by decide,10,5⟩,⟨1,by decide,11,5⟩,⟨0,by decide,12,5⟩]

theorem reassembly_exact_samplePicture : ∃ a,
    Assembly.new ⟨64,some,some⟩ (MediaBudget.new 0 sampleConfig.limits.protocol) ⟨0,0⟩ samplePicture
      sampleConfig 10 none = .ok a ∧ Reassembled samplePicture sampleConfig.limits
      [1,2,3] sampleArrivals (trace (arrive samplePicture [1,2,3]) a sampleArrivals)
      (final (arrive samplePicture [1,2,3]) a sampleArrivals) ∧
    (final (arrive samplePicture [1,2,3]) a sampleArrivals).bytes = [1,2,3] := by
  have hnew : ∃ a, Assembly.new ⟨64,some,some⟩ (MediaBudget.new 0 sampleConfig.limits.protocol)
      ⟨0,0⟩ samplePicture sampleConfig 10 none = .ok a := ⟨_,rfl⟩
  obtain ⟨a,ha⟩ := hnew
  have hlen : ([1,2,3] : List Byte).length = samplePicture.totalBytes := rfl
  obtain ⟨_,hall⟩ := reassembly_exact ha hlen sampleArrivals
  exact ⟨a,ha,hall,hall.whole (by decide)⟩

end FrankenRemote.Delivery
