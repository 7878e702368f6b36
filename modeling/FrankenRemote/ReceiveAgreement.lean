import FrankenRemote.ReceiveOrder
import FrankenRemote.SendLanes

/-! The receiver of an honest sender. Every slot holds part of an admitted picture: a set
of its fragments, or, for the first picture, the chunks of the recovery lane read so far. -/
namespace FrankenRemote.Delivery

open Wire Bytes Procedure SlotTable Tiling ReceivePipeline List

/-! The bootstrap. -/

/-- The bootstrap's picture after `n` chunks. -/
structure Boots (limits : MediaLimits) (x : Picture) (n : ℕ) (a : Assembly) : Prop where
  descriptor : a.descriptor = x.descriptor
  offset : a.reliableOffset = some (min x.descriptor.totalBytes (n*chunkBytes limits))
  received : a.received = min x.descriptor.totalBytes (n*chunkBytes limits)
  chunks : a.reliableChunks = n
  bytes : a.bytes = painted (chunkBytes limits) x.bytes 0 (Finset.range n)

section Bootstrap

variable {lim : MediaLimits} {x : Picture} {n : ℕ} {a : Assembly}

theorem boots_new {p bu used c now t} (hlen : x.bytes.length = x.descriptor.totalBytes)
    (h : Assembly.new p bu used x.descriptor c now (some t) = .ok a) : Boots lim x 0 a := by
  obtain ⟨_,hd,hb,_,hr,ho,hc,_⟩ := Assembly.new_ok h
  refine ⟨hd,?_,?_,hc,?_⟩
  · simpa using ho
  · simpa using hr
  · rw [hb,Finset.range_zero,painted_empty,hlen]

/-- A chunk is at least as long as a fragment, so there are no more chunks than fragments. -/
theorem chunk_lt_fragments (hv : x.descriptor.Valid lim)
    (hs : x.descriptor.stride = lim.fragmentStride)
    (hn : n*chunkBytes lim < x.descriptor.totalBytes) : n < lim.maxFragments := by
  have hle : x.descriptor.stride ≤ chunkBytes lim := by
    have hgt := lim.record_gt
    simp only [hs,MediaLimits.fragmentStride,chunkBytes,recoveryOverhead,fragmentOverhead] at *
    omega
  have hst : n*x.descriptor.stride < x.descriptor.totalBytes :=
    (Nat.mul_le_mul_left n hle).trans_lt hn
  exact ((start_lt_iff hv).mpr hst).trans_le hv.count_le

theorem exec_chunkAt (hv : x.descriptor.Valid lim) (hlen : x.bytes.length = x.descriptor.totalBytes)
    (hs : x.descriptor.stride = lim.fragmentStride) (h : Boots lim x n a)
    (hn : n*chunkBytes lim < x.descriptor.totalBytes) :
    (∃ u, (exec (Assembly.recovery (chunkAt lim x n) lim.maxFragments) a).1 = .ok u) ∧
      Boots lim x (n+1) (exec (Assembly.recovery (chunkAt lim x n) lim.maxFragments) a).2 := by
  have ho : a.reliableOffset = some (n*chunkBytes lim) := by
    rw [h.offset,min_eq_right hn.le]
  have hc := chunk_lt_fragments hv hs hn
  have hst : n*chunkBytes lim < x.bytes.length := by omega
  have hsi : (block (chunkBytes lim) x.bytes n).length =
      min (chunkBytes lim) (x.descriptor.totalBytes - n*chunkBytes lim) := by
    rw [length_block n hst,blockLength,hlen]
  have hbuf : a.bytes.length = x.descriptor.totalBytes := by
    rw [h.bytes,length_painted,hlen]
  have hword := total_lt_word hv
  have hmul : (n+1)*chunkBytes lim = n*chunkBytes lim + chunkBytes lim := by ring
  have hstop : n*chunkBytes lim + (block (chunkBytes lim) x.bytes n).length =
      min x.descriptor.totalBytes ((n+1)*chunkBytes lim) := by
    rw [hsi,hmul]
    omega
  rw [Assembly.recovery,exec_get_bind,exec_refuseIf_bind,if_neg,exec_refuseIf_bind,if_neg,
    exec_modify_bind,exec_refuseIf_bind,if_neg,exec_modify_bind,exec_get_bind,exec_pure]
  · refine ⟨⟨_,rfl⟩,h.descriptor,?_,hstop,?_,?_⟩
    · exact congrArg some hstop
    · exact congrArg (· + 1) h.chunks
    · change splice a.bytes (n*chunkBytes lim) (block (chunkBytes lim) x.bytes n) = _
      rw [h.bytes,splice_painted (chunkBytes_pos lim) hst,Finset.range_add_one]
  · change ¬2^32 ≤ n*chunkBytes lim + (block (chunkBytes lim) x.bytes n).length
    omega
  · change ¬a.bytes.length < n*chunkBytes lim + (block (chunkBytes lim) x.bytes n).length
    omega
  · rw [ho,h.descriptor,h.chunks]
    simpa [chunkAt] using hc

theorem Boots.complete (h : Boots lim x n a)
    (hlen : x.bytes.length = x.descriptor.totalBytes) (hc : a.complete) : a.bytes = x.bytes := by
  rw [Assembly.complete,h.received,h.descriptor] at hc
  rw [h.bytes]
  refine painted_of_subset (chunkBytes_pos lim) fun i hi => ?_
  have hs := (mem_blocks (chunkBytes_pos lim)).mp hi
  rw [Finset.mem_range]
  by_contra hg
  have hmul := Nat.mul_le_mul_right (chunkBytes lim) (not_lt.mp hg)
  omega

end Bootstrap

theorem Holds.complete {lim} {x : Picture} {S a}
    (h : Holds x.descriptor x.bytes S a) (hv : x.descriptor.Valid lim)
    (hlen : x.bytes.length = x.descriptor.totalBytes) (hc : a.complete) : a.bytes = x.bytes := by
  rw [h.bytes,(complete_iff hv h).mp hc,← hlen]
  exact painted_full hv.stride_pos

/-! The slot table. -/

/-- What a slot holds: fragments of an admitted picture, or the bootstrap's chunks. -/
inductive Filled (limits : MediaLimits) (pushed : List Picture) (n : ℕ) (s : ReceiveState)
    (a : Assembly) : Prop
  | datagrams {x S} (hx : x ∈ pushed)
      (hother : s = .awaitingRecovery → pushed.head? ≠ some x)
      (h : Holds x.descriptor x.bytes S a)
  | bootstrap {x} (hs : s = .awaitingRecovery) (hx : pushed.head? = some x)
      (h : Boots limits x n a)

/-- A pipeline that has read `n` chunks, and whether it has read an announcement. -/
structure Assembling (limits : MediaLimits) (pushed : List Picture) (announced : Prop) (n : ℕ)
    (r : ReceivePipeline) : Prop where
  sameLimits : r.config.limits = limits
  filled : ∀ i a, r.slots i = some a → Filled limits pushed n r.state a
  configured : r.state ≠ .awaitingConfiguration
  waiting : r.state = .awaitingRecovery → r.recoveryUntil ≠ none
  frame : ∀ frame, r.recoveryFrame = some frame → ∃ x, pushed.head? = some x ∧
    x.descriptor.frame = frame
  declared : r.state = .awaitingRecovery → announced →
    ∃ x, pushed.head? = some x ∧ r.recoveryFrame = some x.descriptor.frame
  unannounced : ¬announced → r.progress = none
  started : r.state = .awaitingRecovery → 0 < n →
    ∃ i a x, r.slots i = some a ∧ pushed.head? = some x ∧ Boots limits x n a

section Table

variable {lim : MediaLimits} {pushed : List Picture} {announced : Prop} {n : ℕ}
  {r t : ReceivePipeline} {x : Picture} {i : Fin windowCeiling} {a b : Assembly}

section

variable (h : Assembling lim pushed announced n r) (hcat : Catalogue lim pushed)

include h hcat

/-- A picture that arrives as datagrams now meets no other picture of its frame. -/
theorem Assembling.matches_datagram (hx : x ∈ pushed)
    (ho : r.state = .awaitingRecovery → pushed.head? ≠ some x) :
    ¬Mismatch r x.descriptor false := by
  rintro ⟨i,b,hb,hf,hbad⟩
  cases h.filled i b hb with
  | @datagrams y S hy _ hh =>
    have hxy := hcat.unique hy hx (by rw [← hf,hh.descriptor])
    rw [hh.descriptor,hh.datagram,hxy] at hbad
    simp at hbad
  | @bootstrap y hs hy hbt =>
    have hxy := hcat.unique (mem_of_mem_head? hy) hx (by rw [← hf,hbt.descriptor])
    exact ho hs (hxy ▸ hy)

theorem Assembling.matches_bootstrap (hs : r.state = .awaitingRecovery)
    (hx : pushed.head? = some x) : ¬Mismatch r x.descriptor true := by
  rintro ⟨i,b,hb,hf,hbad⟩
  cases h.filled i b hb with
  | @datagrams y S hy ho hh =>
    have hxy := hcat.unique hy (mem_of_mem_head? hx) (by rw [← hf,hh.descriptor])
    exact ho hs (hxy ▸ hx)
  | @bootstrap y _ hy hbt =>
    have hxy : y = x := Option.some.inj (hy.symm.trans hx)
    rw [hbt.descriptor,hbt.offset,hxy] at hbad
    simp at hbad

/-- Refusal of a datagram picture is exhaustion. -/
theorem Assembling.refusal_datagram (hx : x ∈ pushed)
    (ho : r.state = .awaitingRecovery → pushed.head? ≠ some x) {e}
    (hr : Refusal r x.descriptor false e) : e.exhaustion = true := by
  rcases hr (h.sameLimits ▸ hcat.valid x hx) with he | ⟨_,hf,_⟩ | hm
  · exact he
  · cases hf
  · exact absurd hm (h.matches_datagram hcat hx ho)

theorem Assembling.refusal_bootstrap (hs : r.state = .awaitingRecovery)
    (hx : pushed.head? = some x) {e} (hr : Refusal r x.descriptor true e) :
    e.exhaustion = true := by
  rcases hr (h.sameLimits ▸ hcat.valid x (mem_of_mem_head? hx)) with
    he | ⟨_,_,hu⟩ | hm
  · exact he
  · exact absurd hu (h.waiting hs)
  · exact absurd hm (h.matches_bootstrap hcat hs hx)

theorem Assembling.seat_datagram (hx : x ∈ pushed) (hst : Seat r x.descriptor false i a) :
    ∃ S, Holds x.descriptor x.bytes S a := by
  cases hst with
  | held hs hd hr =>
    cases h.filled i a hs with
    | @datagrams y S hy _ hh =>
      have hxy := hcat.unique hy hx (by rw [← hd,hh.descriptor])
      exact ⟨S,hxy ▸ hh⟩
    | bootstrap _ _ hb =>
      rw [hb.offset] at hr
      cases hr
  | fresh p used now t _ _ ht hnew =>
    cases t with
    | none => exact ⟨∅,holds_new (hcat.length x hx) hnew⟩
    | some t => cases ht

theorem Assembling.seat_bootstrap (hs : r.state = .awaitingRecovery)
    (hx : pushed.head? = some x) (hst : Seat r x.descriptor true i a) : Boots lim x n a := by
  cases hst with
  | held hsl hd hr =>
    cases h.filled i a hsl with
    | datagrams _ _ hh =>
      rw [hh.datagram] at hr
      cases hr
    | @bootstrap y _ hy hbt =>
      have hxy : y = x := Option.some.inj (hy.symm.trans hx)
      exact hxy ▸ hbt
  | fresh p used now t _ ho ht hnew =>
    -- Had a chunk been read, its picture would still sit in the table.
    have hz : n = 0 := by
      by_contra hne
      obtain ⟨j,b,y,hb,hy,hbt⟩ := h.started hs (Nat.pos_of_ne_zero hne)
      have hxy : y = x := Option.some.inj (hy.symm.trans hx)
      exact ho j b hb (by rw [hbt.descriptor,hxy])
    obtain ⟨t,rfl⟩ := Option.isSome_iff_exists.mp ht
    subst hz
    exact boots_new (hcat.length x (mem_of_mem_head? hx)) hnew

/-- The seat of a datagram picture takes on other fragments of it. -/
theorem Assembling.put_datagram {S} (hx : x ∈ pushed)
    (ho : r.state = .awaitingRecovery → pushed.head? ≠ some x)
    (hst : Seat r x.descriptor false i a) (hb : Holds x.descriptor x.bytes S b) :
    Assembling lim pushed announced n (r.seat i b) := by
  refine {h with filled := ?_,started := ?_}
  · intro j c hc
    rcases store_eq_some.mp hc with ⟨_,rfl⟩ | ⟨_,hc⟩
    · exact .datagrams hx ho hb
    · exact h.filled j c hc
  · intro hs hn
    obtain ⟨j,c,y,hc,hy,hbt⟩ := h.started hs hn
    refine ⟨j,c,y,store_eq_some.mpr (.inr ⟨?_,hc⟩),hy,hbt⟩
    rintro rfl
    cases hst with
    | held hsl hd _ =>
      rw [hc] at hsl
      cases hsl
      have hyx := hcat.unique (mem_of_mem_head? hy) hx (by rw [← hd,hbt.descriptor])
      exact ho hs (hyx ▸ hy)
    | fresh _ _ _ _ hv _ _ _ =>
      rw [hc] at hv
      cases hv

omit hcat in
/-- The bootstrap has its seat, and the lane has been read up to chunk `m`. -/
theorem Assembling.put_bootstrap {announced' : Prop} {m} (hord : Ordered r)
    (hs : r.state = .awaitingRecovery) (hx : pushed.head? = some x)
    (hst : Seat r x.descriptor true i a) (hb : Boots lim x m b)
    (hcf : t.config = r.config) (hslots : t.slots = store r.slots i b)
    (hstate : t.state = r.state) (hu : t.recoveryUntil = r.recoveryUntil)
    (hf : t.recoveryFrame = some x.descriptor.frame)
    (hp : ¬announced' → t.progress = none) : Assembling lim pushed announced' m t := by
  cases t
  subst hcf hslots hstate hu hf
  refine {h with
    filled := ?_,frame := ?_,declared := fun _ _ => ⟨x,hx,rfl⟩,unannounced := hp,started := ?_}
  · intro j c hc
    rcases store_eq_some.mp hc with ⟨_,rfl⟩ | ⟨hj,hc⟩
    · exact .bootstrap hs hx hb
    · cases h.filled j c hc with
      | datagrams hy ho hh => exact .datagrams hy ho hh
      | @bootstrap y _ hy hbt =>
        have hyx : y = x := Option.some.inj (hy.symm.trans hx)
        exact absurd (by rw [hbt.descriptor,hyx]) (hord.other hst hj hc)
  · rintro frame ⟨⟩
    exact ⟨x,hx,rfl⟩
  · exact fun _ _ => ⟨i,b,x,store_apply _ _ _,hx,hb⟩

end

/-- Once the bootstrap is over, only the fragments in the table matter. -/
theorem assembling_of_started {m} (hl : t.config.limits = lim)
    (hstate : t.state ≠ .awaitingConfiguration ∧ t.state ≠ .awaitingRecovery)
    (hfil : ∀ i a, t.slots i = some a → ∃ x ∈ pushed, ∃ S, Holds x.descriptor x.bytes S a)
    (hf : ∀ frame, t.recoveryFrame = some frame → ∃ x, pushed.head? = some x ∧
      x.descriptor.frame = frame)
    (hp : ¬announced → t.progress = none) : Assembling lim pushed announced m t := by
  refine ⟨hl,?_,hstate.1,?_,hf,?_,hp,?_⟩
  · intro i a ha
    obtain ⟨x,hx,S,hh⟩ := hfil i a ha
    exact .datagrams hx (fun hs => absurd hs hstate.2) hh
  · exact fun hs => absurd hs hstate.2
  · exact fun hs => absurd hs hstate.2
  · exact fun hs => absurd hs hstate.2

section

variable (h : Assembling lim pushed announced n r)

include h

theorem Assembling.fragments (hs : r.state ≠ .awaitingRecovery) (ha : r.slots i = some a) :
    ∃ x ∈ pushed, ∃ S, Holds x.descriptor x.bytes S a := by
  cases h.filled i a ha with
  | datagrams hx _ hh => exact ⟨_,hx,_,hh⟩
  | bootstrap hs' _ _ => exact absurd hs' hs

theorem Assembling.carry {announced' : Prop} {m} (hs : r.state ≠ .awaitingRecovery)
    (hc : t.config = r.config)
    (hsub : ∀ i a, t.slots i = some a → r.slots i = some a) (hstate : t.state = r.state)
    (hf : t.recoveryFrame = r.recoveryFrame) (hp : ¬announced' → t.progress = none) :
    Assembling lim pushed announced' m t := by
  cases t
  subst hc hstate hf
  exact assembling_of_started h.sameLimits ⟨h.configured,hs⟩
    (fun i a ha => h.fragments hs (hsub i a ha)) h.frame hp

theorem Assembling.discardSuperseded : Assembling lim pushed announced n r.discardSuperseded := by
  unfold ReceivePipeline.discardSuperseded
  split
  · exact h
  · rename_i frame hq
    refine h.carry ?_ rfl (fun _ _ ha => (discard_eq_some.mp ha).1) rfl rfl h.unannounced
    intro hs
    simp [ReceivePipeline.queuedIndependentFrame,hs] at hq

end

end Table

/-! Messages. -/

/-- Exhaustion ends an epoch without a disagreement. -/
theorem exhausted_agrees {e : DeliveryError} {P : Prop} (h : e.exhaustion = true) :
    e.disagreement = false ∧ (e = .wrongState → P) := by
  obtain ⟨ha,hne⟩ := DeliveryError.exhaustion_agrees h
  exact ⟨ha,fun hw => absurd hw hne⟩

/-- A record that is applied or ignored keeps the table, and its refusal is no disagreement. -/
def Applied (limits : MediaLimits) (pushed : List Picture) (announced : Prop) (n : ℕ) :
    Except DeliveryError ReceiveUpdate → ReceivePipeline → Prop
  | .ok _, t => Assembling limits pushed announced n t
  | .error e, t => e.disagreement = false ∧ (e = .wrongState →
    Assembling limits pushed announced n t)

section Messages

variable {lim : MediaLimits} {pushed : List Picture} {announced : Prop} {n : ℕ}
  {r t : ReceivePipeline} {x : Picture} {res : Except DeliveryError ReceiveUpdate}

/-- Nothing is obsolete before the decoder has started. -/
theorem Ordered.useful (ho : Ordered r) (hs : r.state = .awaitingRecovery) (frame : ℕ) :
    ¬r.obsolete frame := by
  obtain ⟨hd,hf⟩ := ho.unstarted (.inr hs)
  simp [ReceivePipeline.obsolete,ReceivePipeline.queuedIndependentFrame,hd,hf,hs]

variable (h : Assembling lim pushed announced n r) (hcat : Catalogue lim pushed)

include h hcat

/-- An honest fragment is stored, passed over, or not affordable. -/
theorem Assembling.fragment {k now} (hx : x ∈ pushed) (ho : pushed.head? ≠ some x)
    (hk : k ∈ blocks x.descriptor.totalBytes x.descriptor.stride)
    (hres : FragmentResult r (pieceOf x.descriptor x.bytes k) now res t) :
    Applied lim pushed announced n res t := by
  have hv := hcat.valid x hx
  have hlen := hcat.length x hx
  cases hres with
  | obsolete | deferred => exact h
  | refused hr => exact exhausted_agrees (h.refusal_datagram hcat hx (fun _ => ho) hr)
  | @broken i a b e hs hxc =>
    obtain ⟨S,hh⟩ := h.seat_datagram hcat hx hs
    have hrp := (exec_pieceOf hv hlen hh hk now r.config.policy.repairDelayMicros).1
    rw [hxc] at hrp
    cases hrp
  | @stored i a b u _ hs hxc =>
    obtain ⟨S,hh⟩ := h.seat_datagram hcat hx hs
    have hn := (exec_pieceOf hv hlen hh hk now r.config.policy.repairDelayMicros).2
    rw [hxc] at hn
    have hp := h.put_datagram hcat hx (fun _ => ho) hs hn
    change Assembling lim pushed announced n (ite _ _ _)
    split
    · exact hp.discardSuperseded
    · exact hp

theorem Assembling.recovery (ho : Ordered r) (hx : pushed.head? = some x)
    (hn : n*chunkBytes lim < x.descriptor.totalBytes)
    (hres : RecoveryResult r (chunkAt lim x n) res t) :
    Applied lim pushed announced (n+1) res t := by
  have hm := mem_of_mem_head? hx
  have hv := hcat.valid x hm
  have hlen := hcat.length x hm
  obtain ⟨href,hstride⟩ := hcat.bootstrap x hx
  have hd : bootstrapDescriptor r.config.limits (chunkAt lim x n) = x.descriptor := by
    rw [h.sameLimits,bootstrapDescriptor,← hstride]
    rw [← href]
    rfl
  cases hres with
  | late hs => exact ⟨rfl,fun _ => h.carry hs rfl (fun _ _ ha => ha) rfl rfl h.unannounced⟩
  | foreign hs hf hne =>
    obtain ⟨y,hy,hfy⟩ := h.frame _ hf
    have hyx : y = x := Option.some.inj (hy.symm.trans hx)
    exact absurd (by rw [← hfy,hyx]; rfl) hne
  | refused hs hr =>
    rw [hd] at hr
    exact exhausted_agrees (h.refusal_bootstrap hcat hs hx hr)
  | @applied i a b res hs hst hxc =>
    rw [hd] at hst
    rw [h.sameLimits] at hxc
    have hb := h.seat_bootstrap hcat hs hx hst
    obtain ⟨⟨u,rfl⟩,hnx⟩ : (∃ u, res = .ok u) ∧ Boots lim x (n+1) b := by
      have hrun := exec_chunkAt hv hlen hstride hb hn
      rwa [hxc] at hrun
    exact h.put_bootstrap ho hs hx hst hnx rfl rfl rfl rfl rfl h.unannounced

/-- An announcement of the first picture declares the bootstrap, and no other does. -/
theorem Assembling.declares_iff {q : Progress} (hx : x ∈ pushed) (hq : q.descriptor = x.descriptor)
    (hf : ¬announced → pushed.head? = some x) :
    Declares r q ↔ r.state = .awaitingRecovery ∧ pushed.head? = some x := by
  constructor
  · rintro ⟨hs,_,hall⟩
    refine ⟨hs,?_⟩
    by_cases ha : announced
    · obtain ⟨y,hy,hfr⟩ := h.declared hs ha
      rw [hfr,hq] at hall
      have hyx := hcat.unique (mem_of_mem_head? hy) hx (by simpa using hall)
      exact hyx ▸ hy
    · exact hf ha
  · rintro ⟨hs,hhead⟩
    refine ⟨hs,?_,?_⟩
    · rw [hq]
      exact (hcat.bootstrap x hhead).1
    · cases hfr : r.recoveryFrame with
      | none => rfl
      | some frame =>
        obtain ⟨y,hy,hfy⟩ := h.frame frame hfr
        have hyx : y = x := Option.some.inj (hy.symm.trans hhead)
        simp [hq,← hfy,hyx]

/-- An honest announcement gives its picture a seat, or nothing affordable is left. -/
theorem Assembling.progress {q : Progress} (hord : Ordered r) (hx : x ∈ pushed)
    (hq : q.descriptor = x.descriptor) (hf : ¬announced → pushed.head? = some x)
    (hres : ProgressResult r q res t) : Applied lim pushed True n res t := by
  have hdec := h.declares_iff hcat hx hq hf
  have ho : ¬Declares r q → r.state = .awaitingRecovery → pushed.head? ≠ some x :=
    fun hnot hs hhead => hnot (hdec.mpr ⟨hs,hhead⟩)
  cases hres with
  | abandoned => exact ⟨rfl,nofun⟩
  | older hold =>
    -- The pipeline has read an announcement before, and that one declared the bootstrap.
    have hannounced : announced := by
      by_contra hnot
      rw [h.unannounced hnot] at hold
      cases hold
    exact {h with
      declared := fun hs _ => h.declared hs hannounced
      unannounced := fun hnot => absurd trivial hnot}
  | obsolete hobs =>
    exact h.carry (fun hs => hord.useful hs _ hobs) rfl (fun _ _ ha => ha) rfl rfl
      fun hnot => absurd trivial hnot
  | undeclared hd hr =>
    obtain ⟨hs,hhead⟩ := hdec.mp hd
    rw [hq] at hr
    exact exhausted_agrees (h.refusal_bootstrap hcat hs hhead hr)
  | @declared i a hd hst =>
    obtain ⟨hs,hhead⟩ := hdec.mp hd
    rw [hq] at hst
    have hb := h.seat_bootstrap hcat hs hhead hst
    exact h.put_bootstrap hord hs hhead hst hb rfl rfl rfl rfl (by rw [hq])
      fun hnot => absurd trivial hnot
  | refused hd hr =>
    rw [hq] at hr
    exact exhausted_agrees (h.refusal_datagram hcat hx (ho hd) hr)
  | @announced i a hd _ hst =>
    rw [hq] at hst
    obtain ⟨S,hh⟩ := h.seat_datagram hcat hx hst
    have hp := h.put_datagram hcat hx (ho hd) hst hh
    -- Before the first announcement only the bootstrap's is possible, and that one declares.
    have hannounced : r.state = .awaitingRecovery → announced := fun hs => by
      by_contra hnot
      exact ho hd hs (hf hnot)
    exact {hp with
      declared := fun hs _ => hp.declared hs (hannounced hs),
      unannounced := fun hnot => absurd trivial hnot}

end Messages

/-! Calls. -/

/-- An honest sender's receiver: it has not failed over a disagreement, and as long as it
is alive its table holds what the lanes carried. -/
structure Receiving (limits : MediaLimits) (bindings : MediaBindings) (pushed : List Picture)
    (announced : Prop) (n : ℕ) (r : ReceivePipeline) : Prop where
  sameLimits : r.config.limits = limits
  sameBindings : r.config.bindings = bindings
  agreeing : r.Agreeing
  alive : r.state.dead ∨ (Ordered r ∧ Assembling limits pushed announced n r)

section Calls

variable {lim : MediaLimits} {bs : MediaBindings} {pushed : List Picture}
  {announced : Prop} {n : ℕ} {r t : ReceivePipeline} {now : ℕ}

variable {announced' : Prop} {m : ℕ} {a : Assembly}

theorem Receiving.dead
    (h : Receiving lim bs pushed announced n r) (hends : Ends r t) (ha : t.Agreeing) :
    Receiving lim bs pushed announced' m t := by
  have hc := hends.config
  exact ⟨hc ▸ h.sameLimits,hc ▸ h.sameBindings,ha,.inl hends.dead⟩

theorem Receiving.stops {e} (h : Receiving lim bs pushed announced n r) (hs : Stops r e t) :
    Receiving lim bs pushed announced' m t ∧ e.disagreement = false :=
  ⟨h.dead hs.ends (hs.agreeing h.agreeing).1,(hs.agreeing h.agreeing).2⟩

theorem admits_alive {s : ReceiveState} (h : s.admits = true) : ¬s.dead := by
  rintro (rfl | rfl) <;> cases h

theorem assembling_at (h : Assembling lim pushed announced n r) (now : ℕ) :
    Assembling lim pushed announced n (r.at now) := {h with}

theorem ordered_at (h : Ordered r) (now : ℕ) : Ordered (r.at now) := {h with}

/-- What a call may report between honest endpoints. -/
def Excused {α : Type} : Except DeliveryError α → Prop
  | .ok _ => True
  | .error e => e.disagreement = false

section Lanes

variable {p : Platform} {l : Lanes} {ch : Channel} {pk : List Byte}

/-- Delivery of a packet whose record agrees with the table. -/
theorem Receiving.receive {rec} (h : Receiving lim bs pushed announced n r)
    (hr : Record.decode pk lim (bs.forChannel ch) ch = .ok rec)
    (hd : ∀ s, Ordered s → Assembling lim pushed announced n s →
      Ensures (dispatch p ch rec now) s (Applied lim pushed announced' m)) :
    Ensures (receive p ch pk now) r fun res t =>
      Receiving lim bs pushed announced' m t ∧ Excused res := by
  have hread : r.read ch pk = .ok rec := by rwa [ReceivePipeline.read,h.sameLimits,h.sameBindings]
  -- The pipeline lives on when its record was applied or ignored.
  have hl : ∀ t, r.state.admits = true → Quiet (r.at now) t → Framed (r.at now) t →
      Assembling lim pushed announced' m t → Receiving lim bs pushed announced' m t := by
    intro t hadm hqt hf hasm
    have hc : t.config = r.config := congrArg (·.config) hf
    have ha : t.Agreeing := fun e he => h.agreeing e ((congrArg (·.failure) hf).symm.trans he)
    rcases hqt.of_at with ⟨_,ho⟩ | hends
    · refine ⟨hc ▸ h.sameLimits,hc ▸ h.sameBindings,ha,.inr ⟨ho ?_,hasm⟩⟩
      exact (h.alive.resolve_left (admits_alive hadm)).1
    · exact h.dead hends ha
  refine receive_ensures (Q := fun res t => r.state.admits = true ∧
    Applied lim pushed announced' m res t ∧ Spared (r.at now) res t ∧
      Framed (r.at now) t) (fun hstale => ?_) (fun e hg => ?_) (fun e t => h.stops)
    (fun hde hadm => ?_) (fun rec' hrd hadm => ?_) (fun u t hq => ?_) (fun t hq => ?_)
      fun e e' t hq he => ?_
  · rw [hread] at hstale
    cases hstale
  · rw [hread] at hg
    cases hg
  · obtain ⟨_,hasm⟩ := h.alive.resolve_left hde
    have hcon := hasm.configured
    cases hs : r.state <;> simp_all [ReceiveState.admits,ReceiveState.dead]
  · rw [hread] at hrd
    cases hrd
    obtain ⟨ho,hasm⟩ := h.alive.resolve_left (admits_alive hadm)
    have happ := hd _ (ordered_at ho now) (assembling_at hasm now)
    exact ⟨hadm,happ,dispatch_quiet,dispatch_framed p ch rec now _⟩
  · exact ⟨hl t hq.1 (hq.2.2.1 (.inl ⟨u,rfl⟩)) hq.2.2.2 hq.2.1,trivial⟩
  · exact ⟨hl t hq.1 (hq.2.2.1 (.inr rfl)) hq.2.2.2 (hq.2.1.2 rfl),rfl⟩
  · have ha : e'.disagreement = false := by
      rcases he with rfl | rfl
      · exact hq.2.1.1
      · rfl
    have hends : Ends r (t.failed e') :=
      ⟨dead_failed t e',congrArg (·.config) hq.2.2.2,congrArg (·.scope) hq.2.2.2⟩
    exact ⟨h.dead hends (agreeing_failed t ha),ha⟩

variable (hcat : Catalogue lim pushed) (hh : Honest lim bs pushed l)

include hcat hh

theorem Receiving.video (h : Receiving lim bs pushed announced n r) (hp : pk ∈ l.video) :
    Ensures (Delivery.receive p .video pk now) r fun res t =>
      Receiving lim bs pushed announced n t ∧ Excused res := by
  obtain ⟨x,hx,ho,k,hk,_,hr,hd⟩ := hh.video pk hp
  refine h.receive hr fun s _ ha => .get_bind (.ofResult_bind (fun e he => ?_) fun f hf => ?_) <;>
    rw [ha.sameLimits,hd] at *
  · cases he
  · cases hf
    exact (onFragment_ensures p _ now s).mono fun _ _ => ha.fragment hcat hx ho hk

theorem Receiving.recovery (h : Receiving lim bs pushed announced n r)
    (hp : l.recovery[n]? = some pk) :
    Ensures (Delivery.receive p .recovery pk now) r fun res t =>
      Receiving lim bs pushed announced (n+1) t ∧ Excused res := by
  obtain ⟨x,hx,hn,_,hr,hd⟩ := hh.recovery n pk hp
  refine h.receive hr fun s ho ha => .get_bind (.ofResult_bind (fun e he => ?_) fun f hf => ?_) <;>
    rw [ha.sameLimits,hd] at *
  · cases he
  · cases hf
    exact (onRecovery_ensures p _ now s).mono fun _ _ => ha.recovery hcat ho hx hn

theorem Receiving.config {k} (h : Receiving lim bs pushed (0 < k) n r)
    (hp : l.config[k]? = some pk) :
    Ensures (Delivery.receive p .mediaConfig pk now) r fun res t =>
      Receiving lim bs pushed (0 < k+1) n t ∧ Excused res := by
  obtain ⟨q,x,hx,hq,hfirst,_,hr,hd⟩ := hh.config k pk hp
  have hread : (0 < k+1) = True := propext ⟨fun _ => trivial,fun _ => Nat.succ_pos k⟩
  rw [hread]
  refine h.receive hr fun s ho ha => .get_bind (.ofResult_bind (fun e he => ?_) fun f hf => ?_) <;>
    rw [ha.sameLimits,hd] at *
  · cases he
  · cases hf
    exact (onProgress_ensures p _ now s).mono
      fun _ _ => ha.progress hcat ho hx hq fun hnot => hfirst (by omega)

end Lanes

section

variable (h : Receiving lim bs pushed announced n r)

include h

/-- Admission of further pictures at the sender does not concern the receiver. -/
theorem Receiving.append (more : List Picture) :
    Receiving lim bs (pushed ++ more) announced n r := by
  refine {h with alive := h.alive.imp_right fun ⟨hord,ha⟩ => ⟨hord,?_⟩}
  refine ⟨ha.sameLimits,?_,ha.configured,ha.waiting,?_,?_,ha.unannounced,?_⟩
  · intro i a hsl
    cases ha.filled i a hsl with
    | datagrams hx ho hh =>
      refine .datagrams (mem_append_left _ hx) (fun hs hhead => ho hs ?_) hh
      exact (head?_append_iff hx more).mp hhead
    | bootstrap hs hx hb => exact .bootstrap hs (head?_append_some hx more) hb
  · intro frame hfr
    obtain ⟨x,hx,hf⟩ := ha.frame frame hfr
    exact ⟨x,head?_append_some hx more,hf⟩
  · intro hs hannounced
    obtain ⟨x,hx,hf⟩ := ha.declared hs hannounced
    exact ⟨x,head?_append_some hx more,hf⟩
  · intro hs hn
    obtain ⟨i,a,x,hsl,hx,hb⟩ := ha.started hs hn
    exact ⟨i,a,x,hsl,head?_append_some hx more,hb⟩

theorem receiving_at (now : ℕ) : Receiving lim bs pushed announced n (r.at now) :=
  {h with alive := h.alive.imp_right fun ⟨ho,ha⟩ => ⟨ordered_at ho now,assembling_at ha now⟩}

end

variable {i : Fin windowCeiling}

theorem Assembling.picture (h : Assembling lim pushed announced n r) (hcat : Catalogue lim pushed)
    (hs : r.slots i = some a) (hc : a.complete) :
    ∃ x ∈ pushed, a.descriptor = x.descriptor ∧ a.bytes = x.bytes := by
  cases h.filled i a hs with
  | @datagrams x S hx _ hh =>
    exact ⟨x,hx,hh.descriptor,hh.complete (hcat.valid x hx) (hcat.length x hx) hc⟩
  | @bootstrap x _ hx hb =>
    have hm := mem_of_mem_head? hx
    exact ⟨x,hm,hb.descriptor,hb.complete (hcat.length x hm) hc⟩

/-- What remains after a hand-over are datagram pictures. -/
theorem Assembling.handedOver (h : Assembling lim pushed announced n r) (ho : Ordered r)
    (hsel : r.selected = some (i,a)) : Assembling lim pushed announced n (r.handedOver i a) := by
  have hsl := (selected_cases hsel).slot
  have hstate : (r.handedOver i a).state = .decodingRecovery ∨
      (r.handedOver i a).state = .streaming := by
    cases selected_cases hsel with
    | bootstrap hs _ _ _ => exact .inl (if_pos hs)
    | independent hs _ _ _ | dependent hs _ _ _ _ => exact .inr ((if_neg (by simp [hs])).trans hs)
  refine assembling_of_started h.sameLimits ?_ ?_ h.frame h.unannounced
  · rcases hstate with hs | hs <;> rw [hs] <;> decide
  · intro j b hb
    obtain ⟨hj,hb,_⟩ := handedOver_slots hb
    cases h.filled j b hb with
    | datagrams hx _ hh => exact ⟨_,hx,_,hh⟩
    | @bootstrap x hs hx hbt =>
      -- The bootstrap itself was handed over.
      cases selected_cases hsel with
      | bootstrap _ _ hr hf =>
        obtain ⟨y,hy,hfy⟩ := h.frame _ hf
        have hxy : x = y := Option.some.inj (hx.symm.trans hy)
        exact absurd (ho.distinct j i b a hb hsl (by simp only [hbt.descriptor,hxy,hfy])) hj
      | independent hs' _ _ _ | dependent hs' _ _ _ _ =>
        exact absurd (hs'.symm.trans hs) (by decide)

/-- Every picture handed over is an admitted one. -/
theorem Receiving.take (h : Receiving lim bs pushed announced n r) (hcat : Catalogue lim pushed)
    (hal : ¬r.state.dead) (hsel : (r.at now).selected = some (i,a)) :
    Receiving lim bs pushed announced n ((r.at now).handedOver i a) ∧
      ∃ x ∈ pushed, a.descriptor = x.descriptor ∧ a.bytes = x.bytes := by
  obtain ⟨ho,ha⟩ := h.alive.resolve_left hal
  have ho := ordered_at ho now
  have ha := assembling_at ha now
  obtain ⟨hs,hc,_⟩ := selected_some hsel
  exact ⟨{h with alive := .inr ⟨ho.handedOver hsel,ha.handedOver ho hsel⟩},
    ha.picture hcat hs hc⟩

/-- The decoder's answer about the picture that it holds. -/
theorem Receiving.acknowledge {p : ReceivedPicture} {success}
    (h : Receiving lim bs pushed announced n r)
    (hh : ¬r.state.dead → ∃ flight, r.inFlight = some flight ∧ flight.frame = p.descriptor.frame) :
    Ensures (acknowledgeDecode p success now) r fun res t =>
      Receiving lim bs pushed announced n t ∧ Excused res := by
  refine acknowledgeDecode_ensures ⟨h,rfl⟩ (fun _ _ => h.stops) (fun hal ho => ?_)
    ⟨h.dead ⟨dead_failed _ _,rfl,rfl⟩ (agreeing_failed _ rfl),rfl⟩ fun flight _ hal _ hf hfr => ?_
  · obtain ⟨flight,hf,hfr⟩ := hh hal
    exact absurd hfr (ho flight hf)
  · obtain ⟨hord,ha⟩ := h.alive.resolve_left hal
    have hs : r.state ≠ .awaitingRecovery := fun hs => by
      rw [(hord.unstarted (.inr hs)).2] at hf
      cases hf
    have hnow : (r.at now).inFlight = some flight := hf
    have hd := (ordered_at hord now).decoded hnow
    rw [hfr] at hd
    have hn : Assembling lim pushed announced n ((r.at now).decoded p.descriptor.frame) :=
      assembling_of_started ha.sameLimits ⟨nofun,nofun⟩ (fun _ _ hsl => ha.fragments hs hsl)
        ha.frame ha.unannounced
    have hpos := samePosition_discard ((r.at now).decoded p.descriptor.frame)
    have hc := hpos.config
    refine ⟨⟨hc ▸ h.sameLimits,hc ▸ h.sameBindings,?_,
      .inr ⟨hd.discardSuperseded,hn.discardSuperseded⟩⟩,trivial⟩
    unfold ReceivePipeline.discardSuperseded
    split <;> exact h.agreeing

theorem Assembling.asked {next att : ℕ} (h : Assembling lim pushed announced n r)
    (hsl : r.slots i = some a) :
    Assembling lim pushed announced n
      (r.seat i {a with nextRepair := next, repairAttempts := att}) := by
  have hbt : ∀ x, Boots lim x n a →
      Boots lim x n {a with nextRepair := next, repairAttempts := att} :=
    fun x hx => {hx with}
  refine {h with filled := ?_,started := ?_}
  · intro j b hb
    rcases store_eq_some.mp hb with ⟨_,rfl⟩ | ⟨_,hb⟩
    · cases h.filled i a hsl with
      | datagrams hx ho hh =>
        exact .datagrams hx ho {hh with}
      | bootstrap hs hx hb => exact .bootstrap hs hx (hbt _ hb)
    · exact h.filled j b hb
  · intro hs hn
    obtain ⟨j,b,x,hb,hx,hbx⟩ := h.started hs hn
    by_cases hj : j = i
    · subst hj
      rw [hsl] at hb
      cases hb
      exact ⟨j,_,x,store_apply _ _ _,hx,hbt x hbx⟩
    · exact ⟨j,b,x,store_eq_some.mpr (.inr ⟨hj,hb⟩),hx,hbx⟩

theorem Receiving.offer {room} (h : Receiving lim bs pushed announced n r) :
    Ensures (repairOffer room now) r fun _ t => Receiving lim bs pushed announced n t ∧
    Quiet r t := by
  refine repairOffer_ensures (fun _ _ hs => ⟨(h.stops hs).1,.inr hs.ends⟩)
    (fun _ => ⟨receiving_at h now,quiet_at r now⟩) fun i a _ _ _ hsl => ⟨?_,quiet_offered hsl⟩
  rcases quiet_offered hsl with ⟨_,hord⟩ | hends
  · exact {h with
      alive := h.alive.imp_right fun ⟨ho,ha⟩ => ⟨hord ho,(assembling_at ha now).asked hsl⟩}
  · exact h.dead hends h.agreeing

end Calls

end FrankenRemote.Delivery
