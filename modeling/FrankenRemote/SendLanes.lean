import FrankenRemote.SendRetained
import FrankenRemote.Reassembly

/-! What one epoch's sender puts on its three lanes. Datagrams carry fragments of admitted
pictures other than the first; the configuration lane starts with the announcement of the
first one; and the recovery lane is that picture, cut into contiguous chunks. -/
namespace FrankenRemote.Delivery

open Wire Bytes Procedure SlotTable Tiling List

/-- A picture as its encoder handed it over. -/
structure Picture where
  descriptor : FrameDescriptor
  bytes : List Byte
  deriving DecidableEq

/-- The pictures admitted in one epoch, in order. The first one is its bootstrap. -/
structure Catalogue (limits : MediaLimits) (pushed : List Picture) : Prop where
  valid : ∀ x ∈ pushed, x.descriptor.Valid limits
  fits : ∀ x ∈ pushed, x.descriptor.Fits
  length : ∀ x ∈ pushed, x.bytes.length = x.descriptor.totalBytes
  ascending : pushed.Pairwise (·.descriptor.frame < ·.descriptor.frame)
  bootstrap : ∀ x, pushed.head? = some x →
    x.descriptor.reference = none ∧ x.descriptor.stride = limits.fragmentStride

variable {lim : MediaLimits} {pushed : List Picture} {x : Picture}

theorem Catalogue.unique (h : Catalogue lim pushed) {y} (hx : x ∈ pushed) (hy : y ∈ pushed)
    (hf : x.descriptor.frame = y.descriptor.frame) : x = y := by
  have hn : (pushed.map (·.descriptor.frame)).Nodup :=
    (pairwise_map.mpr h.ascending).imp fun hlt => hlt.ne
  exact inj_on_of_nodup_map hn hx hy hf

/-- Everything after the first picture has a later frame. -/
theorem Catalogue.head_le (h : Catalogue lim pushed) {y} (hx : pushed.head? = some x)
    (hy : y ∈ pushed) : x.descriptor.frame ≤ y.descriptor.frame := by
  obtain ⟨rest,rfl⟩ : ∃ rest, pushed = x::rest := by
    cases pushed with
    | nil => cases hx
    | cons z rest =>
      cases hx
      exact ⟨rest,rfl⟩
  rcases mem_cons.mp hy with rfl | hy
  · exact le_rfl
  · exact (rel_of_pairwise_cons h.ascending hy).le

/-- A picture after the last one joins the catalogue. -/
theorem Catalogue.append (h : Catalogue lim pushed) (hv : x.descriptor.Valid lim)
    (hf : x.descriptor.Fits) (hlen : x.bytes.length = x.descriptor.totalBytes)
    (hl : ∀ last, pushed.getLast? = some last → last.descriptor.frame < x.descriptor.frame)
    (hboot : pushed = [] → x.descriptor.reference = none ∧
      x.descriptor.stride = lim.fragmentStride) : Catalogue lim (pushed ++ [x]) := by
  have hall : ∀ y ∈ pushed, y.descriptor.frame < x.descriptor.frame := by
    intro y hy
    rcases eq_nil_or_concat pushed with rfl | ⟨init,last,rfl⟩
    · cases hy
    rw [concat_eq_append] at h hy hl
    have hla := hl last (by simp)
    exact forall_mem_snoc.mpr ⟨fun z hz => ((pairwise_snoc.mp h.ascending).2 z hz).trans hla,hla⟩ y
      hy
  refine ⟨?_,?_,?_,?_,?_⟩
  · simpa [or_imp,forall_and] using ⟨h.valid,hv⟩
  · simpa [or_imp,forall_and] using ⟨h.fits,hf⟩
  · simpa [or_imp,forall_and] using ⟨h.length,hlen⟩
  · exact pairwise_snoc.mpr ⟨h.ascending,hall⟩
  · intro y hy
    cases pushed with
    | nil =>
      cases hy
      exact hboot rfl
    | cons z zs => exact h.bootstrap y hy

theorem head?_append_some {α : Type} {xs : List α} {x} (h : xs.head? = some x) (ys : List α) :
    (xs ++ ys).head? = some x := by
  cases xs with
  | nil => cases h
  | cons => exact h

/-- A picture of the catalogue is its first one exactly when it was before. -/
theorem head?_append_iff {α : Type} {xs x} (hx : x ∈ xs) (ys : List α) :
    (xs ++ ys).head? = some x ↔ xs.head? = some x := by
  cases xs with
  | nil => cases hx
  | cons => rfl

/-- Bytes of a full recovery chunk. -/
def chunkBytes (limits : MediaLimits) : ℕ := limits.recordBytes - recoveryOverhead

theorem chunkBytes_pos (lim : MediaLimits) : 0 < chunkBytes lim := by
  have hgt := lim.record_gt
  simp only [chunkBytes,recoveryOverhead,fragmentOverhead] at *
  omega

/-- The chunk with this number, when a picture is cut into full chunks. -/
def chunkAt (limits : MediaLimits) (x : Picture) (k : ℕ) : RecoveryChunk where
  frame := x.descriptor.frame
  totalBytes := x.descriptor.totalBytes
  offset := k*chunkBytes limits
  captureMicros := x.descriptor.captureMicros
  bytes := block (chunkBytes limits) x.bytes k

/-! Lanes. -/

/-- Every packet prepared for the three lanes of one epoch, in order. -/
structure Lanes where
  video : List (List Byte)
  config : List (List Byte)
  recovery : List (List Byte)

def Lanes.add (l : Lanes) (channel : Channel) (packet : List Byte) : Lanes :=
  match channel with
  | .video => {l with video := l.video ++ [packet]}
  | .mediaConfig => {l with config := l.config ++ [packet]}
  | .recovery => {l with recovery := l.recovery ++ [packet]}
  | .control => l

section Honest

variable (limits : MediaLimits) (bindings : MediaBindings)

/-- The peer reads this packet of a channel as `m`. -/
def Carries {α : Type} (decode : Record → MediaLimits → Except WireError α) (channel : Channel)
    (packet : List Byte) (m : α) : Prop :=
  ∃ record, Record.decode packet limits (bindings.forChannel channel) channel = .ok record ∧
    decode record limits = .ok m

/-- The lanes of a sender that admitted these pictures. -/
structure Honest (pushed : List Picture) (l : Lanes) : Prop where
  video : ∀ packet ∈ l.video, ∃ x ∈ pushed, pushed.head? ≠ some x ∧
    ∃ i ∈ blocks x.descriptor.totalBytes x.descriptor.stride,
      Carries limits bindings decodeFragment .video packet (pieceOf x.descriptor x.bytes i)
  config : ∀ k packet, l.config[k]? = some packet → ∃ q, ∃ x ∈ pushed, q.descriptor = x.descriptor ∧
    (k = 0 → pushed.head? = some x) ∧ Carries limits bindings decodeProgress .mediaConfig packet q
  recovery : ∀ k packet, l.recovery[k]? = some packet → ∃ x, pushed.head? = some x ∧
    k*chunkBytes limits < x.descriptor.totalBytes ∧
      Carries limits bindings decodeRecovery .recovery packet (chunkAt limits x k)

end Honest

theorem Honest.append {bs l} (h : Honest lim bs pushed l) (more : List Picture) :
    Honest lim bs (pushed ++ more) l where
  video pk hp := by
    obtain ⟨x,hx,hhead,hi⟩ := h.video pk hp
    exact ⟨x,mem_append_left _ hx,fun hnew => hhead ((head?_append_iff hx more).mp hnew),hi⟩
  config k pk hp := by
    obtain ⟨q,x,hx,hq,hhead,hc⟩ := h.config k pk hp
    exact ⟨q,x,mem_append_left _ hx,hq,fun hk => head?_append_some (hhead hk) more,hc⟩
  recovery k pk hp := by
    obtain ⟨x,hx,hk,hc⟩ := h.recovery k pk hp
    exact ⟨x,head?_append_some hx more,hk,hc⟩

theorem Honest.empty {bs l} (h : Honest lim bs [] l) : l.config = [] ∧ l.recovery = [] := by
  constructor
  · cases hl : l.config with
    | nil => rfl
    | cons pk =>
      obtain ⟨_,x,hx,_⟩ := h.config 0 pk (by rw [hl]; rfl)
      cases hx
  · cases hl : l.recovery with
    | nil => rfl
    | cons pk =>
      obtain ⟨x,hx,_⟩ := h.recovery 0 pk (by rw [hl]; rfl)
      cases hx

section Add

variable {lim : MediaLimits} {bs : MediaBindings} {pushed : List Picture} {l : Lanes}
  {pk : List Byte} {x : Picture}

theorem Honest.add_video (h : Honest lim bs pushed l) (hx : x ∈ pushed)
    (hhead : pushed.head? ≠ some x) {i}
    (hi : i ∈ blocks x.descriptor.totalBytes x.descriptor.stride)
    (hc : Carries lim bs decodeFragment .video pk
      (pieceOf x.descriptor x.bytes i)) : Honest lim bs pushed (l.add .video pk) :=
  {h with video := forall_mem_snoc.mpr ⟨h.video,x,hx,hhead,i,hi,hc⟩}

/-- A packet of a grown lane is an old one or the new one. -/
theorem getElem?_snoc {packets k u} (h : (packets ++ [pk])[k]? = some u) :
    packets[k]? = some u ∨ (k = packets.length ∧ u = pk) := by
  rcases lt_trichotomy k packets.length with hk | rfl | hk
  · exact .inl (by rwa [List.getElem?_append_left hk] at h)
  · rw [List.getElem?_concat_length] at h
    exact .inr ⟨rfl,(Option.some.inj h).symm⟩
  · rw [List.getElem?_eq_none (by simpa using hk)] at h
    cases h

theorem Honest.add_config (h : Honest lim bs pushed l) (hx : x ∈ pushed) {q : Progress}
    (hq : q.descriptor = x.descriptor) (hf : l.config = [] → pushed.head? = some x)
    (hc : Carries lim bs decodeProgress .mediaConfig pk q) :
    Honest lim bs pushed (l.add .mediaConfig pk) := by
  refine {h with config := fun k u hu => ?_}
  rcases getElem?_snoc hu with hu | ⟨rfl,rfl⟩
  · exact h.config k u hu
  · exact ⟨q,x,hx,hq,fun hz => hf (length_eq_zero_iff.mp hz),hc⟩

theorem Honest.add_recovery (h : Honest lim bs pushed l) (hx : pushed.head? = some x)
    (hk : l.recovery.length*chunkBytes lim < x.descriptor.totalBytes)
    (hc : Carries lim bs decodeRecovery .recovery pk (chunkAt lim x l.recovery.length)) :
    Honest lim bs pushed (l.add .recovery pk) := by
  refine {h with recovery := fun k u hu => ?_}
  rcases getElem?_snoc hu with hu | ⟨rfl,rfl⟩
  · exact h.recovery k u hu
  · exact ⟨x,hx,hk,hc⟩

end Add

/-! The sender behind the lanes. -/

/-- What an encoder supplies is within machine widths. -/
structure Progress.Fits (q : Progress) : Prop where
  descriptor : q.descriptor.Fits
  observed : q.observedMicros < 256^8

structure Issued (limits : MediaLimits) (bindings : MediaBindings)
    (pushed : List Picture) (l : Lanes) (c : SendCache) : Prop where
  sameLimits : c.limits = limits
  sameBindings : c.bindings = bindings
  catalogue : Catalogue limits pushed
  honest : Honest limits bindings pushed l
  last : c.lastInserted = pushed.getLast?.map (·.descriptor.frame)
  distinct : Keyed (·.descriptor.frame) c.pictures
  cached : ∀ i p, c.pictures i = some p → p.progress.observedMicros < 256^8 ∧ ∃ x ∈ pushed,
    p.descriptor = x.descriptor ∧ p.bytes = x.bytes ∧ (p.mode = .recovery ↔ pushed.head? = some x)
  repairs : ∀ i p, c.pictures i = some p → p.repair.isSome = true → p.mode = .datagrams
  reports : ∀ q, c.Reports q → q.observedMicros < 256^8 ∧ ∃ x ∈ pushed, q.descriptor = x.descriptor
  /-- Until the first announcement, the bootstrap waits for it. -/
  silent : l.config = [] → c.dead ∨ ∀ x, pushed.head? = some x → ∃ i p, c.pictures i = some p ∧
    p.descriptor = x.descriptor ∧ p.announced = false ∧ p.originalComplete = false
  cursor : ∀ i p, c.pictures i = some p → p.mode = .recovery →
    p.nextOriginal = min p.descriptor.totalBytes (l.recovery.length*chunkBytes limits)

section Sender

variable {lim : MediaLimits} {bs : MediaBindings} {pushed : List Picture} {l : Lanes}
  {c s t : SendCache}

/-- Whatever the lanes already carry stays true when pictures are only dropped. -/
theorem Issued.retained (h : Issued lim bs pushed l c) (k : Retained c t) :
    Issued lim bs pushed l t where
  sameLimits := k.limits.trans h.sameLimits
  sameBindings := k.bindings.trans h.sameBindings
  catalogue := h.catalogue
  honest := h.honest
  last := k.lastInserted.trans h.last
  distinct := h.distinct.revise fun i p hp => by
    obtain ⟨p',hp',hpp⟩ := k.pictures i p hp
    exact ⟨p',hp',congrArg (·.descriptor.frame) hpp.progress⟩
  cached i p hp := by
    obtain ⟨p',hp',hpp⟩ := k.pictures i p hp
    rw [CachedPicture.descriptor,hpp.progress,hpp.bytes,hpp.mode]
    exact h.cached i p' hp'
  repairs i p hp hr := by
    obtain ⟨p',hp',hpp⟩ := k.pictures i p hp
    rw [hpp.mode]
    cases hm : p'.mode with
    | datagrams => rfl
    | recovery =>
      have := h.repairs i p' hp' (hpp.repair hm hr)
      rw [hm] at this
      cases this
  reports q hq := by
    obtain ⟨p,hp,hd,ho⟩ := k.reports q hq
    obtain ⟨_,x,hx,hpx⟩ := h.reports p hp
    refine ⟨?_,x,hx,hd.trans hpx⟩
    rcases ho with ho | ho
    · rwa [ho]
    · exact ho
  silent hc := by
    rcases h.silent hc with hde | hw
    · exact .inl (k.dead hde)
    rcases k.owed with hde | howed
    · exact .inl hde
    refine .inr fun x hx => ?_
    obtain ⟨i,p,hp,hd,hnew,hi⟩ := hw x hx
    obtain ⟨q,hq,hpq⟩ := howed i p hp hi
    refine ⟨i,q,hq,?_,hpq.announced.trans hnew,hpq.originalComplete.trans hi⟩
    rw [CachedPicture.descriptor,hpq.progress]
    exact hd
  cursor i p hp hm := by
    obtain ⟨p',hp',hpp⟩ := k.pictures i p hp
    rw [hpp.nextOriginal,CachedPicture.descriptor,hpp.progress]
    exact h.cursor i p' hp' (hpp.mode ▸ hm)

theorem Issued.new {o e pol} (h : SendCache.new o lim bs e pol = .ok c) :
    Issued lim bs [] ⟨[],[],[]⟩ c := by
  obtain ⟨_,_,h⟩ := bind_eq_ok.mp h
  cases h
  refine ⟨rfl,rfl,⟨by simp,by simp,by simp,.nil,by simp⟩,⟨by simp,by simp,by simp⟩,rfl,?_,?_,?_,?_,
    fun _ => .inr (by simp),?_⟩
  · exact fun _ _ _ _ hp => by cases hp
  · exact fun _ _ hp => by cases hp
  · exact fun _ _ hp => by cases hp
  · rintro q (hq | ⟨_,ho,_⟩)
    · cases hq
    · cases ho
  · exact fun _ _ hp => by cases hp

variable {i : Fin cacheSlots}

theorem Issued.inserted (h : Issued lim bs pushed l s) {progress pa mode r sb now used}
    (hfi : Progress.Fits progress) (ha : ¬s.dead) (had : SendCache.Admissible s
      (SendCache.admittedPicture progress pa mode r sb now) i) :
    Issued lim bs (pushed ++ [⟨progress.descriptor,pa.bytes⟩]) l
      (s.inserted i (SendCache.admittedPicture progress pa mode r sb now) used) := by
  obtain ⟨hva,hlen,hl,_,hmo,hboot,_,_,hv⟩ := had
  simp only [SendCache.admittedPicture_descriptor,SendCache.admittedPicture_mode,
    SendCache.admittedPicture_bytes] at hva hlen hl hmo hboot
  have hf : mode = .recovery ↔ pushed = [] := by
    rw [hmo,h.last]
    cases pushed using List.reverseRecOn <;> simp
  have hcat : Catalogue lim (pushed ++ [⟨progress.descriptor,pa.bytes⟩]) := by
    refine h.catalogue.append (h.sameLimits ▸ hva) hfi.descriptor hlen ?_ ?_
    · intro last hla
      exact hl _ (by rw [h.last,hla]; rfl)
    · rw [← hf,← h.sameLimits]
      exact hboot
  have hn : ∀ y ∈ pushed, y.descriptor.frame ≠ progress.descriptor.frame := fun y hy =>
    ((pairwise_append.mp hcat.ascending).2.2 y hy _ (mem_singleton_self _)).ne
  have hhead : mode = .recovery ↔ (pushed ++ [(⟨progress.descriptor,pa.bytes⟩ : Picture)]).head? =
        some ⟨progress.descriptor,pa.bytes⟩ := by
    rw [hf]
    cases pushed with
    | nil => simp
    | cons z zs =>
      have hne := hn z mem_cons_self
      simp only [reduceCtorEq,cons_append,List.head?_cons,Option.some.injEq,false_iff]
      rintro rfl
      exact hne rfl
  have hs : ∀ j q, (s.inserted i (SendCache.admittedPicture progress pa mode r sb now)
      used).pictures j = some q → (j = i ∧
        q = (SendCache.admittedPicture progress pa mode r sb now)) ∨
          (j ≠ i ∧ s.pictures j = some q) := by
    intro j q hq
    exact (store_eq_some.mp hq).imp (fun h => ⟨h.1,h.2.symm⟩) id
  refine ⟨h.sameLimits,h.sameBindings,hcat,h.honest.append _,?_,?_,?_,?_,?_,?_,?_⟩
  · simp [SendCache.inserted,CachedPicture.descriptor]
  · -- The new picture's frame is none of the cached ones.
    refine keyed_store h.distinct fun j q _ hq => ?_
    obtain ⟨_,x,hx,hd,_⟩ := h.cached j q hq
    rw [hd]
    exact hn x hx
  · intro j p hp
    rcases hs j p hp with ⟨rfl,rfl⟩ | ⟨_,hp⟩
    · exact ⟨hfi.observed,_,mem_concat_self,rfl,rfl,hhead⟩
    · obtain ⟨hobs,x,hx,hd,hb,hm⟩ := h.cached j p hp
      refine ⟨hobs,x,mem_append_left _ hx,hd,hb,?_⟩
      rw [head?_append_iff hx]
      exact hm
  · intro j p hp hr
    rcases hs j p hp with ⟨rfl,rfl⟩ | ⟨_,hp⟩
    · cases hr
    · exact h.repairs j p hp hr
  · rintro q (hq | ⟨_,ho,_⟩)
    · cases hq
      exact ⟨hfi.observed,_,mem_concat_self,rfl⟩
    · cases ho
  · intro hc
    refine .inr fun x hx => ?_
    rcases eq_nil_or_concat pushed with rfl | ⟨init,last,hpush⟩
    · cases hx
      refine ⟨i,_,store_apply _ _ _,rfl,rfl,?_⟩
      have hpos := hva.total_pos
      simpa [CachedPicture.originalComplete,CachedPicture.originals,CachedPicture.descriptor,
        hf.mpr rfl] using hpos.ne'
    · obtain ⟨j,p,hp,hd,hnew,hi⟩ := (h.silent hc).resolve_left ha x (by
        subst hpush
        simpa using hx)
      have hj : j ≠ i := by
        rintro rfl
        rw [hv] at hp
        cases hp
      exact ⟨j,p,store_eq_some.mpr (.inr ⟨hj,hp⟩),hd,hnew,hi⟩
  · intro j p hp hrv
    rcases hs j p hp with ⟨rfl,rfl⟩ | ⟨_,hp⟩
    · obtain rfl := hf.mp hrv
      simp [h.honest.empty.2]
    · exact h.cursor j p hp hrv

variable {p q : CachedPicture} {room : ℕ} {pk : List Byte}

/-- A cached picture's fragment is the admitted picture's fragment. -/
theorem fragment_eq_pieceOf {i f}
    (hv : p.descriptor.Valid lim) (hlen : p.bytes.length = p.descriptor.totalBytes)
    (h : p.fragment i = .ok f) : i ∈ blocks p.descriptor.totalBytes p.descriptor.stride ∧
      f = pieceOf p.descriptor p.bytes i := by
  obtain ⟨⟨_,_⟩,hr,h⟩ := bind_eq_ok.mp h
  obtain ⟨hi,rfl,rfl⟩ := (fragmentRange_iff hv).mp (mapError_eq_ok hr)
  cases h
  refine ⟨hi,?_⟩
  rw [pieceOf,block,hlen,Nat.add_sub_cancel_left]

theorem fragment_ok {i} (hv : p.descriptor.Valid lim)
    (hlen : p.bytes.length = p.descriptor.totalBytes)
    (hi : i*p.descriptor.stride < p.descriptor.totalBytes) :
    p.fragment i = .ok (pieceOf p.descriptor p.bytes i) := by
  have hr : (p.descriptor.fragmentRange i).mapError SendError.wire =
      .ok (i*p.descriptor.stride,i*p.descriptor.stride +
        blockLength p.descriptor.totalBytes p.descriptor.stride i) := by
    rw [fragmentRange_valid hv hi]
    rfl
  refine bind_eq_ok.mpr ⟨_,hr,?_⟩
  simp only [pieceOf,block,hlen,Nat.add_sub_cancel_left]

section

variable (h : Issued lim bs pushed l s)

include h

/-- One cached picture moves on; the lanes follow. -/
theorem Issued.put {l'} (hp : s.pictures i = some p)
    (hpg : q.progress = p.progress) (hb : q.bytes = p.bytes) (hm : q.mode = p.mode)
    (hr : q.repair.isSome = true → p.repair.isSome = true) (hh : Honest lim bs pushed l')
    (hs : l'.config = [] → ∀ x, pushed.head? = some x → ∃ j u, (s.put i q).pictures j = some u ∧
      u.descriptor = x.descriptor ∧ u.announced = false ∧ u.originalComplete = false)
    (hc : ∀ j u, (s.put i q).pictures j = some u → u.mode = .recovery →
      u.nextOriginal = min u.descriptor.totalBytes (l'.recovery.length*chunkBytes lim)) :
    Issued lim bs pushed l' (s.put i q) := by
  -- Every picture of the new table is an old one, apart from how far it has been sent.
  have hold : ∀ j u, (s.put i q).pictures j = some u → ∃ v, s.pictures j = some v ∧
      u.progress = v.progress ∧ u.bytes = v.bytes ∧ u.mode = v.mode ∧
      (u.repair.isSome = true → v.repair.isSome = true) := by
    intro j u hu
    rcases store_eq_some.mp hu with ⟨rfl,rfl⟩ | ⟨_,hu⟩
    · exact ⟨p,hp,hpg,hb,hm,hr⟩
    · exact ⟨u,hu,rfl,rfl,rfl,id⟩
  refine {h with
    honest := hh,distinct := ?_,cached := ?_,repairs := ?_,silent :=
      fun hcf => .inr (hs hcf),cursor := hc}
  · exact h.distinct.revise fun j u hu =>
      (hold j u hu).imp fun v hv => ⟨hv.1,congrArg (·.descriptor.frame) hv.2.1⟩
  · intro j u hu
    obtain ⟨v,hv,hpv,hbv,hmv,_⟩ := hold j u hu
    rw [CachedPicture.descriptor,hpv,hbv,hmv]
    exact h.cached j v hv
  · intro j u hu hru
    obtain ⟨v,hv,_,_,hmv,hrv⟩ := hold j u hu
    rw [hmv]
    exact h.repairs j v hv (hrv hru)

theorem Issued.relane {l'} (hh : Honest lim bs pushed l') (hc : l'.config ≠ [])
    (hr : l'.recovery = l.recovery) : Issued lim bs pushed l' s :=
  {h with
    honest := hh
    silent := fun he => absurd he hc
    cursor := by
      rw [hr]
      exact h.cursor}

/-- The first picture is the only one that travels on the recovery lane. -/
theorem Issued.bootstrap_slot {i j} (hp : s.pictures i = some p) (hq : s.pictures j = some q)
    (hpmo : p.mode = .recovery) (hqmo : q.mode = .recovery) : i = j := by
  obtain ⟨_,x,_,hd,_,hx⟩ := h.cached i p hp
  obtain ⟨_,y,_,hdy,_,hy⟩ := h.cached j q hq
  have hxy : x = y := Option.some.inj ((hx.mp hpmo).symm.trans (hy.mp hqmo))
  exact h.distinct i j p q hp hq (by simp only [hd,hdy,hxy])

theorem Issued.add_fragment (ha : ¬s.dead) {f k} (hp : s.pictures i = some p)
    (hdat : p.mode = .datagrams)
    (hpg : q.progress = p.progress) (hb : q.bytes = p.bytes) (hm : q.mode = p.mode)
    (hr : q.repair.isSome = true → p.repair.isSome = true) (hf : p.fragment k = .ok f)
    (hpk : encodeFragment f (s.bindings.forChannel .video) s.limits room = .ok pk) :
    Issued lim bs pushed (l.add .video pk) (s.put i q) := by
  obtain ⟨_,x,hx,hd,hbx,hboot⟩ := h.cached i p hp
  have hhead : pushed.head? ≠ some x := by
    intro hfirst
    have hm := hboot.mpr hfirst
    rw [hdat] at hm
    cases hm
  have hv := h.catalogue.valid x hx
  have hlen := h.catalogue.length x hx
  rw [← hd] at hv hlen
  rw [← hbx] at hlen
  obtain ⟨hi,rfl⟩ := fragment_eq_pieceOf hv hlen hf
  rw [h.sameLimits,h.sameBindings] at hpk
  have hc := decodeFragment_encodeFragment (hd ▸ h.catalogue.fits x hx)
    (bs.forChannel_lt .video) hpk
  rw [hd,hbx] at hc
  refine h.put hp hpg hb hm hr
    (h.honest.add_video hx hhead (hd ▸ hi) hc) ?_ ?_
  · -- The bootstrap waits in another slot than this datagram picture.
    intro hcf y hy
    obtain ⟨j,u,hu,hdu,hnew,hinc⟩ := (h.silent hcf).resolve_left ha y hy
    have hj : j ≠ i := by
      rintro rfl
      rw [hp] at hu
      cases hu
      have hxy := h.catalogue.unique hx (mem_of_mem_head? hy) (by rw [← hd,← hdu])
      exact hhead (hxy ▸ hy)
    exact ⟨j,u,store_eq_some.mpr (.inr ⟨hj,hu⟩),hdu,hnew,hinc⟩
  · intro j u hu hrv
    rcases store_eq_some.mp hu with ⟨rfl,rfl⟩ | ⟨_,hu⟩
    · rw [hm,hdat] at hrv
      cases hrv
    · exact h.cursor j u hu hrv

theorem Issued.add_chunk (hal : ¬s.dead)
    (hp : s.pictures i = some p) (ha : p.announced = true) (hm : p.mode = .recovery)
    (hre : p.nextOriginal < p.descriptor.totalBytes)
    (hpk : encodeRecovery (p.chunk s.limits) (s.bindings.forChannel .recovery) s.limits room =
      .ok pk) :
    Issued lim bs pushed (l.add .recovery pk)
      (s.put i {p with nextOriginal := p.nextOriginal + p.chunkLength s.limits}) := by
  obtain ⟨_,x,hx,hd,hbx,hboot⟩ := h.cached i p hp
  have hhead := hboot.mp hm
  have hlen : p.bytes.length = p.descriptor.totalBytes := by
    rw [hbx,hd]
    exact h.catalogue.length x hx
  have hcu : p.nextOriginal = l.recovery.length*chunkBytes lim := by
    have := h.cursor i p hp hm
    omega
  have hc : p.chunk lim = chunkAt lim x l.recovery.length := by
    simp only [CachedPicture.chunk,CachedPicture.chunkLength,chunkAt,block,blockLength,
      chunkBytes,hcu,hd,hbx]
  have hf := h.catalogue.fits x hx
  rw [h.sameLimits,h.sameBindings,hc] at hpk
  have hcarries := decodeRecovery_encodeRecovery hf.frame hf.captureMicros
    (bs.forChannel_lt .recovery) hpk
  refine h.put hp rfl rfl rfl id (h.honest.add_recovery hhead ?_ hcarries) ?_ ?_
  · rw [← hcu,← hd]
    exact hre
  · intro hcf y hy
    obtain ⟨j,u,hu,hdu,hnew,_⟩ := (h.silent hcf).resolve_left hal y hy
    have hxy : x = y := Option.some.inj (hhead.symm.trans hy)
    obtain rfl := h.distinct i j p u hp hu (by simp only [hd,hdu,hxy])
    rw [hp] at hu
    cases hu
    rw [ha] at hnew
    cases hnew
  · intro j u hu hr
    rcases store_eq_some.mp hu with ⟨rfl,rfl⟩ | ⟨hj,hu⟩
    · have hmul : (l.recovery.length + 1)*chunkBytes lim =
          l.recovery.length*chunkBytes lim + chunkBytes lim := by ring
      simp only [Lanes.add,length_append,length_singleton,hmul,CachedPicture.chunkLength,
        h.sameLimits,hlen,hcu]
      change _ = min p.descriptor.totalBytes _
      rw [chunkBytes] at *
      omega
    · exact absurd (h.bootstrap_slot hu hp hr hm) hj

theorem Issued.add_progress {x} {q : Progress} (hx : x ∈ pushed) (hq : q.descriptor = x.descriptor)
    (ho : q.observedMicros < 256^8) (hf : l.config = [] → pushed.head? = some x)
    (hp : encodeProgress q (s.bindings.forChannel .mediaConfig) s.limits room = .ok pk) :
    Honest lim bs pushed (l.add .mediaConfig pk) := by
  rw [h.sameLimits,h.sameBindings] at hp
  exact h.honest.add_config hx hq hf (decodeProgress_encodeProgress
    (hq ▸ h.catalogue.fits x hx) ho (bs.forChannel_lt .mediaConfig) hp)

/-- Every prepared record is about an admitted picture. -/
theorem Issued.emits {ch} (hal : ¬s.dead) (he : SendCache.Emits s ch pk t) :
    Issued lim bs pushed (l.add ch pk) t := by
  have hg : ∀ pk, (l.add .mediaConfig pk).config ≠ [] := by simp [Lanes.add]
  cases he with
  | @announcement i p _ _ hp _ hfirst hpk =>
    obtain ⟨hobs,x,hx,hd,_,_⟩ := h.cached i p hp
    have hh := h.add_progress hx hd hobs (fun hc => ?_) hpk
    · refine h.put hp rfl rfl rfl id hh (fun hem => absurd hem (hg _)) ?_
      intro j u hu hr
      rcases store_eq_some.mp hu with ⟨rfl,rfl⟩ | ⟨_,hu⟩
      · exact h.cursor j p hp hr
      · exact h.cursor j u hu hr
    · -- The bootstrap still owes its announcement, and no frame precedes it.
      obtain ⟨y,hy⟩ : ∃ y, pushed.head? = some y := Option.isSome_iff_exists.mp
        (isSome_head?.mpr (ne_nil_of_mem hx))
      obtain ⟨j,u,hu,hdu,hfresh,_⟩ := (h.silent hc).resolve_left hal y hy
      have hle := hfirst j u hu (.inl hfresh)
      have hge := h.catalogue.head_le hy hx
      rw [hd,hdu] at hle
      rw [hy,h.catalogue.unique (mem_of_mem_head? hy) hx (le_antisymm hge hle)]
  | original hp hm hf hpk => exact h.add_fragment hal hp hm rfl rfl rfl id hf hpk
  | chunk hp ha hm hre hpk =>
    exact h.add_chunk hal hp ha hm hre hpk
  | @observation o _ _ ho hi hpk =>
    obtain ⟨hobs,x,hx,hd⟩ := h.reports o.progress (.inr ⟨o,ho,rfl⟩)
    have hh := h.add_progress hx hd hobs (fun hc => ?_) hpk
    · refine (h.relane hh (hg _) rfl).retained ?_
      refine {Retained.refl s with reports := ?_}
      rintro q (hq | ⟨_,hn,_⟩)
      · exact ⟨q,.inl hq,rfl,.inl rfl⟩
      · cases hn
    · -- An unannounced bootstrap would have gone first.
      obtain ⟨y,hy⟩ : ∃ y, pushed.head? = some y := Option.isSome_iff_exists.mp
        (isSome_head?.mpr (ne_nil_of_mem hx))
      obtain ⟨j,u,hu,_,hfresh,_⟩ := (h.silent hc).resolve_left hal y hy
      exact absurd (.inl hfresh) (hi j u hu)
  | @repair i p job f _ _ _ hp hj hf hpk =>
    have hm := h.repairs i p hp (by rw [hj]; rfl)
    have hput := h.add_fragment (q := {p with repair := job.advance}) hal hp hm rfl rfl rfl
      (fun _ => by rw [hj]; rfl) hf hpk
    exact hput.retained {Retained.refl _ with}

end

end Sender

/-- The default send policy, scaled to the sample viewer. -/
def sampleSendPolicy : SendPolicy :=
  {SendPolicy.default with maxCachedBytes := 65536, repairBytesPerWindow := 4096}

theorem exists_sampleCache : ∃ c,
    SendCache.new 0 sampleConfig.limits sampleConfig.bindings sampleConfig.epoch sampleSendPolicy =
      .ok c :=
  ⟨_,rfl⟩

end FrankenRemote.Delivery
