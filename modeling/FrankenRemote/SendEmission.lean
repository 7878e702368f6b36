import FrankenRemote.SendAccount
import FrankenRemote.SendLanes

/-! In what order a sender prepares its originals. Within a generation they are the records of
the accepted pictures one after the other: the announcement, then every fragment or every
contiguous chunk, each once. -/
namespace FrankenRemote.Delivery

open Wire Bytes Procedure SlotTable Tiling List

/-! The records of one picture. -/

inductive SendItem
  | announcement (progress : Progress)
  | fragment (fragment : Fragment)
  | chunk (chunk : RecoveryChunk)
  deriving DecidableEq

namespace SendItem

def channel : SendItem → Channel
  | announcement _ => .mediaConfig
  | fragment _ => .video
  | chunk _ => .recovery

def encode (x : SendItem) (bindings : MediaBindings) (limits : MediaLimits) (room : ℕ) :
    Except WireError (List Byte) :=
  match x with
  | announcement q => encodeProgress q (bindings.forChannel .mediaConfig) limits room
  | fragment f => encodeFragment f (bindings.forChannel .video) limits room
  | chunk c => encodeRecovery c (bindings.forChannel .recovery) limits room

end SendItem

namespace Entry

def fragments (x : Entry) : ℕ :=
  (x.descriptor.totalBytes + x.descriptor.stride - 1)/x.descriptor.stride

def chunks (limits : MediaLimits) (x : Entry) : ℕ :=
  (x.descriptor.totalBytes + chunkBytes limits - 1)/chunkBytes limits

/-- Everything that is sent for a picture, in order. -/
def script (limits : MediaLimits) (x : Entry) : List SendItem :=
  .announcement x.progress :: match x.mode with
    | .datagrams => (List.range x.fragments).map fun i => .fragment (pieceOf x.descriptor x.bytes i)
    | .recovery => (List.range (x.chunks limits)).map fun k =>
        .chunk (chunkAt limits ⟨x.descriptor,x.bytes⟩ k)

/-- What admission establishes. -/
structure Sound (limits : MediaLimits) (x : Entry) : Prop where
  valid : x.descriptor.Valid limits
  length : x.bytes.length = x.descriptor.totalBytes

end Entry

def CachedPicture.entry (p : CachedPicture) : Entry := ⟨p.progress,p.bytes,p.mode⟩

@[simp] theorem entry_descriptor (p : CachedPicture) : p.entry.descriptor = p.descriptor := rfl

@[simp] theorem entry_mode (p : CachedPicture) : p.entry.mode = p.mode := rfl

/-- How many records of a picture have been prepared. -/
inductive Issues (limits : MediaLimits) (p : CachedPicture) : ℕ → Prop
  | unannounced (hnew : p.announced = false) (hcursor : p.nextOriginal = 0) : Issues limits p 0
  | fragments {k} (hannounced : p.announced = true) (hmode : p.mode = .datagrams)
      (hcursor : p.nextOriginal = k) (hinside : k ≤ p.entry.fragments) : Issues limits p (k+1)
  | chunks {k} (hannounced : p.announced = true) (hmode : p.mode = .recovery)
      (hcursor : p.nextOriginal = min p.descriptor.totalBytes (k*chunkBytes limits))
      (hinside : k ≤ p.entry.chunks limits) : Issues limits p (k+1)

section Script

variable {l : MediaLimits} {p sent : CachedPicture} {k : ℕ}

theorem originals_recovery (hm : p.mode = .recovery) : p.originals = p.descriptor.totalBytes := by
  simp [CachedPicture.originals,hm]

theorem originals_datagrams (hs : p.entry.Sound l) (hm : p.mode = .datagrams) :
    p.originals = p.entry.fragments := by
  have hc : p.descriptor.fragmentCount = .ok p.entry.fragments := fragmentCount_valid hs.valid
  simp [CachedPicture.originals,hm,hc]

theorem incomplete_iff : p.originalComplete = false ↔ p.nextOriginal < p.originals := by
  simp [CachedPicture.originalComplete]

theorem originals_pos (hs : p.entry.Sound l) : 0 < p.originals := by
  have ht : 0 < p.descriptor.totalBytes := hs.valid.total_pos
  cases hm : p.mode with
  | recovery =>
    rw [originals_recovery hm]
    exact ht
  | datagrams =>
    rw [originals_datagrams hs hm]
    refine (start_lt_iff hs.valid).mpr ?_
    simpa using ht

/-- Whatever a picture still owes, an original is part of it. -/
theorem incomplete_of_owes (hs : p.entry.Sound l) (hi : Issues l p k)
    (howes : p.owes) : p.originalComplete = false := by
  rcases howes with hnew | hinc
  · have hc : p.nextOriginal = 0 := by
      cases hi with
      | unannounced _ hc => exact hc
      | fragments ha _ _ _ | chunks ha _ _ _ => simp [hnew] at ha
    rw [incomplete_iff,hc]
    exact originals_pos hs
  · exact hinc

theorem chunks_lt_iff {x : Entry} : k < x.chunks l ↔ k*chunkBytes l < x.descriptor.totalBytes := by
  rw [Entry.chunks,← Finset.mem_range]
  exact mem_blocks (chunkBytes_pos l)

/-- Preparing a record prepares the next one of the script. -/
theorem original_next {s : SendCache} {room ch pa}
    (hl : s.limits = l) (hs : p.entry.Sound l) (hi : Issues l p k)
    (howes : p.owes) (h : SendCache.OriginalResult s p room ch pa sent) :
    sent.entry = p.entry ∧ Issues l sent (k+1) ∧ (¬sent.owes → k+1 = (p.entry.script l).length) ∧
      ∃ item, (p.entry.script l)[k]? = some item ∧ item.channel = ch ∧
        item.encode s.bindings l room = .ok pa := by
  have hinc := incomplete_iff.mp (incomplete_of_owes hs hi howes)
  subst hl
  cases h with
  | announcement hnew hp =>
    have hpos := originals_pos hs
    cases hi with
    | fragments ha _ _ _ | chunks ha _ _ _ => simp [hnew] at ha
    | unannounced _ hcu =>
      refine ⟨rfl,?_,fun hdone => ?_,_,rfl,rfl,hp⟩
      · have hm : p.mode = .datagrams ∨ p.mode = .recovery := by cases p.mode <;> simp
        rcases hm with hm | hm
        · exact .fragments rfl hm hcu (Nat.zero_le _)
        · exact .chunks rfl hm (by simp [hcu]) (Nat.zero_le _)
      · -- A picture that was just announced owes all its originals.
        refine absurd (.inr ?_) hdone
        rw [incomplete_iff]
        change p.nextOriginal < p.originals
        omega
  | @fragment f _ ha hm hf hp =>
    obtain ⟨_,rfl⟩ := fragment_eq_pieceOf hs.valid hs.length hf
    rw [originals_datagrams hs hm] at hinc
    cases hi with
    | unannounced hnew _ => simp [ha] at hnew
    | chunks _ hr _ _ => simp [hm] at hr
    | fragments _ _ hcu _ =>
      subst hcu
      have hscript : p.entry.script s.limits = .announcement p.progress ::
          (List.range p.entry.fragments).map
              fun i => .fragment (pieceOf p.descriptor p.bytes i) := by
        simp only [Entry.script,entry_mode,hm]
        rfl
      refine ⟨rfl,.fragments ha hm rfl hinc,fun hdone => ?_,
        .fragment (pieceOf p.descriptor p.bytes p.nextOriginal),?_,rfl,hp⟩
      · have hco : p.entry.fragments ≤ p.nextOriginal+1 := by
          by_contra hlt
          refine hdone (.inr (incomplete_iff.mpr ?_))
          rw [originals_datagrams (p := {p with nextOriginal := p.nextOriginal+1}) hs hm]
          exact not_le.mp hlt
        simp only [hscript,length_cons,length_map,length_range]
        omega
      · simp [hscript,hinc]
  | chunk ha hm hp =>
    rw [originals_recovery hm] at hinc
    cases hi with
    | unannounced hnew _ => simp [ha] at hnew
    | fragments _ hd _ _ => simp [hm] at hd
    | @chunks j _ _ hcu _ =>
      have hst : p.nextOriginal = j*chunkBytes s.limits := by omega
      have hj : j < p.entry.chunks s.limits := chunks_lt_iff.mpr (by rw [← hst]; exact hinc)
      have hlen : p.bytes.length = p.descriptor.totalBytes := hs.length
      have hscript : p.entry.script s.limits = .announcement p.progress ::
          (List.range (p.entry.chunks s.limits)).map fun k =>
            .chunk (chunkAt s.limits ⟨p.descriptor,p.bytes⟩ k) := by
        simp only [Entry.script,entry_mode,hm]
        rfl
      have hc : p.chunk s.limits = chunkAt s.limits ⟨p.descriptor,p.bytes⟩ j := by
        simp only [CachedPicture.chunk,CachedPicture.chunkLength,chunkAt,block,blockLength,
          chunkBytes,hst]
      have hn : p.nextOriginal + p.chunkLength s.limits =
          min p.descriptor.totalBytes ((j+1)*chunkBytes s.limits) := by
        have hmul : (j+1)*chunkBytes s.limits =
          j*chunkBytes s.limits + chunkBytes s.limits := by ring
        rw [CachedPicture.chunkLength,hlen,hmul,hst]
        change _ + min (chunkBytes s.limits) _ = _
        omega
      refine ⟨rfl,.chunks ha hm hn hj,fun hdone => ?_,.chunk (p.chunk s.limits),?_,rfl,hp⟩
      · have hco : p.entry.chunks s.limits ≤ j+1 := by
          by_contra hlt
          refine hdone (.inr (incomplete_iff.mpr ?_))
          have ho := originals_recovery
            (p := {p with nextOriginal := p.nextOriginal + p.chunkLength s.limits}) hm
          rw [ho]
          change p.nextOriginal + p.chunkLength s.limits < p.descriptor.totalBytes
          have hmore := chunks_lt_iff.mp (not_le.mp hlt)
          rw [entry_descriptor] at hmore
          omega
        simp only [hscript,length_cons,length_map,length_range]
        omega
      · simp [hscript,hj,hc]

end Script

/-! The cache behind the records. -/

/-- Frames increase, and a dependent picture references the one accepted before it. -/
def Linked (last : Option ℕ) : List Entry → Prop
  | [] => True
  | x::xs => (∀ q, last = some q → q < x.descriptor.frame) ∧
      (x.descriptor.reference = none ∨ x.descriptor.reference = last) ∧
      Linked (some x.descriptor.frame) xs

/-- The newest frame of a list, or the one before it. -/
def newest (last : Option ℕ) (xs : List Entry) : Option ℕ :=
  xs.foldl (fun _ x => some x.descriptor.frame) last

@[simp] theorem newest_snoc (last : Option ℕ) (xs : List Entry) (x : Entry) :
    newest last (xs ++ [x]) = some x.descriptor.frame := by
  simp [newest]

theorem linked_snoc {last xs} {x : Entry} (h : Linked last xs)
    (hl : ∀ q, newest last xs = some q → q < x.descriptor.frame)
    (hr : x.descriptor.reference = none ∨ x.descriptor.reference = newest last xs) :
    Linked last (xs ++ [x]) := by
  induction xs generalizing last with
  | nil => exact ⟨hl,hr,trivial⟩
  | cons y ys ih => exact ⟨h.1,h.2.1,ih h.2.2 hl hr⟩

theorem linked_lt {last xs} (h : Linked last xs) :
    (∀ q x, last = some q → x ∈ xs → q < x.descriptor.frame) ∧
      xs.Pairwise (·.descriptor.frame < ·.descriptor.frame) := by
  induction xs generalizing last with
  | nil => simp
  | cons y ys ih =>
    obtain ⟨hf,_,hr⟩ := h
    obtain ⟨ha,hp⟩ := ih hr
    refine ⟨?_,pairwise_cons.mpr ⟨fun x hx => ha _ x rfl hx,hp⟩⟩
    intro q x hq hx
    rcases mem_cons.mp hx with rfl | hx
    · exact hf q hq
    · exact (hf q hq).trans (ha _ x rfl hx)

/-- The accepted pictures that are not done, and how much of the first one has been sent. -/
inductive Backlog (limits : MediaLimits) (c : SendCache) : List Entry → List SendItem → Prop
  | nil : Backlog limits c [] []
  | cons {later i p k}
      (hp : c.pictures i = some p) (howes : p.owes) (hissues : Issues limits p k)
      (hlater : ∀ y ∈ later, ∃ j q, c.pictures j = some q ∧ q.entry = y ∧ Issues limits q 0) :
      Backlog limits c (p.entry::later) ((p.entry.script limits).take k)

/-- A live cache has sent the scripts of some accepted pictures and part of the next one. -/
structure Streaming (limits : MediaLimits) (accepted : List Entry) (sent : List SendItem)
    (c : SendCache) : Prop where
  cached : ∀ i p, c.pictures i = some p → p.entry ∈ accepted ∧ ∃ k, Issues limits p k
  distinct : Keyed (·.descriptor.frame) c.pictures
  position : ∃ done todo part, accepted = done ++ todo ∧ Backlog limits c todo part ∧
    sent = done.flatMap (Entry.script limits) ++ part ∧
    ∀ i p, c.pictures i = some p → p.owes → p.entry ∈ todo

section Streaming

variable {l : MediaLimits} {accepted : List Entry} {sent : List SendItem} {c s t : SendCache}
  {now : ℕ}

theorem Backlog.part_initial {todo part}
    (h : Backlog l c todo part) : part <+: todo.flatMap (Entry.script l) := by
  cases h with
  | nil => exact nil_prefix
  | cons _ _ _ _ =>
    rw [flatMap_cons]
    exact List.IsPrefix.trans ( take_prefix _ _) (prefix_append _ _)

theorem Streaming.sent_initial (h : Streaming l accepted sent c) :
    sent <+: accepted.flatMap (Entry.script l) := by
  obtain ⟨done,_,_,rfl,hb,rfl,_⟩ := h.position
  rw [flatMap_append]
  exact (prefix_append_right_inj _).mpr hb.part_initial

/-- The pictures of two tables agree on what is sent for them. -/
def Carried (p q : CachedPicture) : Prop :=
  q.entry = p.entry ∧ q.announced = p.announced ∧ q.nextOriginal = p.nextOriginal

variable {p q : CachedPicture}

theorem Carried.issues (h : Carried p q) {k} (hi : Issues l p k) : Issues l q k := by
  obtain ⟨he,ha,hc⟩ := h
  have hmo : q.mode = p.mode := congrArg Entry.mode he
  have hd : q.descriptor = p.descriptor := congrArg Entry.descriptor he
  cases hi with
  | unannounced hnew hz => exact .unannounced (ha.trans hnew) (hc.trans hz)
  | fragments hnew hm hk hins =>
    refine .fragments (ha.trans hnew) (hmo.trans hm) (hc.trans hk) ?_
    rwa [he]
  | chunks hnew hm hk hins =>
    refine .chunks (ha.trans hnew) (hmo.trans hm) ?_ ?_
    · rw [hc,hd,hk]
    · rwa [he]

theorem Carried.owes (h : Carried p q) : q.owes ↔ p.owes := by
  obtain ⟨he,ha,hc⟩ := h
  have hm : q.mode = p.mode := congrArg Entry.mode he
  have hd : q.descriptor = p.descriptor := congrArg Entry.descriptor he
  have ho : q.originals = p.originals := by
    simp only [CachedPicture.originals,hm,hd]
  simp only [CachedPicture.owes,incomplete_iff,ho,ha,hc]

/-- A change that drops only pictures which owe nothing. -/
theorem Streaming.carry (h : Streaming l accepted sent c)
    (hold : ∀ i q, t.pictures i = some q → ∃ p, c.pictures i = some p ∧ Carried p q)
    (hk : ∀ i p, c.pictures i = some p → p.owes → ∃ q, t.pictures i = some q ∧ Carried p q) :
    Streaming l accepted sent t := by
  refine ⟨?_,?_,?_⟩
  · intro i q hq
    obtain ⟨p,hp,hc⟩ := hold i q hq
    obtain ⟨hm,k,hi⟩ := h.cached i p hp
    rw [hc.1]
    exact ⟨hm,k,hc.issues hi⟩
  · refine h.distinct.revise fun i q hq => ?_
    obtain ⟨p,hp,hc⟩ := hold i q hq
    exact ⟨p,hp,congrArg (·.descriptor.frame) hc.1⟩
  · obtain ⟨done,todo,part,ha,hb,hs,ho⟩ := h.position
    refine ⟨done,todo,part,ha,?_,hs,fun i q hq howes => ?_⟩
    · cases hb with
      | nil => exact .nil
      | @cons _ i p k hp howes hi hl =>
        obtain ⟨q,hq,hc⟩ := hk i p hp howes
        rw [← hc.1]
        refine .cons hq (hc.owes.mpr howes) (hc.issues hi) fun y hy => ?_
        obtain ⟨j,u,hu,he,hi⟩ := hl y hy
        have howes : u.owes := by
          cases hi with
          | unannounced hnew _ => exact .inl hnew
        obtain ⟨v,hv,hc⟩ := hk j u hu howes
        exact ⟨j,v,hv,hc.1.trans he,hc.issues hi⟩
    · obtain ⟨p,hp,hc⟩ := hold i q hq
      rw [hc.1]
      exact ho i p hp (hc.owes.mp howes)

/-- Time drops only pictures that owe nothing, or ends the generation. -/
theorem Streaming.lapses (h : Streaming l accepted sent c)
    (hsound : ∀ x ∈ accepted, x.Sound l) (hlapses : Lapses now c t) :
    t.dead ∨ Streaming l accepted sent t := by
  refine hlapses.invariant (I := fun s => s.dead ∨ Streaming l accepted sent s) ?_ (.inr h)
  rintro s t hl (hd | hs)
  · exact .inl (hl.fixed.dead hd)
  cases hl with
  | sampled _ => exact .inr (hs.carry (fun _ q hq => ⟨q,hq,rfl,rfl,rfl⟩)
    fun _ p hp _ => ⟨p,hp,rfl,rfl,rfl⟩)
  | closed => exact .inl (.inl rfl)
  | failed _ _ => exact .inl (.inr rfl)
  | expired _ _ hint =>
    refine .inr (hs.carry (fun i q hq => ⟨q,(discard_eq_some.mp hq).1,rfl,rfl,rfl⟩)
      fun i p hp howes => ?_)
    refine ⟨p,discard_eq_some.mpr ⟨hp,?_⟩,rfl,rfl,rfl⟩
    obtain ⟨hm,k,hi⟩ := hs.cached i p hp
    have hinc := incomplete_of_owes (hsound _ hm) hi howes
    by_contra hlate
    have hdone := hint i p hp (by simpa using hlate)
    simp [hinc] at hdone

variable {i : Fin cacheSlots}

/-- A picture's repair work is not part of what it owes. -/
theorem Streaming.put (h : Streaming l accepted sent c) (hp : c.pictures i = some p)
    (hc : Carried p q) : Streaming l accepted sent (c.put i q) := by
  refine h.carry (fun j u hu => ?_) fun j u hu _ => ?_
  · rcases store_eq_some.mp hu with ⟨rfl,rfl⟩ | ⟨_,hu⟩
    · exact ⟨p,hp,hc⟩
    · exact ⟨u,hu,rfl,rfl,rfl⟩
  · by_cases hj : j = i
    · subst hj
      rw [hp] at hu
      cases hu
      exact ⟨q,store_apply _ _ _,hc⟩
    · exact ⟨u,store_eq_some.mpr (.inr ⟨hj,hu⟩),rfl,rfl,rfl⟩

/-- A new picture waits behind the others. -/
theorem Streaming.inserted {used}
    (h : Streaming l accepted sent s) (hla : s.lastInserted = newest none accepted)
    (hlk : Linked none accepted) (had : SendCache.Admissible s p i)
    (hnew : p.announced = false) (hc : p.nextOriginal = 0) :
    Streaming l (accepted ++ [p.entry]) sent (s.inserted i p used) := by
  have hs : ∀ j q, (s.inserted i p used).pictures j = some q →
      (j = i ∧ p = q) ∨ (j ≠ i ∧ s.pictures j = some q) := fun j q hq => store_eq_some.mp hq
  have hk : ∀ j q, s.pictures j = some q → (s.inserted i p used).pictures j = some q := by
    intro j q hq
    refine store_eq_some.mpr (.inr ⟨?_,hq⟩)
    rintro rfl
    rw [had.vacant] at hq
    cases hq
  have hi : Issues l p 0 := .unannounced hnew hc
  -- Its frame is later than every accepted one.
  have hl : ∀ x ∈ accepted, x.descriptor.frame < p.descriptor.frame := by
    intro x hx
    have hlk := linked_snoc (x := p.entry) hlk
      (fun q hq => had.later q (hla.trans hq)) (by rw [← hla]; exact had.reference)
    have hp := (linked_lt hlk).2
    exact (pairwise_append.mp hp).2.2 x hx _ (mem_singleton_self _)
  refine ⟨?_,?_,?_⟩
  · intro j q hq
    rcases hs j q hq with ⟨_,rfl⟩ | ⟨_,hq⟩
    · exact ⟨mem_concat_self,0,hi⟩
    · exact ⟨mem_append_left _ (h.cached j q hq).1,(h.cached j q hq).2⟩
  · exact keyed_store h.distinct fun j q _ hq => (hl _ (h.cached j q hq).1).ne
  · obtain ⟨done,todo,_,ha,hb,hse,ho⟩ := h.position
    have hsl : (s.inserted i p used).pictures i = some p := store_apply _ _ _
    have howes : ∀ j q, (s.inserted i p used).pictures j = some q → q.owes →
        q.entry ∈ todo ++ [p.entry] := by
      intro j q hq howes
      rcases hs j q hq with ⟨_,rfl⟩ | ⟨_,hq⟩
      · exact mem_concat_self
      · exact mem_append_left _ (ho j q hq howes)
    cases hb with
    | nil =>
      refine ⟨done,[p.entry],[],by simp [ha],?_,hse,by simpa using howes⟩
      exact .cons hsl (.inl hnew) hi nofun
    | @cons later j q k hq hqo hqis hlater =>
      refine ⟨done,q.entry::(later ++ [p.entry]),_,by simp [ha],?_,hse,howes⟩
      refine .cons (hk j q hq) hqo hqis (forall_mem_snoc.mpr ⟨fun y hy => ?_,i,p,hsl,rfl,hi⟩)
      obtain ⟨m,u,hu,he,hi⟩ := hlater y hy
      exact ⟨m,u,hk m u hu,he,hi⟩

/-- The pending picture is the first of the backlog. -/
theorem Streaming.pending_first (h : Streaming l accepted sent s) (hlk : Linked none accepted)
    (hpd : s.pending = some (i,p)) : ∃ done later k, accepted = done ++ p.entry::later ∧
      Issues l p k ∧ sent = done.flatMap (Entry.script l) ++ (p.entry.script l).take k ∧
      (∀ y ∈ later, ∃ j q, s.pictures j = some q ∧ q.entry = y ∧ Issues l q 0) ∧
      ∀ j q, s.pictures j = some q → q.owes → q.entry ∈ p.entry::later := by
  obtain ⟨hp,howes,hl⟩ := SendCache.pending_some hpd
  obtain ⟨done,_,_,ha,hb,hse,ho⟩ := h.position
  have hm := ho i p hp howes
  cases hb with
  | nil => cases hm
  | @cons later j q k hq hqo hqis hlater =>
    have hpairs : (q.entry::later).Pairwise (·.descriptor.frame < ·.descriptor.frame) := by
      have hall := (linked_lt hlk).2
      rw [ha] at hall
      exact (pairwise_append.mp hall).2.1
    have hf : p.descriptor.frame = q.descriptor.frame := by
      rcases mem_cons.mp hm with hs | hp'
      · exact congrArg (fun x : Entry => x.descriptor.frame) hs
      · exact le_antisymm (hl j q hq hqo) ((pairwise_cons.mp hpairs).1 _ hp').le
    obtain rfl := h.distinct i j p q hp hq hf
    rw [hp] at hq
    cases hq
    exact ⟨done,later,k,ha,hqis,hse,hlater,ho⟩

/-- The next original of a live cache is the next record of what it was given. -/
theorem Streaming.original {next room ch pk} (h : Streaming l accepted sent s) (hlim : s.limits = l)
    (hlk : Linked none accepted) (hsound : ∀ x ∈ accepted, x.Sound l)
    (hpd : s.pending = some (i,p)) (hnx : s.original p room = .ok (ch,pk,next)) :
    ∃ item, Streaming l accepted (sent ++ [item]) (s.put i next) ∧ item.channel = ch ∧
      item.encode s.bindings l room = .ok pk := by
  obtain ⟨hp,howes,_⟩ := SendCache.pending_some hpd
  obtain ⟨done,later,k,ha,hi,hse,hl,howing⟩ := h.pending_first hlk hpd
  have hm : p.entry ∈ accepted := by simp [ha]
  obtain ⟨he,hi',hco,item,hitem,hc,hpk⟩ :=
    original_next hlim (hsound _ hm) hi howes (SendCache.original_result hnx)
  have hs : ∀ j q, (s.put i next).pictures j = some q →
      (j = i ∧ next = q) ∨ (j ≠ i ∧ s.pictures j = some q) := fun j q hq => store_eq_some.mp hq
  have hf : ∀ y ∈ later, p.descriptor.frame < y.descriptor.frame := by
    have hall := (linked_lt hlk).2
    rw [ha] at hall
    exact (pairwise_cons.mp (pairwise_append.mp hall).2.1).1
  have hl : ∀ y ∈ later, ∃ j q, (s.put i next).pictures j = some q ∧ q.entry = y ∧
      Issues l q 0 := by
    intro y hy
    obtain ⟨j,q,hq,rfl,hz⟩ := hl y hy
    refine ⟨j,q,store_eq_some.mpr (.inr ⟨?_,hq⟩),rfl,hz⟩
    rintro rfl
    rw [hp] at hq
    cases hq
    exact absurd (hf _ hy) (lt_irrefl _)
  have htake : (p.entry.script l).take k ++ [item] = (p.entry.script l).take (k+1) := by
    rw [take_add_one,hitem]
    rfl
  refine ⟨item,⟨?_,?_,?_⟩,hc,hpk⟩
  · intro j q hq
    rcases hs j q hq with ⟨_,rfl⟩ | ⟨_,hq⟩
    · rw [he]
      exact ⟨hm,_,hi'⟩
    · exact h.cached j q hq
  · refine keyed_store h.distinct fun j q hj hq hfr => hj (h.distinct j i q p hq hp ?_)
    exact hfr.trans (congrArg (·.descriptor.frame) he)
  · by_cases hn : next.owes
    · refine ⟨done,next.entry::later,_,by rw [he,ha],
        .cons (store_apply _ _ _) hn hi' hl,?_,?_⟩
      · rw [he,hse,append_assoc,htake]
      · intro j q hq ho
        rcases hs j q hq with ⟨_,rfl⟩ | ⟨_,hq⟩
        · exact mem_cons_self
        · rw [he]
          exact howing j q hq ho
    · -- The picture is done, and the next one of the backlog has not been announced.
      have hfull : (p.entry.script l).take (k+1) = p.entry.script l :=
        take_of_length_le (hco hn).ge
      have howing' : ∀ j q, (s.put i next).pictures j = some q → q.owes → q.entry ∈ later := by
        intro j q hq ho
        rcases hs j q hq with ⟨_,rfl⟩ | ⟨hj,hq⟩
        · exact absurd ho hn
        · rcases mem_cons.mp (howing j q hq ho) with hsm | hm
          · have hfr : q.descriptor.frame = p.descriptor.frame :=
              congrArg (fun x : Entry => x.descriptor.frame) hsm
            exact absurd (h.distinct j i q p hq hp hfr) hj
          · exact hm
      refine ⟨done ++ [p.entry],later,[],by simp [ha],?_,?_,howing'⟩
      · cases later with
        | nil => exact .nil
        | cons y ys =>
          obtain ⟨j,q,hq,rfl,hz⟩ := hl y mem_cons_self
          have ho : q.owes := by
            cases hz with
            | unannounced hqnew _ => exact .inl hqnew
          exact .cons hq ho hz fun y hy => hl y (mem_cons_of_mem _ hy)
      · simp [hse,append_assoc,htake,hfull]

end Streaming

end FrankenRemote.Delivery
