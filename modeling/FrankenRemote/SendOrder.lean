import FrankenRemote.SendEmission

/-! What a whole run of one sender accepts and prepares, generation by generation. -/
namespace FrankenRemote.Delivery

open Wire Bytes Procedure SlotTable Tiling Transition SendEvent List

/-- The picture that a call accepted in this generation. -/
def SendEvent.accepts (e : SendEvent) (g : MediaEpoch) : Option Entry :=
  match e.act with
  | .accept x => if e.before.epoch = g then some x else none
  | _ => none

/-- The original that a call prepared in this generation, and the bindings it is for. -/
def SendEvent.originates (e : SendEvent) (g : MediaEpoch) : Option (MediaBindings × PacketOffer) :=
  match e.act with
  | .offer o => if o.purpose = .original ∧ e.before.epoch = g then some (e.before.bindings,
    o) else none
  | _ => none

def acceptedIn (past : List SendEvent) (g : MediaEpoch) : List Entry := past.filterMap (·.accepts g)

def originalsIn (past : List SendEvent) (g : MediaEpoch) : List (MediaBindings × PacketOffer) :=
  past.filterMap (·.originates g)

/-- The offer is this record, under those bindings. -/
def Sends (limits : MediaLimits) (x : MediaBindings × PacketOffer) (item : SendItem) : Prop :=
  x.2.channel = item.channel ∧ ∃ room, item.encode x.1 limits room = .ok x.2.packet

@[simp] theorem acceptedIn_snoc (past : List SendEvent) (e : SendEvent) (g : MediaEpoch) :
    acceptedIn (past ++ [e]) g = acceptedIn past g ++ (e.accepts g).toList := by
  cases h : e.accepts g <;> simp [acceptedIn,h]

@[simp] theorem originalsIn_snoc (past : List SendEvent) (e : SendEvent) (g : MediaEpoch) :
    originalsIn (past ++ [e]) g = originalsIn past g ++ (e.originates g).toList := by
  cases h : e.originates g <;> simp [originalsIn,h]

/-- One generation's originals are a first part of the records of its accepted pictures; while
the cache lives, it holds whatever is still missing. -/
def Conveyed (limits : MediaLimits) (past : List SendEvent) (g : MediaEpoch) (c : SendCache) :
    Prop :=
  ∃ sent, List.Forall₂ (Sends limits) (originalsIn past g) sent ∧
    sent <+: (acceptedIn past g).flatMap (Entry.script limits) ∧
    (g = c.epoch → ¬c.dead → Streaming limits (acceptedIn past g) sent c)

structure SendHistory (limits : MediaLimits) (past : List SendEvent) (c : SendCache) : Prop where
  sameLimits : c.limits = limits
  since : ∀ e ∈ past, Since e.before.epoch c.epoch
  linked : ∀ g, Linked none (acceptedIn past g)
  sound : ∀ g, ∀ x ∈ acceptedIn past g, x.Sound limits
  last : c.lastInserted = newest none (acceptedIn past c.epoch)
  conveyed : ∀ g, Conveyed limits past g c

section Step

variable {l : MediaLimits} {past : List SendEvent} {e : SendEvent} {c s t : SendCache} {now : ℕ}

/-- Before a generation begins, nothing has happened in it. -/
theorem acceptedIn_unborn {g} (hs : ∀ e ∈ past, e.before.epoch ≠ g) : acceptedIn past g = [] := by
  refine filterMap_eq_nil_iff.mpr fun e he => ?_
  unfold accepts
  split
  · rw [if_neg (hs e he)]
  · rfl

theorem since_snoc (h : ∀ e' ∈ past, Since e'.before.epoch e.before.epoch)
    (he : t.epoch = e.before.epoch) : ∀ e' ∈ past ++ [e], Since e'.before.epoch t.epoch := by
  rw [he]
  exact forall_mem_snoc.mpr ⟨h,.inl rfl⟩

theorem SendHistory.silent (h : SendHistory l past e.before)
    (hq : ∀ g, e.accepts g = none ∧ e.originates g = none)
    (hl : t.limits = l) (he : t.epoch = e.before.epoch)
    (hla : t.lastInserted = e.before.lastInserted)
    (hs : ∀ sent, (¬e.before.dead → Streaming l (acceptedIn past t.epoch) sent e.before) →
      ¬t.dead → Streaming l (acceptedIn past t.epoch) sent t) : SendHistory l (past ++ [e]) t := by
  have ha : ∀ g, acceptedIn (past ++ [e]) g = acceptedIn past g := by
    intro g
    simp [(hq g).1]
  have horig : ∀ g, originalsIn (past ++ [e]) g = originalsIn past g := by
    intro g
    simp [(hq g).2]
  refine ⟨hl,since_snoc h.since he,?_,?_,?_,?_⟩
  · simpa only [ha] using h.linked
  · simpa only [ha] using h.sound
  · rw [hla,h.last,ha,he]
  · intro g
    obtain ⟨sent,_,_,hstream⟩ := h.conveyed g
    refine ⟨sent,by rwa [horig],by rwa [ha],fun hg hal => ?_⟩
    subst hg
    rw [ha]
    exact hs sent (fun hb => hstream he hb) hal

/-- The state that a call's time checks leave. -/
structure Opened (limits : MediaLimits) (past : List SendEvent) (s : SendCache)
    (sent : List SendItem) : Prop where
  sameLimits : s.limits = limits
  last : s.lastInserted = newest none (acceptedIn past s.epoch)
  streaming : Streaming limits (acceptedIn past s.epoch) sent s

theorem SendHistory.ready (h : SendHistory l past e.before) (hl : Lapses now e.before s)
    (ha : ¬s.dead) : ∃ sent, List.Forall₂ (Sends l) (originalsIn past s.epoch) sent ∧
      Opened l past s sent := by
  have hf := hl.fixed
  have hb : ¬e.before.dead := fun hd => ha (hf.dead hd)
  obtain ⟨sent,hse,_,hs⟩ := h.conveyed e.before.epoch
  rw [hf.epoch]
  refine ⟨sent,hse,hf.limits.trans h.sameLimits,?_,?_⟩
  · rw [hf.lastInserted,hf.epoch]
    exact h.last
  · rw [hf.epoch]
    exact ((hs rfl hb).lapses (h.sound _) hl).resolve_left ha

theorem SendHistory.kept (h : SendHistory l past e.before) (hl : Lapses now e.before s)
    (hq : ∀ g, e.accepts g = none ∧ e.originates g = none)
    (hlim : t.limits = s.limits) (he : t.epoch = s.epoch) (hla : t.lastInserted = s.lastInserted)
    (hd : s.dead → t.dead) (hstream : ∀ sent, Streaming l (acceptedIn past t.epoch) sent s →
      Streaming l (acceptedIn past t.epoch) sent t) : SendHistory l (past ++ [e]) t := by
  have hf := hl.fixed
  refine h.silent hq ?_ (he.trans hf.epoch) (hla.trans hf.lastInserted) ?_
  · rw [hlim,hf.limits,h.sameLimits]
  · intro sent hb ha
    have hs : ¬s.dead := fun hs => ha (hd hs)
    have hst := hb fun hd => hs (hf.dead hd)
    exact hstream sent ((hst.lapses (h.sound _) hl).resolve_left hs)

theorem SendHistory.ended (h : SendHistory l past e.before)
    (hq : ∀ g, e.accepts g = none ∧ e.originates g = none) (hl : t.limits = e.before.limits)
    (he : t.epoch = e.before.epoch) (hla : t.lastInserted = e.before.lastInserted)
    (hd : t.dead) : SendHistory l (past ++ [e]) t :=
  h.silent hq (hl.trans h.sameLimits) he hla fun _ _ ha => absurd hd ha

theorem SendHistory.inserted {i p}
    (h : SendHistory l past e.before) (hl : Lapses now e.before s) (hr : Ready now s)
    (had : SendCache.Admissible s p i) (hnew : p.announced = false)
    (hc : p.nextOriginal = 0) (hact : e.act = .accept p.entry) {used} :
    SendHistory l (past ++ [e]) (s.inserted i p used) := by
  have hf := hl.fixed
  obtain ⟨sent,hse,ho⟩ := h.ready hl hr.alive
  have ha : ∀ g, e.accepts g = if s.epoch = g then some p.entry else none := by
    intro g
    simp [accepts,hact,hf.epoch]
  have horig : ∀ g, originalsIn (past ++ [e]) g = originalsIn past g := by
    intro g
    simp [originates,hact]
  have hhere : acceptedIn (past ++ [e]) s.epoch = acceptedIn past s.epoch ++ [p.entry] := by
    simp [ha]
  have helse : ∀ g, s.epoch ≠ g → acceptedIn (past ++ [e]) g = acceptedIn past g := by
    intro g hg
    simp [ha,hg]
  have hlk := h.linked s.epoch
  refine ⟨ho.sameLimits,since_snoc h.since hf.epoch,?_,?_,?_,?_⟩
  · intro g
    by_cases hg : s.epoch = g
    · subst hg
      rw [hhere]
      refine linked_snoc hlk (fun q hq => had.later q (ho.last.trans hq)) ?_
      rw [← ho.last]
      exact had.reference
    · rw [helse g hg]
      exact h.linked g
  · intro g x hx
    by_cases hg : s.epoch = g
    · subst hg
      rw [hhere] at hx
      exact forall_mem_snoc.mpr ⟨h.sound _,ho.sameLimits ▸ had.valid,had.length⟩ x hx
    · rw [helse g hg] at hx
      exact h.sound g x hx
  · change some p.descriptor.frame = newest none (acceptedIn (past ++ [e]) s.epoch)
    rw [hhere,newest_snoc]
    rfl
  · intro g
    by_cases hg : s.epoch = g
    · subst hg
      have hs : Streaming l (acceptedIn past s.epoch ++ [p.entry]) sent (s.inserted i p used) :=
        ho.streaming.inserted ho.last hlk had hnew hc
      rw [← hhere] at hs
      exact ⟨sent,by rwa [horig],hs.sent_initial,fun _ _ => hs⟩
    · obtain ⟨sent,hse,_,_⟩ := h.conveyed g
      refine ⟨sent,by rwa [horig],by rwa [helse g hg],fun hg' => absurd hg'.symm hg⟩

theorem SendHistory.original {i p next ch pk room offer} (h : SendHistory l past e.before)
    (hl : Lapses now e.before s) (hr : Ready now s) (hpd : s.pending = some (i,p))
    (hn : s.original p room = .ok (ch,pk,next)) (hact : e.act = .offer offer)
    (hc : offer.channel = ch) (hpk : offer.packet = pk)
    (hp : offer.purpose = .original) : SendHistory l (past ++ [e]) (s.put i next) := by
  have hf := hl.fixed
  obtain ⟨sent,hse,ho⟩ := h.ready hl hr.alive
  have ha : ∀ g, acceptedIn (past ++ [e]) g = acceptedIn past g := by
    intro g
    simp [accepts,hact]
  have horig : ∀ g, e.originates g = if s.epoch = g then some (s.bindings,offer) else none := by
    intro g
    simp [originates,hact,hp,hf.epoch,hf.bindings]
  obtain ⟨item,hs,hitem,he⟩ := ho.streaming.original ho.sameLimits
    (h.linked _) (h.sound _) hpd hn
  refine ⟨ho.sameLimits,since_snoc h.since hf.epoch,?_,?_,?_,?_⟩
  · simpa only [ha] using h.linked
  · simpa only [ha] using h.sound
  · rw [ha]
    exact ho.last
  · intro g
    by_cases hg : s.epoch = g
    · subst hg
      refine ⟨sent ++ [item],?_,?_,fun _ _ => ?_⟩
      · rw [originalsIn_snoc,horig,if_pos rfl]
        refine rel_append hse (.cons ⟨hc.trans hitem.symm,room,?_⟩ .nil)
        rw [hpk]
        exact he
      · rw [ha]
        exact hs.sent_initial
      · rw [ha]
        exact hs
    · obtain ⟨sent,hse,_,_⟩ := h.conveyed g
      refine ⟨sent,?_,by rwa [ha],fun hg' => absurd hg'.symm hg⟩
      rw [originalsIn_snoc,horig,if_neg hg,Option.toList_none,append_nil]
      exact hse

/-- A newer generation has no past. -/
theorem SendHistory.unborn {ep : MediaEpoch} (h : SendHistory l past c)
    (hn : ep.replaces c.epoch) : ∀ e ∈ past, e.before.epoch ≠ ep := by
  intro e he heq
  have hr := (h.since e he).replaced hn
  rw [heq] at hr
  exact MediaEpoch.replaces_irrefl _ hr

theorem streaming_vacant (h : c.pictures = vacant) : Streaming l [] [] c := by
  refine ⟨?_,?_,[],[],[],rfl,.nil,rfl,?_⟩
  · intro i p hp
    simp [h] at hp
  · intro i j p q hp
    simp [h] at hp
  · intro i p hp
    simp [h] at hp

/-- A new generation starts with nothing accepted. -/
theorem SendHistory.renewed {ep} (h : SendHistory l past e.before)
    (hact : e.act = .renew) (hl : t.limits = l) (hep : t.epoch = ep)
    (hn : ep.replaces e.before.epoch) (hla : t.lastInserted = none)
    (hem : t.pictures = vacant) : SendHistory l (past ++ [e]) t := by
  subst hep
  have ha : ∀ g, acceptedIn (past ++ [e]) g = acceptedIn past g := by
    intro g
    simp [accepts,hact]
  have ho : ∀ g, originalsIn (past ++ [e]) g = originalsIn past g := by
    intro g
    simp [originates,hact]
  have hnot : acceptedIn past t.epoch = [] := acceptedIn_unborn (h.unborn hn)
  refine ⟨hl,?_,?_,?_,?_,?_⟩
  · exact forall_mem_snoc.mpr ⟨fun e' he' => .inr ((h.since e' he').replaced hn),.inr hn⟩
  · simpa only [ha] using h.linked
  · simpa only [ha] using h.sound
  · rw [ha,hnot,hla]
    rfl
  · intro g
    obtain ⟨sent,_,hi,_⟩ := h.conveyed g
    refine ⟨sent,by rwa [ho],by rwa [ha],fun hg _ => ?_⟩
    subst hg
    rw [ha,hnot]
    rw [hnot,flatMap_nil] at hi
    obtain rfl := prefix_nil.mp hi
    exact streaming_vacant hem

theorem SendHistory.effect (h : SendHistory l past e.before) (he : SendEffect e now t) :
    SendHistory l (past ++ [e]) t := by
  cases he with
  | lapsed hl ha =>
    exact h.kept hl (by simp [accepts,originates,ha]) rfl rfl rfl id fun _ hs => hs
  | inserted hl hr had hnew hc _ _ ha ht =>
    subst ht
    exact h.inserted hl hr had hnew hc ha
  | original hl hr hpd hse ha ht =>
    subst ht
    exact h.original hl hr hpd hse ha rfl rfl rfl
  | observation hl _ ha ht | observed hl _ ha ht =>
    subst ht
    refine h.kept hl (by simp [accepts,originates,ha]) rfl rfl rfl id fun sent hs => ?_
    exact hs.carry (fun _ q hq => ⟨q,hq,rfl,rfl,rfl⟩) fun _ p hp _ => ⟨p,hp,rfl,rfl,rfl⟩
  | @repaired s i p job _ _ _ hl _ hcd _ _ ha ht =>
    subst ht
    refine h.kept hl (by simp [accepts,originates,ha]) rfl rfl rfl id fun sent hs => ?_
    have hput := hs.put (q := {p with repair := job.advance}) hcd.cached ⟨rfl,rfl,rfl⟩
    exact hput.carry (fun _ q hq => ⟨q,hq,rfl,rfl,rfl⟩) fun _ p hp _ => ⟨p,hp,rfl,rfl,rfl⟩
  | queued hl _ _ hp _ ha ht =>
    subst ht
    exact h.kept hl (by simp [accepts,originates,ha]) rfl rfl rfl id
      fun sent hs => hs.put hp ⟨rfl,rfl,rfl⟩
  | awaited hl _ hnd _ _ hch ha ht =>
    subst ht
    have hf := hl.fixed
    rw [hch.frame]
    exact h.ended (by simp [accepts,originates,ha]) hf.limits hf.epoch
      hf.lastInserted (.inr hnd)
  | demanded hl _ _ _ hch ha ht =>
    subst ht
    have hf := hl.fixed
    rw [hch.frame]
    exact h.ended (by simp [accepts,originates,ha]) hf.limits hf.epoch
      hf.lastInserted (.inr rfl)
  | @renewed s u epoch _ hl _ hn _ hch _ ha ht =>
    subst ht
    have hf := hl.fixed
    have hlim : u.limits = s.limits := by
      rcases hch with rfl | hch
      · rfl
      · rw [hch.frame]
    rw [hf.epoch] at hn
    refine h.renewed ha ?_ rfl hn rfl rfl
    exact hlim.trans (hf.limits.trans h.sameLimits)
  | overran hl _ ha ht =>
    subst ht
    have hf := hl.fixed
    exact h.ended (by simp [accepts,originates,ha]) hf.limits hf.epoch
      hf.lastInserted (.inl rfl)

end Step

variable {l : MediaLimits}

theorem history_start {o b ep p c} (h : SendCache.new o l b ep p = .ok c) :
    Accounted c ∧ SendHistory l [] c ∧ c.bindings = b := by
  obtain ⟨_,_,h⟩ := bind_eq_ok.mp h
  cases h
  refine ⟨.of_empty rfl rfl rfl,⟨rfl,by simp,fun _ => trivial,?_,rfl,fun g => ?_⟩,rfl⟩
  · intro g x hx
    cases hx
  · exact ⟨[],.nil, nil_prefix,fun _ _ => streaming_vacant rfl⟩

/-! What is owed is prepared. -/

/-- Bindings that an admission installed. -/
def MediaBindings.Installed (b : MediaBindings) : Prop := ∀ channel, b.forChannel channel ≠ 0

theorem MediaBindings.installed_newer {b old : MediaBindings} (h : b.allNewerThan old = true) :
    b.Installed := by
  simp only [allNewerThan,all_cons,all_nil,Bool.and_true,Bool.and_eq_true,decide_eq_true_eq] at h
  intro ch
  cases ch <;> simp only [forChannel] <;> omega

theorem installed_effect {e : SendEvent} {now t} (h : e.before.bindings.Installed)
    (he : SendEffect e now t) : t.bindings.Installed := by
  cases he.generation with
  | same _ hb _ =>
    rw [hb]
    exact h
  | next _ hb _ => exact MediaBindings.installed_newer hb

/-- With room for a whole record, the next record of an accepted picture can be prepared. -/
theorem original_encodable {s : SendCache} {p : CachedPicture} {k room}
    (hl : s.limits = l) (hins : s.bindings.Installed)
    (hro : l.recordBytes ≤ room) (hs : p.entry.Sound l) (hi : Issues l p k)
    (howes : p.owes) : ∃ r, s.original p room = .ok r := by
  have hinc := incomplete_iff.mp (incomplete_of_owes hs hi howes)
  have hlen : p.bytes.length = p.descriptor.totalBytes := hs.length
  subst hl
  unfold SendCache.original
  split
  · obtain ⟨pk,hp⟩ := encodeProgress_ok (p := p.progress) (hins .mediaConfig) hro
      hs.valid
    rw [hp]
    exact ⟨_,rfl⟩
  split
  · rename_i hm
    rw [originals_datagrams hs hm] at hinc
    have hst := (start_lt_iff hs.valid).mp hinc
    have hf := fragment_ok hs.valid hlen hst
    have hv : (pieceOf p.descriptor p.bytes p.nextOriginal).validate s.limits = .ok () :=
      validate_pieceOf hs.valid hlen ((mem_blocks hs.valid.stride_pos).mpr hst)
    obtain ⟨pk,hp⟩ := encodeFragment_ok (hins .video) hro hv
    rw [hf]
    simp only [bind,Except.bind,hp,Except.mapError]
    exact ⟨_,rfl⟩
  · rename_i hm
    rw [originals_recovery hm] at hinc
    have hb : (p.chunk s.limits).bytes.length = p.chunkLength s.limits :=
      length_slice (by rw [CachedPicture.chunkLength]; omega)
    have hrec := s.limits.record_gt
    have ho : fragmentOverhead = 73 := rfl
    have hr : recoveryOverhead = 52 := rfl
    have ht : (p.chunk s.limits).totalBytes = p.descriptor.totalBytes := rfl
    have hoff : (p.chunk s.limits).offset = p.nextOriginal := rfl
    have hv : (p.chunk s.limits).validate s.limits = .ok () := by
      rw [RecoveryChunk.validate_eq_ok,hb,ht,hoff,CachedPicture.chunkLength,hlen]
      refine ⟨by omega,hs.valid.total_le,by omega⟩
    obtain ⟨pk,hp⟩ := encodeRecovery_ok (hins .recovery) hro hv
      (by rw [hb]; exact min_le_left _ _)
    rw [hp]
    exact ⟨_,rfl⟩

/-- How a call for the next packet answers when these records are still to come: the generation
ends, or the first of them is prepared, or nothing is missing any more. -/
inductive Continues (limits : MediaLimits) : List SendItem → Except SendError (Option PacketOffer) →
    SendCache → Prop
  | ended {rest e t} (hdead : t.dead) :
      Continues limits rest (.error e) t
  | next {item rest offer t}
      (hpurpose : offer.purpose = .original) (hsends : Sends limits (t.bindings,offer) item) :
      Continues limits (item::rest) (.ok (some offer)) t
  | finished {res t}
      (hnone : ∀ offer, res = .ok (some offer) → offer.purpose ≠ .original) :
      Continues limits [] res t

theorem Streaming.finished {a sent s} (h : Streaming l a sent s) (hpd : s.pending = none) :
    sent = a.flatMap (Entry.script l) := by
  obtain ⟨done,_,_,ha,hb,hs,_⟩ := h.position
  cases hb with
  | nil => simp [hs,ha]
  | cons hp howes _ _ => exact absurd howes (SendCache.pending_none hpd hp)

theorem nextPacket_continues {past c sent rest room now} (h : SendHistory l past c)
    (hins : c.bindings.Installed) (hro : l.recordBytes ≤ room)
    (hs : Streaming l (acceptedIn past c.epoch) sent c)
    (hre : (acceptedIn past c.epoch).flatMap (Entry.script l) = sent ++ rest) :
    Ensures (SendCache.nextPacket room now) c (Continues l rest) := by
  have ho : ∀ s, Lapses now c s → Ready now s →
      Streaming l (acceptedIn past c.epoch) sent s := fun s hl hready =>
    (hs.lapses (h.sound _) hl).resolve_left hready.alive
  have hfin : ∀ s, Lapses now c s → Ready now s → s.pending = none → rest = [] := by
    intro s hl hready hpd
    have hse := (ho s hl hready).finished hpd
    rw [hre] at hse
    simpa using hse
  refine SendCache.nextPacket_ensures (fun _ _ _ hd => .ended hd) (fun e t hl hready hlarge => ?_)
    (fun s hl hready hid => ?_) (fun s i p next _ _ hl hready hpd hn => ?_)
      fun s _ _ hl hready hid _ _ => ?_
  · rcases hlarge with ⟨i,p,hpd,her⟩ | hpd
    · -- The room suffices for whatever the pending picture owes.
      obtain ⟨hp,howes,_⟩ := SendCache.pending_some hpd
      obtain ⟨hm,k,hissue⟩ := (ho t hl hready).cached i p hp
      have hlim : t.limits = l := hl.fixed.limits.trans h.sameLimits
      have hb : t.bindings.Installed := by
        rw [hl.fixed.bindings]
        exact hins
      obtain ⟨r,hr⟩ := original_encodable hlim hb hro (h.sound _ _ hm) hissue howes
      rw [hr] at her
      cases her
    · obtain rfl := hfin t hl hready hpd
      exact .finished nofun
  · obtain rfl := hfin s hl hready hid
    exact .finished nofun
  · have hlim : s.limits = l := hl.fixed.limits.trans h.sameLimits
    obtain ⟨_,hs',hc,he⟩ := (ho s hl hready).original hlim (h.linked _)
      (h.sound _) hpd hn
    have hi := hs'.sent_initial
    rw [hre,prefix_append_right_inj] at hi
    obtain ⟨_,rfl⟩ := hi
    exact .next rfl ⟨hc.symm,room,he⟩
  · obtain rfl := hfin s hl hready hid
    refine .finished fun offer hof => ?_
    cases hof
    exact nofun

/-- In every run the counters are the charges of what is cached, within the policy. In every
generation the accepted frames increase along their references, and the originals prepared are a
first part of the accepted pictures' records, each once and in order; while the generation
lives, the next call with enough room prepares the next of them. -/
theorem send_order {owner : ℕ} {l : MediaLimits} {bindings : MediaBindings} {epoch : MediaEpoch}
    {policy : SendPolicy} {c : SendCache} (hinstalled : bindings.Installed)
    (hnew : SendCache.new owner l bindings epoch policy = .ok c) (ops : List SendOp) :
    Accounted (final sendStep c ops) ∧ ∀ g, Linked none (acceptedIn (trace sendStep c ops) g) ∧
      ∃ sent rest, (acceptedIn (trace sendStep c ops) g).flatMap (Entry.script l) = sent ++ rest ∧
        List.Forall₂ (Sends l) (originalsIn (trace sendStep c ops) g) sent ∧
        (g = (final sendStep c ops).epoch → ¬(final sendStep c ops).dead →
          ∀ room now, l.recordBytes ≤ room →
            Ensures (SendCache.nextPacket room now) (final sendStep c ops) (Continues l rest)) := by
  obtain ⟨ha,hh,hb⟩ := history_start hnew
  have hrun := history_invariant sendStep
    (I := fun past t => Accounted t ∧ SendHistory l past t ∧ t.bindings.Installed)
    ⟨ha,hh,by rwa [hb]⟩ (fun past t op h => by
      have he := sendStep_effect t op
      exact ⟨h.1.effect he,h.2.1.effect he,installed_effect h.2.2 he⟩) ops
  obtain ⟨ha,hh,hinstalled⟩ := hrun
  refine ⟨ha,fun g => ⟨hh.linked g,?_⟩⟩
  obtain ⟨sent,hse,⟨rest,hr⟩,hs⟩ := hh.conveyed g
  refine ⟨sent,rest,hr.symm,hse,fun hg hal room now hro => ?_⟩
  subst hg
  exact nextPacket_continues hh hinstalled hro (hs rfl hal) hr.symm

/-- A bootstrap of one chunk and a dependent picture, both sent as far as they go. -/
def sampleStream : List SendOp :=
  [.pushShared 64 ⟨7,.idr,1,0,[1,2,3],3⟩ .recovery 1,.nextPacket 200 2,.nextPacket 200 3,
    .pushShared 64 ⟨8,.predicted 7,1,3,[4,5,6],3⟩ .datagrams 4,.nextPacket 200 5,.nextPacket 200 6,
    .nextPacket 200 7]

theorem send_order_sampleStream : ∃ c,
    SendCache.new 0 sampleConfig.limits sampleConfig.bindings sampleConfig.epoch sampleSendPolicy =
      .ok c ∧ sampleConfig.bindings.Installed ∧
    (originalsIn (trace sendStep c sampleStream) sampleConfig.epoch).length = 5 ∧
    Accounted (final sendStep c sampleStream) ∧
    ∃ sent rest, (acceptedIn (trace sendStep c sampleStream) sampleConfig.epoch).flatMap
        (Entry.script sampleConfig.limits) = sent ++ rest ∧ List.Forall₂ (Sends sampleConfig.limits)
        (originalsIn (trace sendStep c sampleStream) sampleConfig.epoch) sent := by
  have hi : sampleConfig.bindings.Installed := by
    intro channel
    cases channel <;> decide
  obtain ⟨c,hc⟩ := exists_sampleCache
  have hfive : (originalsIn (trace sendStep c sampleStream) sampleConfig.epoch).length = 5 := by
    cases hc
    rfl
  obtain ⟨ha,hg⟩ := send_order hi hc sampleStream
  obtain ⟨_,sent,rest,hr,hs,_⟩ := hg sampleConfig.epoch
  exact ⟨c,hc,hi,hfive,ha,sent,rest,hr,hs⟩

end FrankenRemote.Delivery
