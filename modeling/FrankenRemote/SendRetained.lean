import FrankenRemote.SendEffect

/-! What a sender's calls leave to its peer. A call keeps the cached pictures apart from their
repair work, or drops them for good; beside that it admits one picture or prepares one
record. -/
namespace FrankenRemote.Delivery

open Wire Bytes Procedure SlotTable

/-- One cached picture at two times, apart from its repair work. -/
structure Alike (p q : CachedPicture) : Prop where
  progress : q.progress = p.progress
  bytes : q.bytes = p.bytes
  mode : q.mode = p.mode
  announced : q.announced = p.announced
  nextOriginal : q.nextOriginal = p.nextOriginal
  repair : p.mode = .recovery → q.repair.isSome = true → p.repair.isSome = true

theorem Alike.refl (p : CachedPicture) : Alike p p := ⟨rfl,rfl,rfl,rfl,rfl,fun _ h => h⟩

theorem Alike.trans {p q u} (h : Alike p q) (k : Alike q u) : Alike p u where
  progress := k.progress.trans h.progress
  bytes := k.bytes.trans h.bytes
  mode := k.mode.trans h.mode
  announced := k.announced.trans h.announced
  nextOriginal := k.nextOriginal.trans h.nextOriginal
  repair hm hu := h.repair hm (k.repair (h.mode.trans hm) hu)

theorem Alike.originalComplete {p q} (h : Alike p q) : q.originalComplete = p.originalComplete := by
  have ho : q.originals = p.originals := by
    simp only [CachedPicture.originals,CachedPicture.descriptor,h.progress,h.mode]
  rw [CachedPicture.originalComplete,CachedPicture.originalComplete,ho,h.nextOriginal]

/-- The cache may still announce this source metadata. -/
def SendCache.Reports (c : SendCache) (q : Progress) : Prop :=
  c.lastProgress = some q ∨ ∃ o, c.observation = some o ∧ o.progress = q

/-- Nothing new is cached, and what is still owed to the peer is lost only with the epoch. -/
structure Retained (c t : SendCache) : Prop where
  limits : t.limits = c.limits
  bindings : t.bindings = c.bindings
  lastInserted : t.lastInserted = c.lastInserted
  dead : c.dead → t.dead
  pictures : ∀ i q, t.pictures i = some q → ∃ p, c.pictures i = some p ∧ Alike p q
  owed : t.dead ∨ ∀ i p, c.pictures i = some p → p.originalComplete = false →
    ∃ q, t.pictures i = some q ∧ Alike p q
  reports : ∀ q, t.Reports q → ∃ p, c.Reports p ∧ q.descriptor = p.descriptor ∧
    (q.observedMicros = p.observedMicros ∨ q.observedMicros < 2^64)

namespace Retained

variable {c t : SendCache}

theorem trans {s} (h : Retained c s) (k : Retained s t) : Retained c t where
  limits := k.limits.trans h.limits
  bindings := k.bindings.trans h.bindings
  lastInserted := k.lastInserted.trans h.lastInserted
  dead hd := k.dead (h.dead hd)
  pictures i u hu := by
    obtain ⟨q,hq,hqu⟩ := k.pictures i u hu
    obtain ⟨p,hp,hpq⟩ := h.pictures i q hq
    exact ⟨p,hp,hpq.trans hqu⟩
  owed := by
    rcases k.owed with hd | hk
    · exact .inl hd
    rcases h.owed with hd | hh
    · exact .inl (k.dead hd)
    refine .inr fun i p hp hi => ?_
    obtain ⟨q,hq,hpq⟩ := hh i p hp hi
    obtain ⟨u,hu,hqu⟩ := hk i q hq (hpq.originalComplete.trans hi)
    exact ⟨u,hu,hpq.trans hqu⟩
  reports u hu := by
    obtain ⟨q,hq,hdq,hoq⟩ := k.reports u hu
    obtain ⟨p,hp,hdp,_⟩ := h.reports q hq
    refine ⟨p,hp,hdq.trans hdp,?_⟩
    rcases hoq with hoq | hoq
    · rwa [hoq]
    · exact .inr hoq

theorem refl (c : SendCache) : Retained c c where
  limits := rfl
  bindings := rfl
  lastInserted := rfl
  dead h := h
  pictures _ q hq := ⟨q,hq,.refl q⟩
  owed := .inr fun _ p hp _ => ⟨p,hp,.refl p⟩
  reports q hq := ⟨q,hq,rfl,.inl rfl⟩

theorem of_dead (hl : t.limits = c.limits) (hb : t.bindings = c.bindings)
    (hla : t.lastInserted = c.lastInserted) (hd : t.dead) (hp : t.pictures = vacant)
    (hpg : ∀ q, t.lastProgress = some q → c.lastProgress = some q)
    (hobs : t.observation = none) : Retained c t where
  limits := hl
  bindings := hb
  lastInserted := hla
  dead _ := hd
  pictures i q hq := by
    rw [hp] at hq
    cases hq
  owed := .inl hd
  reports q hq := by
    rcases hq with hq | ⟨o,ho,_⟩
    · exact ⟨q,.inl (hpg q hq),rfl,.inl rfl⟩
    · rw [hobs] at ho
      cases ho

theorem close (c : SendCache) : Retained c c.close :=
  of_dead rfl rfl rfl (.inl rfl) rfl nofun rfl

theorem put {i p q} (hp : c.pictures i = some p) (hq : Alike p q) : Retained c (c.put i q) where
  __ := refl c
  pictures j u hu := by
    rcases store_eq_some.mp hu with ⟨rfl,rfl⟩ | ⟨_,hu⟩
    · exact ⟨p,hp,hq⟩
    · exact ⟨u,hu,.refl u⟩
  owed := .inr fun j u hu _ => by
    by_cases hj : j = i
    · subst hj
      rw [hp] at hu
      cases hu
      exact ⟨q,store_apply _ _ _,hq⟩
    · exact ⟨u,store_eq_some.mpr (.inr ⟨hj,hu⟩),.refl u⟩

end Retained

variable {c : SendCache} {now : ℕ}

theorem Retained.expire
    (hs : ∀ i p, c.pictures i = some p → p.sendBy ≤ now → p.originalComplete = true) :
    Retained c (c.expire now) where
  __ := refl c
  pictures i q hq := ⟨q,(discard_eq_some.mp hq).1,.refl q⟩
  owed := .inr fun i p hp hi => by
    refine ⟨p,discard_eq_some.mpr ⟨hp,?_⟩,.refl p⟩
    by_contra hl
    have hdone := hs i p hp (by simpa using hl)
    rw [hi] at hdone
    cases hdone
  reports q hq := by
    refine ⟨q,?_,rfl,.inl rfl⟩
    rcases hq with hq | ⟨o,ho,hq⟩
    · exact .inl hq
    · exact .inr ⟨o,(Option.filter_eq_some_iff.mp ho).1,hq⟩

theorem Lapse.retained {t} (h : Lapse now c t) : Retained c t := by
  cases h with
  | sampled _ => exact {Retained.refl c with}
  | closed => exact .close c
  | failed _ _ => exact .of_dead rfl rfl rfl (.inr rfl) rfl (fun _ h => h) rfl
  | expired _ _ hi => exact .expire hi

theorem Lapses.retained {t} (h : Lapses now c t) : Retained c t :=
  h.invariant (fun _ _ hl hs => hs.trans hl.retained) (.refl c)

namespace SendCache

variable {c t : SendCache} {now room : ℕ} {res : Except SendError Unit}

/-- Preparation of one record by an alive cache. -/
inductive Emits (s : SendCache) : Channel → List Byte → SendCache → Prop
  | announcement {i p room packet}
      (hp : s.pictures i = some p) (hnew : p.announced = false)
      (hfirst : ∀ j q, s.pictures j = some q → q.owes → p.descriptor.frame ≤ q.descriptor.frame)
      (hpacket : encodeProgress p.progress (s.bindings.forChannel .mediaConfig) s.limits room =
        .ok packet) : Emits s .mediaConfig packet (s.put i {p with announced := true})
  | original {i p f room packet}
      (hp : s.pictures i = some p) (hmode : p.mode = .datagrams)
      (hf : p.fragment p.nextOriginal = .ok f)
      (hpacket : encodeFragment f (s.bindings.forChannel .video) s.limits room = .ok packet) :
      Emits s .video packet (s.put i {p with nextOriginal := p.nextOriginal+1})
  | chunk {i p room packet}
      (hp : s.pictures i = some p) (hannounced : p.announced = true) (hmode : p.mode = .recovery)
      (hrest : p.nextOriginal < p.descriptor.totalBytes)
      (hpacket : encodeRecovery (p.chunk s.limits) (s.bindings.forChannel .recovery) s.limits room =
        .ok packet) :
      Emits s .recovery packet
        (s.put i {p with nextOriginal := p.nextOriginal + p.chunkLength s.limits})
  | observation {o room packet}
      (ho : s.observation = some o) (hidle : ∀ i p, s.pictures i = some p → ¬p.owes)
      (hpacket : encodeProgress o.progress (s.bindings.forChannel .mediaConfig) s.limits room =
        .ok packet) : Emits s .mediaConfig packet {s with observation := none}
  | repair {i p job f room packet spent} (hp : s.pictures i = some p) (hjob : p.repair = some job)
      (hf : p.fragment job.fragment = .ok f)
      (hpacket : encodeFragment f (s.bindings.forChannel .video) s.limits room = .ok packet) :
      Emits s .video packet {s.put i {p with repair := job.advance} with repairSpent := spent}

/-- A call prepares a record, or nothing. -/
inductive OfferedResult (c : SendCache) : Except SendError (Option PacketOffer) → SendCache → Prop
  | refused {e t} (h : Retained c t) : OfferedResult c (.error e) t
  | nothing {t : SendCache} (h : Retained c t) : OfferedResult c (.ok none) t
  | prepared {s t offer} (h : Retained c s) (halive : ¬s.dead)
      (hemits : Emits s offer.channel offer.packet t) : OfferedResult c (.ok (some offer)) t

theorem emits_original {s : SendCache} {i p sent ch pk} (hpd : s.pending = some (i,p))
    (h : s.original p room = .ok (ch,pk,sent)) : Emits s ch pk (s.put i sent) := by
  obtain ⟨hp,howes,hfirst⟩ := pending_some hpd
  cases original_result h with
  | announcement hnew hpk => exact .announcement hp hnew hfirst hpk
  | fragment _ hm hf hpk => exact .original hp hm hf hpk
  | chunk ha hm hpk =>
    refine .chunk hp ha hm ?_ hpk
    -- An announced picture is selected only while it owes originals.
    have hi : p.originalComplete = false := howes.resolve_left (by simp [ha])
    simpa [CachedPicture.originalComplete,CachedPicture.originals,hm] using hi

theorem nextPacket_offered : Ensures (nextPacket room now) c (OfferedResult c) := by
  refine nextPacket_ensures (fun _ _ h _ => .refused h.retained)
    (fun _ _ h _ _ => .refused h.retained)
    (fun _ h _ _ => .nothing h.retained) (fun _ _ _ _ _ _ h hr hp hs => ?_)
      fun _ _ _ h hr hi ho hpk => ?_
  · exact .prepared h.retained hr.alive (emits_original hp hs)
  · exact .prepared h.retained hr.alive (.observation ho (fun _ _ => pending_none hi) hpk)

theorem nextRepairPacket_offered : Ensures (nextRepairPacket room now) c (OfferedResult c) := by
  refine nextRepairPacket_ensures (fun _ _ h => .refused h.retained)
    (fun _ h => .nothing h.retained) fun _ _ _ _ _ _ h hr hc hf hp => ?_
  exact .prepared h.retained hr.alive (.repair hc.cached hc.repair hf hp)

theorem queueRepair_retained {p} : Ensures (queueRepair p now) c fun _ t => Retained c t := by
  refine queueRepair_ensures (fun _ _ h => h.retained) fun _ _ _ _ _ h _ _ hp hr => ?_
  refine h.retained.trans (.put hp ⟨rfl,rfl,rfl,rfl,rfl,fun hm _ => ?_⟩)
  exact absurd (hr.mode.symm.trans hm) (by decide)

theorem observeUnchanged_retained {frame o} :
    Ensures (observeUnchanged frame o now) c fun _ t => Retained c t := by
  refine observeUnchanged_ensures (fun _ _ h => h.retained) fun _ _ _ h _ hpre hobs => ?_
  refine h.retained.trans ⟨rfl,rfl,rfl,id,fun i q hq => ⟨q,hq,.refl q⟩,.inr
    fun i p hp _ => ⟨p,hp,.refl p⟩,?_⟩
  rintro q (hq | ⟨o,ho,hq⟩)
  · cases hq
    exact ⟨_,.inl hpre,rfl,.inr hobs⟩
  · cases ho
    subst hq
    exact ⟨_,.inl hpre,rfl,.inr hobs⟩

theorem Charged.retained {s u} (h : Charged now s u) : Retained s u := by
  cases h with
  | before _ => exact .refl s
  | now _ _ _ => exact {Retained.refl s with}

theorem retained_overrun (s : SendCache) (now : ℕ) : Retained s (s.overrun now) :=
  .of_dead rfl rfl rfl (.inl rfl) rfl nofun rfl

theorem AwaitResult.retained (h : AwaitResult c now res t) : Retained c t := by
  cases h with
  | refused h | waiting h => exact h.retained
  | exceeded h _ => exact h.retained.trans (retained_overrun _ now)
  | awaited h _ _ _ _ hc =>
    exact (h.retained.trans hc.retained).trans {Retained.refl _ with}

theorem requestRecovery_retained {b bi} :
    Ensures (requestRecovery b bi now) c fun _ t => Retained c t := by
  refine requestRecovery_ensures (fun _ _ h => h.retained)
    (fun _ h _ => h.retained.trans (retained_overrun _ now)) (fun _ h => h.retained)
      fun _ _ _ _ h _ _ _ hc => ?_
  exact (h.retained.trans hc.retained).trans (.of_dead rfl rfl rfl (.inr rfl) rfl nofun rfl)

end SendCache
end FrankenRemote.Delivery
