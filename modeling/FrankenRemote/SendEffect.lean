import FrankenRemote.Send
import Mathlib.Logic.Relation

/-! What each sender procedure can do. Time alone samples the clock, closes the cache, ends
its generation or drops what has expired; beside that a call admits one picture, prepares one
record, takes on one repair or moves its recovery forward. -/
namespace FrankenRemote.Delivery

open Wire Bytes Procedure SlotTable List

/-- Nothing is prepared any more, until a replacement. -/
def SendCache.dead (c : SendCache) : Prop := c.closed = true ∨ c.needsRecovery = true

theorem SendCache.dead_close (c : SendCache) : c.close.dead := .inl rfl

/-- The announcement or an original of this picture is still to come. -/
def CachedPicture.owes (p : CachedPicture) : Prop :=
  p.announced = false ∨ p.originalComplete = false

/-- What the passage of time does to a cache. -/
inductive Lapse (now : ℕ) : SendCache → SendCache → Prop
  | sampled {c} (hclock : ∀ last, c.lastNow = some last → last ≤ now) :
      Lapse now c {c with lastNow := some now}
  | closed (c : SendCache) : Lapse now c c.close
  | failed {c t} (halive : ¬c.dead)
      (hdeadline : deadline now c.policy.recoveryHorizonMicros = .ok t) : Lapse now c (c.fenced t)
  | expired {c} (halive : ¬c.dead) (hclock : c.lastNow = some now)
      (hintact : ∀ i p, c.pictures i = some p → p.sendBy ≤ now → p.originalComplete = true) :
      Lapse now c (c.expire now)

def Lapses (now : ℕ) : SendCache → SendCache → Prop := Relation.ReflTransGen (Lapse now)

theorem Lapses.refl (now : ℕ) (c : SendCache) : Lapses now c c := Relation.ReflTransGen.refl

variable {now : ℕ} {c s t : SendCache}

theorem Lapses.trans (h : Lapses now c s) (k : Lapses now s t) :
    Lapses now c t := Relation.ReflTransGen.trans h k

theorem Lapses.step (h : Lapses now c s) (k : Lapse now s t) :
    Lapses now c t := Relation.ReflTransGen.tail h k

/-- What each lapse keeps holds after any of them. -/
theorem Lapses.invariant {I : SendCache → Prop} (hstep : ∀ s t, Lapse now s t → I s → I t)
    (h : Lapses now c t) (hc : I c) : I t := by
  induction h with
  | refl => exact hc
  | tail _ hl ih => exact hstep _ _ hl ih

/-- What time does not change. -/
structure Fixed (c t : SendCache) : Prop where
  owner : t.owner = c.owner
  limits : t.limits = c.limits
  bindings : t.bindings = c.bindings
  epoch : t.epoch = c.epoch
  policy : t.policy = c.policy
  lastInserted : t.lastInserted = c.lastInserted
  recoveries : t.recoveries = c.recoveries
  chargedEpoch : t.recoveryChargedEpoch = c.recoveryChargedEpoch
  closed : c.closed = true → t.closed = true
  dead : c.dead → t.dead

theorem Lapse.fixed (h : Lapse now c t) : Fixed c t := by
  cases h with
  | sampled | expired => exact ⟨rfl,rfl,rfl,rfl,rfl,rfl,rfl,rfl,id,id⟩
  | closed => exact ⟨rfl,rfl,rfl,rfl,rfl,rfl,rfl,rfl,fun _ => rfl,fun _ => .inl rfl⟩
  | failed _ _ => exact ⟨rfl,rfl,rfl,rfl,rfl,rfl,rfl,rfl,id,fun _ => .inr rfl⟩

theorem Fixed.trans (h : Fixed c s) (k : Fixed s t) : Fixed c t where
  owner := k.owner.trans h.owner
  limits := k.limits.trans h.limits
  bindings := k.bindings.trans h.bindings
  epoch := k.epoch.trans h.epoch
  policy := k.policy.trans h.policy
  lastInserted := k.lastInserted.trans h.lastInserted
  recoveries := k.recoveries.trans h.recoveries
  chargedEpoch := k.chargedEpoch.trans h.chargedEpoch
  closed hc := k.closed (h.closed hc)
  dead hd := k.dead (h.dead hd)

theorem Lapses.fixed (h : Lapses now c t) : Fixed c t :=
  h.invariant (fun _ _ hl hs => hs.trans hl.fixed) ⟨rfl,rfl,rfl,rfl,rfl,rfl,rfl,rfl,id,id⟩

/-- A cache that has just passed its time checks. -/
structure Ready (now : ℕ) (s : SendCache) : Prop where
  alive : ¬s.dead
  clock : s.lastNow = some now
  unexpired : ∀ i p, s.pictures i = some p → now < p.sendBy
  window : now - s.repairWindowStart < s.policy.repairWindowMicros ∨
    (s.repairWindowStart = now ∧ s.repairSpent = 0)

namespace SendCache

variable {c s : SendCache} {α : Type} {now : ℕ} {p : CachedPicture}

theorem alive_of (ho : ¬c.closed = true) (hh : ¬c.needsRecovery = true) : ¬c.dead := by
  rintro (h | h)
  · exact ho h
  · exact hh h

/-! Time. -/

variable {P : Except SendError α → SendCache → Prop} {i : Fin cacheSlots}

theorem checkClock_bind {k : Unit → Sender α}
    (her : ∀ e last, c.lastNow = some last → now < last → P (.error e) c.close)
    (hok : (∀ last, c.lastNow = some last → last ≤ now) →
      Ensures (k ()) {c with lastNow := some now} P) :
    Ensures (checkClock now >>= k) c P := by
  refine .of_bind (.get_bind (.ite (fun hback => .modify_bind (.throw (.throw ?_))) fun hc => ?_))
  · obtain ⟨last,hl,hback⟩ := (Option.any_eq_true _ _).mp hback
    exact her _ last hl (of_decide_eq_true hback)
  · refine .of_exec (exec_modify _ _) (hok fun last hl => ?_)
    simpa [hl] using hc

theorem checkRecoveryDeadline_bind {k : Unit → Sender α}
    (her : ∀ e, c.recoveryDeadline ≠ none → P (.error e) c.close) (hok : Ensures (k ()) c P) :
    Ensures (checkRecoveryDeadline now >>= k) c P := by
  refine .of_bind (.get_bind (.ite (fun hl => .modify_bind (.throw (.throw ?_)))
    fun _ => .pure hok))
  exact her _ fun hn => by simp [hn] at hl

/-- A call that has sampled the clock of an open cache goes on from there. -/
theorem opened_ensures {k : SendCache → Sender α}
    (hs : ∀ e t, Lapses now c t → t.dead → P (.error e) t)
    (ho : Lapses now c {c with lastNow := some now} → ¬c.closed = true →
      Ensures (k {c with lastNow := some now}) {c with lastNow := some now} P) :
    Ensures (do
      checkClock now
      let c ← get
      refuseIf (c.closed = true) .closed
      checkRecoveryDeadline now
      k c) c P := by
  refine checkClock_bind (fun e _ _ _ => ?_) fun hck => ?_
  · exact hs e _ ((Lapses.refl now c).step (.closed c)) (dead_close c)
  have hl := (Lapses.refl now c).step (.sampled hck)
  refine .get_bind (.refuseIf_bind (fun hcl => hs _ _ hl (.inl hcl)) fun hc => ?_)
  exact checkRecoveryDeadline_bind (fun e _ => hs e _ (hl.step (.closed _)) (dead_close _))
    (ho hl hc)

/-- An unsent reference is lost: the generation has failed, or the clock is at its end. -/
theorem failReference_ensures (ha : ¬c.dead) :
    Ensures (failReference now) c fun _ t => Lapses now c t ∧ t.dead := by
  refine .get_bind ?_
  rcases hd : deadline now c.policy.recoveryHorizonMicros with e | t
  · exact .modify_bind (.throw ⟨(Lapses.refl now c).step (.closed c),dead_close c⟩)
  · exact .of_exec (exec_modify _ _) ⟨(Lapses.refl now c).step (.failed ha hd),.inr rfl⟩

theorem ready_expire (ha : ¬c.dead) (hc : c.lastNow = some now) : Ready now (c.expire now) := by
  refine ⟨ha,hc,fun i p hp => ?_,?_⟩
  · have hk := (discard_eq_some.mp hp).2
    simpa using hk
  · by_cases hr : c.policy.repairWindowMicros ≤ now - c.repairWindowStart
    · exact .inr (by simp [SendCache.expire,hr])
    · refine .inl ?_
      simp only [SendCache.expire,if_neg hr]
      exact not_le.mp hr

theorem tick_ensures {P : Except SendError Unit → SendCache → Prop}
    (hs : ∀ e t, Lapses now c t → t.dead → P (.error e) t)
    (hr : ∀ s, Lapses now c s → Ready now s → P (.ok ()) s) : Ensures (tick now) c P := by
  refine opened_ensures hs fun h ho => ?_
  refine .get_bind (.refuseIf_bind (fun hn => hs _ _ h (.inr hn)) fun hh => ?_)
  have ha := alive_of ho hh
  refine .ite (fun _ => ?_) fun he => ?_
  · refine .bind (failReference_ensures ha) ?_ fun e t ht => hs _ _ (h.trans ht.1) ht.2
    exact fun _ t ht => .throw (hs _ _ (h.trans ht.1) ht.2)
  · have hi : ∀ i p, c.pictures i = some p → p.sendBy ≤ now → p.originalComplete = true := by
      intro i p hp hl
      by_contra hinc
      refine he (any_eq_true.mpr ⟨p,mem_entries.mpr ⟨i,hp⟩,?_⟩)
      exact decide_eq_true ⟨hl,hinc⟩
    exact .of_exec (exec_modify _ _) (hr _ (h.step (.expired ha rfl hi)) (ready_expire ha rfl))

theorem ticked_ensures {k : Sender α} (hs : ∀ e t, Lapses now c t → t.dead → P (.error e) t)
    (hr : ∀ s, Lapses now c s → Ready now s → Ensures k s P) :
    Ensures (do
      tick now
      k) c P :=
  .of_bind (tick_ensures (fun e t h hd => .throw (hs e t h hd)) hr)

theorem authorizeWrite_ensures (offer : PacketOffer) (now : ℕ) (c : SendCache) :
    Ensures (authorizeWrite offer now) c fun res t => Lapses now c t ∧ (res = .ok () →
      Ready now t ∧ t.owner = offer.owner ∧ t.epoch = offer.epoch ∧ now < offer.sendBy) := by
  refine ticked_ensures (fun e t h _ => ⟨h,nofun⟩) fun s h hs => .get_bind ?_
  refine .refuseIf_bind (fun _ => ⟨h,nofun⟩) fun hsm => .ite (fun _ => .throw ⟨h,nofun⟩) fun hl =>
    ?_
  refine .pure ⟨h,fun _ => ⟨hs,?_,?_,not_le.mp hl⟩⟩
  · by_contra hne
    exact hsm (.inl hne)
  · by_contra hne
    exact hsm (.inr hne)

/-! Admission of pictures. -/

/-- The conditions under which a ready cache takes a picture into a slot. -/
structure Admissible (s : SendCache) (p : CachedPicture) (i : Fin cacheSlots) : Prop where
  valid : p.descriptor.Valid s.limits
  length : p.bytes.length = p.descriptor.totalBytes
  later : ∀ last, s.lastInserted = some last → last < p.descriptor.frame
  reference : p.descriptor.reference = none ∨ p.descriptor.reference = s.lastInserted
  mode : p.mode = .recovery ↔ s.lastInserted = none
  bootstrap : p.mode = .recovery → p.descriptor.reference = none ∧
    p.descriptor.stride = s.limits.fragmentStride
  bytes_le : s.usedBytes + p.charged ≤ s.policy.maxCachedBytes
  pictures_lt : s.usedPictures < s.policy.maxCachedPictures
  vacant : s.pictures i = none

/-- A picture as it enters the cache. -/
@[simps]
def admittedPicture (progress : Progress) (payload : PictureBytes) (mode : DeliveryMode)
    (recordBytes sendBy now : ℕ) : CachedPicture :=
  ⟨progress,payload.bytes,mode,payload.charge + recordBytes,sendBy,false,0,0,now,none⟩

@[simp] theorem admittedPicture_descriptor (progress : Progress) (payload : PictureBytes)
    (mode : DeliveryMode) (n sendBy now : ℕ) :
    (admittedPicture progress payload mode n sendBy now).descriptor = progress.descriptor := rfl

theorem pushPicture_ensures {n progress payload mode P}
    (href : ∀ e t, Lapses now c t → P (.error e) t)
    (hins : ∀ s i sendBy, Lapses now c s → Ready now s →
      Admissible s (admittedPicture progress payload mode n sendBy now) i →
      P (.ok ()) (s.inserted i (admittedPicture progress payload mode n sendBy now)
        (s.usedBytes + (payload.charge + n)))) :
    Ensures (pushPicture n progress payload mode now) c P := by
  refine ticked_ensures (fun e t h _ => href e t h) fun s h hs => ?_
  refine .get_bind (.ofResult_bind (fun _ _ => href _ _ h) fun _ hv => ?_)
  refine .refuseIf_bind (fun _ => href _ _ h) fun hlen => ?_
  refine .refuseIf_bind (fun _ => href _ _ h) fun hsq => ?_
  refine .refuseIf_bind (fun _ => href _ _ h) fun hd => ?_
  refine .refuseIf_bind (fun _ => href _ _ h) fun hrv => ?_
  refine .okOr_bind (fun _ => href _ _ h) fun charged hc => ?_
  refine .okOr_bind (fun _ => href _ _ h) fun used hused => ?_
  refine .refuseIf_bind (fun _ => href _ _ h) fun hro => .refuseIf_bind (fun _ => href _ _ h)
    fun _ => ?_
  refine .ofResult_bind (fun _ _ => href _ _ h) fun sendBy _ => .ite (fun _ => ?_) fun _ => ?_
  · refine .bind (failReference_ensures hs.alive) ?_ fun e t ht => href _ _ (h.trans ht.1)
    exact fun _ t ht => .throw (href _ _ (h.trans ht.1))
  refine .okOr_bind (fun _ => href _ _ h) fun i hi => ?_
  obtain ⟨rfl,_⟩ := checkedAdd_eq_some.mp hc
  obtain ⟨rfl,_⟩ := checkedAdd_eq_some.mp hused
  simp only [not_or,not_lt,not_le] at hro
  refine .of_exec (exec_modify _ _) (hins s i sendBy h hs ⟨?_,?_,?_,?_,?_,?_,hro.1,hro.2,?_⟩)
  · exact FrameDescriptor.validate_eq_ok.mp (mapError_eq_ok hv)
  · exact (not_not.mp hlen).symm
  · intro last hl
    simpa [hl] using hsq
  · cases hr : progress.descriptor.reference with
    | none => exact .inl hr
    | some q => exact .inr (by simpa [hr] using hd)
  · cases mode <;> cases hl : s.lastInserted <;> simp_all
  · intro hm
    cases hl : s.lastInserted <;> simp_all
  · simpa using firstIndex_some hi

theorem pushShared_ensures {n} {frame : SharedFrame} {mode P}
    (hr : ∀ e t, Lapses now c t → P (.error e) t)
    (hp : ∀ progress, frame.progress c.limits.fragmentStride = .ok progress →
      Ensures (pushPicture n progress ⟨frame.bytes,frame.charge⟩ mode now) c P) :
    Ensures (pushShared n frame mode now) c P := by
  refine .get_bind (.refuseIf_bind (fun _ => hr _ _ (.refl now c)) fun _ => ?_)
  exact .ofResult_bind (fun _ _ => hr _ _ (.refl now c)) fun progress hpg =>
    hp progress (mapError_eq_ok hpg)

/-! Packets. -/

theorem pending_some (h : c.pending = some (i,p)) : c.pictures i = some p ∧ p.owes ∧
      ∀ j q, c.pictures j = some q → q.owes → p.descriptor.frame ≤ q.descriptor.frame := by
  have hm := mem_filter.mp (argmin_mem h)
  simp only [mem_indexed,decide_eq_true_eq,Bool.not_eq_true] at hm
  refine ⟨hm.1,hm.2,fun j q hq howes => ?_⟩
  have hc : (j,q) ∈ (indexed c.pictures).filter
      fun e => ¬e.2.announced ∨ ¬e.2.originalComplete := by
    simp only [mem_filter,mem_indexed,decide_eq_true_eq,Bool.not_eq_true]
    exact ⟨hq,howes⟩
  exact le_of_mem_argmin (f := fun e : Fin cacheSlots × CachedPicture => e.2.descriptor.frame)
    hc h

theorem pending_none (h : c.pending = none) (hp : c.pictures i = some p) : ¬p.owes := by
  intro howes
  have he := argmin_eq_none.mp h
  have hc : (i,p) ∈ (indexed c.pictures).filter
      fun e => ¬e.2.announced ∨ ¬e.2.originalComplete := by
    simp only [mem_filter,mem_indexed,decide_eq_true_eq,Bool.not_eq_true]
    exact ⟨hp,howes⟩
  rw [he] at hc
  cases hc

/-- The next record of a picture, and the picture once it is prepared. -/
inductive OriginalResult (s : SendCache) (p : CachedPicture) (room : ℕ) :
    Channel → List Byte → CachedPicture → Prop
  | announcement {packet} (hnew : p.announced = false)
      (hpacket : encodeProgress p.progress (s.bindings.forChannel .mediaConfig) s.limits room =
        .ok packet) : OriginalResult s p room .mediaConfig packet {p with announced := true}
  | fragment {f packet} (hannounced : p.announced = true)
      (hmode : p.mode = .datagrams) (hf : p.fragment p.nextOriginal = .ok f)
      (hpacket : encodeFragment f (s.bindings.forChannel .video) s.limits room = .ok packet) :
      OriginalResult s p room .video packet {p with nextOriginal := p.nextOriginal+1}
  | chunk {packet} (hannounced : p.announced = true) (hmode : p.mode = .recovery)
      (hpacket : encodeRecovery (p.chunk s.limits) (s.bindings.forChannel .recovery) s.limits room =
        .ok packet) :
      OriginalResult s p room .recovery packet
        {p with nextOriginal := p.nextOriginal + p.chunkLength s.limits}

theorem original_result {sent room ch pk} (h : s.original p room = .ok (ch,pk,sent)) :
    OriginalResult s p room ch pk sent := by
  unfold SendCache.original at h
  split at h
  · rename_i hnew
    obtain ⟨_,hp,h⟩ := bind_eq_ok.mp h
    cases h
    exact .announcement (by simpa using hnew) (mapError_eq_ok hp)
  rename_i ha
  have ha : p.announced = true := by simpa using ha
  split at h
  · rename_i hm
    obtain ⟨f,hf,h⟩ := bind_eq_ok.mp h
    obtain ⟨_,hp,h⟩ := bind_eq_ok.mp h
    cases h
    exact .fragment ha hm hf (mapError_eq_ok hp)
  · rename_i hm
    obtain ⟨_,hp,h⟩ := bind_eq_ok.mp h
    cases h
    exact .chunk ha hm (mapError_eq_ok hp)

/-- A call prepares the next original of the least picture that owes one, or the pending
observation once none does. -/
theorem nextPacket_ensures {room P}
    (hstop : ∀ e t, Lapses now c t → t.dead → P (.error e) t)
    (hu : ∀ e s, Lapses now c s → Ready now s →
      ((∃ i p, s.pending = some (i,p) ∧ s.original p room = .error e) ∨ s.pending = none) → P
        (.error e) s)
    (hn : ∀ s, Lapses now c s → Ready now s → s.pending = none → P (.ok none) s)
    (horig : ∀ s i p sent ch pk, Lapses now c s → Ready now s → s.pending = some (i,p) →
      s.original p room = .ok (ch,pk,sent) →
      P (.ok (some ⟨ch,pk,p.descriptor.frame,p.sendBy,s.owner,s.epoch,.original⟩)) (s.put i sent))
    (hobs : ∀ s o pk, Lapses now c s → Ready now s → s.pending = none → s.observation = some o →
      encodeProgress o.progress (s.bindings.forChannel .mediaConfig) s.limits room = .ok pk →
      P (.ok (some ⟨.mediaConfig,pk,o.progress.descriptor.frame,o.sendBy,s.owner,s.epoch,
        .observation⟩)) {s with observation := none}) :
    Ensures (nextPacket room now) c P := by
  refine ticked_ensures hstop fun s h hs => .get_bind ?_
  rcases hp : s.pending with _ | ⟨i,p⟩
  · refine .get_bind ?_
    rcases ho : s.observation with _ | o
    · exact .pure (hn s h hs hp)
    · refine .ofResult_bind (fun _ _ => hu _ _ h hs (.inr hp)) fun pk hpk => ?_
      exact .modify_bind (.pure (hobs s o pk h hs hp ho (mapError_eq_ok hpk)))
  · refine .ofResult_bind (fun e he => hu e s h hs (.inl ⟨i,p,hp,he⟩)) ?_
    rintro ⟨_,pk,_⟩ hse
    exact .modify_bind (.pure (horig s i p _ _ pk h hs hp hse))

/-! Repair. -/

/-- A candidate for repair is a cached picture with its own job, whose next fragment has
been issued and fits in what is left of the window. -/
structure Candidate (c : SendCache) (i : Fin cacheSlots) (p : CachedPicture) (job : RepairJob) :
    Prop where
  cached : c.pictures i = some p
  repair : p.repair = some job
  issued : job.fragment < p.nextOriginal
  fits : ∃ bytes, p.repairPacketBytes job.fragment = .ok bytes ∧
    bytes ≤ c.policy.repairBytesPerWindow - c.repairSpent

theorem considered_candidate {selected next}
    {entry : Fin cacheSlots × CachedPicture} (he : c.pictures entry.1 = some entry.2)
    (hs : ∀ x, selected = some x → Candidate c x.1 x.2.1 x.2.2)
    (h : considered (c.policy.repairBytesPerWindow - c.repairSpent) selected entry = .ok next) :
    ∀ x, next = some x → Candidate c x.1 x.2.1 x.2.2 := by
  obtain ⟨i,p⟩ := entry
  dsimp only [considered] at h
  split at h
  · cases h
    exact hs
  rename_i job hj
  split at h
  · cases h
    exact hs
  rename_i hi
  obtain ⟨bs,hb,h⟩ := bind_eq_ok.mp h
  split at h
  · cases h
    exact hs
  rename_i hf
  cases h
  have hc : Candidate c i p job :=
    ⟨he,hj,not_le.mp hi,bs,hb,not_lt.mp hf⟩
  intro x hx
  cases hx
  unfold earlier
  split
  · exact hc
  · dsimp only
    split
    · exact hc
    · exact hs _ rfl

/-- What every step of a fallible scan keeps holds at its end. -/
theorem foldlM_invariant {ε β : Type} {f : β → α → Except ε β} {P : β → Prop} {xs : List α}
    (hstep : ∀ a ∈ xs, ∀ b b', P b → f b a = .ok b' → P b') {b last : β} (hb : P b)
    (h : xs.foldlM f b = .ok last) : P last := by
  induction xs generalizing b with
  | nil =>
    cases h
    exact hb
  | cons a as ih =>
    rw [foldlM_cons] at h
    obtain ⟨next,hn,h⟩ := bind_eq_ok.mp h
    exact ih (fun a' ha' => hstep a' (mem_cons_of_mem _ ha'))
      (hstep a mem_cons_self b next hb hn) h

theorem repairCandidate_some {job : RepairJob}
    (h : c.repairCandidate = .ok (some (i,p,job))) : Candidate c i p job := by
  refine foldlM_invariant (P := fun selected => ∀ y, selected = some y →
    Candidate c y.1 y.2.1 y.2.2) ?_ ?_ h (i,p,job) rfl
  · intro entry he selected next hs hn
    exact considered_candidate (mem_indexed.mp he) hs hn
  · intro y hy
    cases hy

def repaired (s : SendCache) (i : Fin cacheSlots) (p : CachedPicture) (job : RepairJob)
    (bytes : ℕ) : SendCache :=
  {s with
    pictures := store s.pictures i {p with repair := job.advance}
    repairSpent := s.repairSpent + bytes}

theorem nextRepairPacket_ensures {room P}
    (hr : ∀ e t, Lapses now c t → P (.error e) t) (hn : ∀ s, Lapses now c s → P (.ok none) s)
    (hrep : ∀ s i p job f pk, Lapses now c s → Ready now s → Candidate s i p job →
      p.fragment job.fragment = .ok f →
      encodeFragment f (s.bindings.forChannel .video) s.limits room = .ok pk →
      P (.ok (some ⟨.video,pk,p.descriptor.frame,p.sendBy,s.owner,s.epoch,.repair⟩))
        (s.repaired i p job pk.length)) : Ensures (nextRepairPacket room now) c P := by
  refine ticked_ensures (fun e t h _ => hr e t h) fun s h hs => ?_
  refine .get_bind (.ofResult_bind (fun _ _ => hr _ _ h) fun selected hsel => ?_)
  rcases selected with _ | ⟨i,p,job⟩
  · exact .pure (hn s h)
  refine .ofResult_bind (fun _ _ => hr _ _ h) fun f hf => ?_
  refine .ofResult_bind (fun _ _ => hr _ _ h) fun pk hp => .modify_bind (.pure ?_)
  exact hrep s i p job f pk h hs (repairCandidate_some hsel) hf (mapError_eq_ok hp)

theorem located_some {frame}
    (h : c.located frame = some (i,p)) : c.pictures i = some p ∧ p.descriptor.frame = frame := by
  refine ⟨mem_indexed.mp (mem_of_find?_eq_some h),?_⟩
  simpa using List.find?_some h

/-- The repair request that a packet carries on the control lane. -/
def repairRequest (c : SendCache) (packet : List Byte) : Except WireError RepairRequest := do
  let record ← Record.decode packet c.limits (c.bindings.forChannel .control) .control
  decodeRepair record c.limits.maxFragments c.limits

/-- The conditions under which a ready cache takes on a repair. -/
structure Repairable (s : SendCache) (now : ℕ) (request : RepairRequest) (p : CachedPicture)
    (job : RepairJob) : Prop where
  frame : p.descriptor.frame = request.frame
  mode : p.mode = .datagrams
  announced : p.announced = true
  inside : ∃ total, p.descriptor.fragmentCount = .ok total ∧ ∀ r ∈ request.ranges, r.stop ≤ total
  fits : repairable p s.policy.repairBytesPerWindow request.ranges = .ok ()
  job : repairJob p request.ranges s.limits.maxRepairRanges = .ok job
  spaced : p.nextRepair ≤ now
  rounds : p.repairRounds < s.policy.maxRepairRounds

def askedPicture (p : CachedPicture) (next : ℕ) (job : RepairJob) : CachedPicture :=
  {p with nextRepair := next, repairRounds := p.repairRounds+1, repair := some job}

theorem queueRepair_ensures {pa P}
    (href : ∀ e t, Lapses now c t → P (.error e) t)
    (hq : ∀ s q i p job, Lapses now c s → Ready now s → repairRequest c pa = .ok q →
      s.pictures i = some p → Repairable s now q p job →
      P (.ok ()) (s.put i (askedPicture p (now + s.policy.minimumRepairIntervalMicros) job))) :
    Ensures (queueRepair pa now) c P := by
  refine .get_bind (.ofResult_bind (fun _ _ => href _ _ (.refl now c)) fun rec hrec => ?_)
  refine .ofResult_bind (fun _ _ => href _ _ (.refl now c)) fun q hrq => ?_
  refine ticked_ensures (fun e t h _ => href e t h) fun s h hs => ?_
  refine .get_bind (.okOr_bind (fun _ => href _ _ h) ?_)
  rintro ⟨i,p⟩ hloc
  obtain ⟨hp,hf⟩ := located_some hloc
  refine .refuseIf_bind (fun _ => href _ _ h) fun hready => ?_
  refine .ofResult_bind (fun _ _ => href _ _ h) fun total ht => ?_
  refine .refuseIf_bind (fun _ => href _ _ h) fun hi => ?_
  refine .ofResult_bind (fun _ _ => href _ _ h) fun _ hfi => ?_
  refine .ofResult_bind (fun _ _ => href _ _ h) fun job hj => ?_
  refine .refuseIf_bind (fun _ => href _ _ h) fun hrate => ?_
  refine .ofResult_bind (fun _ _ => href _ _ h) fun next hn => ?_
  simp only [not_or,not_lt,not_le,not_not] at hready hrate
  obtain ⟨rfl,_⟩ := deadline_eq_ok (mapError_eq_ok hn)
  have hd : repairRequest c pa = .ok q :=
    bind_eq_ok.mpr ⟨rec,mapError_eq_ok hrec,mapError_eq_ok hrq⟩
  refine .of_exec (exec_modify _ _)
    (hq s q i p job h hs hd hp ⟨hf,?_,hready.2,?_,hfi,hj,hrate.1,hrate.2⟩)
  · cases hm : p.mode with
    | recovery => exact absurd hm hready.1
    | datagrams => rfl
  · refine ⟨total,mapError_eq_ok ht,fun r hr => ?_⟩
    by_contra hl
    exact hi (any_eq_true.mpr ⟨r,hr,decide_eq_true (not_le.mp hl)⟩)

theorem observeUnchanged_ensures {frame o P}
    (hq : ∀ res t, Lapses now c t → P res t)
    (ho : ∀ s previous sendBy, Lapses now c s → Ready now s →
      s.lastProgress = some previous → o < 2^64 → P (.ok true) {s with
        lastProgress := some ⟨previous.descriptor,o,.qualifiedUnchanged,.idle⟩
        observation := some ⟨⟨previous.descriptor,o,.qualifiedUnchanged,.idle⟩,sendBy⟩}) :
    Ensures (observeUnchanged frame o now) c P := by
  refine ticked_ensures (fun e t h _ => hq _ t h) fun s h hs => ?_
  refine .get_bind (.okOr_bind (fun _ => hq _ _ h) fun previous hp => ?_)
  refine .refuseIf_bind (fun _ => hq _ _ h) fun _ => .ite (fun _ => .pure (hq _ _ h)) fun _ => ?_
  refine .ofResult_bind (fun _ _ => hq _ _ h) fun sendBy hsend => ?_
  refine .refuseIf_bind (fun _ => hq _ _ h) fun _ => .modify_bind (.pure ?_)
  have hadd := deadline_eq_ok (mapError_eq_ok hsend)
  exact ho s previous sendBy h hs hp (by omega)

/-! Recovery. -/

/-- The failed generation counts against the window, once. -/
inductive Charged (now : ℕ) (s : SendCache) : SendCache → Prop
  | before (hcharged : s.recoveryChargedEpoch = some s.epoch) : Charged now s s
  | now {i : Fin recoverySlots} (hclock : s.lastNow = some now)
      (huncharged : s.recoveryChargedEpoch ≠ some s.epoch)
      (hslot : i.val < s.policy.maxRecoveriesPerWindow) (hfree : s.recentRecoveries now i = none) :
      Charged now s {s with
        recoveries := store (s.recentRecoveries now) i now
        recoveryChargedEpoch := some s.epoch}

/-- Beside the window, a charge changes nothing. -/
theorem Charged.frame {u} (h : Charged now s u) :
    u = {s with recoveries := u.recoveries, recoveryChargedEpoch := u.recoveryChargedEpoch} := by
  cases h <;> rfl

/-- One generation too many within the window. -/
structure Overrun (now : ℕ) (s : SendCache) : Prop where
  clock : s.lastNow = some now
  uncharged : s.recoveryChargedEpoch ≠ some s.epoch
  full : ∀ i : Fin recoverySlots, i.val < s.policy.maxRecoveriesPerWindow →
    (s.recentRecoveries now i).isSome = true

def overrun (s : SendCache) (now : ℕ) : SendCache :=
  close {s with recoveries := s.recentRecoveries now}

/-- A call that charges the generation goes on from there, unless the window is full. -/
theorem admitted_ensures {k : Sender α} (hck : s.lastNow = some now)
    (hover : Overrun now s → P (.error .recoveryLimitExceeded) (s.overrun now))
    (hch : ∀ u, Charged now s u → Ensures k u P) :
    Ensures (do
      admitRecovery now
      k) s P := by
  refine .of_bind (.get_bind (.ite (fun hc => .pure (hch s (.before hc))) fun hc => ?_))
  refine .modify_bind (.get_bind ?_)
  split
  · rename_i hfull
    refine .modify_bind (.throw (.throw (hover ⟨hck,hc,fun i hi => ?_⟩)))
    have hi' := List.find?_eq_none.mp hfull i (mem_finRange i)
    simpa [hi,Option.isSome_iff_ne_none] using hi'
  · rename_i i hfree
    have hi := List.find?_some hfree
    simp only [decide_eq_true_eq] at hi
    exact .of_exec (exec_modify _ _) (hch _ (.now hck hc hi.1 (Option.isNone_iff_eq_none.mp hi.2)))

inductive AwaitResult (c : SendCache) (now : ℕ) : Except SendError Unit → SendCache → Prop
  | refused {e t} (h : Lapses now c t) : AwaitResult c now (.error e) t
  | exceeded {s : SendCache} (h : Lapses now c s) (hover : Overrun now s) :
      AwaitResult c now (.error .recoveryLimitExceeded) (s.overrun now)
  | waiting {t : SendCache} (h : Lapses now c t) : AwaitResult c now (.ok ()) t
  | awaited {s u t} (h : Lapses now c s) (hopen : ¬s.closed = true)
      (hneeds : s.needsRecovery = true) (hnone : s.recoveryRequest = none)
      (hfirst : s.firstFailureDeadline = some t) (hcharged : Charged now s u) :
      AwaitResult c now (.ok ()) {u with recoveryRequest := some ⟨none,none,t⟩}

theorem awaitRecoveryRequest_ensures (h₀ : Lapses now c s) :
    Ensures (awaitRecoveryRequest now) s (AwaitResult c now) := by
  refine opened_ensures (fun e t h _ => .refused (h₀.trans h)) fun h ho => ?_
  replace h := h₀.trans h
  refine .refuseIf_bind (fun _ => .refused h) fun hn => .ite (fun _ => .pure (.waiting h))
    fun hnn => ?_
  refine .okOr_bind (fun _ => .refused h) fun t ht => ?_
  refine admitted_ensures rfl (.exceeded h) fun u hu => .of_exec (exec_modify _ _) ?_
  exact .awaited h ho (not_not.mp hn) (by simpa using hnn) ht hu

theorem abandonExpiredOffer_ensures (offer : PacketOffer) (now : ℕ) (c : SendCache) :
    Ensures (abandonExpiredOffer offer now) c (AwaitResult c now) := by
  refine opened_ensures (fun e t h _ => .refused h) fun h ho => ?_
  refine .refuseIf_bind (fun _ => .refused h) fun _ => .refuseIf_bind (fun _ => .refused h)
    fun _ => ?_
  refine .ite (fun hh => ?_) fun _ => awaitRecoveryRequest_ensures h
  refine .bind (failReference_ensures (alive_of ho hh)) ?_ fun e t ht => .refused (h.trans ht.1)
  exact fun _ s hs => awaitRecoveryRequest_ensures (h.trans hs.1)

/-- The cache that waits for the decoder it was asked for. -/
def accepted (u : SendCache) (request : RecoveryRequest) (binding : DecoderBinding) (t : ℕ) :
    SendCache :=
  {u.clear with needsRecovery := true, recoveryRequest := some ⟨some request,some binding,t⟩}

theorem requestRecovery_ensures {b : List Byte} {bi : DecoderBinding}
    {P : Except SendError RecoveryDisposition → SendCache → Prop}
    (href : ∀ e t, Lapses now c t → P (.error e) t)
    (he : ∀ s, Lapses now c s → Overrun now s → P (.error .recoveryLimitExceeded) (s.overrun now))
    (hc : ∀ t, Lapses now c t → P (.ok .coalesced) t)
    (ha : ∀ s u q t, Lapses now c s → ¬s.closed = true →
      (∀ r, s.recoveryRequest = some r → r.request = none) →
      (s.recoveryDeadline = some t ∨
        (s.recoveryDeadline = none ∧ deadline now s.policy.recoveryHorizonMicros = .ok t)) →
          Charged now s u →
      P (.ok (.accepted ⟨u.owner,u.epoch,q,t⟩)) (u.accepted q bi t)) :
    Ensures (requestRecovery b bi now) c P := by
  refine opened_ensures (fun e t h _ => href e t h) fun h ho => ?_
  refine .refuseIf_bind (fun _ => href _ _ h) fun _ => .ofResult_bind (fun _ _ => href _ _ h)
    fun q _ => ?_
  refine .refuseIf_bind (fun _ => href _ _ h) fun _ => .refuseIf_bind (fun _ => href _ _ h)
    fun _ => ?_
  refine .ite (fun _ => .pure (hc _ h)) fun hf => ?_
  have hf : ∀ r, c.recoveryRequest = some r → r.request = none := by
    intro r hr
    simpa [hr] using hf
  have hdone : ∀ t, (c.recoveryDeadline = some t ∨
      (c.recoveryDeadline = none ∧ deadline now c.policy.recoveryHorizonMicros = .ok t)) →
      Ensures (acceptRecovery q bi t now) {c with lastNow := some now} P := by
    intro t ht
    refine admitted_ensures rfl (he _ h) fun u hu => .modify_bind (.get_bind (.pure ?_))
    exact ha _ u q t h ho hf ht hu
  split
  · rename_i t ht
    exact hdone t (.inl ht)
  · rename_i hn
    split
    · rename_i t ht
      exact hdone t (.inr ⟨hn,ht⟩)
    · exact .modify_bind (.throw (href _ _ (h.step (.closed _))))

/-- A failed generation is charged before it is replaced. -/
theorem replace_ensures {ep : MediaEpoch} {b : MediaBindings}
    {P : Except SendError Unit → SendCache → Prop} (href : ∀ e t, Lapses now c t → P (.error e) t)
    (he : ∀ s, Lapses now c s → Overrun now s → P (.error .recoveryLimitExceeded) (s.overrun now))
    (hr : ∀ s u, Lapses now c s → ¬s.closed = true → ep.replaces s.epoch →
      b.allNewerThan s.bindings = true →
      (u = s ∨ Charged now s u) → (s.needsRecovery = true → Charged now s u) → P (.ok ())
        (u.renewed ep b)) :
    Ensures (replace ep b now) c P := by
  refine opened_ensures (fun e t h _ => href e t h) fun h ho => ?_
  refine .refuseIf_bind (fun _ => href _ _ h) fun hn => ?_
  simp only [not_or,not_not] at hn
  refine .ite (fun _ => ?_) fun hi => .of_exec (exec_modify _ _) ?_
  · refine admitted_ensures rfl (he _ h) fun u hu => .of_exec (exec_modify _ _) ?_
    exact hr _ u h ho hn.1 hn.2 (.inr hu) fun _ => hu
  · exact hr _ _ h ho hn.1 hn.2 (.inl rfl) fun hnd => absurd (.inl hnd) hi

end SendCache
end FrankenRemote.Delivery
