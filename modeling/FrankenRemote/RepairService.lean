import FrankenRemote.SendRepair

/-! What a repair packet repeats, and when the next one is prepared. -/
namespace FrankenRemote.Delivery

open Wire Bytes Procedure SlotTable Tiling Transition SendCache List

/-! Repetition. -/

section Repeats

variable {l : MediaLimits} {accepted : List Entry} {sent : List SendItem} {c : SendCache}
  {i : Fin cacheSlots} {p : CachedPicture} {index : ℕ}

theorem Issues.datagrams {k} (h : Issues l p k) (hm : p.mode = .datagrams) :
    k = if p.announced then p.nextOriginal+1 else 0 := by
  cases h with
  | unannounced hnew _ => simp [hnew]
  | fragments ha _ hc _ => simp [ha,hc]
  | chunks _ hr _ _ => simp [hm] at hr

/-- A fragment behind the cursor is among what was sent. -/
theorem Streaming.issued_fragment (h : Streaming l accepted sent c) (hp : c.pictures i = some p)
    (hmo : p.mode = .datagrams) (hissued : index < p.nextOriginal) :
    SendItem.fragment (pieceOf p.descriptor p.bytes index) ∈ sent := by
  obtain ⟨hmem,k,hi⟩ := h.cached i p hp
  have ha : p.announced = true ∧ p.nextOriginal ≤ p.entry.fragments := by
    cases hi with
    | unannounced _ hc => omega
    | fragments ha _ hc hins => exact ⟨ha,by omega⟩
    | chunks _ hr _ _ => simp [hmo] at hr
  have hk : k = p.nextOriginal+1 := by simpa [ha.1] using hi.datagrams hmo
  have hs : p.entry.script l = .announcement p.progress ::
      (List.range p.entry.fragments).map fun i => .fragment (pieceOf p.descriptor p.bytes i) := by
    simp only [Entry.script,entry_mode,hmo]
    rfl
  have hitem : SendItem.fragment (pieceOf p.descriptor p.bytes index) ∈
      (p.entry.script l).take k := by
    have hg : ((p.entry.script l).take k)[index+1]? =
        some (.fragment (pieceOf p.descriptor p.bytes index)) := by
      have hrg : index < p.entry.fragments := by omega
      simp [hs,hk,hissued,hrg]
    exact mem_of_getElem? hg
  obtain ⟨done,_,_,rfl,hb,rfl,_⟩ := h.position
  rcases mem_append.mp hmem with hdone | htodo
  · refine mem_append_left _ (mem_flatMap.mpr ⟨_,hdone,?_⟩)
    exact mem_of_mem_take hitem
  refine mem_append_right _ ?_
  cases hb with
  | nil => cases htodo
  | @cons _ j q m hq _ hqis hl =>
    have hsm : ∀ j q, c.pictures j = some q → q.entry = p.entry → q = p := by
      intro j q hq he
      have hf : q.descriptor.frame = p.descriptor.frame :=
        congrArg (fun x : Entry => x.descriptor.frame) he
      obtain rfl := h.distinct j i q p hq hp hf
      rw [hp] at hq
      exact (Option.some_inj.mp hq).symm
    rcases mem_cons.mp htodo with hhead | hmem
    · obtain rfl := hsm j q hq hhead.symm
      have hm : m = k := (hqis.datagrams hmo).trans (hi.datagrams hmo).symm
      rw [hm]
      exact hitem
    · -- A later picture of the backlog has not been announced.
      obtain ⟨j,q,hq,he,hz⟩ := hl _ hmem
      obtain rfl := hsm j q hq he
      have hc := hz.datagrams hmo
      simp [ha.1] at hc

end Repeats

def SameBindings (past : List SendEvent) (c : SendCache) : Prop :=
  ∀ e ∈ past, e.before.epoch = c.epoch → e.before.bindings = c.bindings

variable {l : MediaLimits} {past : List SendEvent} {now room : ℕ} {pol : SendPolicy}
  {p : CachedPicture} {c : SendCache}

theorem SameBindings.effect {e : SendEvent}
    {t} (h : SameBindings past e.before) (hh : SendHistory l past e.before)
    (heff : SendEffect e now t) : SameBindings (past ++ [e]) t := by
  intro e' he' hep
  cases heff.generation with
  | same hs hb _ =>
    rw [hb]
    rw [hs] at hep
    exact forall_mem_snoc.mpr ⟨h,fun _ => rfl⟩ e' he' hep
  | next hn _ _ =>
    rcases mem_append.mp he' with he' | he'
    · exact absurd hep (hh.unborn hn e' he')
    · obtain rfl := mem_singleton.mp he'
      rw [hep] at hn
      exact absurd hn (MediaEpoch.replaces_irrefl _)

theorem exists_of_mem_sends {xs sent} (h : List.Forall₂ (Sends l) xs sent) {item}
    (hitem : item ∈ sent) : ∃ x ∈ xs, Sends l x item := by
  induction h with
  | nil => cases hitem
  | cons hs _ ih =>
    rcases mem_cons.mp hitem with rfl | hitem
    · exact ⟨_,mem_cons_self,hs⟩
    · obtain ⟨x,hx,hs⟩ := ih hitem
      exact ⟨x,mem_cons_of_mem _ hx,hs⟩

theorem mem_originalsIn {g x}
    (h : x ∈ originalsIn past g) : ∃ e ∈ past, e.before.epoch = g ∧ e.before.bindings = x.1 := by
  obtain ⟨e,he,hx⟩ := mem_filterMap.mp h
  unfold SendEvent.originates at hx
  split at hx
  · split at hx
    · rename_i hboth
      cases hx
      exact ⟨e,he,hboth.2,rfl⟩
    · cases hx
  · cases hx

theorem encodeFragment_room {f b room' byte byte'} (h : encodeFragment f b l room = .ok byte)
    (h' : encodeFragment f b l room' = .ok byte') : byte = byte' := by
  obtain ⟨_,_,h⟩ := bind_eq_ok.mp h
  obtain ⟨_,_,h'⟩ := bind_eq_ok.mp h'
  obtain ⟨r,hr,h⟩ := bind_eq_ok.mp h
  obtain ⟨_,hr',h'⟩ := bind_eq_ok.mp h'
  rw [hr] at hr'
  cases hr'
  obtain ⟨n,hn,h⟩ := bind_eq_ok.mp h
  obtain ⟨_,hn',h'⟩ := bind_eq_ok.mp h'
  rw [hn] at hn'
  cases hn'
  exact encodeBounded_room h h'

/-- What a call that prepared this repair packet has done. -/
structure RepairPacket (past : List SendEvent) (e : SendEvent) (o : PacketOffer) : Prop where
  predicted : ∃ i p job, e.before.pictures i = some p ∧ p.repair = some job ∧
    p.repairPacketBytes job.fragment = .ok o.packet.length
  charged : e.after.repairSpent =
    (if e.after.repairWindowStart = e.before.repairWindowStart then e.before.repairSpent else 0) +
      o.packet.length
  repeated : ∃ x ∈ originalsIn past e.before.epoch, x.2.channel = o.channel ∧ x.2.packet = o.packet

theorem repairPacket_effect {e : SendEvent} {o} (hh : SendHistory l past e.before)
    (hs : Spends pol past e.before) (hpos : 1 ≤ pol.repairWindowMicros)
    (hrd : Rounds l pol past e.before) (hb : SameBindings past e.before)
    (heff : SendEffect e now e.after) (ha : e.act = .offer o) (hp : o.purpose = .repair) :
    RepairPacket past e o := by
  cases heff with
  | original _ _ _ _ hof _ | observation _ _ hof _ =>
    rw [hof] at ha
    cases ha
    cases hp
  | @repaired s i p job f packet _ hl hr hcd hf hpk hof ht =>
    rw [hof] at ha
    cases ha
    have hfx := hl.fixed
    have hc := hl.cached hcd.cached
    obtain ⟨_,hmv⟩ := hs.windowed.lapses hl
    refine ⟨⟨i,p,job,hc,hcd.repair,repairPacketBytes_length hf hpk⟩,?_,?_⟩
    · have hst : e.after.repairWindowStart = s.repairWindowStart := by rw [ht]; rfl
      have hspend : e.after.repairSpent = s.repairSpent + packet.length := by rw [ht]; rfl
      rw [hst,hspend]
      congr 1
      split
      · simp only [WindowMoves] at hmv
        omega
      · simp only [WindowMoves] at hmv
        omega
    · -- The fragment is behind the cursor, and its original had the same bindings.
      have hw := hrd.worked i p hc
      have hm := (hw.job job hcd.repair).1
      obtain ⟨_,hse,ho⟩ := hh.ready hl hr.alive
      have hmem := ho.streaming.issued_fragment hcd.cached hm hcd.issued
      obtain ⟨_,rfl⟩ := fragment_eq_pieceOf hw.sound.valid hw.sound.length hf
      obtain ⟨x,hx,hchan,_,henc⟩ := exists_of_mem_sends hse hmem
      rw [hfx.epoch] at hx
      obtain ⟨e',he',hep,hold⟩ := mem_originalsIn hx
      have hsm : x.1 = s.bindings := by rw [← hold,hb e' he' hep,hfx.bindings]
      rw [hsm,← ho.sameLimits] at henc
      exact ⟨x,hx,hchan,encodeFragment_room henc hpk⟩
  | _ => simp_all

/-! Service. -/

/-- The order in which jobs are served. -/
def NoLater (p q : CachedPicture) : Prop :=
  p.sendBy < q.sendBy ∨ (p.sendBy = q.sendBy ∧ p.descriptor.frame ≤ q.descriptor.frame)

theorem NoLater.refl (p : CachedPicture) : NoLater p p := .inr ⟨rfl,le_rfl⟩

theorem NoLater.trans {q r} (h : NoLater p q) (k : NoLater q r) : NoLater p r := by
  simp only [NoLater] at *
  omega

theorem noLater_earlier (s : Option (Fin cacheSlots × CachedPicture × RepairJob))
    (ca : Fin cacheSlots × CachedPicture × RepairJob) : NoLater (earlier s ca).2.1 ca.2.1 ∧
      ∀ y, s = some y → NoLater (earlier s ca).2.1 y.2.1 := by
  cases s with
  | none => exact ⟨.refl _,nofun⟩
  | some old =>
    dsimp only [earlier]
    split
    · rename_i he
      refine ⟨.refl _,fun y hy => ?_⟩
      cases hy
      simp only [NoLater]
      omega
    · rename_i hl
      refine ⟨?_,fun y hy => ?_⟩
      · simp only [NoLater]
        omega
      · cases hy
        exact .refl _

/-- When every head fits, the scan ends with the earliest issued one. -/
theorem foldlM_considered {remaining} (xs : List (Fin cacheSlots × CachedPicture))
    (hf : ∀ x ∈ xs, ∀ job, x.2.repair = some job →
      ∃ bs, x.2.repairPacketBytes job.fragment = .ok bs ∧ bs ≤ remaining)
    (s : Option (Fin cacheSlots × CachedPicture × RepairJob)) :
    ∃ r, xs.foldlM (considered remaining) s = .ok r ∧
      (∀ y, s = some y → ∃ z, r = some z ∧ NoLater z.2.1 y.2.1) ∧
      ∀ x ∈ xs, ∀ job, x.2.repair = some job → job.fragment < x.2.nextOriginal →
        ∃ z, r = some z ∧ NoLater z.2.1 x.2 := by
  induction xs generalizing s with
  | nil => exact ⟨s,rfl,fun y hy => ⟨y,hy,.refl _⟩,by simp⟩
  | cons x xs ih =>
    obtain ⟨i,p⟩ := x
    have hre := ih fun y hy => hf y (mem_cons_of_mem _ hy)
    have hskip : (∀ job, p.repair = some job → ¬job.fragment < p.nextOriginal) →
        considered remaining s (i,p) = .ok s := by
      intro hu
      dsimp only [considered]
      split
      · rfl
      · rename_i job hj
        rw [if_pos (not_lt.mp (hu job hj))]
    by_cases hi : ∃ job, p.repair = some job ∧ job.fragment < p.nextOriginal
    · obtain ⟨job,hj,hi⟩ := hi
      obtain ⟨bs,hb,hle⟩ := hf (i,p) mem_cons_self job hj
      have htake : considered remaining s (i,p) =
          .ok (some (earlier s (i,p,job))) := by
        simp only [considered,hj,if_neg (not_le.mpr hi)]
        refine bind_eq_ok.mpr ⟨bs,hb,?_⟩
        rw [if_neg (not_lt.mpr hle)]
      obtain ⟨r,hr,hk,hall⟩ := hre (some (earlier s (i,p,job)))
      obtain ⟨hc,hs⟩ := noLater_earlier s (i,p,job)
      obtain ⟨z,hz,hl⟩ := hk _ rfl
      refine ⟨r,?_,fun y hy => ⟨z,hz,hl.trans (hs y hy)⟩,fun y hy job' hj' hi' => ?_⟩
      · rw [foldlM_cons,htake]
        exact hr
      · rcases mem_cons.mp hy with rfl | hy
        · exact ⟨z,hz,hl.trans hc⟩
        · exact hall y hy job' hj' hi'
    · have hn : ∀ job, p.repair = some job → ¬job.fragment < p.nextOriginal := by
        intro job hj hlt
        exact hi ⟨job,hj,hlt⟩
      obtain ⟨r,hr,hk,hall⟩ := hre s
      refine ⟨r,?_,hk,fun y hy job hj hlt => ?_⟩
      · rw [foldlM_cons,hskip hn]
        exact hr
      · rcases mem_cons.mp hy with rfl | hy
        · exact absurd hlt (hn job hj)
        · exact hall y hy job hj hlt

/-- A due repair is served, or an earlier one, unless its picture or its generation has ended. -/
def Serves (p : CachedPicture) (now : ℕ) (res : Except SendError (Option PacketOffer))
    (t : SendCache) : Prop :=
  t.dead ∨ p.sendBy ≤ now ∨ ∃ o, res = .ok (some o) ∧ o.purpose = .repair ∧
    (o.sendBy < p.sendBy ∨ (o.sendBy = p.sendBy ∧ o.frame ≤ p.descriptor.frame))

/-- Time takes a picture only after its deadline, or with its generation. -/
theorem Lapses.keeps {t i} (h : Lapses now c t) (hp : c.pictures i = some p) :
    t.dead ∨ p.sendBy ≤ now ∨ t.pictures i = some p := by
  refine h.invariant (I := fun s => s.dead ∨ p.sendBy ≤ now ∨ s.pictures i = some p) ?_
    (.inr (.inr hp))
  rintro s t hlapse (hd | hl | hs)
  · exact .inl (hlapse.fixed.dead hd)
  · exact .inr (.inl hl)
  cases hlapse with
  | sampled _ => exact .inr (.inr hs)
  | closed => exact .inl (.inl rfl)
  | failed _ _ => exact .inl (.inr rfl)
  | expired _ _ _ =>
    by_cases hl : p.sendBy ≤ now
    · exact .inr (.inl hl)
    · exact .inr (.inr (discard_eq_some.mpr ⟨hs,by simpa using hl⟩))

/-- An issued fragment can be encoded again. -/
theorem repair_encodable {t} {s : SendCache} {job} (hl : s.limits = l)
    (hi : s.bindings.Installed) (hr : l.recordBytes ≤ room)
    (h : Worked l pol t p) (hj : p.repair = some job) : ∃ f pk, p.fragment job.fragment = .ok f ∧
      encodeFragment f (s.bindings.forChannel .video) s.limits room = .ok pk := by
  have hlen : p.bytes.length = p.descriptor.totalBytes := h.sound.length
  have hs := (lt_fragments_iff h.sound).mp (h.job job hj).2.fragment.2
  have hv : (pieceOf p.descriptor p.bytes job.fragment).validate l = .ok () :=
    validate_pieceOf h.sound.valid hlen ((mem_blocks h.sound.valid.stride_pos).mpr hs)
  obtain ⟨pk,hp⟩ := encodeFragment_ok (hi .video) hr hv
  refine ⟨_,pk,fragment_ok h.sound.valid hlen hs,?_⟩
  rw [hl]
  exact hp

/-- Once its window is over, a due job is served. -/
theorem nextRepairPacket_serves {i job}
    (hlim : c.limits = l) (hins : c.bindings.Installed) (hro : l.recordBytes ≤ room)
    (hw : Windowed pol c) (hrd : Rounds l pol past c)
    (hp : c.pictures i = some p) (hj : p.repair = some job) (hi : job.fragment < p.nextOriginal)
    (hover : c.repairWindowStart + pol.repairWindowMicros ≤ now) :
    Ensures (nextRepairPacket room now) c (Serves p now) := by
  refine ticked_ensures (fun e t _ hd => .inl hd) fun s hl hr => .get_bind ?_
  have hfx := hl.fixed
  rcases hl.keeps hp with hd | hlate | hc
  · exact absurd hd hr.alive
  · refine .of_exec rfl (.inr (.inl hlate))
  -- The whole window is free, so every head fits.
  have hs := (hw.lapses hl).1.samePolicy
  have hspend := hw.refilled hl hr hover
  have hworked := (hrd.lapses hl).worked
  have hfi : ∀ x ∈ indexed s.pictures, ∀ job, x.2.repair = some job →
      ∃ bs, x.2.repairPacketBytes job.fragment = .ok bs ∧
        bs ≤ s.policy.repairBytesPerWindow - s.repairSpent := by
    rintro ⟨j,q⟩ hq job hj
    rw [hs,hspend]
    exact ((hworked j q (mem_indexed.mp hq)).job job hj).2.fragment.1
  obtain ⟨_,hres,_,hall⟩ := foldlM_considered (indexed s.pictures) hfi none
  obtain ⟨⟨j,q,next⟩,rfl,he⟩ := hall (i,p) (mem_indexed.mpr hc) job hj hi
  have hcd : s.repairCandidate = .ok (some (j,q,next)) := hres
  have hq := repairCandidate_some hcd
  obtain ⟨f,_,hf,hpk⟩ := repair_encodable (hfx.limits.trans hlim)
    (by rw [hfx.bindings]; exact hins) hro (hworked j q hq.cached) hq.repair
  rw [hcd]
  refine .ofResult_bind nofun fun selected hsel => ?_
  cases hsel
  dsimp only
  rw [hf]
  refine .ofResult_bind nofun fun f' hf' => ?_
  cases hf'
  rw [hpk]
  refine .ofResult_bind nofun fun packet' hpk' => .modify_bind (.pure (.inr (.inr ?_)))
  exact ⟨_,rfl,rfl,he⟩

/-! Whole runs. -/

structure Repairing (limits : MediaLimits) (policy : SendPolicy) (past : List SendEvent)
    (c : SendCache) : Prop where
  history : SendHistory limits past c
  spends : Spends policy past c
  rounds : Rounds limits policy past c
  bindings : SameBindings past c

theorem SendPolicy.window_pos (h : pol.validate l = .ok ()) : 1 ≤ pol.repairWindowMicros := by
  unfold SendPolicy.validate at h
  split at h
  · cases h
  · omega

theorem repairing_run {o b e} (hnew : new o l b e pol = .ok c) (ops : List SendOp) :
    Repairing l pol (trace sendStep c ops) (final sendStep c ops) := by
  obtain ⟨_,hh,_⟩ := history_start hnew
  obtain ⟨⟨⟩,hv,hnew⟩ := bind_eq_ok.mp hnew
  have hpos := SendPolicy.window_pos hv
  refine history_invariant sendStep (I := Repairing l pol) ?_ (fun past c op h => ?_) ops
  · cases hnew
    refine ⟨hh,⟨⟨rfl,Nat.zero_le _,le_rfl⟩,fun _ _ => rfl,rfl,fun _ => Nat.zero_le _⟩,?_,?_⟩
    · refine ⟨fun _ _ => ⟨Nat.zero_le _,.nil⟩,fun _ h => absurd rfl h,fun i p hp => ?_⟩
      simp at hp
    · simp [SameBindings]
  · have he := sendStep_effect c op
    exact ⟨h.history.effect he,h.spends.effect hpos he rfl,
      h.rounds.effect h.history h.spends.windowed.samePolicy he,h.bindings.effect h.history he⟩

/-- In every run no window carries more repair bytes than it may and its arithmetic stays in
range; no picture is repaired more often, or sooner again, than the policy says. Each repair
packet repeats an original of its generation and is charged its length, as predicted. Whatever is
left of a job fits an empty window, and once a window is over the job is served in its turn. -/
theorem repair_bounded {owner : ℕ} {l : MediaLimits} {bindings : MediaBindings}
    {epoch : MediaEpoch} {pol : SendPolicy} {c : SendCache} (hinstalled : bindings.Installed)
    (hnew : SendCache.new owner l bindings epoch pol = .ok c) (ops : List SendOp) :
    (∀ w, repairBytes (trace sendStep c ops) w ≤ pol.repairBytesPerWindow) ∧
    Windowed pol (final sendStep c ops) ∧
    (∀ g frame, Spaced pol (askedIn (trace sendStep c ops) g frame)) ∧
    (∀ earlier e later o, trace sendStep c ops = earlier ++ e :: later →
      e.act = .offer o → o.purpose = .repair → RepairPacket earlier e o) ∧
    ∀ i p job, (final sendStep c ops).pictures i = some p → p.repair = some job →
      (∀ r ∈ job.remaining, ∀ index, r.start ≤ index → index < r.stop →
        Affordable p pol.repairBytesPerWindow index) ∧
      (job.fragment < p.nextOriginal → ∀ room now, l.recordBytes ≤ room →
        (final sendStep c ops).repairWindowStart + pol.repairWindowMicros ≤ now →
        Ensures (SendCache.nextRepairPacket room now) (final sendStep c ops) (Serves p now)) := by
  have hpos : 1 ≤ pol.repairWindowMicros := by
    obtain ⟨⟨⟩,hv,_⟩ := bind_eq_ok.mp hnew
    exact SendPolicy.window_pos hv
  have h := repairing_run hnew ops
  refine ⟨h.spends.budget,h.spends.windowed,h.rounds.asked,?_,fun i p job hp hj => ⟨?_,?_⟩⟩
  · intro earlier e later o hsp hact hpurpose
    obtain ⟨ops₁,op,_,_,rfl,rfl,_⟩ := trace_split sendStep hsp
    have h := repairing_run hnew ops₁
    exact repairPacket_effect h.history h.spends hpos h.rounds h.bindings (sendStep_effect _ op)
      hact hpurpose
  · intro r hr index hst hstop
    have hw := h.rounds.worked i p hp
    obtain ⟨ha,_,hins⟩ := (hw.job job hj).2.inside r hr
    exact affordable_mono hw.sound ha hst (hstop.trans_le hins)
  · intro hi room now hro hover
    have hb : (final sendStep c ops).bindings.Installed := by
      refine final_invariant (I := fun c => c.bindings.Installed) sendStep
        (fun s op hs => installed_effect hs (sendStep_effect s op)) ops ?_
      rwa [(history_start hnew).2.2]
    exact nextRepairPacket_serves h.history.sameLimits hb hro h.spends.windowed h.rounds hp hj
      hi hover

/-- A viewer's request for both fragments of the sample stream's second picture. -/
def sampleRequest : List Byte :=
  ((encodeRepair 8 [⟨0,2⟩] 2 (sampleConfig.bindings.forChannel .control) sampleConfig.limits
    75).toOption).getD []

theorem repair_bounded_sampleRequest : ∃ c,
    SendCache.new 0 sampleConfig.limits sampleConfig.bindings sampleConfig.epoch sampleSendPolicy =
      .ok c ∧ sampleConfig.bindings.Installed ∧ repairBytes (trace sendStep c
      (sampleStream ++ [.queueRepair sampleRequest 8,.nextRepairPacket 200 9])) 0 = 75 ∧
      askedIn (trace sendStep c
      (sampleStream ++ [.queueRepair sampleRequest 8,.nextRepairPacket 200 9]))
        sampleConfig.epoch 8 = [8] ∧
    Windowed sampleSendPolicy (final sendStep c
      (sampleStream ++ [.queueRepair sampleRequest 8,.nextRepairPacket 200 9])) := by
  have hi : sampleConfig.bindings.Installed := by
    intro channel
    cases channel <;> decide
  obtain ⟨c,hc⟩ := exists_sampleCache
  obtain ⟨_,hw,_⟩ := repair_bounded hi hc
    (sampleStream ++ [.queueRepair sampleRequest 8,.nextRepairPacket 200 9])
  refine ⟨c,hc,hi,?_,?_,hw⟩
  · cases hc
    rfl
  · cases hc
    rfl

end FrankenRemote.Delivery
