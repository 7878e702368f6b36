import FrankenRemote.RepairService
import FrankenRemote.SendDeadline

/-! What an abandoned offer does to a healthy sender. The cache looks at the offer's owner, its
generation and the time, and at nothing else. -/
namespace FrankenRemote.Delivery

open Wire Bytes Procedure SlotTable Transition SendCache

/-- The stream goes on as it was. -/
structure Unbroken (c t : SendCache) : Prop where
  alive : ¬t.dead
  last : t.lastInserted = c.lastInserted
  pictures : t.pictures = c.pictures
  recoveries : t.recoveries = c.recoveries
  charged : t.recoveryChargedEpoch = c.recoveryChargedEpoch

section Abandon

variable {c s t : SendCache} {now : ℕ} {offer : PacketOffer}

/-- An expired offer of the present generation ends it, whatever it was for. -/
theorem abandon_current (ha : ¬c.dead) (he : offer.epoch = c.epoch) (ho : offer.owner = c.owner)
    (hl : offer.sendBy ≤ now) : Ensures (abandonExpiredOffer offer now) c fun _ t => t.dead := by
  refine opened_ensures (fun _ _ _ hd => hd) fun _ _ => ?_
  refine .refuseIf_bind (fun hf => ?_) fun _ => .refuseIf_bind (fun hea => ?_) fun _ => .ite ?_ ?_
  · rcases hf with hne | hne
    · exact absurd ho.symm hne
    · exact absurd he.symm hne
  · exact absurd hl (not_le.mpr hea)
  · intro _
    refine .bind (failReference_ensures ha) (fun _ u hu => ?_) fun _ _ hu => hu.2
    refine (awaitRecoveryRequest_ensures (.refl now u)).mono fun _ t ht => ?_
    cases ht with
    | refused h | waiting h => exact h.fixed.dead hu.2
    | exceeded h _ => exact .inl rfl
    | awaited h _ hn _ _ hc =>
      rw [hc.frame]
      exact .inr hn
  · intro hn
    exact absurd (.inr (by simpa using hn)) ha

/-- A replaced offer is refused, unless the clock ran back. -/
theorem abandon_replaced (hh : Healthy c) (ho : c.closed = false) (he : offer.epoch ≠ c.epoch)
    (hc : ∀ last, c.lastNow = some last → last ≤ now) :
    Ensures (abandonExpiredOffer offer now) c fun _ t => Unbroken c t := by
  have hk : Unbroken c {c with lastNow := some now} := by
    refine ⟨?_,rfl,rfl,rfl,rfl⟩
    rintro (hcl | hn)
    · simp [ho] at hcl
    · simp [hh.intact] at hn
  refine SendCache.checkClock_bind (fun _ last hl hback => absurd (hc last hl) (not_le.mpr hback))
    fun _ => ?_
  refine .get_bind (.refuseIf_bind (fun _ => hk) fun _ => ?_)
  refine checkRecoveryDeadline_bind (fun _ hd => absurd hh.recoveryDeadline_eq hd) ?_
  exact .refuseIf_bind (fun _ => hk) fun hs => absurd (.inr fun heq => he heq.symm) hs

theorem abandon_regressed {last} (hl : c.lastNow = some last) (hback : now < last) :
    Ensures (abandonExpiredOffer offer now) c fun _ t => t.dead := by
  refine SendCache.checkClock_bind (fun _ _ _ _ => dead_close c) fun hc => ?_
  exact absurd (hc last hl) (not_le.mpr hback)

end Abandon

/-- Every offer of a run carries the identity of its cache. -/
theorem offered_owner {c : SendCache} {ops : List SendOp} {e : SendEvent} {offer : PacketOffer}
    (he : e ∈ trace sendStep c ops) (ha : e.act = .offer offer) :
    offer.owner = (final sendStep c ops).owner := by
  have ho : ∀ ops, (final sendStep c ops).owner = c.owner := fun ops =>
    final_invariant sendStep (I := fun s => s.owner = c.owner)
      (fun s op h => (sendStep_effect s op).steady.owner.trans h) ops rfl
  obtain ⟨_,_,hs⟩ := List.append_of_mem he
  obtain ⟨ops₁,op,_,_,_,rfl,_⟩ := trace_split sendStep hs
  obtain ⟨hof,_⟩ := (sendStep_effect (final sendStep c ops₁) op).offered_epoch ha
  exact hof.trans ((ho ops₁).trans (ho ops).symm)

/-- A healthy cache survives the abandonment of one of its expired offers exactly if the offer
is from a generation since replaced, at a clock that has not run back. Its purpose makes no
difference. -/
theorem abandon_unbroken_iff {owner : ℕ} {limits : MediaLimits} {bindings : MediaBindings}
    {epoch : MediaEpoch} {policy : SendPolicy} {c s : SendCache} {ops : List SendOp} {e : SendEvent}
    {offer : PacketOffer} {now : ℕ}
    (hnew : SendCache.new owner limits bindings epoch policy = .ok c)
    (hs : final sendStep c ops = s) (halive : ¬s.dead)
    (he : e ∈ trace sendStep c ops) (ha : e.act = .offer offer) (hlate : offer.sendBy ≤ now) :
    Unbroken s (exec (SendCache.abandonExpiredOffer offer now) s).2 ↔
      offer.epoch ≠ s.epoch ∧ ∀ last, s.lastNow = some last → last ≤ now := by
  have ho : offer.owner = s.owner := by
    rw [← hs]
    exact offered_owner he ha
  have hf : Failing s := by
    rw [← hs]
    exact final_invariant sendStep (I := Failing) (fun _ op h => failing_step h op) ops
      (failing_new hnew).1
  have hon : s.closed = false := by
    cases hcl : s.closed with
    | false => rfl
    | true => exact absurd (.inl hcl) halive
  have hh : Healthy s := by
    rcases hf with hcl | hh | ⟨_,hfl⟩
    · exact absurd (.inl hcl) halive
    · exact hh
    · exact absurd (.inr hfl.needs) halive
  constructor
  · intro hu
    refine ⟨fun hep => ?_,fun last hl => ?_⟩
    · exact hu.alive (abandon_current halive hep ho hlate)
    · by_contra hback
      exact hu.alive (abandon_regressed hl (not_le.mp hback))
  · rintro ⟨hep,hc⟩
    exact abandon_replaced hh hon hep hc

/-- The sample stream up to its repair request. -/
def sampleAsked : List SendOp := sampleStream ++ [.queueRepair sampleRequest 8]

/-- The repair that the sample stream prepares at time 9. -/
def sampleRepairOffer : PacketOffer where
  channel := .video
  packet := ((encodeFragment (pieceOf ⟨8,3,2,3,some 7⟩ [4,5,6] 0) 1 sampleConfig.limits
    200).toOption).getD []
  frame := 8
  sendBy := 250003
  owner := 0
  epoch := sampleConfig.epoch
  purpose := .repair

theorem abandon_unbroken_iff_sampleReplaced : ∃ c s,
    SendCache.new 0 sampleConfig.limits sampleConfig.bindings sampleConfig.epoch sampleSendPolicy =
      .ok c ∧ final sendStep c
        (sampleAsked ++ [.nextRepairPacket 200 9,.replace ⟨1,2⟩ ⟨5,6,7,8⟩ 10]) = s ∧ ¬s.dead ∧
    sampleRepairOffer.purpose = .repair ∧ sampleRepairOffer.sendBy ≤ 250003 ∧
    Unbroken s (exec (SendCache.abandonExpiredOffer sampleRepairOffer 250003) s).2 := by
  obtain ⟨c,hc⟩ := exists_sampleCache
  have hm : (⟨final sendStep c sampleAsked,.nextRepairPacket 200 9,
      (sendStep (final sendStep c sampleAsked) (.nextRepairPacket 200 9)).1⟩ : SendEvent) ∈
      trace sendStep c
        (sampleAsked ++ [.nextRepairPacket 200 9,.replace ⟨1,2⟩ ⟨5,6,7,8⟩ 10]) := by
    rw [trace_append]
    exact List.mem_append_cons_self
  have ha : SendEvent.act ⟨final sendStep c sampleAsked,.nextRepairPacket 200 9,
      (sendStep (final sendStep c sampleAsked) (.nextRepairPacket 200 9)).1⟩ =
      .offer sampleRepairOffer := by
    cases hc
    decide +kernel
  generalize hs : final sendStep c
    (sampleAsked ++ [.nextRepairPacket 200 9,.replace ⟨1,2⟩ ⟨5,6,7,8⟩ 10]) = s
  have hf : s.closed = false ∧ s.needsRecovery = false ∧ s.lastNow = some 10 ∧ s.epoch = ⟨1,2⟩ := by
    rw [← hs]
    cases hc
    decide +kernel
  obtain ⟨ho,hi,hl,he⟩ := hf
  have hal : ¬s.dead := by simp [SendCache.dead,ho,hi]
  refine ⟨c,s,hc,hs,hal,rfl,le_rfl,(abandon_unbroken_iff hc hs hal hm ha le_rfl).mpr ⟨?_,?_⟩⟩
  · rw [he]
    decide
  · intro last h
    rw [hl] at h
    cases h
    decide

/-- The last repair of a healthy stream, abandoned at its deadline, ends the stream: both pictures
are dropped and the recovery is charged. -/
theorem abandoned_repair_breaks : ∃ c s offer,
    SendCache.new 0 sampleConfig.limits sampleConfig.bindings sampleConfig.epoch sampleSendPolicy =
      .ok c ∧ final sendStep c (sampleAsked ++ [.nextRepairPacket 200 9]) = s ∧
    (∃ e : SendEvent, e ∈ trace sendStep c (sampleAsked ++ [.nextRepairPacket 200 9]) ∧
      e.act = .offer offer) ∧ offer.purpose = .repair ∧ offer.sendBy ≤ 250003 ∧
    s.closed = false ∧ s.needsRecovery = false ∧ s.usedPictures = 2 ∧ s.recoveries 0 = none ∧
    (exec (SendCache.abandonExpiredOffer offer 250003) s).2.needsRecovery = true ∧
    (exec (SendCache.abandonExpiredOffer offer 250003) s).2.usedPictures = 0 ∧
    (exec (SendCache.abandonExpiredOffer offer 250003) s).2.recoveries 0 = some 250003 := by
  obtain ⟨c,hc⟩ := exists_sampleCache
  have hl : (⟨final sendStep c sampleAsked,.nextRepairPacket 200 9,
      (sendStep (final sendStep c sampleAsked) (.nextRepairPacket 200 9)).1⟩ : SendEvent) ∈
      trace sendStep c (sampleAsked ++ [.nextRepairPacket 200 9]) := by
    rw [trace_append]
    exact List.mem_concat_self
  cases hc
  refine ⟨_,_,sampleRepairOffer,rfl,rfl,⟨_,hl,by decide +kernel⟩,rfl,le_rfl,?_⟩
  decide +kernel

end FrankenRemote.Delivery
