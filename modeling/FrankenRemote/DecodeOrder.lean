import FrankenRemote.ReceiveFence
import FrankenRemote.ReceiveOrder

/-! Decode order against an arbitrary peer: within one epoch, pictures reach the decoder
one at a time, in frame order, after the picture they refer to. -/
namespace FrankenRemote.Delivery

open Wire Bytes Procedure SlotTable ReceivePipeline Transition List

/-- One public call on a pipeline, or one change of the ledger that it shares. -/
inductive ReceiveOp
  | call (platform : Platform) (call : ReceiverCall)
  | chargeOutside (usage : BudgetUsage)

def receiveStep (r : ReceivePipeline) :
    ReceiveOp → Except DeliveryError ReceiverReply × ReceivePipeline
  | .call platform call => Receiver.step platform r call
  | .chargeOutside usage => (.ok .done,{r with outside := usage})

abbrev ReceiveEvent :=
  Transition.Event ReceivePipeline ReceiveOp (Except DeliveryError ReceiverReply)

/-- The picture this step handed to the decoder. -/
def ReceiveEvent.takes (e : ReceiveEvent) : Option ReceivedPicture :=
  match e.reply with
  | .ok (.picture p) => p
  | _ => none

/-- The picture this step acknowledged as decoded. -/
def ReceiveEvent.acks (e : ReceiveEvent) : Option ReceivedPicture :=
  match e.input, e.reply with
  | .call _ (.acknowledgeDecode p true _), .ok _ | .call _ (.completeDecode p _), .ok _ => some p
  | _, _ => none

/-- Pictures of one epoch that were handed over, in order. -/
def taken (past : List ReceiveEvent) (epoch : MediaEpoch) : List ReceivedPicture :=
  (past.filterMap ReceiveEvent.takes).filter (·.epoch = epoch)

/-- Frames of one epoch that were acknowledged as decoded, in order. -/
def acknowledged (past : List ReceiveEvent) (epoch : MediaEpoch) : List ℕ :=
  ((past.filterMap ReceiveEvent.acks).filter (·.epoch = epoch)).map (·.descriptor.frame)

/-- What holds when a picture is handed over after `past`. -/
structure InOrder (past : List ReceiveEvent) (before : ReceivePipeline) (p : ReceivedPicture) :
    Prop where
  increasing : ∀ q ∈ taken past p.epoch, q.descriptor.frame < p.descriptor.frame
  /-- Every earlier picture of the epoch was acknowledged after it was handed over. -/
  settled : ∀ earlier e later q, past = earlier ++ e :: later → e.takes = some q →
    q.epoch = p.epoch → q.descriptor.frame ∈ acknowledged later p.epoch
  /-- The first picture of the epoch is the one assembled from the recovery lane. -/
  first : taken past p.epoch = [] → p.descriptor.reference = none ∧
    ∃ i a, before.slots i = some a ∧ a.descriptor = p.descriptor ∧
      a.reliableOffset.isSome = true ∧ before.recoveryFrame = some p.descriptor.frame
  dependent : ∀ q, p.descriptor.reference = some q → (acknowledged past p.epoch).getLast? = some q

/-! The effect of a step on the decoder's position. -/

inductive DecodeEffect (e : ReceiveEvent) (t : ReceivePipeline) : Prop
  | quiet (htakes : e.takes = none) (hacks : e.acks = none) (h : Quiet e.before t)
  | configured (htakes : e.takes = none) (hacks : e.acks = none)
      (hbefore : e.before.state = .awaitingConfiguration) (hstate : t.state = .awaitingRecovery)
      (hconfig : t.config = e.before.config) (hslots : t.slots = e.before.slots)
      (hdecoded : t.lastDecoded = e.before.lastDecoded) (hflight : t.inFlight = e.before.inFlight)
  | taken (now : ℕ) {i a p}
      (htakes : e.takes = some p) (hacks : e.acks = none)
      (hdescriptor : p.descriptor = a.descriptor)
      (hepoch : p.epoch = e.before.config.epoch) (hidle : e.before.inFlight = none)
      (halive : ¬e.before.state.dead) (hselected : (e.before.at now).selected = some (i,a))
      (ht : t = (e.before.at now).handedOver i a)
  | acknowledged (now : ℕ) {p flight} (htakes : e.takes = none)
      (hacks : e.acks = some p) (hepoch : p.epoch = e.before.config.epoch)
      (halive : ¬e.before.state.dead) (hflight : e.before.inFlight = some flight)
      (hframe : flight.frame = p.descriptor.frame)
      (ht : t = ((e.before.at now).decoded p.descriptor.frame).discardSuperseded)
  | replaced (htakes : e.takes = none) (hacks : e.acks = none)
      (hlater : t.config.epoch.replaces e.before.config.epoch)
      (hstate : t.state = .awaitingConfiguration) (hslots : t.slots = vacant)
      (hdecoded : t.lastDecoded = none) (hflight : t.inFlight = none)

section Effect

variable {α : Type} {r t : ReceivePipeline} {op : ReceiveOp} {now : ℕ}

theorem effect_error {e : DeliveryError} (h : Quiet r t) : DecodeEffect ⟨r,op,.error e⟩ t := by
  refine .quiet rfl ?_ h
  unfold ReceiveEvent.acks
  split
  · rename_i hr
    cases hr
  · rename_i hr
    cases hr
  · rfl

theorem effect_map {m : Receiver α} {f : α → ReceiverReply}
    (h : Ensures m r fun res t => DecodeEffect ⟨r,op,res.map f⟩ t) :
    Ensures (m >>= fun a => pure (f a)) r fun res t => DecodeEffect ⟨r,op,res⟩ t :=
  .bind h (fun _ _ ht => .pure ht) fun _ _ ht => ht

/-- The decoder is bound as it is configured. -/
theorem decoderConfigured_effect : Ensures (decoderConfigured now) r fun res t =>
    (∀ e, res = .error e → DecodeEffect ⟨r,op,.error e⟩ t) ∧
    ∀ reply, ReceiveEvent.takes ⟨r,op,reply⟩ = none → ReceiveEvent.acks ⟨r,op,reply⟩ = none →
      res = .ok () → DecodeEffect ⟨r,op,reply⟩ t :=
  decoderConfigured_ensures
    (fun _ _ h => ⟨fun _ _ => effect_error (.inr h.ends),fun _ _ _ => nofun⟩)
    (fun _ => ⟨fun _ _ => effect_error (quiet_at r now),fun _ _ _ => nofun⟩)
    fun _ hs => ⟨nofun,fun _ ht hacks _ => .configured ht hacks hs rfl rfl rfl rfl rfl⟩

theorem acknowledgeDecode_effect {p success} :
    Ensures (acknowledgeDecode p success now) r fun res t =>
    (∀ e, res = .error e → DecodeEffect ⟨r,op,.error e⟩ t) ∧
    (res = .ok () → success = true ∧ ∀ reply, ReceiveEvent.takes ⟨r,op,reply⟩ = none →
      ReceiveEvent.acks ⟨r,op,reply⟩ = some p → DecodeEffect ⟨r,op,reply⟩ t) :=
  acknowledgeDecode_ensures ⟨fun _ _ => effect_error .refl,nofun⟩
    (fun _ _ h => ⟨fun _ _ => effect_error (.inr h.ends),nofun⟩)
    (fun _ _ => ⟨fun _ _ => effect_error (quiet_at r now),nofun⟩)
    ⟨fun _ _ => effect_error (.inr ⟨dead_failed _ _,rfl,rfl⟩),nofun⟩ fun _ hs ha he hf hfr =>
      ⟨nofun,fun _ => ⟨hs,fun _ ht hacks => .acknowledged now ht hacks he ha hf hfr rfl⟩⟩

theorem serve_effect (pf : Platform) (call : ReceiverCall) (r : ReceivePipeline) :
    Ensures (serve pf call) r fun res t => DecodeEffect ⟨r,.call pf call,res⟩ t := by
  cases call with
  | configureFrameRate fps =>
    refine effect_map (.get_bind (.refuseIf_bind (fun _ => effect_error .refl) fun _ =>
      .refuseIf_bind (fun _ => effect_error .refl) fun _ => .modify_bind (.pure ?_)))
    exact .quiet rfl rfl (.inl ⟨{},fun h => {h with}⟩)
  | bindDecoder g l now =>
    refine effect_map (.bind (check_unchanged g l r) (fun _ _ h => ?_)
      fun _ _ h => h ▸ effect_error .refl)
    subst h
    exact .bind decoderConfigured_effect (fun _ _ h => .get_bind (.pure (h.2 _ rfl rfl rfl)))
      fun _ _ h => h.1 _ rfl
  | decoderConfigured now =>
    exact .bind decoderConfigured_effect (fun _ _ h => .pure (h.2 _ rfl rfl rfl))
      fun _ _ h => h.1 _ rfl
  | receive channel packet now =>
    exact effect_map (receive_quiet.mono fun res _ h => .quiet (by cases res <;> rfl) rfl h)
  | takeDecodable now =>
    exact effect_map (takeDecodable_ensures (fun _ _ h => effect_error (.inr h.ends))
      (.quiet rfl rfl (quiet_at r now)) fun _ _ ha hi hs => .taken now rfl rfl rfl rfl hi ha hs rfl)
  | acknowledgeDecode p success now =>
    refine .bind acknowledgeDecode_effect (fun _ _ h => .pure ?_) fun _ _ h => h.1 _ rfl
    obtain ⟨rfl,h⟩ := h.2 rfl
    exact h _ rfl rfl
  | completeDecode p now =>
    exact effect_map (.bind acknowledgeDecode_effect
      (fun _ _ h => .get_bind (.pure ((h.2 rfl).2 _ rfl rfl))) fun _ _ h => h.1 _ rfl)
  | repairOffer room now =>
    exact effect_map (repairOffer_quiet.mono fun res _ h => .quiet (by cases res <;> rfl) rfl h)
  | tick now =>
    exact effect_map (tick_ensures (fun _ _ h => effect_error (.inr h.ends))
      fun _ => .quiet rfl rfl (quiet_at r now))
  | replace epoch bindings now =>
    exact effect_map (replace_ensures (fun _ _ h => effect_error (.inr h.ends))
      (fun _ => effect_error (quiet_at r now)) fun hl => .replaced rfl rfl hl rfl rfl rfl rfl)
  | close => exact .modify_bind (.pure (.quiet rfl rfl (.inr ⟨.inr rfl,rfl,rfl⟩)))
  | revoke scope =>
    refine .modify_bind (.pure (.quiet rfl rfl (.inl ?_)))
    unfold ReceivePipeline.revoke
    split <;> exact ⟨{},fun h => {h with}⟩

theorem receiveStep_effect (r : ReceivePipeline) (op : ReceiveOp) :
    DecodeEffect ⟨r,op,(receiveStep r op).1⟩ (receiveStep r op).2 := by
  cases op with
  | call p call => exact serve_effect p call r
  | chargeOutside usage => exact .quiet rfl rfl (.inl ⟨{},fun h => {h with}⟩)

end Effect

/-! Histories. -/

theorem taken_snoc (past : List ReceiveEvent) (e : ReceiveEvent) (ep : MediaEpoch) :
    taken (past ++ [e]) ep = taken past ep ++ (e.takes.toList.filter (·.epoch = ep)) := by
  cases h : e.takes <;> simp [taken,h]

theorem acknowledged_snoc (past : List ReceiveEvent) (e : ReceiveEvent) (ep : MediaEpoch) :
    acknowledged (past ++ [e]) ep = acknowledged past ep ++
      (e.acks.toList.filter (·.epoch = ep)).map (·.descriptor.frame) := by
  cases h : e.acks <;> simp [acknowledged,h]

/-- Where the decoder stands in an epoch that is still alive. -/
structure Position (past : List ReceiveEvent) (r : ReceivePipeline) : Prop where
  ordered : Ordered r
  settled : ∀ earlier e later q, past = earlier ++ e :: later → e.takes = some q →
    q.epoch = r.config.epoch → q.descriptor.frame ∈ acknowledged later r.config.epoch ∨
      ∃ flight, r.inFlight = some flight ∧ flight.frame = q.descriptor.frame
  passed : ∀ frame ∈ acknowledged past r.config.epoch, ∃ q, r.lastDecoded = some q ∧ frame ≤ q
  advancing : ∀ flight q, r.inFlight = some flight → r.lastDecoded = some q → q < flight.frame
  unstarted : r.state = .awaitingConfiguration ∨ r.state = .awaitingRecovery →
    taken past r.config.epoch = []
  started : r.state = .decodingRecovery ∨ r.state = .streaming → taken past r.config.epoch ≠ []
  latest : r.state = .streaming → (acknowledged past r.config.epoch).getLast? = r.lastDecoded

structure DecodeHistory (past : List ReceiveEvent) (r : ReceivePipeline) : Prop where
  position : r.state.dead ∨ Position past r
  takes : ∀ q ∈ past.filterMap ReceiveEvent.takes, Since q.epoch r.config.epoch
  acks : ∀ q ∈ past.filterMap ReceiveEvent.acks, Since q.epoch r.config.epoch
  inOrder : ∀ earlier e later p, past = earlier ++ e :: later → e.takes = some p →
    InOrder earlier e.before p

section Step

variable {past : List ReceiveEvent} {e : ReceiveEvent} {t : ReceivePipeline}

theorem taken_silent (h : e.takes = none) (ep : MediaEpoch) :
    taken (past ++ [e]) ep = taken past ep := by
  rw [taken_snoc,h]
  simp

theorem acknowledged_silent (h : e.acks = none) (ep : MediaEpoch) :
    acknowledged (past ++ [e]) ep = acknowledged past ep := by
  rw [acknowledged_snoc,h]
  simp

/-- Only the decoder's position and the order of the table matter. -/
theorem Position.carry {r} (h : Position past r) (hp : SamePosition r t) (ho : Ordered t) :
    Position past t := by
  obtain ⟨hc,hs,hd,hf⟩ := hp
  cases t
  subst hc hs hd hf
  exact {h with ordered := ho}

/-- The first picture of the epoch is still to come. -/
theorem position_vacant (hslots : t.slots = vacant) (hstate : t.state = .awaitingConfiguration)
    (hd : t.lastDecoded = none) (hflight : t.inFlight = none) (ht : taken past t.config.epoch = [])
    (ha : acknowledged past t.config.epoch = []) : Position past t := by
  refine ⟨ordered_vacant hslots hstate hd hflight,?_,?_,?_,fun _ => ht,?_,?_⟩
  · intro earlier x later q hsp hx hq
    have hm : q ∈ taken past t.config.epoch := by
      rw [hsp,taken,mem_filter,mem_filterMap]
      exact ⟨⟨x,by simp,hx⟩,decide_eq_true hq⟩
    rw [ht] at hm
    cases hm
  · rw [ha]
    exact nofun
  · intro flight q hf
    rw [hflight] at hf
    cases hf
  · intro hs
    rw [hstate] at hs
    rcases hs with hs | hs <;> cases hs
  · intro hs
    rw [hstate] at hs
    cases hs

/-- A step that neither hands over nor acknowledges leaves no mark on the position. -/
theorem Position.silent (h : Position past t) (ht : e.takes = none) (hacks : e.acks = none) :
    Position (past ++ [e]) t := by
  refine ⟨h.ordered,?_,?_,h.advancing,?_,?_,?_⟩
  · intro earlier x later q hs hx hq
    rcases snoc_split hs with ⟨_,rfl,_⟩ | ⟨rest,rfl,hpast⟩
    · rw [ht] at hx
      cases hx
    · rw [acknowledged_silent hacks]
      exact h.settled earlier x rest q hpast hx hq
  · rw [acknowledged_silent hacks]
    exact h.passed
  · rw [taken_silent ht]
    exact h.unstarted
  · rw [taken_silent ht]
    exact h.started
  · rw [acknowledged_silent hacks]
    exact h.latest

section

variable (h : DecodeHistory past e.before)

include h

/-- The bookkeeping of a step. -/
theorem DecodeHistory.extend
    (ht : ∀ p, e.takes = some p → p.epoch = e.before.config.epoch ∧ InOrder past e.before p)
    (hacks : ∀ p, e.acks = some p → p.epoch = e.before.config.epoch)
    (he : t.config.epoch = e.before.config.epoch ∨ t.config.epoch.replaces e.before.config.epoch)
    (hpos : t.state.dead ∨ Position (past ++ [e]) t) : DecodeHistory (past ++ [e]) t := by
  have hsi : ∀ epoch, Since epoch e.before.config.epoch → Since epoch t.config.epoch := by
    intro epoch hs
    rcases he with heq | hl
    · rwa [heq]
    · exact .inr (hs.replaced hl)
  refine ⟨hpos,?_,?_,?_⟩
  · intro q hq
    rw [filterMap_append,mem_append] at hq
    rcases hq with hq | hq
    · exact hsi _ (h.takes q hq)
    · exact hsi _ (.inl (ht q (by simpa using hq)).1)
  · intro q hq
    rw [filterMap_append,mem_append] at hq
    rcases hq with hq | hq
    · exact hsi _ (h.acks q hq)
    · exact hsi _ (.inl (hacks q (by simpa using hq)))
  · intro earlier x later p hsp hx
    rcases snoc_split hsp with ⟨rfl,rfl,_⟩ | ⟨rest,_,hpast⟩
    · exact (ht p hx).2
    · exact h.inOrder earlier x rest p hpast hx

theorem DecodeHistory.silent (ht : e.takes = none) (hacks : e.acks = none)
    (he : t.config.epoch = e.before.config.epoch ∨ t.config.epoch.replaces e.before.config.epoch)
    (hpos : t.state.dead ∨ Position (past ++ [e]) t) : DecodeHistory (past ++ [e]) t :=
  h.extend (by simp [ht]) (by simp [hacks]) he hpos

theorem history_quiet (ht : e.takes = none)
    (hacks : e.acks = none) (hq : Quiet e.before t) : DecodeHistory (past ++ [e]) t := by
  rcases hq with ⟨hp,ho⟩ | hends
  · refine h.silent ht hacks (.inl (by rw [hp.config])) ?_
    rcases h.position with hd | hpos
    · rw [hp.state]
      exact .inl hd
    · exact .inr ((hpos.carry hp (ho hpos.ordered)).silent ht hacks)
  · exact h.silent ht hacks (.inl (by rw [hends.config])) (.inl hends.dead)

theorem history_configured (ht : e.takes = none)
    (hacks : e.acks = none) (hb : e.before.state = .awaitingConfiguration)
    (hs : t.state = .awaitingRecovery) (hc : t.config = e.before.config)
    (hslots : t.slots = e.before.slots) (hd : t.lastDecoded = e.before.lastDecoded)
    (hf : t.inFlight = e.before.inFlight) : DecodeHistory (past ++ [e]) t := by
  have hpos : Position past e.before := h.position.resolve_left (by simp [ReceiveState.dead,hb])
  have hord := hpos.ordered
  have hm : Position past {e.before with state := .awaitingRecovery} := by
    refine ⟨{hord with
      unstarted := fun _ => hord.unstarted (.inl hb),
      decoding := nofun},hpos.settled,hpos.passed,hpos.advancing,
      fun _ => hpos.unstarted (.inl hb),?_,nofun⟩
    rintro (h | h) <;> cases h
  have hr : SamePosition {e.before with state := .awaitingRecovery} t :=
    ⟨hc,hs,hd,hf⟩
  have ho : Ordered t := hm.ordered.subtable hr fun i a ha => by
    rwa [hslots] at ha
  exact h.silent ht hacks (.inl (by rw [hc]))
    (.inr ((hm.carry hr ho).silent ht hacks))

theorem history_replaced (htk : e.takes = none)
    (hacks : e.acks = none) (hl : t.config.epoch.replaces e.before.config.epoch)
    (hstate : t.state = .awaitingConfiguration) (hslots : t.slots = vacant)
    (hd : t.lastDecoded = none) (hf : t.inFlight = none) : DecodeHistory (past ++ [e]) t := by
  have hnew : ∀ epoch, Since epoch e.before.config.epoch → epoch ≠ t.config.epoch := by
    rintro epoch hs rfl
    exact MediaEpoch.replaces_irrefl _ (hs.replaced hl)
  have ht : taken (past ++ [e]) t.config.epoch = [] := by
    rw [taken_silent htk,taken,filter_eq_nil_iff]
    intro q hq
    simpa using hnew _ (h.takes q hq)
  have ha : acknowledged (past ++ [e]) t.config.epoch = [] := by
    rw [acknowledged_silent hacks,acknowledged,map_eq_nil_iff,filter_eq_nil_iff]
    intro q hq
    simpa using hnew _ (h.acks q hq)
  exact h.silent htk hacks (.inr hl) (.inr (position_vacant hslots hstate hd hf ht ha))

end

theorem acknowledged_suffix {earlier later ep frame}
    (h : frame ∈ acknowledged later ep) : frame ∈ acknowledged (earlier ++ later) ep := by
  rw [acknowledged,mem_map] at h ⊢
  obtain ⟨q,hq,rfl⟩ := h
  refine ⟨q,?_,rfl⟩
  rw [filterMap_append,filter_append]
  exact mem_append_right _ hq

section HandOver

variable {r : ReceivePipeline} {i : Fin windowCeiling} {a : Assembly}

theorem selected_ahead (h : Ordered r) (hsel : Selected r i a) {q}
    (hq : r.lastDecoded = some q) : q < a.descriptor.frame := by
  cases hsel with
  | bootstrap hs _ _ _ =>
    rw [(h.unstarted (.inr hs)).1] at hq
    cases hq
  | independent _ hsl hc hr => exact (h.ahead i a hsl hc hr).1 q hq
  | dependent _ hsl _ hr hd =>
    rw [hd] at hq
    cases hq
    exact h.descends i a _ hsl hr

theorem inOrder_of_selected (hpos : Position past r) (hi : r.inFlight = none)
    (hsel : Selected r i a) {p : ReceivedPicture} (hd : p.descriptor = a.descriptor)
    (he : p.epoch = r.config.epoch) : InOrder past r p := by
  -- With nothing in flight, every earlier picture has been acknowledged.
  have hset : ∀ earlier x later q, past = earlier ++ x :: later → x.takes = some q →
      q.epoch = p.epoch → q.descriptor.frame ∈ acknowledged later p.epoch := by
    intro earlier x later q hsp hx hq
    rw [he] at hq ⊢
    rcases hpos.settled earlier x later q hsp hx hq with ha | ⟨flight,hf,_⟩
    · exact ha
    · rw [hi] at hf
      cases hf
  refine ⟨?_,hset,?_,?_⟩
  · intro q hq
    obtain ⟨hm,hqe⟩ := mem_filter.mp hq
    obtain ⟨x,hx,ht⟩ := mem_filterMap.mp hm
    obtain ⟨earlier,later,hsp⟩ := append_of_mem hx
    have hqe : q.epoch = p.epoch := of_decide_eq_true hqe
    have ha := hset earlier x later q hsp ht hqe
    have hpast : q.descriptor.frame ∈ acknowledged past r.config.epoch := by
      rw [hsp,← he,← singleton_append,← append_assoc]
      exact acknowledged_suffix ha
    obtain ⟨_,hl,_⟩ := hpos.passed _ hpast
    have hlt := selected_ahead hpos.ordered hsel hl
    rw [hd]
    omega
  · intro hn
    rw [he] at hn
    rw [hd]
    cases hsel with
    | bootstrap hs hsl hr hfr =>
      exact ⟨hpos.ordered.bootstrap i a hsl hr,i,a,hsl,rfl,hr,hfr⟩
    | independent hs _ _ _ | dependent hs _ _ _ _ => exact absurd hn (hpos.started (.inr hs))
  · intro q hq
    rw [hd] at hq
    rw [he]
    cases hsel with
    | bootstrap _ hsl hr _ =>
      rw [hpos.ordered.bootstrap i a hsl hr] at hq
      cases hq
    | independent _ _ _ href =>
      rw [href] at hq
      cases hq
    | dependent hs _ _ href hdd =>
      rw [href] at hq
      cases hq
      rw [hpos.latest hs,hdd]

end HandOver

theorem history_taken (h : DecodeHistory past e.before) {now i}
    {a : Assembly} {p} (ht : e.takes = some p) (hacks : e.acks = none)
    (hds : p.descriptor = a.descriptor) (he : p.epoch = e.before.config.epoch)
    (hi : e.before.inFlight = none) (hal : ¬e.before.state.dead)
    (hsel : (e.before.at now).selected = some (i,a)) :
    DecodeHistory (past ++ [e]) ((e.before.at now).handedOver i a) := by
  have hpos : Position past e.before := h.position.resolve_left hal
  have ha : Ordered (e.before.at now) := {hpos.ordered with}
  have hcase : Selected e.before i a := by
    cases selected_cases hsel with
    | bootstrap hs hsl hr hf => exact .bootstrap hs hsl hr hf
    | independent hs hsl hc href => exact .independent hs hsl hc href
    | dependent hs hsl q href hd => exact .dependent hs hsl q href hd
  have ho := inOrder_of_selected hpos hi hcase hds he
  have hone : taken (past ++ [e]) e.before.config.epoch =
      taken past e.before.config.epoch ++ [p] := by
    rw [taken_snoc,ht]
    simp [he]
  refine h.extend (fun q hq => ?_) (by simp [hacks]) (.inl rfl)
    (.inr ⟨ha.handedOver hsel,?_,?_,?_,?_,?_,?_⟩)
  · cases ht.symm.trans hq
    exact ⟨he,ho⟩
  · intro earlier x later q hsp hx hq
    rcases snoc_split hsp with ⟨_,rfl,_⟩ | ⟨rest,rfl,hpast⟩
    · rw [ht] at hx
      cases hx
      exact .inr ⟨_,rfl,by rw [hds]⟩
    · rw [acknowledged_silent hacks]
      refine .inl ?_
      have hset := ho.settled earlier x rest q hpast hx (hq.trans he.symm)
      rwa [he] at hset
  · rw [acknowledged_silent hacks]
    exact hpos.passed
  · intro flight q hflight hq
    cases hflight
    exact selected_ahead hpos.ordered hcase hq
  · intro hea
    exfalso
    have hstate := (ha.handedOver hsel).unstarted hea
    cases hstate.2
  · intro _
    change taken (past ++ [e]) e.before.config.epoch ≠ []
    rw [hone]
    simp
  · intro hstream
    change (acknowledged (past ++ [e]) e.before.config.epoch).getLast? = _
    rw [acknowledged_silent hacks]
    refine hpos.latest ?_
    simp only [ReceivePipeline.handedOver] at hstream
    split at hstream
    · cases hstream
    · exact hstream

section Acknowledged

variable {p : ReceivedPicture} {f : InFlight} (ht : e.takes = none)
  (hacks : e.acks = some p) (he : p.epoch = e.before.config.epoch) (hal : ¬e.before.state.dead)
  (hf : e.before.inFlight = some f) (hfr : f.frame = p.descriptor.frame)

include ht hacks he hal hf hfr

/-- One more acknowledgement of the epoch, of the picture in flight. -/
theorem Position.decoded (hpos : Position past e.before) (now : ℕ) :
    Position (past ++ [e]) ((e.before.at now).decoded p.descriptor.frame) := by
  have hmore : ∀ events : List ReceiveEvent, acknowledged (events ++ [e]) e.before.config.epoch =
      acknowledged events e.before.config.epoch ++ [p.descriptor.frame] := by
    intro events
    rw [acknowledged_snoc,hacks]
    simp [he]
  have hb : taken past e.before.config.epoch ≠ [] := by
    refine hpos.started ?_
    have hea : ¬(e.before.state = .awaitingConfiguration ∨ e.before.state = .awaitingRecovery) := by
      intro hs
      rw [(hpos.ordered.unstarted hs).2] at hf
      cases hf
    simp only [ReceiveState.dead] at hal
    cases hs : e.before.state <;> simp_all
  have hat : Ordered (e.before.at now) := {hpos.ordered with}
  refine ⟨?_,?_,?_,nofun,?_,?_,?_⟩
  · rw [← hfr]
    exact hat.decoded hf
  · intro earlier x later q hsp hx hq
    rcases snoc_split hsp with ⟨_,rfl,_⟩ | ⟨rest,rfl,hpast⟩
    · rw [ht] at hx
      cases hx
    · refine .inl ?_
      change _ ∈ acknowledged _ e.before.config.epoch
      rw [hmore,mem_append]
      rcases hpos.settled earlier x rest q hpast hx hq with ha | ⟨g,hg,hgq⟩
      · exact .inl ha
      · rw [hf] at hg
        cases hg
        exact .inr (by rw [← hgq,hfr]; exact mem_singleton_self _)
  · intro frame hm
    change frame ∈ acknowledged _ e.before.config.epoch at hm
    rw [hmore,mem_append,mem_singleton] at hm
    refine ⟨_,rfl,?_⟩
    rcases hm with hm | rfl
    · obtain ⟨q,hq,_⟩ := hpos.passed frame hm
      have hlt := hpos.advancing f q hf hq
      omega
    · exact le_rfl
  · rintro (hs | hs) <;> cases hs
  · intro _
    change taken (past ++ [e]) e.before.config.epoch ≠ []
    rwa [taken_silent ht]
  · intro _
    change (acknowledged _ e.before.config.epoch).getLast? = _
    rw [hmore,List.getLast?_append,List.getLast?_singleton]
    rfl

theorem history_acknowledged {now} (h : DecodeHistory past e.before) :
    DecodeHistory (past ++ [e])
      ((e.before.at now).decoded p.descriptor.frame).discardSuperseded := by
  have hmid := (h.position.resolve_left hal).decoded ht hacks he hal hf hfr now
  have hp := samePosition_discard ((e.before.at now).decoded p.descriptor.frame)
  refine h.extend (by simp [ht]) (fun q hq => ?_) (.inl (by rw [hp.config]; rfl))
    (.inr (hmid.carry hp hmid.ordered.discardSuperseded))
  cases hacks.symm.trans hq
  exact he

end Acknowledged

theorem effect_history (h : DecodeHistory past e.before) (he : DecodeEffect e t) :
    DecodeHistory (past ++ [e]) t := by
  cases he with
  | quiet htk hacks hq => exact history_quiet h htk hacks hq
  | configured htk hacks hb hs hc hslots hd hf =>
    exact history_configured h htk hacks hb hs hc hslots hd hf
  | taken now htk hacks hds hep hi ha hsel ht =>
    rw [ht]
    exact history_taken h htk hacks hds hep hi ha hsel
  | acknowledged now htk hacks hep ha hf hfr ht =>
    rw [ht]
    exact history_acknowledged htk hacks hep ha hf hfr h
  | replaced htk hacks hl hs hslots hd hf =>
    exact history_replaced h htk hacks hl hs hslots hd hf

end Step

theorem history_new {c b o r} (h : ReceivePipeline.new c b o = .ok r) : DecodeHistory [] r := by
  have hf := fresh_new h
  refine ⟨.inr (position_vacant hf.slots hf.state hf.lastDecoded hf.inFlight rfl rfl),
    nofun,nofun,?_⟩
  intro earlier e later p hs
  simp at hs

/-- Whatever arrives and whatever the decoder reports, a picture handed over is in order. -/
theorem decode_order {config : ReceiveConfig} {budget : MediaBudget} {outside : BudgetUsage}
    {r : ReceivePipeline} (hnew : ReceivePipeline.new config budget outside = .ok r)
    (ops : List ReceiveOp) {past later : List ReceiveEvent} {e : ReceiveEvent} {p : ReceivedPicture}
    (htrace : trace receiveStep r ops = past ++ e :: later) (htakes : e.takes = some p) :
    InOrder past e.before p := by
  have hrun := history_invariant receiveStep (history_new hnew)
    (fun past t op h => effect_history (e :=
      ⟨t,op,(receiveStep t op).1⟩) h (receiveStep_effect t op))
    ops
  exact hrun.inOrder past e later p htrace htakes

/-! A session with a recovered picture and one that depends on it. -/

def samplePacket (kind : Kind) (binding : ℕ) (fields : List Byte) : List Byte :=
  encodeHeader kind binding fields.length ++ fields

def sampleChunk : RecoveryChunk := ⟨7,3,0,0,[1,2,3]⟩

def sampleDependent : Fragment := ⟨⟨8,1,1,0,some 7⟩,0,[4]⟩

def sampleSession (p : ReceivedPicture) : List ReceiveOp :=
  [.decoderConfigured 0,.receive .recovery (samplePacket .recovery 2 sampleChunk.fields) 1,
    .takeDecodable 2,.acknowledgeDecode p true 3,
    .receive .video (samplePacket .fragment 1 sampleDependent.fields) 4,.takeDecodable 5].map
      (.call samplePlatform)

theorem decode_order_sampleSession : ∃ r p past e later q, sampleReceiver = .ok r ∧
    trace receiveStep r (sampleSession p) = past ++ e :: later ∧ ReceiveEvent.takes e = some q ∧
    q.descriptor = sampleDependent.descriptor ∧ acknowledged past q.epoch = [7] ∧
    InOrder past e.before q := by
  obtain ⟨r,hr⟩ : ∃ r, sampleReceiver = .ok r := ⟨_,rfl⟩
  have htr : ∃ p past e later q, trace receiveStep r (sampleSession p) = past ++ e :: later ∧
      ReceiveEvent.takes e = some q ∧ q.descriptor = sampleDependent.descriptor ∧
      acknowledged past q.epoch = [7] := by
    cases hr
    exact ⟨⟨0,⟨7,3,0,0,none⟩,⟨1,1⟩,⟨1,2,3,4⟩,true,true,50001,250001,[1,2,3],0⟩,[_,_,_,_,_],_,[],_,
      rfl,rfl,rfl,rfl⟩
  obtain ⟨p,past,e,later,q,hs,ht,hd,ha⟩ := htr
  exact ⟨r,p,past,e,later,q,hr,hs,ht,hd,ha,decode_order hr _ hs ht⟩

end FrankenRemote.Delivery
