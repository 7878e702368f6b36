import FrankenRemote.ReceiveAgreement

/-! Two honest endpoints in one epoch. The network may drop, duplicate, delay and reorder
datagrams; it keeps the configuration and recovery lanes in order and complete. -/
namespace FrankenRemote.Delivery

open Wire Bytes Procedure SlotTable Tiling ReceivePipeline Transition

/-- The viewer's start-up: an optional frame rate, then a configured decoder. No media is
delivered before. -/
def startDecoder (fps : Option ℕ) (now : ℕ) : Receiver Unit := do
  match fps with
  | none => decoderConfigured now
  | some fps =>
    let _ ← configureFrameRate fps
    decoderConfigured now

/-- What the owner of a shared encoder supplies is within machine widths. -/
structure SharedFrame.Fits (f : SharedFrame) : Prop where
  frame : f.frame < 256^8
  captureMicros : f.captureMicros < 256^8
  reference : ∀ q, f.reference = some q → q < 256^8

structure MediaWorld where
  sender : SendCache
  receiver : ReceivePipeline
  lanes : Lanes
  /-- Packets of the configuration lane that the receiver has read. -/
  configRead : ℕ
  recoveryRead : ℕ
  /-- The picture that the decoder has not answered for. -/
  outstanding : Option ReceivedPicture

def MediaWorld.start (sender : SendCache) (receiver : ReceivePipeline) : MediaWorld :=
  ⟨sender,receiver,⟨[],[],[]⟩,0,0,none⟩

/-- One call at an endpoint, one delivery of the network, or one act of another owner of
the receiver's fence or ledger. -/
inductive MediaOp
  | push (recordBytes : ℕ) (progress : Progress) (fits : Progress.Fits progress)
      (payload : PictureBytes) (mode : DeliveryMode) (now : ℕ)
  | pushShared (recordBytes : ℕ) (frame : SharedFrame) (fits : frame.Fits) (mode : DeliveryMode)
      (now : ℕ)
  | nextPacket (room now : ℕ)
  | nextRepairPacket (room now : ℕ)
  | queueRepair (packet : List Byte) (now : ℕ)
  | observeUnchanged (frame observedMicros now : ℕ)
  | authorizeWrite (offer : PacketOffer) (now : ℕ)
  | awaitRecoveryRequest (now : ℕ)
  | requestRecovery (bytes : List Byte) (binding : DecoderBinding) (now : ℕ)
  | abandonExpiredOffer (offer : PacketOffer) (now : ℕ)
  | tickSender (now : ℕ)
  | closeSender
  /-- Some datagram prepared so far arrives, once more or for the first time. -/
  | deliverVideo (platform : Platform) (k now : ℕ)
  | deliverConfig (platform : Platform) (now : ℕ)
  | deliverRecovery (platform : Platform) (now : ℕ)
  | tickReceiver (now : ℕ)
  | takeDecodable (now : ℕ)
  | acknowledge (success : Bool) (now : ℕ)
  | repairOffer (room now : ℕ)
  | closeReceiver
  | revokeScope
  | chargeOutside (usage : BudgetUsage)

inductive MediaReply
  | pushed (picture : Picture) (result : Except SendError Unit)
  | prepared (result : Except SendError (Option PacketOffer))
  | sender
  | update (result : Except DeliveryError ReceiveUpdate)
  | done (result : Except DeliveryError Unit)
  | picture (result : Except DeliveryError (Option ReceivedPicture))
  | offer (result : Except DeliveryError (Option RepairOffer))
  | idle

namespace MediaWorld

/-- A sender call whose reply the network does not see. -/
def sends {α : Type} (w : MediaWorld) (m : Sender α) : MediaReply × MediaWorld :=
  (.sender,{w with sender := (exec m w.sender).2})

def admits (w : MediaWorld) (x : Picture) (m : Sender Unit) : MediaReply × MediaWorld :=
  (.pushed x (exec m w.sender).1,{w with sender := (exec m w.sender).2})

/-- Whatever is prepared goes on its lane. -/
def prepares (w : MediaWorld) (m : Sender (Option PacketOffer)) : MediaReply × MediaWorld :=
  let result := exec m w.sender
  let lanes :=
    match result.1 with
    | .ok (some offer) => w.lanes.add offer.channel offer.packet
    | _ => w.lanes
  (.prepared result.1,{w with sender := result.2, lanes := lanes})

def receives (w : MediaWorld) (platform : Platform) (channel : Channel) (packet : List Byte)
    (now : ℕ) : MediaReply × MediaWorld :=
  let result := exec (receive platform channel packet now) w.receiver
  (.update result.1,{w with receiver := result.2})

end MediaWorld

/-- The picture that a shared frame is for this subscription. -/
def SharedFrame.picture (f : SharedFrame) (limits : MediaLimits) : Picture :=
  ⟨⟨f.frame,f.bytes.length,limits.fragmentStride,f.captureMicros,f.reference⟩,f.bytes⟩

def mediaStep (w : MediaWorld) : MediaOp → MediaReply × MediaWorld
  | .push recordBytes progress _ payload mode now => w.admits ⟨progress.descriptor,payload.bytes⟩
      (SendCache.pushPicture recordBytes progress payload mode now)
  | .pushShared recordBytes frame _ mode now => w.admits (frame.picture w.sender.limits)
      (SendCache.pushShared recordBytes frame mode now)
  | .nextPacket room now => w.prepares (SendCache.nextPacket room now)
  | .nextRepairPacket room now => w.prepares (SendCache.nextRepairPacket room now)
  | .queueRepair packet now => w.sends (SendCache.queueRepair packet now)
  | .observeUnchanged frame observed now => w.sends (SendCache.observeUnchanged frame observed now)
  | .authorizeWrite offer now => w.sends (SendCache.authorizeWrite offer now)
  | .awaitRecoveryRequest now => w.sends (SendCache.awaitRecoveryRequest now)
  | .requestRecovery bytes binding now => w.sends (SendCache.requestRecovery bytes binding now)
  | .abandonExpiredOffer offer now => w.sends (SendCache.abandonExpiredOffer offer now)
  | .tickSender now => w.sends (SendCache.tick now)
  | .closeSender => (.sender,{w with sender := w.sender.close})
  | .deliverVideo platform k now =>
    match w.lanes.video[k]? with
    | none => (.idle,w)
    | some packet => w.receives platform .video packet now
  | .deliverConfig platform now =>
    match w.lanes.config[w.configRead]? with
    | none => (.idle,w)
    | some packet =>
      let (reply,next) := w.receives platform .mediaConfig packet now
      (reply,{next with configRead := w.configRead+1})
  | .deliverRecovery platform now =>
    match w.lanes.recovery[w.recoveryRead]? with
    | none => (.idle,w)
    | some packet =>
      let (reply,next) := w.receives platform .recovery packet now
      (reply,{next with recoveryRead := w.recoveryRead+1})
  | .tickReceiver now =>
    let result := exec (tick now) w.receiver
    (.done result.1,{w with receiver := result.2})
  | .takeDecodable now =>
    let result := exec (takeDecodable now) w.receiver
    let outstanding :=
      match result.1 with
      | .ok (some p) => some p
      | _ => w.outstanding
    (.picture result.1,{w with receiver := result.2, outstanding := outstanding})
  | .acknowledge success now =>
    match w.outstanding with
    | none => (.idle,w)
    | some p =>
      let result := exec (acknowledgeDecode p success now) w.receiver
      (.done result.1,{w with receiver := result.2, outstanding := none})
  | .repairOffer room now =>
    let result := exec (repairOffer room now) w.receiver
    (.offer result.1,{w with receiver := result.2})
  | .closeReceiver => (.idle,{w with receiver := w.receiver.close})
  | .revokeScope => (.idle,{w with receiver := {w.receiver with live := false}})
  | .chargeOutside usage => (.idle,{w with receiver := {w.receiver with outside := usage}})

abbrev MediaEvent := Transition.Event MediaWorld MediaOp MediaReply

def MediaEvent.pushes (e : MediaEvent) : Option Picture :=
  match e.reply with
  | .pushed x (.ok ()) => some x
  | _ => none

/-- The picture this step handed to the decoder. -/
def MediaEvent.takes (e : MediaEvent) : Option ReceivedPicture :=
  match e.reply with
  | .picture (.ok p) => p
  | _ => none

/-- The error with which the receiver answered a delivery, a tick or its decoder. -/
def MediaEvent.error (e : MediaEvent) : Option DeliveryError :=
  match e.reply with
  | .update (.error e) => some e
  | .done (.error e) => some e
  | .picture (.error e) => some e
  | _ => none

def admitted (past : List MediaEvent) : List Picture := past.filterMap MediaEvent.pushes

/-- What a step shows the receiver's owner is true of the admitted pictures. -/
structure Truthful (pushed : List Picture) (e : MediaEvent) : Prop where
  takes : ∀ p, e.takes = some p → ∃ x ∈ pushed, p.descriptor = x.descriptor ∧ p.bytes = x.bytes
  error : ∀ err, e.error = some err → err.disagreement = false

/-- The decoder holds this picture as long as its epoch lasts. -/
def Held (p : ReceivedPicture) (r : ReceivePipeline) : Prop :=
  ¬r.state.dead → ∃ flight, r.inFlight = some flight ∧ flight.frame = p.descriptor.frame

theorem Held.quiet {p r t} (h : Held p r) (hq : Quiet r t) : Held p t := by
  intro ha
  rcases hq with ⟨hp,_⟩ | hends
  · rw [hp.state] at ha
    rw [hp.inFlight]
    exact h ha
  · exact absurd hends.dead ha

/-- The endpoints agree about everything that was admitted so far. -/
structure Agreed (limits : MediaLimits) (bindings : MediaBindings) (past : List MediaEvent)
    (w : MediaWorld) : Prop where
  issued : Issued limits bindings (admitted past) w.lanes w.sender
  receiving : Receiving limits bindings (admitted past) (0 < w.configRead) w.recoveryRead w.receiver
  held : ∀ p, w.outstanding = some p → Held p w.receiver

theorem admitted_snoc (past : List MediaEvent) (e : MediaEvent) :
    admitted (past ++ [e]) = admitted past ++ e.pushes.toList := by
  cases h : e.pushes <;> simp [admitted,h]

section Steps

variable {l : MediaLimits} {bs : MediaBindings} {past : List MediaEvent}
  {w : MediaWorld} {op : MediaOp}

/-- A step that shows the receiver's owner nothing. -/
theorem truthful_silent {pu} {e : MediaEvent} (ht : e.takes = none) (her : e.error = none) :
    Truthful pu e :=
  ⟨fun p hp => by simp [ht] at hp,fun err he => by simp [her] at he⟩

/-- A reply that excuses the receiver shows nothing untrue. -/
theorem truthful_of_excused {pu reply} {α : Type} {res : Except DeliveryError α} (hx : Excused res)
    (ht : MediaEvent.takes ⟨w,op,reply⟩ = none)
    (her : ∀ err, MediaEvent.error ⟨w,op,reply⟩ = some err → res = .error err) :
    Truthful pu ⟨w,op,reply⟩ := by
  refine ⟨fun p hp => by simp [ht] at hp,fun err he => ?_⟩
  rw [her err he] at hx
  exact hx

/-- The endpoints agree after the step, and it shows only what is true. -/
def Keeps (limits : MediaLimits) (bindings : MediaBindings) (past : List MediaEvent)
    (w : MediaWorld) (op : MediaOp) (r : MediaReply × MediaWorld) : Prop :=
  Agreed limits bindings (past ++ [⟨w,op,r.1⟩]) r.2 ∧ Truthful (admitted past) ⟨w,op,r.1⟩

theorem agreed_silent {reply t} (hp : MediaEvent.pushes ⟨w,op,reply⟩ = none)
    (hi : Issued l bs (admitted past) t.lanes t.sender)
    (hr : Receiving l bs (admitted past) (0 < t.configRead) t.recoveryRead t.receiver)
    (hh : ∀ p, t.outstanding = some p → Held p t.receiver) :
    Agreed l bs (past ++ [⟨w,op,reply⟩]) t := by
  have ha := admitted_snoc past ⟨w,op,reply⟩
  rw [hp,Option.toList_none,List.append_nil] at ha
  rw [← ha] at hi hr
  exact ⟨hi,hr,hh⟩

/-! Calls of the sender. -/

theorem agreed_sends {α : Type} {m : Sender α} (h : Agreed l bs past w)
    (hm : Ensures m w.sender fun _ t => Retained w.sender t) : Keeps l bs past w op (w.sends m) :=
  ⟨agreed_silent rfl (h.issued.retained hm) h.receiving h.held,truthful_silent rfl rfl⟩

theorem agreed_prepares {m : Sender (Option PacketOffer)} (h : Agreed l bs past w)
    (hm : Ensures m w.sender (SendCache.OfferedResult w.sender)) : Keeps l bs past w op
      (w.prepares m) := by
  refine ⟨agreed_silent rfl ?_ h.receiving h.held,truthful_silent rfl rfl⟩
  unfold MediaWorld.prepares
  have hres : SendCache.OfferedResult w.sender (exec m w.sender).1 (exec m w.sender).2 := hm
  generalize exec m w.sender = result at hres
  obtain ⟨_,t⟩ := result
  cases hres with
  | refused hr | nothing hr => exact h.issued.retained hr
  | prepared hr ha he => exact (h.issued.retained hr).emits ha he

theorem agreed_refuses {x e t} (h : Agreed l bs past w) (hr : Retained w.sender t) :
    Keeps l bs past w op (.pushed x (.error e),{w with sender := t}) :=
  ⟨agreed_silent rfl (h.issued.retained hr) h.receiving h.held,truthful_silent rfl rfl⟩

theorem agreed_push {n now p payload mode}
    (h : Agreed l bs past w) (hf : Progress.Fits p) :
    Ensures (SendCache.pushPicture n p payload mode now) w.sender fun res t =>
      Keeps l bs past w op (.pushed ⟨p.descriptor,payload.bytes⟩ res,{w with sender := t}) := by
  refine SendCache.pushPicture_ensures (fun _ _ hl => agreed_refuses h hl.retained)
    fun _ _ _ hl hr ha => ⟨⟨?_,?_,h.held⟩,truthful_silent rfl rfl⟩ <;> rw [admitted_snoc]
  · exact (h.issued.retained hl.retained).inserted hf hr.alive ha
  · exact h.receiving.append _

theorem agreed_pushShared {n now} {frame : SharedFrame} {mode}
    (h : Agreed l bs past w) (fits : frame.Fits) :
    Ensures (SendCache.pushShared n frame mode now) w.sender fun res t =>
      Keeps l bs past w op (.pushed (frame.picture w.sender.limits) res,{w with sender := t}) := by
  refine SendCache.pushShared_ensures (fun _ _ hl => agreed_refuses h hl.retained)
    fun progress hp => ?_
  unfold SharedFrame.progress at hp
  split at hp
  · cases hp
  rename_i hlen
  cases hp
  have hlm := w.sender.limits.record_le.trans w.sender.limits.protocol.control_le
  refine agreed_push h ⟨{fits with totalBytes := ?_,stride := ?_},fits.captureMicros⟩
  · simp only
    omega
  · simp only [MediaLimits.fragmentStride]
    omega

/-! Calls of the receiver. -/

section

variable (h : Agreed l bs past w)

include h

/-- A call of the receiver that keeps the decoder's position. -/
theorem agreed_quiet {reply t k n} (hpush : MediaEvent.pushes ⟨w,op,reply⟩ = none)
    (hr : Receiving l bs (admitted past) (0 < k) n t) (hq : Quiet w.receiver t) :
    Agreed l bs (past ++ [⟨w,op,reply⟩])
      {w with receiver := t, configRead := k, recoveryRead := n} :=
  agreed_silent hpush h.issued hr fun p hp => (h.held p hp).quiet hq

/-- One delivery, given what it does to the table. -/
theorem agreed_receives {p ch pa now k n}
    (hrec : Ensures (receive p ch pa now) w.receiver fun res t =>
      Receiving l bs (admitted past) (0 < k) n t ∧ Excused res) :
    Keeps l bs past w op ((w.receives p ch pa now).1,
      {(w.receives p ch pa now).2 with configRead := k, recoveryRead := n}) := by
  refine (hrec.and receive_quiet).mono (P := fun res t => Keeps l bs past w op
    (.update res,{w with receiver := t, configRead := k, recoveryRead := n})) fun res t hr => ?_
  refine ⟨agreed_quiet h rfl hr.1.1 hr.2,truthful_of_excused hr.1.2 rfl fun err he => ?_⟩
  cases res <;> cases he
  rfl

theorem agreed_tick (now : ℕ) : Keeps l bs past w op (mediaStep w (.tickReceiver now)) := by
  refine tick_ensures (P := fun res t => Keeps l bs past w op (.done res,{w with receiver := t}))
    (fun e t hs => ?_) fun _ => ?_
  · obtain ⟨ht,he⟩ := h.receiving.stops hs
    refine ⟨agreed_quiet h rfl ht (.inr hs.ends),nofun,fun err herr => ?_⟩
    cases herr
    exact he
  · exact ⟨agreed_quiet h rfl (receiving_at h.receiving now) (quiet_at _ now),
      truthful_silent rfl rfl⟩

theorem agreed_take (now : ℕ) : Keeps l bs past w op (mediaStep w (.takeDecodable now)) := by
  refine takeDecodable_ensures (P := fun res t => Keeps l bs past w op (.picture res,{w with
    receiver := t
    outstanding := match res with | .ok (some p) => some p | _ => w.outstanding}))
    (fun e t hs => ?_) ?_ fun i a ha _ hsel => ?_
  · obtain ⟨ht,he⟩ := h.receiving.stops hs
    refine ⟨agreed_quiet h rfl ht (.inr hs.ends),nofun,fun err herr => ?_⟩
    cases herr
    exact he
  · exact ⟨agreed_quiet h rfl (receiving_at h.receiving now) (quiet_at _ now),
      truthful_silent rfl rfl⟩
  · obtain ⟨ht,hp⟩ := h.receiving.take h.issued.catalogue ha hsel
    refine ⟨agreed_silent rfl h.issued ht fun q hq => ?_,fun q hq => ?_,nofun⟩ <;> cases hq
    · exact fun _ => ⟨_,rfl,rfl⟩
    · exact hp

theorem agreed_acknowledge {p} (hp : w.outstanding = some p) (success : Bool) (now : ℕ) :
    Keeps l bs past w op (mediaStep w (.acknowledge success now)) := by
  simp only [mediaStep,hp]
  refine (h.receiving.acknowledge (h.held p hp)).mono (P := fun res t => Keeps l bs past w op
    (.done res,{w with receiver := t, outstanding := none})) fun res t hr => ?_
  refine ⟨agreed_silent rfl h.issued hr.1 nofun,truthful_of_excused hr.2 rfl fun err he => ?_⟩
  cases res <;> cases he
  rfl

theorem agreed_offer (room now : ℕ) : Keeps l bs past w op (mediaStep w (.repairOffer room now)) :=
  h.receiving.offer.mono (P :=
    fun res t => Keeps l bs past w op (.offer res,{w with receiver := t}))
    fun _ _ ht => ⟨agreed_quiet h rfl ht.1 ht.2,truthful_silent rfl rfl⟩

theorem agreed_idle : Keeps l bs past w op (.idle,w) :=
  ⟨agreed_silent rfl h.issued h.receiving h.held,truthful_silent rfl rfl⟩

/-- Every step keeps the endpoints in agreement, and shows only what is true. -/
theorem mediaStep_agreed (op : MediaOp) : Keeps l bs past w op (mediaStep w op) := by
  cases op with
  | push n progress fits payload mode now =>
    exact agreed_push h fits
  | pushShared n frame fits mode now =>
    exact agreed_pushShared h fits
  | nextPacket room now =>
    exact agreed_prepares h SendCache.nextPacket_offered
  | nextRepairPacket room now =>
    exact agreed_prepares h SendCache.nextRepairPacket_offered
  | queueRepair pk now =>
    exact agreed_sends h SendCache.queueRepair_retained
  | observeUnchanged frame observed now =>
    exact agreed_sends h SendCache.observeUnchanged_retained
  | authorizeWrite offer now =>
    exact agreed_sends h ((SendCache.authorizeWrite_ensures offer now _).mono
      fun _ _ ht => ht.1.retained)
  | awaitRecoveryRequest now =>
    exact agreed_sends h ((SendCache.awaitRecoveryRequest_ensures (.refl now _)).mono
      fun _ _ ht => ht.retained)
  | requestRecovery bytes binding now =>
    exact agreed_sends h SendCache.requestRecovery_retained
  | abandonExpiredOffer offer now =>
    exact agreed_sends h ((SendCache.abandonExpiredOffer_ensures offer now _).mono
      fun _ _ ht => ht.retained)
  | tickSender now =>
    exact agreed_sends h (SendCache.tick_ensures (fun _ _ ht _ => ht.retained)
      fun _ ht _ => ht.retained)
  | closeSender =>
    exact ⟨agreed_silent rfl (h.issued.retained (.close _)) h.receiving h.held,
      truthful_silent rfl rfl⟩
  | deliverVideo pf k now =>
    simp only [mediaStep]
    cases hpk : w.lanes.video[k]? with
    | none => exact agreed_idle h
    | some pk =>
      exact agreed_receives h (h.receiving.video h.issued.catalogue h.issued.honest
        (List.mem_of_getElem? hpk))
  | deliverConfig pf now =>
    simp only [mediaStep]
    cases hpk : w.lanes.config[w.configRead]? with
    | none => exact agreed_idle h
    | some pk =>
      exact agreed_receives h (h.receiving.config h.issued.catalogue h.issued.honest hpk)
  | deliverRecovery pf now =>
    simp only [mediaStep]
    cases hpk : w.lanes.recovery[w.recoveryRead]? with
    | none => exact agreed_idle h
    | some pk =>
      exact agreed_receives h (h.receiving.recovery h.issued.catalogue h.issued.honest hpk)
  | tickReceiver now => exact agreed_tick h now
  | takeDecodable now => exact agreed_take h now
  | acknowledge success now =>
    cases hp : w.outstanding with
    | none =>
      simp only [mediaStep,hp]
      exact agreed_idle h
    | some p => exact agreed_acknowledge h hp success now
  | repairOffer room now => exact agreed_offer h room now
  | closeReceiver =>
    have hends : Ends w.receiver w.receiver.close := ⟨.inr rfl,rfl,rfl⟩
    exact ⟨agreed_quiet h rfl (h.receiving.dead hends h.receiving.agreeing) (.inr hends),
      truthful_silent rfl rfl⟩
  | revokeScope | chargeOutside usage =>
    have hr := h.receiving
    exact ⟨agreed_quiet h rfl
      {hr with alive := hr.alive.imp_right fun ⟨ho,ha⟩ => ⟨{ho with},{ha with}⟩}
      (.inl ⟨{},fun ho => {ho with}⟩),truthful_silent rfl rfl⟩

end

end Steps

theorem configureFrameRate_fresh {c r} (h : Fresh c r)
    (fps : ℕ) : Ensures (configureFrameRate fps) r fun _ t => Fresh c t := by
  refine .get_bind (.refuseIf_bind (fun _ => h) fun _ => .refuseIf_bind (fun _ => h) fun _ => ?_)
  refine .modify_bind (.pure ?_)
  exact {h with}

/-- The receiver that starts its epoch has nothing to disagree about. -/
theorem receiving_start {c b o fps now r₀ r} (hnew : ReceivePipeline.new c b o = .ok r₀)
    (hst : exec (startDecoder fps now) r₀ = (.ok (),r)) :
    Receiving c.limits c.bindings [] (0 < 0) 0 r := by
  have hc : ∀ s, Fresh c s → Ensures (decoderConfigured now) s fun res t =>
      res = .ok () → Receiving c.limits c.bindings [] (0 < 0) 0 t := by
    intro s hs
    refine decoderConfigured_ensures (fun _ _ _ => nofun) (fun _ => nofun) fun t _ _ => ?_
    have ho := ordered_vacant hs.slots hs.state hs.lastDecoded hs.inFlight
    have hem : ∀ i a, s.slots i ≠ some a := fun i a ha => by
      rw [hs.slots] at ha
      cases ha
    refine ⟨by rw [← hs.config]; rfl,by rw [← hs.config]; rfl,?_,.inr ⟨?_,?_⟩⟩
    · intro e he
      exact absurd (hs.failure.symm.trans he) nofun
    · refine {ho with unstarted := ?_,decoding := nofun}
      exact fun _ => ⟨hs.lastDecoded,hs.inFlight⟩
    · refine ⟨by rw [← hs.config]; rfl,fun i a ha => absurd ha (hem i a),nofun,?_,?_,?_,?_,?_⟩
      · exact fun _ => nofun
      · exact fun frame hfr => absurd (hs.recoveryFrame.symm.trans hfr) nofun
      · exact fun _ h => absurd h (lt_irrefl 0)
      · exact fun _ => hs.progress
      · exact fun _ h => absurd h (lt_irrefl 0)
  have hf := fresh_new hnew
  suffices hall : Ensures (startDecoder fps now) r₀ fun res t =>
      res = .ok () → Receiving c.limits c.bindings [] (0 < 0) 0 t by
    have hend : (exec (startDecoder fps now) r₀).1 = .ok () →
      Receiving c.limits c.bindings [] (0 < 0) 0 (exec (startDecoder fps now) r₀).2 := hall
    rw [hst] at hend
    exact hend rfl
  cases fps with
  | none => exact hc r₀ hf
  | some fps =>
    refine .bind (configureFrameRate_fresh hf fps) (fun _ t ht => hc t ht) ?_
    intro e t _ hok
    cases hok

/-- In one epoch between honest endpoints, whatever the network does to datagrams, every
picture handed over is an admitted one and no failure of the receiver is a disagreement. -/
theorem media_agreement {owner : ℕ} {policy : SendPolicy} {config : ReceiveConfig}
    {budget : MediaBudget} {outside : BudgetUsage} {fps : Option ℕ} {now : ℕ} {c : SendCache}
    {r₀ r : ReceivePipeline}
    (hsender : SendCache.new owner config.limits config.bindings config.epoch policy = .ok c)
    (hnew : ReceivePipeline.new config budget outside = .ok r₀)
    (hstart : exec (startDecoder fps now) r₀ = (.ok (),r)) (ops : List MediaOp) :
    (∀ e, (final mediaStep (MediaWorld.start c r) ops).receiver.failure = some e →
      e.disagreement = false) ∧
    ∀ past e later, trace mediaStep (MediaWorld.start c r) ops = past ++ e :: later →
      (∀ p, MediaEvent.takes e = some p → ∃ x ∈ admitted past, p.descriptor = x.descriptor ∧
        p.bytes = x.bytes) ∧
      ∀ err, MediaEvent.error e = some err → err.disagreement = false := by
  have hinit : Agreed config.limits config.bindings [] (MediaWorld.start c r) :=
    ⟨Issued.new hsender,receiving_start hnew hstart,nofun⟩
  have hrun : ∀ ops, Agreed config.limits config.bindings
      (trace mediaStep (MediaWorld.start c r) ops)
      (final mediaStep (MediaWorld.start c r) ops) := fun ops =>
    history_invariant mediaStep hinit (fun _ _ op h => (mediaStep_agreed h op).1) ops
  refine ⟨(hrun ops).receiving.agreeing,fun past e later hs => ?_⟩
  obtain ⟨ops₁,op,_,_,rfl,rfl,_⟩ := trace_split mediaStep hs
  have ht := (mediaStep_agreed (hrun ops₁) op).2
  exact ⟨ht.takes,ht.error⟩

/-- A three-byte bootstrap, its announcement and its chunk, and the hand-over. -/
def sampleExchange : List MediaOp :=
  [.pushShared 64 ⟨7,.idr,1,0,[1,2,3],3⟩ ⟨by decide,by decide,nofun⟩ .recovery 1,
    .nextPacket 200 2,.nextPacket 200 3,.deliverConfig ⟨64,some,some⟩ 4,
    .deliverRecovery ⟨64,some,some⟩ 5,.takeDecodable 6]

theorem media_agreement_sampleExchange : ∃ c r₀ r past e later p,
    SendCache.new 0 sampleConfig.limits sampleConfig.bindings sampleConfig.epoch sampleSendPolicy =
      .ok c ∧
    ReceivePipeline.new sampleConfig
      (MediaBudget.new 0 sampleConfig.limits.protocol) ⟨0,0⟩ = .ok r₀ ∧
    exec (startDecoder (some 30) 0) r₀ = (.ok (),r) ∧
    trace mediaStep (MediaWorld.start c r) sampleExchange = past ++ e :: later ∧
    MediaEvent.takes e = some p ∧ p.bytes = [1,2,3] ∧
    ∃ x ∈ admitted past, p.descriptor = x.descriptor ∧ p.bytes = x.bytes := by
  have hinit : ∃ c r₀ r,
      SendCache.new 0 sampleConfig.limits sampleConfig.bindings sampleConfig.epoch
        sampleSendPolicy = .ok c ∧
      ReceivePipeline.new sampleConfig (MediaBudget.new 0 sampleConfig.limits.protocol)
        ⟨0,0⟩ = .ok r₀ ∧
      exec (startDecoder (some 30) 0) r₀ = (.ok (),r) := ⟨_,_,_,rfl,rfl,rfl⟩
  obtain ⟨c,r₀,r,hc,hr₀,hr⟩ := hinit
  have htr : ∃ past e later p, trace mediaStep (MediaWorld.start c r) sampleExchange = past ++
      e :: later ∧ MediaEvent.takes e = some p ∧ p.bytes = [1,2,3] := by
    cases hc
    cases hr₀
    cases hr
    exact ⟨[_,_,_,_,_],_,[],_,rfl,rfl,rfl⟩
  obtain ⟨past,e,later,p,hs,ht,hb⟩ := htr
  refine ⟨c,r₀,r,past,e,later,p,hc,hr₀,hr,hs,ht,hb,?_⟩
  exact ((media_agreement hc hr₀ hr sampleExchange).2 past e later hs).1 p ht

end FrankenRemote.Delivery
