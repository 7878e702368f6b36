import FrankenRemote.ReceiveEffect

/-! Runs of one receiver, with everyone who shares its fence. A failure fences the epoch until
it is replaced, and a closed receiver stays closed. -/
namespace FrankenRemote.Delivery

open Wire Bytes Procedure SlotTable ReceivePipeline Relation

/-- A picture that the decoder has completed. -/
structure DecodedFrame where
  scope : ℕ
  descriptor : FrameDescriptor
  epoch : MediaEpoch
  bindings : MediaBindings
  displayUntil : ℕ
  deriving DecidableEq

def completeDecode (p : ReceivedPicture) (now : ℕ) : Receiver DecodedFrame := do
  acknowledgeDecode p true now
  let r ← get
  pure ⟨r.scope,p.descriptor,p.epoch,p.bindings,p.displayUntil⟩

def checkDecoderConfiguration (generation : ℕ) (limits : ProtocolLimits) : Receiver Unit := do
  let r ← get
  refuseIf (r.state ≠ .awaitingConfiguration ∨ ¬r.live) .wrongState
  refuseIf (generation ≠ r.config.epoch.configuration) .staleGeneration
  refuseIf (limits ≠ r.config.limits.protocol) .resourceLimit

/-- The binding of the decoder is the fence that it shares. -/
def bindDecoder (generation : ℕ) (limits : ProtocolLimits) (now : ℕ) : Receiver ℕ := do
  checkDecoderConfiguration generation limits
  decoderConfigured now
  let r ← get
  pure r.scope

/-- `DecoderBinding::revoke` and `ReceivedPicture::cancel_decode`: a holder lowers its fence. -/
def ReceivePipeline.revoke (r : ReceivePipeline) (scope : ℕ) : ReceivePipeline :=
  if scope = r.scope then {r with live := false} else r

/-! Runs. -/

inductive ReceiverCall
  | configureFrameRate (fps : ℕ)
  | bindDecoder (generation : ℕ) (limits : ProtocolLimits) (now : ℕ)
  | decoderConfigured (now : ℕ)
  | receive (channel : Channel) (packet : List Byte) (now : ℕ)
  | takeDecodable (now : ℕ)
  | acknowledgeDecode (picture : ReceivedPicture) (success : Bool) (now : ℕ)
  | completeDecode (picture : ReceivedPicture) (now : ℕ)
  | repairOffer (room now : ℕ)
  | tick (now : ℕ)
  | replace (epoch : MediaEpoch) (bindings : MediaBindings) (now : ℕ)
  | close
  | revoke (scope : ℕ)

inductive ReceiverReply
  | window (pictures : ℕ)
  | bound (scope : ℕ)
  | update (update : ReceiveUpdate)
  | picture (picture : Option ReceivedPicture)
  | decoded (frame : DecodedFrame)
  | repair (offer : Option RepairOffer)
  | done
  deriving DecidableEq

def serve (platform : Platform) : ReceiverCall → Receiver ReceiverReply
  | .configureFrameRate fps => do let n ← configureFrameRate fps; pure (.window n)
  | .bindDecoder generation limits now => do
    let scope ← bindDecoder generation limits now
    pure (.bound scope)
  | .decoderConfigured now => do decoderConfigured now; pure .done
  | .receive channel packet now => do let u ← receive platform channel packet now; pure (.update u)
  | .takeDecodable now => do let p ← takeDecodable now; pure (.picture p)
  | .acknowledgeDecode picture success now => do acknowledgeDecode picture success now; pure .done
  | .completeDecode picture now => do let frame ← completeDecode picture now; pure (.decoded frame)
  | .repairOffer room now => do let offer ← repairOffer room now; pure (.repair offer)
  | .tick now => do tick now; pure .done
  | .replace epoch bindings now => do replace epoch bindings now; pure .done
  | .close => do modify close; pure .done
  | .revoke scope => do modify (·.revoke scope); pure .done

namespace Receiver

def step (platform : Platform) (r : ReceivePipeline) (call : ReceiverCall) :
    Except DeliveryError ReceiverReply × ReceivePipeline := exec (serve platform call) r

abbrev Event := Transition.Event ReceivePipeline ReceiverCall (Except DeliveryError ReceiverReply)

def trace (platform : Platform) : ReceivePipeline → List ReceiverCall → List Event :=
  Transition.trace (step platform)

def final (platform : Platform) : ReceivePipeline → List ReceiverCall → ReceivePipeline :=
  Transition.final (step platform)

end Receiver

/-! The fence of a failed or closed receiver is down. -/

/-- No picture of a dead epoch is admitted by anyone. -/
def ReceivePipeline.Fenced (r : ReceivePipeline) : Prop := r.state.dead → r.live = false

def Fences (r t : ReceivePipeline) : Prop := r.Fenced → t.Fenced

variable {r t : ReceivePipeline}

theorem Fences.same (hs : t.state = r.state) (hlive : t.live = r.live) : Fences r t := by
  intro hr hdead
  rw [hlive]
  exact hr (hs ▸ hdead)

theorem Fences.lowered (hlive : t.live = false) : Fences r t := fun _ _ => hlive

theorem Fences.revived (ha : ¬t.state.dead) : Fences r t := fun _ hdead => absurd hdead ha

theorem Fences.discardSuperseded (r : ReceivePipeline) : Fences r r.discardSuperseded := by
  unfold ReceivePipeline.discardSuperseded
  split <;> exact .same rfl rfl

section Fence

variable {α : Type} {ch : Channel} {pk : List Byte} {now : ℕ} {e : DeliveryError}

theorem Stops.fences (h : Stops r e t) : Fences r t := fun hr _ => h.lowered hr

theorem Framed.fences (h : Framed (r.at now) t) : Fences r t := by
  rw [h]
  exact .same rfl rfl

theorem decoderConfigured_fences : Ensures (decoderConfigured now) r fun _ t => Fences r t :=
  decoderConfigured_ensures (fun _ _ h => h.fences) (fun _ => .same rfl rfl)
    fun _ _ => .revived (by rintro (h | h) <;> cases h)

theorem acknowledgeDecode_fences {p success} :
    Ensures (acknowledgeDecode p success now) r fun _ t => Fences r t := by
  refine acknowledgeDecode_ensures (.same rfl rfl) (fun _ _ h => h.fences)
    (fun _ _ => .same rfl rfl) (.lowered rfl)
    fun _ _ _ _ _ _ _ => Fences.discardSuperseded _ fun hdead => ?_
  rcases hdead with h | h <;> cases h

theorem Fences.revoke (r : ReceivePipeline) (scope : ℕ) : Fences r (r.revoke scope) := by
  unfold ReceivePipeline.revoke
  split
  · exact .lowered rfl
  · exact .same rfl rfl

theorem fences_map {β : Type} {m : Receiver α} {f : α → β} (h : Ensures m r fun _ t => Fences r t) :
    Ensures (m >>= fun a => pure (f a)) r fun _ t => Fences r t :=
  .bind h (fun _ _ ht => .pure ht) fun _ _ ht => ht

theorem check_unchanged (g : ℕ) (l : ProtocolLimits) (r : ReceivePipeline) :
    Ensures (checkDecoderConfiguration g l) r fun _ t => t = r :=
  .get_bind (.refuseIf_bind (fun _ => rfl) fun _ => .refuseIf_bind (fun _ => rfl) fun _ =>
    .refuseIf (fun _ => rfl) fun _ => rfl)

theorem serve_fences (p : Platform) (call : ReceiverCall) (r : ReceivePipeline) :
    Ensures (serve p call) r fun _ t => Fences r t := by
  cases call with
  | configureFrameRate fps =>
    refine fences_map (.get_bind ?_)
    exact .refuseIf_bind (fun _ => id) fun _ => .refuseIf_bind (fun _ => id) fun _ =>
      .modify_bind (.pure (.same rfl rfl))
  | bindDecoder g l now =>
    refine fences_map (.bind (check_unchanged g l r) (fun _ _ h => ?_) fun _ _ h => h ▸ id)
    subst h
    exact .bind decoderConfigured_fences (fun _ _ h => .get_bind (.pure h)) fun _ _ h => h
  | decoderConfigured now => exact fences_map decoderConfigured_fences
  | receive ch pk now =>
    exact fences_map (receive_ensures (fun _ => .same rfl rfl) (fun _ _ => .lowered rfl)
      (fun _ _ h => h.fences)
      (fun _ _ => .same rfl rfl) (fun rec _ _ => dispatch_framed p ch rec now _)
      (fun _ _ h => h.fences) (fun _ h => h.fences) fun _ _ _ _ _ => .lowered rfl)
  | takeDecodable now =>
    refine fences_map (takeDecodable_ensures (fun _ _ h => h.fences) (.same rfl rfl)
      fun _ _ ha _ _ => .revived ?_)
    change ¬(if r.state = .awaitingRecovery then ReceiveState.decodingRecovery else r.state).dead
    split
    · rintro (h | h) <;> cases h
    · exact ha
  | acknowledgeDecode picture success now => exact fences_map acknowledgeDecode_fences
  | completeDecode picture now =>
    exact fences_map (.bind acknowledgeDecode_fences (fun _ _ h => .get_bind (.pure h))
      fun _ _ h => h)
  | repairOffer room now =>
    exact fences_map (repairOffer_ensures (fun _ _ h => h.fences) (fun _ => .same rfl rfl)
      fun _ _ _ _ _ _ => .same rfl rfl)
  | tick now => exact fences_map (tick_ensures (fun _ _ h => h.fences) fun _ => .same rfl rfl)
  | replace epoch bindings now =>
    exact fences_map (replace_ensures (fun _ _ h => h.fences) (fun _ => .same rfl rfl)
      fun _ => .revived (by rintro (h | h) <;> cases h))
  | close => exact .modify_bind (.pure (.lowered rfl))
  | revoke scope => exact .modify_bind (.pure (.revoke r scope))

theorem fenced_run (p : Platform) (hr : r.Fenced) (c : List ReceiverCall) :
    (Receiver.final p r c).Fenced :=
  Transition.final_invariant (Receiver.step p) (fun s call hs => serve_fences p call s hs) c hr

end Fence

/-! A dead epoch. -/

/-- Neither a replacement nor the end of the receiver. -/
def ReceiverCall.keepsEpoch : ReceiverCall → Bool
  | .replace .. | .close => false
  | _ => true

def ReceivePipeline.Regresses (r : ReceivePipeline) (now : ℕ) : Prop :=
  r.lastNow.any (now < ·) = true

/-- A packet that is refused for another reason than its binding. -/
def Garbled (r : ReceivePipeline) : ReceiverCall → Prop
  | .receive channel packet _ => ∃ e, e ≠ .invalidBinding ∧
      Record.decode packet r.config.limits (r.config.bindings.forChannel channel) channel = .error e
  | _ => False

/-- The time of a call that reaches the clock of a dead epoch. A decoder, an acknowledgement and a
packet that is not read are refused before it. -/
def ReceivePipeline.clocked (r : ReceivePipeline) : ReceiverCall → Option ℕ
  | .decoderConfigured now | .takeDecodable now | .repairOffer _ now | .tick now
  | .replace _ _ now => some now
  | .receive channel packet now =>
    (Record.decode packet r.config.limits (r.config.bindings.forChannel channel)
      channel).toOption.map fun _ => now
  | _ => none

/-- Neither a garbled packet nor a clock that goes back. -/
def Undisturbed (r : ReceivePipeline) (call : ReceiverCall) : Prop :=
  ¬Garbled r call ∧ ∀ now, r.clocked call = some now → ¬r.Regresses now

/-- A dead epoch stays dead; an undisturbed call also keeps its failure. -/
structure StaysDead (r : ReceivePipeline) (undisturbed : Prop) (t : ReceivePipeline) : Prop where
  dead : t.state.dead
  closed : r.state = .closed → t.state = .closed
  live : t.live = false
  kept : undisturbed → t.state = r.state ∧ t.failure = r.failure ∧ t.failureAt = r.failureAt

/-- A call that gets nothing from a dead epoch. -/
structure Refused {α : Type} (r : ReceivePipeline) (undisturbed : Prop)
    (reply : Except DeliveryError α)
    (t : ReceivePipeline) : Prop extends StaysDead r undisturbed t where
  reply : ∀ a, reply ≠ .ok a

section Refusals

variable {α β : Type} {r : ReceivePipeline} {undisturbed : Prop}

theorem Refused.bind {m : Receiver α} {f : α → Receiver β}
    (h : Ensures m r (Refused r undisturbed)) : Ensures (m >>= f) r (Refused r undisturbed) :=
  Ensures.bind h (fun a _ hr => absurd rfl (hr.reply a)) fun _ _ hr =>
    {hr with reply := nofun}

/-- The clock passes, or closes the receiver. -/
theorem checkClock_bind_refused {now : ℕ} {f : Unit → Receiver α}
    (hc : undisturbed → ¬r.Regresses now) (h : Ensures (f ()) (r.at now) (Refused r undisturbed)) :
    Ensures (checkClock now >>= f) r (Refused r undisturbed) := by
  refine .of_bind (.get_bind (.ite (fun hback => .modify_bind (.throw (.throw ?_))) fun _ => h))
  exact ⟨⟨.inr rfl,fun _ => rfl,rfl,fun hu => absurd hback (hc hu)⟩,nofun⟩

theorem Refused.same (hdead : r.state.dead) (hlive : r.live = false) (e : DeliveryError) :
    Refused (α := α) r undisturbed (.error e) r :=
  ⟨⟨hdead,id,hlive,fun _ => ⟨rfl,rfl,rfl⟩⟩,nofun⟩

theorem unconfigured_of_dead (hdead : r.state.dead) : r.state ≠ .awaitingConfiguration := by
  rcases hdead with h | h <;> rw [h] <;> exact nofun

end Refusals

section Dead

variable {r : ReceivePipeline} (hdead : r.state.dead) (hlive : r.live = false) {undisturbed : Prop}

include hdead hlive

theorem tick_dead {now} (hc : undisturbed → ¬r.Regresses now) :
    Ensures (tick now) r (Refused r undisturbed) := by
  refine checkClock_bind_refused hc (.get_bind (.ite (fun h => absurd hdead h.2) fun _ =>
    .ite (fun _ => .throw ?_) fun ha => absurd hdead ha))
  exact ⟨⟨hdead,id,hlive,fun _ => ⟨rfl,rfl,rfl⟩⟩,nofun⟩

theorem decoderConfigured_dead {now} (hc : undisturbed → ¬r.Regresses now) :
    Ensures (decoderConfigured now) r (Refused r undisturbed) := by
  refine checkClock_bind_refused hc (.get_bind (.refuseIf_bind (fun _ => ?_) fun h =>
    absurd (unconfigured_of_dead hdead) h))
  exact ⟨⟨hdead,id,hlive,fun _ => ⟨rfl,rfl,rfl⟩⟩,nofun⟩

theorem acknowledgeDecode_dead (p : ReceivedPicture) (success : Bool) (now : ℕ) :
    Ensures (acknowledgeDecode p success now) r (Refused r undisturbed) := by
  refine .get_bind (.refuseIf_bind (fun _ => .same hdead hlive _) fun h => ?_)
  rw [hlive] at h
  exact absurd (.inr (.inl (by decide))) h

theorem receive_dead (p : Platform) (ch : Channel) (pk : List Byte) (now : ℕ) :
    Ensures (receive p ch pk now) r (Refused r (Undisturbed r (.receive ch pk now))) := by
  refine .get_bind ?_
  split
  · exact .throw (.same hdead hlive _)
  · rename_i e hne hd
    refine .of_exec (exec_fail _ _) ⟨⟨dead_failed _ _,fun h => if_pos h,rfl,
      fun h => absurd ⟨e,?_,hd⟩ h.1⟩,nofun⟩
    rintro rfl
    exact hne rfl
  · rename_i hd
    exact Refused.bind (tick_dead hdead hlive
      fun h => h.2 now (by rw [ReceivePipeline.clocked,hd]; rfl))

theorem serve_dead (p : Platform) {call : ReceiverCall} (hk : call.keepsEpoch = true)
    (hc : ∀ scope, call ≠ .revoke scope) : Ensures (serve p call) r
      (Refused r (Undisturbed r call)) := by
  cases call with
  | configureFrameRate fps =>
    refine Refused.bind (.get_bind (.refuseIf_bind (fun _ => .same hdead hlive _) fun _ =>
      .refuseIf_bind (fun _ => .same hdead hlive _) fun h => ?_))
    exact absurd (.inl (unconfigured_of_dead hdead)) h
  | bindDecoder generation limits now =>
    refine Refused.bind
      (Refused.bind (.get_bind (.refuseIf_bind (fun _ => .same hdead hlive _) fun h => ?_)))
    exact absurd (.inl (unconfigured_of_dead hdead)) h
  | decoderConfigured now =>
    exact Refused.bind (decoderConfigured_dead hdead hlive fun h => h.2 now rfl)
  | receive ch pk now => exact Refused.bind (receive_dead hdead hlive p ch pk now)
  | takeDecodable now | repairOffer room now =>
    exact Refused.bind (Refused.bind (tick_dead hdead hlive fun h => h.2 now rfl))
  | acknowledgeDecode picture success now =>
    exact Refused.bind (acknowledgeDecode_dead hdead hlive picture success now)
  | completeDecode picture now =>
    exact Refused.bind (Refused.bind (acknowledgeDecode_dead hdead hlive picture true now))
  | tick now => exact Refused.bind (tick_dead hdead hlive fun h => h.2 now rfl)
  | replace | close => cases hk
  | revoke scope => exact absurd rfl (hc scope)

theorem step_dead (p : Platform) {call : ReceiverCall} (hk : call.keepsEpoch = true) :
    (∀ reply, (Receiver.step p r call).1 = .ok reply → ∃ scope, call = .revoke scope) ∧
      StaysDead r (Undisturbed r call) (Receiver.step p r call).2 := by
  by_cases hc : ∃ scope, call = .revoke scope
  · obtain ⟨scope,rfl⟩ := hc
    have hstep : (Receiver.step p r (.revoke scope)).2 = r.revoke scope := rfl
    rw [hstep,ReceivePipeline.revoke]
    refine ⟨fun _ _ => ⟨scope,rfl⟩,?_⟩
    split
    · exact ⟨hdead,id,rfl,fun _ => ⟨rfl,rfl,rfl⟩⟩
    · exact ⟨hdead,id,hlive,fun _ => ⟨rfl,rfl,rfl⟩⟩
  · have hr := serve_dead hdead hlive p hk fun scope h => hc ⟨scope,h⟩
    exact ⟨fun a h => absurd h (hr.reply a),hr.toStaysDead⟩

theorem run_dead (p : Platform) (c : List ReceiverCall) (hkp : ∀ call ∈ c, call.keepsEpoch = true) :
    (∀ e ∈ Receiver.trace p r c, ∀ reply, e.reply = .ok reply → ∃ scope, e.input = .revoke scope) ∧
      ((∀ e ∈ Receiver.trace p r c, Undisturbed e.before e.input) →
        (Receiver.final p r c).state = r.state ∧ (Receiver.final p r c).failure = r.failure ∧
          (Receiver.final p r c).failureAt = r.failureAt) := by
  induction c generalizing r with
  | nil => exact ⟨fun e he => (by cases he),fun _ => ⟨rfl,rfl,rfl⟩⟩
  | cons call c ih =>
    obtain ⟨hr,⟨hdead',_,hlive',hk⟩⟩ := step_dead hdead hlive p (hkp call (.head _))
    obtain ⟨hrep,hk'⟩ := ih hdead' hlive' fun call hc => hkp call (.tail _ hc)
    refine ⟨fun e he => ?_,fun hcalm => ?_⟩
    · rcases List.mem_cons.mp he with rfl | he
      · exact hr
      · exact hrep e he
    · obtain ⟨hs,hf,ha⟩ := hk (hcalm _ (.head _))
      obtain ⟨hs',hf',ha'⟩ := hk' fun e he => hcalm e (.tail _ he)
      exact ⟨hs'.trans hs,hf'.trans hf,ha'.trans ha⟩

end Dead

section Closed

variable {r : ReceivePipeline} (p : Platform)

theorem replace_closed (ep : MediaEpoch) (b : MediaBindings) (now : ℕ) (hc : r.state = .closed) :
    Ensures (replace ep b now) r fun _ t => t.state = .closed := by
  refine .of_bind (.get_bind (.ite (fun _ => .modify_bind (.throw (.throw rfl))) fun _ => ?_))
  exact .of_exec (exec_modify _ _)
    (.get_bind (.refuseIf_bind (fun _ => hc) fun hnot => absurd hc hnot))

theorem step_closed (hc : r.state = .closed) (hf : r.Fenced) (call : ReceiverCall) :
    (Receiver.step p r call).2.state = .closed := by
  by_cases hk : call.keepsEpoch = true
  · exact (step_dead (.inr hc) (hf (.inr hc)) p hk).2.closed hc
  · cases call with
    | replace epoch bs now =>
      have hs : Ensures (serve p (.replace epoch bs now)) r fun _ t => t.state = .closed :=
        Ensures.bind (replace_closed epoch bs now hc) (fun _ _ ht => .pure ht) fun _ _ ht => ht
      exact hs
    | close => rfl
    | _ => exact absurd rfl hk

theorem run_closed (hc : r.state = .closed) (hf : r.Fenced) (c : List ReceiverCall) :
    (Receiver.final p r c).state = .closed :=
  (Transition.final_invariant (I := fun t => t.state = .closed ∧ t.Fenced) (Receiver.step p)
    (fun s call ⟨hc,hf⟩ => ⟨step_closed p hc hf call,serve_fences p call s hf⟩)
      c ⟨hc,hf⟩).1

end Closed

/-! Packets of others. -/

/-- The binding in the header of a packet. -/
def CarriesBinding (packet : List Byte) (binding : ℕ) : Prop :=
  ∃ kind payloadLen extLen rest, parse recordHeader packet =
    .ok ((kind,payloadLen,binding,extLen),rest)

theorem decode_foreign {pk} {l : MediaLimits} {b re ch} (hc : CarriesBinding pk re) (hne : re ≠ b)
      (hs : pk.length ≤ l.recordBytes) : Record.decode pk l b ch = .error .invalidBinding := by
  obtain ⟨_,_,_,_,hh⟩ := hc
  rw [Record.decode,Record.decodeBounded,if_neg (not_lt.mpr hs),recordBody,parse_bind_ok hh]
  simp only []
  rw [parse_rejectIf_bind,if_pos (.inr hne)]
  rfl

theorem step_foreign {pk re now ch} (p : Platform) (hc : CarriesBinding pk re)
      (hne : re ≠ r.config.bindings.forChannel ch) (hs : pk.length ≤ r.config.limits.recordBytes) :
    Receiver.step p r (.receive ch pk now) = (.error .staleGeneration,r) := by
  have hr : exec (receive p ch pk now) r = (.error .staleGeneration,r) := by
    rw [receive,exec_get_bind,decode_foreign hc hne hs]
    rfl
  exact exec_bind_error hr

theorem failure_fenced {config : ReceiveConfig} {budget : MediaBudget} {outside : BudgetUsage}
    {r₀ r : ReceivePipeline} (p : Platform) (past : List ReceiverCall)
    (hnew : ReceivePipeline.new config budget outside = .ok r₀)
    (hr : Receiver.final p r₀ past = r) :
    (r.state = .needsRecovery → ∀ calls, (∀ call ∈ calls, call.keepsEpoch = true) →
      (∀ e ∈ Receiver.trace p r calls, ∀ reply, e.reply = .ok reply →
        ∃ scope, e.input = .revoke scope) ∧
      ((∀ e ∈ Receiver.trace p r calls, Undisturbed e.before e.input) →
        (Receiver.final p r calls).failure = r.failure ∧
        (Receiver.final p r calls).failureAt = r.failureAt)) ∧
    (∀ ch pk received now, CarriesBinding pk received → received ≠ r.config.bindings.forChannel ch →
      pk.length ≤ r.config.limits.recordBytes →
      Receiver.step p r (.receive ch pk now) = (.error .staleGeneration,r)) ∧
    (r.state = .closed → ∀ calls, (Receiver.final p r calls).state = .closed) := by
  have hf : r.Fenced := by
    rw [← hr]
    refine fenced_run p ?_ past
    obtain ⟨_,_,hnew⟩ := bind_eq_ok.mp hnew
    split at hnew
    · cases hnew
    · cases hnew
      rintro (h | h) <;> cases h
  refine ⟨fun hs calls hkp => ?_,fun _ _ _ _ => step_foreign p,
    fun hc => run_closed p hc hf⟩
  obtain ⟨hrep,hk⟩ := run_dead (.inl hs) (hf (.inl hs)) p calls hkp
  exact ⟨hrep,fun hcalm => (hk hcalm).2⟩

/-- The recovery of this receiver expires, and the next call sees it. -/
def expiredRun : List ReceiverCall := [.decoderConfigured 10,.tick 2000020]

def sampleReceiver : Except DeliveryError ReceivePipeline :=
  ReceivePipeline.new sampleConfig (MediaBudget.new 0 sampleConfig.limits.protocol) ⟨0,0⟩

def samplePlatform : Platform := ⟨64,some,some⟩

/-- An empty packet after the failure replaces it, with a later time. -/
theorem garbled_rewrites_failure :
    ∃ r₀ r, sampleReceiver = .ok r₀ ∧ Receiver.final samplePlatform r₀ expiredRun = r ∧
    r.state = .needsRecovery ∧ r.failure = some .recoveryExpired ∧ r.failureAt = some 2000020 ∧
    (Receiver.final samplePlatform r [.tick 3000000,.receive .video [] 3000000]).failure =
      some (.wire .truncated) ∧
    (Receiver.final samplePlatform r [.tick 3000000,.receive .video [] 3000000]).failureAt =
      some 3000000 :=
  ⟨_,_,rfl,rfl,rfl,rfl,rfl,rfl,rfl⟩

theorem failure_fenced_expired :
    ∃ r₀ r, sampleReceiver = .ok r₀ ∧ Receiver.final samplePlatform r₀ expiredRun = r ∧
    r.state = .needsRecovery ∧
    (Receiver.final samplePlatform r [.tick 3000000,.takeDecodable 3000000]).failureAt =
      some 2000020 := by
  obtain ⟨r₀,hnew⟩ : ∃ r₀, sampleReceiver = .ok r₀ := ⟨_,rfl⟩
  obtain ⟨r,hr⟩ : ∃ r, Receiver.final samplePlatform r₀ expiredRun = r := ⟨_,rfl⟩
  have ha : r.state = .needsRecovery ∧ r.failureAt = some 2000020 ∧ r.lastNow = some 2000020 ∧
      (Receiver.step samplePlatform r (.tick 3000000)).2.lastNow = some 3000000 := by
    cases hnew
    cases hr
    exact ⟨rfl,rfl,rfl,rfl⟩
  obtain ⟨hs,hat,hn,hn'⟩ := ha
  have hf := failure_fenced samplePlatform expiredRun hnew hr
  refine ⟨r₀,r,hnew,hr,hs,?_⟩
  refine ((hf.1 hs _ (by decide)).2 fun e he => ?_).2.trans hat
  rcases List.mem_cons.mp he with rfl | he
  · exact ⟨id,fun now h => (by cases h; rw [ReceivePipeline.Regresses,hn]; decide)⟩
  · cases List.mem_singleton.mp he
    exact ⟨id,fun now h => (by cases h; rw [ReceivePipeline.Regresses,hn']; decide)⟩

end FrankenRemote.Delivery
