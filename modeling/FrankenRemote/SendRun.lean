import FrankenRemote.SendEffect
import FrankenRemote.Transition

/-! Runs of one sender: every public call in any order, with any arguments and clock samples,
over any number of generations. -/
namespace FrankenRemote.Delivery

open Wire Bytes Procedure SlotTable SendCache

inductive SendOp
  | push (recordBytes : ℕ) (progress : Progress) (payload : PictureBytes) (mode : DeliveryMode)
      (now : ℕ)
  | pushShared (recordBytes : ℕ) (frame : SharedFrame) (mode : DeliveryMode) (now : ℕ)
  | nextPacket (room now : ℕ)
  | queueRepair (packet : List Byte) (now : ℕ)
  | nextRepairPacket (room now : ℕ)
  | observeUnchanged (frame observedMicros now : ℕ)
  | authorizeWrite (offer : PacketOffer) (now : ℕ)
  | tick (now : ℕ)
  | awaitRecoveryRequest (now : ℕ)
  | abandonExpiredOffer (offer : PacketOffer) (now : ℕ)
  | requestRecovery (bytes : List Byte) (binding : DecoderBinding) (now : ℕ)
  | replace (epoch : MediaEpoch) (bindings : MediaBindings) (now : ℕ)
  | close

def SendOp.time : SendOp → Option ℕ
  | .push _ _ _ _ now => some now
  | .pushShared _ _ _ now => some now
  | .nextPacket _ now => some now
  | .queueRepair _ now => some now
  | .nextRepairPacket _ now => some now
  | .observeUnchanged _ _ now => some now
  | .authorizeWrite _ now => some now
  | .tick now => some now
  | .awaitRecoveryRequest now => some now
  | .abandonExpiredOffer _ now => some now
  | .requestRecovery _ _ now => some now
  | .replace _ _ now => some now
  | .close => none

inductive SendReply
  | done (result : Except SendError Unit)
  | prepared (result : Except SendError (Option PacketOffer))
  | observed (result : Except SendError Bool)
  | recovery (result : Except SendError RecoveryDisposition)
  | closed

/-- A call of the sender and its reply. -/
def sends {α : Type} (reply : Except SendError α → SendReply) (m : Sender α) (c : SendCache) :
    SendReply × SendCache :=
  (reply (exec m c).1,(exec m c).2)

def sendStep (c : SendCache) : SendOp → SendReply × SendCache
  | .push recordBytes progress payload mode now =>
    sends .done (SendCache.pushPicture recordBytes progress payload mode now) c
  | .pushShared recordBytes frame mode now =>
    sends .done (SendCache.pushShared recordBytes frame mode now) c
  | .nextPacket room now => sends .prepared (SendCache.nextPacket room now) c
  | .queueRepair packet now => sends .done (SendCache.queueRepair packet now) c
  | .nextRepairPacket room now => sends .prepared (SendCache.nextRepairPacket room now) c
  | .observeUnchanged frame observed now =>
    sends .observed (SendCache.observeUnchanged frame observed now) c
  | .authorizeWrite offer now => sends .done (SendCache.authorizeWrite offer now) c
  | .tick now => sends .done (SendCache.tick now) c
  | .awaitRecoveryRequest now => sends .done (SendCache.awaitRecoveryRequest now) c
  | .abandonExpiredOffer offer now => sends .done (SendCache.abandonExpiredOffer offer now) c
  | .requestRecovery bytes binding now =>
    sends .recovery (SendCache.requestRecovery bytes binding now) c
  | .replace epoch bindings now => sends .done (SendCache.replace epoch bindings now) c
  | .close => (.closed,c.close)

abbrev SendEvent := Transition.Event SendCache SendOp SendReply

def SendEvent.after (e : SendEvent) : SendCache := (sendStep e.before e.input).2

/-! What a call did, as its caller can tell from the reply. -/

/-- A picture as its encoder handed it over, and the lane it was meant for. -/
structure Entry where
  progress : Progress
  bytes : List Byte
  mode : DeliveryMode
  deriving DecidableEq

def Entry.descriptor (x : Entry) : FrameDescriptor := x.progress.descriptor

inductive SendAct
  | silent
  | accept (entry : Entry)
  | offer (offer : PacketOffer)
  | queue (frame now : ℕ)
  | demand (demand : RecoveryDemand)
  | renew
  deriving DecidableEq

def SendEvent.act (e : SendEvent) : SendAct :=
  match e.input, e.reply with
  | .push _ progress payload mode _, .done (.ok ()) => .accept ⟨progress,payload.bytes,mode⟩
  | .pushShared _ frame mode _, .done (.ok ()) =>
    match frame.progress e.before.limits.fragmentStride with
    | .ok progress => .accept ⟨progress,frame.bytes,mode⟩
    | .error _ => .silent
  | .nextPacket _ _, .prepared (.ok (some offer)) => .offer offer
  | .nextRepairPacket _ _, .prepared (.ok (some offer)) => .offer offer
  | .queueRepair packet now, .done (.ok ()) =>
    match SendCache.repairRequest e.before packet with
    | .ok request => .queue request.frame now
    | .error _ => .silent
  | .requestRecovery _ _ _, .recovery (.ok (.accepted demand)) => .demand demand
  | .replace _ _ _, .done (.ok ()) => .renew
  | _, _ => .silent

open SendCache in
/-- Everything a call can do, at the clock sample `now`. -/
inductive SendEffect (e : SendEvent) (now : ℕ) (t : SendCache) : Prop
  | lapsed (h : Lapses now e.before t) (hact : e.act = .silent)
  | inserted {s i p} (h : Lapses now e.before s)
      (hready : Ready now s) (hadmissible : Admissible s p i) (hnew : p.announced = false)
      (hcursor : p.nextOriginal = 0) (hrounds : p.repairRounds = 0) (hrepair : p.repair = none)
      (hact : e.act = .accept ⟨p.progress,p.bytes,p.mode⟩)
      (ht : t = s.inserted i p (s.usedBytes + p.charged))
  | original {s i p sent channel packet room} (h : Lapses now e.before s) (hready : Ready now s)
      (hpending : s.pending = some (i,p)) (hsent : s.original p room = .ok (channel,packet,sent))
      (hact : e.act = .offer ⟨channel,packet,p.descriptor.frame,p.sendBy,s.owner,s.epoch,.original⟩)
      (ht : t = s.put i sent)
  | observation {s : SendCache} {o : PendingObservation} {packet : List Byte}
      (h : Lapses now e.before s) (hready : Ready now s)
      (hact : e.act = .offer ⟨.mediaConfig,packet,o.progress.descriptor.frame,o.sendBy,
        s.owner,s.epoch,.observation⟩) (ht : t = {s with observation := none})
  | repaired {s i p job f packet room} (h : Lapses now e.before s) (hready : Ready now s)
      (hcandidate : Candidate s i p job) (hf : p.fragment job.fragment = .ok f)
      (hpacket : encodeFragment f (s.bindings.forChannel .video) s.limits room = .ok packet)
      (hact : e.act = .offer ⟨.video,packet,p.descriptor.frame,p.sendBy,s.owner,s.epoch,.repair⟩)
      (ht : t = s.repaired i p job packet.length)
  | queued {s request i p job} (h : Lapses now e.before s) (hready : Ready now s)
      (hrequest : ∃ packet, repairRequest e.before packet = .ok request)
      (hp : s.pictures i = some p) (hrepairable : Repairable s now request p job)
      (hact : e.act = .queue request.frame now)
      (ht : t = s.put i (askedPicture p (now + s.policy.minimumRepairIntervalMicros) job))
  | observed {s q o} (h : Lapses now e.before s)
      (hready : Ready now s) (hact : e.act = .silent)
      (ht : t = {s with lastProgress := some q, observation := some o})
  | awaited {s u d} (h : Lapses now e.before s) (hopen : ¬s.closed = true)
      (hneeds : s.needsRecovery = true) (hnone : s.recoveryRequest = none)
      (hfirst : s.firstFailureDeadline = some d) (hcharged : Charged now s u)
      (hact : e.act = .silent) (ht : t = {u with recoveryRequest := some ⟨none,none,d⟩})
  | demanded {s u request binding d}
      (h : Lapses now e.before s) (hopen : ¬s.closed = true)
      (hfirst : ∀ r, s.recoveryRequest = some r → r.request = none)
      (hdeadline : s.recoveryDeadline = some d ∨
        (s.recoveryDeadline = none ∧ deadline now s.policy.recoveryHorizonMicros = .ok d))
      (hcharged : Charged now s u) (hact : e.act = .demand ⟨u.owner,u.epoch,request,d⟩)
      (ht : t = u.accepted request binding d)
  | renewed {s u epoch bindings}
      (h : Lapses now e.before s) (hopen : ¬s.closed = true) (hnewer : epoch.replaces s.epoch)
      (hbindings : bindings.allNewerThan s.bindings = true) (hcharged : u = s ∨ Charged now s u)
      (hfailed : s.needsRecovery = true → Charged now s u) (hact : e.act = .renew)
      (ht : t = u.renewed epoch bindings)
  | overran {s} (h : Lapses now e.before s) (hover : Overrun now s)
      (hact : e.act = .silent) (ht : t = s.overrun now)

/-- What no call changes. -/
structure Steady (c t : SendCache) : Prop where
  owner : t.owner = c.owner
  limits : t.limits = c.limits
  policy : t.policy = c.policy

/-- A call stays in its generation, where death is final, or starts a later one. -/
inductive Generation (e : SendEvent) (t : SendCache) : Prop
  | same (hepoch : t.epoch = e.before.epoch) (hbindings : t.bindings = e.before.bindings)
      (hdead : e.before.dead → t.dead)
  | next (hnewer : t.epoch.replaces e.before.epoch)
      (hbindings : t.bindings.allNewerThan e.before.bindings = true) (hact : e.act = .renew)

variable {now : ℕ}

theorem SendEffect.steady {e t} (h : SendEffect e now t) : Steady e.before t := by
  cases h with
  | lapsed hl _ => exact {hl.fixed with}
  | inserted hl _ _ _ _ _ _ _ ht | original hl _ _ _ _ ht | observation hl _ _ ht
  | repaired hl _ _ _ _ _ ht | queued hl _ _ _ _ _ ht | observed hl _ _ ht | overran hl _ _ ht =>
    subst ht
    exact {hl.fixed with}
  | awaited hl _ _ _ _ hc _ ht | demanded hl _ _ _ hc _ ht =>
    subst ht
    rw [hc.frame]
    exact {hl.fixed with}
  | renewed hl _ _ _ hc _ _ ht =>
    subst ht
    rcases hc with rfl | hc
    · exact {hl.fixed with}
    · rw [hc.frame]
      exact {hl.fixed with}

theorem SendEffect.generation {e t} (h : SendEffect e now t) : Generation e t := by
  cases h with
  | lapsed hl _ => exact .same hl.fixed.epoch hl.fixed.bindings hl.fixed.dead
  | inserted hl _ _ _ _ _ _ _ ht | original hl _ _ _ _ ht | observation hl _ _ ht
  | repaired hl _ _ _ _ _ ht | queued hl _ _ _ _ _ ht | observed hl _ _ ht =>
    subst ht
    exact .same hl.fixed.epoch hl.fixed.bindings hl.fixed.dead
  | awaited hl _ _ _ _ hc _ ht =>
    subst ht
    rw [hc.frame]
    exact .same hl.fixed.epoch hl.fixed.bindings hl.fixed.dead
  | demanded hl _ _ _ hc _ ht =>
    subst ht
    rw [hc.frame]
    exact .same hl.fixed.epoch hl.fixed.bindings fun _ => .inr rfl
  | renewed hl _ hn hb _ _ ha ht =>
    subst ht
    rw [hl.fixed.epoch] at hn
    rw [hl.fixed.bindings] at hb
    exact .next hn hb ha
  | overran hl _ _ ht =>
    subst ht
    exact .same hl.fixed.epoch hl.fixed.bindings fun _ => .inl rfl

variable {op : SendOp}

theorem sendEffect_of_ensures {α : Type} {m : Sender α} {c : SendCache}
    {reply : Except SendError α → SendReply} (ho : sendStep c op = sends reply m c)
    (hm : Ensures m c fun res t => SendEffect ⟨c,op,reply res⟩ now t) :
    SendEffect ⟨c,op,(sendStep c op).1⟩ now (sendStep c op).2 := by
  rw [ho]
  exact hm

section Calls

variable {c t : SendCache} {now : ℕ}

theorem sendEffect_pushed {progress} {p : PictureBytes} {mode r}
    (hrf : ∀ e, SendEvent.act ⟨c,op,.done (.error e)⟩ = .silent)
    (ha : SendEvent.act ⟨c,op,.done (.ok ())⟩ = .accept ⟨progress,p.bytes,mode⟩) :
    Ensures (pushPicture r progress p mode now) c fun res t => SendEffect ⟨c,op,.done res⟩ now t :=
  pushPicture_ensures (fun e _ h => .lapsed h (hrf e))
    fun _ _ _ h hr had => .inserted h hr had rfl rfl rfl rfl ha rfl

theorem sendEffect_awaited {res}
    (ha : ∀ res, SendEvent.act ⟨c,op,.done res⟩ = .silent) (h : SendCache.AwaitResult c now res t) :
    SendEffect ⟨c,op,.done res⟩ now t := by
  cases h with
  | refused h | waiting h => exact .lapsed h (ha _)
  | exceeded h hover => exact .overran h hover (ha _) rfl
  | awaited h ho hn hnn hf hc =>
    exact .awaited h ho hn hnn hf hc (ha _) rfl

end Calls

theorem sendStep_effect (c : SendCache) (op : SendOp) :
    SendEffect ⟨c,op,(sendStep c op).1⟩ (op.time.getD 0) (sendStep c op).2 := by
  cases op with
  | push n progress payload mode now =>
    exact sendEffect_of_ensures rfl (sendEffect_pushed (fun _ => rfl) rfl)
  | pushShared n frame mode now =>
    refine sendEffect_of_ensures rfl (pushShared_ensures (fun _ _ h => .lapsed h rfl)
      fun _ hpg => ?_)
    exact sendEffect_pushed (fun _ => rfl) (by simp only [SendEvent.act,hpg])
  | nextPacket room now =>
    exact sendEffect_of_ensures rfl (nextPacket_ensures (fun _ _ h _ => .lapsed h rfl)
      (fun _ _ h _ _ => .lapsed h rfl) (fun _ h _ _ => .lapsed h rfl)
      (fun _ _ _ _ _ _ h hr hpd hs => .original h hr hpd hs rfl rfl)
      fun _ _ _ h hr _ _ _ => .observation h hr rfl rfl)
  | queueRepair p now =>
    refine sendEffect_of_ensures rfl (queueRepair_ensures (fun _ _ h => .lapsed h rfl) ?_)
    intro _ _ _ _ _ h hr hrq hp hrepairable
    exact .queued h hr ⟨p,hrq⟩ hp hrepairable (by simp only [SendEvent.act,hrq]; rfl) rfl
  | nextRepairPacket room now =>
    exact sendEffect_of_ensures rfl (nextRepairPacket_ensures (fun _ _ h => .lapsed h rfl)
      (fun _ h => .lapsed h rfl) fun _ _ _ _ _ _ h hr hc hf hpk => .repaired h hr hc hf hpk rfl rfl)
  | observeUnchanged frame observed now =>
    exact sendEffect_of_ensures rfl (observeUnchanged_ensures (fun _ _ h => .lapsed h rfl)
      fun _ _ _ h hr _ _ => .observed h hr rfl rfl)
  | authorizeWrite offer now =>
    exact sendEffect_of_ensures rfl ((authorizeWrite_ensures offer now c).mono
      fun _ _ h => .lapsed h.1 rfl)
  | tick now =>
    exact sendEffect_of_ensures rfl (SendCache.tick_ensures (fun _ _ h _ => .lapsed h rfl)
      fun _ h _ => .lapsed h rfl)
  | awaitRecoveryRequest now =>
    exact sendEffect_of_ensures rfl ((awaitRecoveryRequest_ensures (.refl now c)).mono
      fun _ _ => sendEffect_awaited fun _ => rfl)
  | abandonExpiredOffer offer now =>
    exact sendEffect_of_ensures rfl ((abandonExpiredOffer_ensures offer now c).mono
      fun _ _ => sendEffect_awaited fun _ => rfl)
  | requestRecovery bytes binding now =>
    exact sendEffect_of_ensures rfl (requestRecovery_ensures (fun _ _ h => .lapsed h rfl)
      (fun _ h hover => .overran h hover rfl rfl) (fun _ h => .lapsed h rfl)
      fun _ _ _ _ h ho hfirst hd hch => .demanded h ho hfirst hd hch rfl rfl)
  | replace epoch bindings now =>
    exact sendEffect_of_ensures rfl (SendCache.replace_ensures (fun _ _ h => .lapsed h rfl)
      (fun _ h hover => .overran h hover rfl rfl)
      fun _ _ h ho hn hb hch hfl => .renewed h ho hn hb hch hfl rfl rfl)
  | close => exact .lapsed ((Lapses.refl _ c).step (.closed c)) rfl

end FrankenRemote.Delivery
