import FrankenRemote.Primitives
import FrankenRemote.Transition

/-! One viewer's lane of host audio: configuration, packets of the shared ring, and the stops of
either side. The ring is whatever its owner shows at each call. -/
namespace FrankenRemote.Audio

open Transition

inductive AudioDirection
  | downlink | uplink
  deriving DecidableEq

inductive AudioChannels
  | mono | stereo
  deriving DecidableEq

inductive AudioStopReason
  | userMute | sessionEnded | deviceChanged | bufferOverflow | hostDisabled
  deriving DecidableEq

inductive Error
  | staleGeneration | wrongState | invalid
  deriving DecidableEq

structure SourceStream where
  generation : ℕ
  channels : AudioChannels
  frameDurationMs : ℕ
  deriving DecidableEq

inductive SourceState
  | idle
  | live (stream : SourceStream)
  | ended (generation : ℕ) (reason : AudioStopReason)

structure Stamped where
  sequence : ℕ
  capturedUs : ℕ

structure AudioRing where
  state : SourceState
  packets : List Stamped
  lastSequence : Option ℕ

structure AudioConfigured where
  direction : AudioDirection
  generation : ℕ
  accepted : Bool
  actualChannels : AudioChannels
  actualSampleRate : ℕ
  actualFrameDurationMs : ℕ

structure AudioStop where
  direction : AudioDirection
  generation : ℕ
  reason : AudioStopReason
  deriving DecidableEq

def opusSampleRate : ℕ := 48000
def maxPacketAgeUs : ℕ := 40000
def configureTimeoutUs : ℕ := 5000000
def maxLaneRestarts : ℕ := 8
def healthyEpochPackets : ℕ := 3000

def Stamped.sendDeadline (p : Stamped) (now : ℕ) : Option ℕ :=
  (checkedAdd p.capturedUs maxPacketAgeUs).filter fun until_ => p.capturedUs ≤ now ∧ now < until_

/-- What follows once a stop was sent. -/
inductive Then
  | reconfigure | stop
  deriving DecidableEq

inductive LaneState
  | waiting
  | configuring (stream : SourceStream) (epoch : ℕ) (until_ : Option ℕ)
  | active (stream : SourceStream) (epoch next : ℕ)
  | stopping (epoch : ℕ) (reason : AudioStopReason) (then_ : Then)
  | stopped
  deriving DecidableEq

inductive LaneAction
  | nothing
  | configure (stream : SourceStream) (epoch : ℕ)
  | packet (sequence generation : ℕ)
  | stop (stop : AudioStop)
  deriving DecidableEq

structure RestartBudget where
  unproven : ℕ := 0
  epochStart : ℕ := 0
  deriving DecidableEq

def RestartBudget.spend (b : RestartBudget) (packets : ℕ) : Bool × RestartBudget :=
  let unproven := if healthyEpochPackets ≤ packets - b.epochStart then 0 else b.unproven
  if unproven < maxLaneRestarts then (true,⟨unproven+1,packets⟩) else (false,⟨unproven,packets⟩)

structure AudioLane where
  state : LaneState := .waiting
  lastEpoch : Option ℕ := none
  sent : ℕ := 0
  budget : RestartBudget := {}
  deriving DecidableEq

namespace AudioLane

def wantsAudio (l : AudioLane) : Bool :=
  match l.state with
  | .stopped | .stopping _ _ .stop => false
  | _ => true

def nextEpoch (l : AudioLane) : Option ℕ := l.lastEpoch.elim (some 1) (checkedAdd · 1)

def stopWith (l : AudioLane) (epoch : ℕ) (reason : AudioStopReason) (then_ : Then) :
    LaneAction × AudioLane :=
  (.stop ⟨.downlink,epoch,reason⟩,{l with state := .stopping epoch reason then_})

/-- A source that ended or restarted under the lane, and what to do about it. -/
def superseded (ring : AudioRing) (stream : SourceStream) : Option (AudioStopReason × Then) :=
  match ring.state with
  | .live live =>
    if live.generation = stream.generation then none else some (.deviceChanged,.reconfigure)
  | .ended _ reason => some (reason,.stop)
  | .idle => some (.hostDisabled,.reconfigure)

def advancePast (l : AudioLane) (stream : SourceStream) (epoch sequence : ℕ) : AudioLane :=
  {l with
    state := (checkedAdd sequence 1).elim (.stopping epoch .sessionEnded .stop)
      (.active stream epoch)}

/-- The loop over the retained packets. What lies before a packet that was taken up is behind the
cursor from then on, so the search goes on after it. -/
def scan (l : AudioLane) (stream : SourceStream) (epoch now : ℕ) :
    ℕ → List Stamped → LaneAction × AudioLane
  | next,[] => (.nothing,{l with state := .active stream epoch next})
  | next,p :: rest =>
    if p.sequence < next then l.scan stream epoch now next rest
    else if (p.sendDeadline now).isSome then
      (.packet p.sequence epoch,{l with state := .active stream epoch p.sequence})
    else
      match checkedAdd p.sequence 1 with
      | none => l.stopWith epoch .sessionEnded .stop
      | some next => l.scan stream epoch now next rest

def next (l : AudioLane) (ring : AudioRing) (now : ℕ) : LaneAction × AudioLane :=
  match l.state with
  | .stopped => (.nothing,l)
  | .stopping epoch reason _ => (.stop ⟨.downlink,epoch,reason⟩,l)
  | .waiting =>
    match ring.state,l.nextEpoch with
    | .idle,_ => (.nothing,l)
    | _,none => (.nothing,{l with state := .stopped})
    | .live stream,some epoch =>
      (.configure stream epoch,
        {l with state := .configuring stream epoch none, lastEpoch := some epoch})
    | .ended _ reason,some epoch => {l with lastEpoch := some epoch}.stopWith epoch reason .stop
  | .configuring stream epoch until_ =>
    match superseded ring stream,until_ with
    | some (reason,then_),_ => l.stopWith epoch reason then_
    | none,none => (.configure stream epoch,l)
    | none,some until_ =>
      if until_ ≤ now then l.stopWith epoch .sessionEnded .stop else (.nothing,l)
  | .active stream epoch next =>
    match superseded ring stream with
    | some (reason,then_) => l.stopWith epoch reason then_
    | none => l.scan stream epoch now next ring.packets

def configurationSent (l : AudioLane) (now : ℕ) : Except Error Unit × AudioLane :=
  match l.state with
  | .configuring stream epoch none => (.ok (),{l with
      state := .configuring stream epoch (some (min (now+configureTimeoutUs) (2^64-1)))})
  | _ => (.error .wrongState,l)

def packetSent (l : AudioLane) (sequence : ℕ) : Except Error Unit × AudioLane :=
  match l.state with
  | .active stream epoch next =>
    if next = sequence then (.ok (),{l with sent := l.sent+1}.advancePast stream epoch sequence)
    else (.error .wrongState,l)
  | _ => (.error .wrongState,l)

def stopSent (l : AudioLane) : Except Error Unit × AudioLane :=
  match l.state with
  | .stopping _ _ .reconfigure => (.ok (),{l with state := .waiting})
  | .stopping _ _ .stop => (.ok (),{l with state := .stopped})
  | _ => (.error .wrongState,l)

def configured (l : AudioLane) (ack : AudioConfigured) (ring : AudioRing) (now : ℕ) :
    Except Error Unit × AudioLane :=
  match l.state with
  | .configuring stream epoch (some until_) =>
    if ack.generation ≠ epoch ∨ ack.direction ≠ .downlink then (.error .staleGeneration,l)
    else if until_ ≤ now then (.error .wrongState,(l.stopWith epoch .sessionEnded .stop).2)
    else if ack.accepted = false then (.ok (),{l with state := .stopped})
    else if ack.actualChannels ≠ stream.channels ∨ ack.actualSampleRate ≠ opusSampleRate ∨
        ack.actualFrameDurationMs ≠ stream.frameDurationMs then
      (.error .invalid,(l.stopWith epoch .sessionEnded .stop).2)
    else (.ok (),ring.lastSequence.elim {l with state := .active stream epoch 0}
      (l.advancePast stream epoch))
  | _ => (.error (if l.lastEpoch = some ack.generation then .wrongState else .staleGeneration),l)

/-- The viewer's own stop, for the epoch that is current. -/
def fencedBy (l : AudioLane) (epoch : ℕ) (stop : AudioStop) : Except Error Unit × AudioLane :=
  if stop.generation ≠ epoch ∨ stop.direction ≠ .downlink then (.error .staleGeneration,l)
  else if stop.reason ≠ .deviceChanged then (.ok (),{l with state := .stopped})
  else
    let (fresh,budget) := l.budget.spend l.sent
    (.ok (),{l with budget, state := if fresh then .waiting else .stopped})

def viewerStopped (l : AudioLane) (stop : AudioStop) : Except Error Unit × AudioLane :=
  match l.state with
  | .configuring _ epoch _ | .active _ epoch _ | .stopping epoch _ _ => l.fencedBy epoch stop
  | .waiting | .stopped => (.error .staleGeneration,l)

end AudioLane

/-! Runs. -/

inductive Op
  | next (ring : AudioRing) (now : ℕ)
  | configurationSent (now : ℕ)
  | packetSent (sequence : ℕ)
  | stopSent
  | configured (ack : AudioConfigured) (ring : AudioRing) (now : ℕ)
  | viewerStopped (stop : AudioStop)
  | close

def step (l : AudioLane) : Op → Except Error LaneAction × AudioLane
  | .next ring now => ((.ok (l.next ring now).1),(l.next ring now).2)
  | .configurationSent now => ((l.configurationSent now).1.map
    fun _ => .nothing,(l.configurationSent now).2)
  | .packetSent sequence => ((l.packetSent sequence).1.map
    fun _ => .nothing,(l.packetSent sequence).2)
  | .stopSent => (l.stopSent.1.map fun _ => .nothing,l.stopSent.2)
  | .configured ack ring now => ((l.configured ack ring now).1.map
    fun _ => .nothing,(l.configured ack ring now).2)
  | .viewerStopped stop => ((l.viewerStopped stop).1.map fun _ => .nothing,(l.viewerStopped stop).2)
  | .close => (.ok .nothing,{l with state := .stopped})

/-- A stop for a changed device meets a final stop of the host that is not yet sent. -/
def Revives (l : AudioLane) (op : Op) : Prop :=
  ∃ epoch reason, l.state = .stopping epoch reason .stop ∧
    op = .viewerStopped ⟨.downlink,epoch,.deviceChanged⟩ ∧ (l.budget.spend l.sent).1 = true

theorem fencedBy_wantsAudio {l : AudioLane} {epoch r stop}
    (hl : l.state = .stopping epoch r .stop) : (l.fencedBy epoch stop).2.wantsAudio = true ↔
      stop = ⟨.downlink,epoch,.deviceChanged⟩ ∧ (l.budget.spend l.sent).1 = true := by
  obtain ⟨_,_,_⟩ := stop
  rw [AudioLane.fencedBy]
  split_ifs with hg hc
  · simp only [AudioLane.wantsAudio,hl,AudioStop.mk.injEq]
    tauto
  · simp only [AudioLane.wantsAudio,AudioStop.mk.injEq]
    tauto
  · simp only [not_or,not_not] at hg hc
    cases hb : (l.budget.spend l.sent).1 <;> simp [AudioLane.wantsAudio,hg,hc,hb]

/-- One call takes a retired lane back exactly when the two stops meet. -/
theorem wantsAudio_step {l : AudioLane} (h : l.wantsAudio = false) (op : Op) :
    (step l op).2.wantsAudio = true ↔ Revives l op := by
  unfold Revives
  cases hl : l.state with
  | waiting | configuring | active => simp [AudioLane.wantsAudio,hl] at h
  | stopped =>
    have hkeep : (step l op).2.wantsAudio = false := by
      cases op <;> simp [step,AudioLane.next,AudioLane.configurationSent,AudioLane.packetSent,
        AudioLane.stopSent,AudioLane.configured,AudioLane.viewerStopped,AudioLane.wantsAudio,hl]
    simp [hkeep]
  | stopping epoch reason then_ =>
    cases then_ with
    | reconfigure => simp [AudioLane.wantsAudio,hl] at h
    | stop =>
      cases op with
      | viewerStopped stop =>
        simp only [step,AudioLane.viewerStopped,hl,fencedBy_wantsAudio hl]
        simp only [LaneState.stopping.injEq,Op.viewerStopped.injEq]
        constructor
        · rintro ⟨rfl,hb⟩
          exact ⟨epoch,reason,⟨rfl,rfl,trivial⟩,rfl,hb⟩
        · rintro ⟨_,_,⟨rfl,rfl,-⟩,rfl,hb⟩
          exact ⟨rfl,hb⟩
      | _ => simp [step,AudioLane.next,AudioLane.configurationSent,AudioLane.packetSent,
          AudioLane.stopSent,AudioLane.configured,AudioLane.wantsAudio,hl]

/-- A lane that stops to want audio never wants it again, as long as no stop for a changed device
meets a final stop that is not yet sent. -/
theorem retirement_final {l : AudioLane} (hl : l.wantsAudio = false) (ops : List Op)
    (h : ∀ e ∈ trace step l ops, ¬Revives e.before e.input) :
    (final step l ops).wantsAudio = false := by
  induction ops generalizing l with
  | nil => exact hl
  | cons op ops ih =>
    refine ih ?_ fun e he => h e (List.mem_cons_of_mem _ he)
    have ho := h ⟨l,op,(step l op).1⟩ List.mem_cons_self
    rwa [← wantsAudio_step hl,Bool.not_eq_true] at ho

/-- A configuration that is not acknowledged in time. -/
def timeoutRun : List Op :=
  let ring : AudioRing := ⟨.live ⟨1,.stereo,20⟩,[],none⟩
  [.next ring 0,.configurationSent 0,.next ring 5000000]

theorem retirement_revoked : (final step {} timeoutRun).wantsAudio = false ∧
    (final step {} (timeoutRun ++ [.viewerStopped ⟨.downlink,1,.deviceChanged⟩])).wantsAudio =
      true := by
  decide

theorem retirement_final_sent : (final step {} timeoutRun).wantsAudio = false ∧
    (final step (final step {} timeoutRun) [.stopSent,.viewerStopped
      ⟨.downlink,1,.deviceChanged⟩]).wantsAudio = false := by
  refine ⟨by decide,retirement_final (by decide) _ ?_⟩
  rintro e he ⟨_,_,hs,ho,-⟩
  simp only [trace,List.mem_cons,List.not_mem_nil,or_false] at he
  rcases he with rfl | rfl
  · cases ho
  · have hst : (step (final step {} timeoutRun) .stopSent).2.state = .stopped := by decide
    cases hst.symm.trans hs

end FrankenRemote.Audio
