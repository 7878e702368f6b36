import FrankenRemote.ClientFeedback

/-! What each call of the owner can do. Servicing changes the clock, the responder and the view,
and may stop the owner; only a few calls do anything else. -/
namespace FrankenRemote.Client

open Bytes Procedure Relation SlotTable Wire Input Freshness

inductive Serviced : InputClient → InputClient → Prop
  | clock (c : InputClient) (now : ClientInstant) : Serviced c {c with clock := now}
  | responder (c : InputClient) (r : Option ObservationResponder) :
      Serviced c {c with controlResponse := r}
  | stop (c : InputClient) (reason : StopReason) : Serviced c (c.stop reason)
  | suspend (c : InputClient) (now : ClientInstant) : Serviced c (c.suspend now)

/-- An owner that was serviced at `now` and goes on. -/
structure Live (c : InputClient) (now : ClientInstant) : Prop where
  running : c.stopped = none
  clock : c.clock = now
  owed : ∀ p ∈ entries c.pending, now < p.deadline
  view : ∀ until_, c.viewUntil = some until_ → now < until_

/-- Servicing at `now` succeeded, and left `d`. -/
structure Ticked (c d : InputClient) (now : ClientInstant) : Prop where
  serviced : ReflTransGen Serviced c d
  running : c.stopped = none
  live : Live d now

/-- What a failed call leaves: it stopped the owner, or it did no more than servicing. -/
def Attempted (c c' : InputClient) (now : ClientInstant) : Prop :=
  ReflTransGen Serviced c c' ∧ (c'.stopped.isSome = true ∨ Ticked c c' now)

section Servicing

variable {α β : Type} {c c' : InputClient} {now : ClientInstant} {reason : StopReason}
  {P : Except ClientError β → InputClient → Prop} {k : Unit → Owner β}

theorem failIf_last {p : Prop} [Decidable p] {P}
    (hbad : p → ∀ e, P (.error e) (c.stop reason)) (hok : ¬p → P (.ok ()) c) :
    Ensures (failIf p reason) c P := by
  unfold failIf
  by_cases hp : p
  · rw [if_pos hp]
    exact hbad hp _
  · rw [if_neg hp]
    exact hok hp

theorem failIf_bind {p : Prop} [Decidable p] (hbad : p → ∀ e, P (.error e) (c.stop reason))
    (hok : ¬p → Ensures (k ()) c P) : Ensures (failIf p reason >>= k) c P :=
  .of_bind (failIf_last (fun hp e => .throw (hbad hp e)) hok)

theorem okOrFail_bind {o : Option α} {k : α → Owner β}
    (hbad : o = none → ∀ e, P (.error e) (c.stop reason))
    (hok : ∀ a, o = some a → Ensures (k a) c P) : Ensures (okOrFail o reason >>= k) c P := by
  cases o with
  | none => exact hbad rfl _
  | some a => exact hok a rfl

/-- A suspension touches the view, the readiness latch and what is remembered as held. -/
theorem suspend_eq (c : InputClient) (now : ClientInstant) :
    ∃ readiness awaitingTicket suspendedSince keys buttons releasedKeys releasedButtons,
      c.suspend now = {c with
        viewUntil := none
        readiness, awaitingTicket, suspendedSince, keys, buttons, releasedKeys,
            releasedButtons} := by
  unfold InputClient.suspend InputClient.lapse InputClient.release
  cases hr : c.readiness with
  | none | some r => split_ifs <;> exact ⟨_,_,_,_,_,_,_,rfl⟩

@[simp] theorem suspend_stopped (c : InputClient) (now : ClientInstant) :
    (c.suspend now).stopped = c.stopped := by
  obtain ⟨_,_,_,_,_,_,_,h⟩ := suspend_eq c now
  rw [h]

@[simp] theorem suspend_clock (c : InputClient) (now : ClientInstant) :
    (c.suspend now).clock = c.clock := by
  obtain ⟨_,_,_,_,_,_,_,h⟩ := suspend_eq c now
  rw [h]

@[simp] theorem suspend_viewUntil (c : InputClient) (now : ClientInstant) :
    (c.suspend now).viewUntil = none := by
  obtain ⟨_,_,_,_,_,_,_,h⟩ := suspend_eq c now
  rw [h]

@[simp] theorem suspend_pending (c : InputClient) (now : ClientInstant) :
    (c.suspend now).pending = c.pending := by
  obtain ⟨_,_,_,_,_,_,_,h⟩ := suspend_eq c now
  rw [h]

/-- What identifies the actions of a grant, and its own constants. -/
structure Frames (c c' : InputClient) : Prop where
  nextAction : c'.nextAction = c.nextAction
  nextPointer : c'.nextPointer = c.nextPointer
  pending : c'.pending = c.pending
  receipts : c'.receipts = c.receipts
  policy : c'.policy = c.policy
  limits : c'.limits = c.limits
  binding : c'.binding = c.binding
  stopped : ∀ reason, c.stopped = some reason → c'.stopped = some reason

theorem Frames.refl (c : InputClient) : Frames c c := ⟨rfl,rfl,rfl,rfl,rfl,rfl,rfl,fun _ => id⟩

theorem Frames.trans {c c''} (h : Frames c c') (h' : Frames c' c'') : Frames c c'' :=
  ⟨h'.1.trans h.1,h'.2.trans h.2,h'.3.trans h.3,h'.4.trans h.4,h'.5.trans h.5,h'.6.trans h.6,
    h'.7.trans h.7,fun reason hr => h'.8 reason (h.8 reason hr)⟩

theorem Frames.after {c c''} (h' : Frames c' c'') (h : Frames c c') : Frames c c'' := h.trans h'

variable {c : InputClient}

theorem stop_stopped {reason'} (h : c.stopped = some reason) :
    (c.stop reason').stopped = some reason := by
  simp [InputClient.stop,h]

theorem Frames.stop (c : InputClient) (reason : StopReason) : Frames c (c.stop reason) :=
  ⟨rfl,rfl,rfl,rfl,rfl,rfl,rfl,fun _ => stop_stopped⟩

theorem Frames.suspend (c : InputClient) (now : ClientInstant) : Frames c (c.suspend now) := by
  obtain ⟨_,_,_,_,_,_,_,h⟩ := suspend_eq c now
  rw [h]
  exact {Frames.refl c with}

theorem Serviced.frames (h : Serviced c c') : Frames c c' := by
  cases h with
  | clock | responder => exact {Frames.refl c with}
  | stop reason => exact .stop c reason
  | suspend now => exact .suspend c now

theorem Frames.of_serviced (h : ReflTransGen Serviced c c') : Frames c c' := by
  induction h with
  | refl => exact .refl c
  | tail _ h ih => exact ih.trans h.frames

/-- The owner did not stop over a receipt. -/
def Trusts (c c' : InputClient) : Prop :=
  c'.stopped = some .invalidReceipt → c.stopped = some .invalidReceipt

theorem trusts_stop (hne : reason ≠ .invalidReceipt) (c : InputClient) :
    Trusts c (c.stop reason) := by
  intro hs
  change some (c.stopped.getD reason) = _ at hs
  cases hc : c.stopped with
  | none =>
    rw [hc] at hs
    exact absurd (Option.some.inj hs) hne
  | some first =>
    rw [hc] at hs
    exact hs

theorem checkStopped_bind
    (hbad : ∀ reason, c.stopped = some reason → P (.error (.stopped reason)) c)
    (hok : c.stopped = none → Ensures (k ()) c P) : Ensures (checkStopped >>= k) c P := by
  rcases hs : c.stopped with _ | reason
  · have hrun : exec checkStopped c = (.ok (),c) := by
      rw [checkStopped,exec_get_bind,hs]
      rfl
    rw [Ensures,exec_bind_ok hrun]
    exact hok hs
  · have hrun : exec checkStopped c = (.error (.stopped reason),c) := by
      rw [checkStopped,exec_get_bind,hs]
      rfl
    exact .of_exec (exec_bind_error hrun) (hbad reason hs)

/-- A responder that goes on changes nothing but itself. -/
theorem responderTick_bind
    (hbad : ∀ e x, P (.error e) ({c with controlResponse := x}.stop .invalidControl))
    (hok : ∀ x, Ensures (k ()) {c with controlResponse := x} P) :
    Ensures (responderTick now >>= k) c P := by
  refine .of_bind (.get_bind ?_)
  cases hr : c.controlResponse with
  | none =>
    have hs := hok none
    rw [← hr] at hs
    exact .pure hs
  | some r =>
    refine .modify_bind ?_
    cases (exec (ObservationResponder.tick now) r).1 with
    | ok _ => exact .pure (hok _)
    | error e => exact .of_exec rfl (hbad _ _)

/-- Servicing goes on only for an owner that runs, whose obligations are in time. -/
theorem tick_ensures {P : Except ClientError Unit → InputClient → Prop}
    (hbad : ∀ e c', c'.stopped.isSome = true → ReflTransGen Serviced c c' → Trusts c c' →
      P (.error e) c')
    (hok : ∀ d, Ticked c d now → P (.ok ()) d) : Ensures (tick now) c P := by
  have hhalt {d reason} (hd : ReflTransGen Serviced c d) (hsm : d.stopped = c.stopped)
      (hne : reason ≠ .invalidReceipt) (e) : P (.error e) (d.stop reason) :=
    hbad e _ rfl (hd.tail (.stop d _)) fun h => hsm ▸ trusts_stop hne d h
  refine checkStopped_bind (fun _ h => hbad _ _ (by rw [h]; rfl) .refl id) fun hs => .get_bind
    (failIf_bind (fun _ => hhalt .refl rfl (by decide)) fun hc => .modify_bind ?_)
  have ht (x) : ReflTransGen Serviced c {c with clock := now, controlResponse := x} :=
    .tail (.single (.clock c now)) (.responder _ x)
  refine responderTick_bind (fun e x => hhalt (ht x) rfl (by decide) e) fun x => .get_bind
    (failIf_bind (fun _ => hhalt (ht x) rfl (by decide)) fun howed => .get_bind ?_)
  have howed' : ∀ p ∈ entries c.pending, now < p.deadline := by
    intro p hp
    by_contra hle
    exact howed (List.any_eq_true.mpr ⟨p,hp,decide_eq_true (not_lt.mp hle)⟩)
  have hlast {d} (hd : ReflTransGen Serviced c d) (hl : Live d now) : Ensures (do
      failIf ((← get).suspendedSince.any (maxClientSuspension ≤ now - ·) = true) .viewStale) d P :=
    .get_bind (failIf_last (fun _ => hhalt hd (hl.running.trans hs.symm) (by decide))
      fun _ => hok d ⟨hd,hs,hl⟩)
  refine .of_bind (.ite (fun _ => .of_exec rfl (hlast ((ht x).tail (.suspend _ now)) ⟨?_,?_,?_,?_⟩))
    fun hview => .pure (hlast (ht x) ⟨hs,rfl,howed',fun u hu => ?_⟩))
  · rw [suspend_stopped,hs]
  · rw [suspend_clock]
  · rwa [suspend_pending]
  · intro u hu
    rw [suspend_viewUntil] at hu
    cases hu
  · have hview' : ¬c.viewUntil.any (· ≤ now) = true := hview
    rw [hu] at hview'
    simpa using hview'

theorem ticked_bind
    (hbad : ∀ e c', c'.stopped.isSome = true → ReflTransGen Serviced c c' → P (.error e) c')
    (hok : ∀ d, Ticked c d now → Ensures (k ()) d P) : Ensures (tick now >>= k) c P :=
  .of_bind (tick_ensures (fun e c' h h' _ => hbad e c' h h') hok)

theorem Ticked.attempted {d} (hd : Ticked c d now) : Attempted c d now := ⟨hd.serviced,.inr hd⟩

theorem Ticked.attempted_stop {d} (hd : Ticked c d now) (reason : StopReason) :
    Attempted c (d.stop reason) now :=
  ⟨hd.serviced.tail (.stop d reason),.inl rfl⟩

end Servicing

/-! Encoding calls. -/

/-- What an action or a pointer state was encoded under. -/
structure Ready (c : InputClient) (now : ClientInstant) : Prop extends Live c now where
  resumed : c.suspendedSince = none
  recovered : c.awaitingRecoveryTicket = false
  ticket : ∀ t, c.ticketState = some t → now < t.until_
  mapped : c.mapped = true
  shown : c.viewUntil.isSome = true

def Action.event (barrier : ℕ) : Action → InputEvent
  | key k transition => .key k transition
  | button b pressed position => .button b pressed position barrier
  | scroll position x y unit => .scroll position barrier x y unit
  | text s => .text s

/-- The least and the most native operations of a whole action. -/
def Action.window : Action → ℕ × ℕ
  | key _ .repeat_ => (1,2)
  | key _ _ => (1,1)
  | button .. => (2,2)
  | scroll _ x y unit => (min 2 (compoundScroll x y unit),max 2 (compoundScroll x y unit))
  | text s => (s.length,s.length)

/-- The place that a coordinate action takes among the pointer states. -/
def Action.barrier (c : InputClient) (a : Action) (barrier : ℕ) : Prop :=
  if a.isCoordinate then c.nextPointer = some barrier else barrier = 0

/-- A successful encoding of an action, by an owner that servicing left as `d`. -/
structure SentAction (c d : InputClient) (a : Action) (room : ℕ) (now : ClientInstant)
    (record : Encoded) (slot : Fin maxPendingActions) (barrier : ℕ) (c' : InputClient) : Prop where
  ticked : Ticked c d now
  ready : Ready d now
  vacant : d.pending slot = none
  next : d.nextAction = some record.sequence
  space : record.space = .action
  place : a.barrier d barrier
  timely : now+d.policy.receiptTimeout < 2^64
  bytes : encodeInput ⟨d.credentials,record.sequence,a.event barrier⟩ room d.limits
    d.binding.channel .viewerToHost .reliable = .ok record.bytes
  after : c' = {d.remember (a.event barrier) with
    pending := store d.pending slot ⟨record.sequence,now+d.policy.receiptTimeout,
      a.window.1,a.window.2⟩
    nextAction := checkedAdd record.sequence 1
    nextPointer := if a.isCoordinate then checkedAdd barrier 1 else d.nextPointer}

structure SentPointer (c d : InputClient) (position : DesktopPoint) (room : ℕ) (now : ClientInstant)
    (record : Encoded) (c' : InputClient) : Prop where
  ticked : Ticked c d now
  ready : Ready d now
  next : d.nextPointer = some record.sequence
  space : record.space = .pointer
  bytes : encodeInput ⟨d.credentials,record.sequence,.pointer position⟩ room d.limits
    d.binding.channel .viewerToHost .datagram = .ok record.bytes
  after : c' = {d with nextPointer := checkedAdd record.sequence 1}

section Encoding

variable {β : Type} {c : InputClient} {now : ClientInstant} {k : Unit → Owner β}
  {P : Except ClientError β → InputClient → Prop}

theorem ready_bind (hbad : ∀ e c', Attempted c c' now → P (.error e) c')
    (hok : ∀ d, Ticked c d now → Ready d now → Ensures (k ()) d P) :
    Ensures (ready now >>= k) c P := by
  refine .of_bind (ticked_bind (fun e _ hs hm => hbad e _ ⟨hm,.inl hs⟩) fun d hd => .get_bind ?_)
  refine .refuseIf_bind (fun _ => hbad _ d hd.attempted) fun hr => .refuseIf_bind
    (fun _ => hbad _ d hd.attempted) fun htt => .refuseIf_bind (fun _ => hbad _ d hd.attempted)
      fun hmap =>
      .refuseIf (fun _ => hbad _ d hd.attempted) fun hsh => hok d hd ⟨hd.live,?_,?_,?_,?_,?_⟩
  · simpa using hr
  · rw [not_or] at htt
    simpa using htt.1
  · intro t ht
    rw [not_or,ht] at htt
    simpa using htt.2
  · simpa using hmap
  · simpa [Option.isSome_iff_ne_none] using hsh

theorem require_bind {ca} (hbad : ∀ e, P (.error e) c) (hok : Ensures (k ()) c P) :
    Ensures (require ca >>= k) c P :=
  .of_bind (.get_bind (.refuseIf (fun _ => hbad _) fun _ => hok))

theorem requirePosition_bind {p} (hbad : ∀ e, P (.error e) c) (hok : Ensures (k ()) c P) :
    Ensures (requirePosition p >>= k) c P :=
  .of_bind (require_bind (fun _ => .throw (hbad _))
    (.get_bind (.refuseIf (fun _ => hbad _) fun _ => hok)))

theorem event_ensures {a : Action} {barrier : ℕ} {P} (hbad : ∀ e, P (.error e) c)
    (hok : P (.ok (a.event barrier,a.window)) c) : Ensures (event a barrier) c P := by
  cases a with
  | key key t =>
    refine require_bind hbad (.get_bind (.refuseIf_bind (fun _ => hbad _)
      fun _ => .refuseIf_bind (fun _ => hbad _) fun _ => .ite (fun hr => ?_) fun hs => .pure ?_))
    · subst hr
      exact require_bind hbad (.pure hok)
    · cases t with
      | repeat_ => exact absurd rfl hs
      | _ => exact hok
  | button b pressed p =>
    exact require_bind hbad
      (requirePosition_bind hbad (.get_bind (.refuseIf_bind (fun _ => hbad _) fun _ =>
      .refuseIf_bind (fun _ => hbad _) fun _ => .pure hok)))
  | scroll p x y unit => exact requirePosition_bind hbad (require_bind hbad (.pure hok))
  | text text => exact require_bind hbad (.refuseIf_bind (fun _ => hbad _) fun _ => .pure hok)

theorem barrierOf_bind {a : Action} {k : ℕ → Owner β}
    (hbad : ∀ e reason, P (.error e) (c.stop reason))
    (hok : ∀ b, a.barrier c b → Ensures (k b) c P) : Ensures (barrierOf a >>= k) c P := by
  unfold barrierOf
  unfold Action.barrier at hok
  cases ha : a.isCoordinate with
  | false => exact hok 0 (by simp [ha])
  | true =>
    refine .of_bind (.get_bind ?_)
    cases hn : c.nextPointer with
    | none => exact .of_exec rfl (hbad _ _)
    | some b => exact .pure (hok b (by simp [ha,hn]))

section Encoded

variable {P : Except ClientError Encoded → InputClient → Prop} {room : ℕ}
  (hbad : ∀ e c', Attempted c c' now → P (.error e) c')
include hbad

/-- An action that is not encoded leaves what servicing left. -/
theorem action_ensures {a : Action} (hok : ∀ d r slot barrier c',
    SentAction c d a room now r slot barrier c' → P
      (.ok r) c') : Ensures (action a room now) c P := by
  refine ready_bind hbad fun d hd hr => .get_bind (.okOr_bind (fun _ => hbad _ _ hd.attempted)
    fun slot hs =>
    .get_bind (okOrFail_bind (fun _ e => hbad e _ (hd.attempted_stop _)) fun sequence hn =>
      barrierOf_bind (fun e _ => hbad e _ (hd.attempted_stop _)) fun b hp =>
        Ensures.of_bind (event_ensures (fun e => .throw (hbad e _ hd.attempted))
          (.get_bind (okOrFail_bind
          (fun _ e => hbad e _ (hd.attempted_stop _)) fun deadline hdl => ?_)))))
  obtain ⟨rfl,ht⟩ := checkedAdd_eq_some.mp hdl
  have hv : d.pending slot = none := Option.isNone_iff_eq_none.mp (firstIndex_some hs)
  exact .ofResult_bind (fun _ _ => hbad _ _ hd.attempted) fun bytes hb => .modify_bind
    (.pure (hok d _ slot b _ ⟨hd,hr,hv,hn,rfl,hp,ht,mapError_eq_ok hb,rfl⟩))

theorem pointer_ensures {p : DesktopPoint} (hok : ∀ d r c', SentPointer c d p room now r c' →
    P (.ok r) c') : Ensures (pointer p room now) c P :=
  ready_bind hbad fun d hd hr => requirePosition_bind (fun e => hbad e _ hd.attempted) (.get_bind
    (okOrFail_bind (fun _ e => hbad e _ (hd.attempted_stop _)) fun _ hn => .get_bind (.ofResult_bind
      (fun _ _ => hbad _ _ hd.attempted) fun _ hb => .modify_bind
        (.pure (hok d _ _ ⟨hd,hr,hn,rfl,mapError_eq_ok hb,rfl⟩)))))

end Encoded
end Encoding

end FrankenRemote.Client
