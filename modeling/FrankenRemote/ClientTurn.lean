import FrankenRemote.ClientEffect

/-! One call of the owner: what it does to the view, the readiness latch and the tickets, and which
calls take, give back or retire the identity of an action. Every call services the owner first, and
then does one thing. -/
namespace FrankenRemote.Client

open Bytes Procedure Relation SlotTable Wire Input Freshness

/-- The same view, latch and tickets. -/
structure Same (c c' : InputClient) : Prop where
  stopped : c'.stopped = c.stopped
  clock : c'.clock = c.clock
  viewUntil : c'.viewUntil = c.viewUntil
  suspendedSince : c'.suspendedSince = c.suspendedSince
  awaitingTicket : c'.awaitingTicket = c.awaitingTicket
  awaitingRecovery : c'.awaitingRecoveryTicket = c.awaitingRecoveryTicket
  readiness : c'.readiness = c.readiness
  ticketState : c'.ticketState = c.ticketState
  credentials : c'.credentials = c.credentials

theorem Same.refl (c : InputClient) : Same c c := ⟨rfl,rfl,rfl,rfl,rfl,rfl,rfl,rfl,rfl⟩

variable {c' c : InputClient}

theorem Same.trans {c''} (h : Same c c') (h' : Same c' c'') : Same c c'' :=
  ⟨h'.1.trans h.1,h'.2.trans h.2,h'.3.trans h.3,h'.4.trans h.4,h'.5.trans h.5,h'.6.trans h.6,
    h'.7.trans h.7,h'.8.trans h.8,h'.9.trans h.9⟩

theorem suspend_readiness (c : InputClient) (now : ClientInstant) : (c.suspend now).readiness =
    if (c.viewUntil.isSome ∨ c.suspendedSince = none) ∧ c.stopped = none then c.readiness.map .lapse
    else c.readiness := by
  unfold InputClient.suspend InputClient.lapse InputClient.release
  cases hr : c.readiness <;> split_ifs <;> simp_all

theorem suspend_awaitingTicket (c : InputClient) (now : ClientInstant) :
    (c.suspend now).awaitingTicket = (c.awaitingTicket || decide (c.stopped = none ∧
      (c.suspendedSince = none ∨ (c.viewUntil.isSome ∧ c.readiness.isSome)))) := by
  unfold InputClient.suspend InputClient.lapse InputClient.release
  cases hr : c.readiness <;> split_ifs <;> simp_all <;> tauto

theorem suspend_suspendedSince (c : InputClient) (now : ClientInstant) :
    (c.suspend now).suspendedSince =
    if c.suspendedSince = none ∧ c.stopped = none then some now else c.suspendedSince := by
  unfold InputClient.suspend InputClient.lapse InputClient.release
  cases hr : c.readiness <;> split_ifs <;> simp_all

theorem Same.suspend (h : Same c c') (now : ClientInstant) : Same (c.suspend now)
    (c'.suspend now) := by
  obtain ⟨_,_,_,_,_,_,_,hc⟩ := suspend_eq c now
  obtain ⟨_,_,_,_,_,_,_,hc'⟩ := suspend_eq c' now
  refine ⟨?_,?_,?_,?_,?_,?_,?_,?_,?_⟩
  · rw [suspend_stopped,suspend_stopped,h.stopped]
  · rw [suspend_clock,suspend_clock,h.clock]
  · rw [suspend_viewUntil,suspend_viewUntil]
  · rw [suspend_suspendedSince,suspend_suspendedSince,h.suspendedSince,h.stopped]
  · rw [suspend_awaitingTicket,suspend_awaitingTicket,h.awaitingTicket,h.stopped,h.suspendedSince,
      h.viewUntil,h.readiness]
  · rw [hc,hc']
    exact h.awaitingRecovery
  · rw [suspend_readiness,suspend_readiness,h.readiness,h.stopped,h.suspendedSince,h.viewUntil]
  · rw [hc,hc']
    exact h.ticketState
  · rw [hc,hc']
    exact h.credentials

theorem Same.tryResume (h : Same c c') : Same c.tryResume c'.tryResume := by
  unfold InputClient.tryResume
  by_cases hr : c.awaitingTicket = false ∧ c.awaitingRecoveryTicket = false ∧ c.viewUntil.isSome
  · rw [if_pos hr,if_pos (by rwa [h.awaitingTicket,h.awaitingRecovery,h.viewUntil])]
    exact {h with suspendedSince := rfl}
  · rw [if_neg hr,if_neg (by rwa [h.awaitingTicket,h.awaitingRecovery,h.viewUntil])]
    exact h

/-- Calls whose success always says something about the view's generation, reports or tickets. -/
def Op.marks : Op → Bool
  | .advanceRecovery .. | .bindReadinessReporter .. | .reportAdmitted .. | .acceptTicket ..
  | .acceptAuthorityTicket .. | .acceptReadinessTicket .. => true
  | _ => false

def Plain (op : Op) (r : Except ClientError Answer) : Prop := op.marks = true → ∀ a, r ≠ .ok a

/-- The ticket that a call received, with the report that it acknowledges. -/
def ticketIn (c : InputClient) : Op → Option (Ticket × Option ℕ)
  | .acceptTicket bytes _ _ =>
    (decodeTicket bytes c.limits c.binding.channel .hostToViewer .reliable).toOption.map (·,none)
  | .acceptAuthorityTicket bytes _ _ =>
    (decodeAuthority bytes c.limits c.binding.channel .hostToViewer .reliable).toOption.map
      (·.ticket,none)
  | .acceptReadinessTicket bytes _ _ =>
    (decodeReadiness bytes c.limits c.binding.channel .hostToViewer .reliable).toOption.map
      fun t => (t.authority.ticket,some t.presentedSequence)
  | _ => none

/-- A ticket of the current view that no earlier one replaces. -/
structure Current (d : InputClient) (t : Ticket) : Prop where
  view : t.credentials.view = d.credentials.view
  newer : ∀ s, d.ticketState = some s → s.sequence < t.sequence

/-- One call. The state `d` is what servicing left. -/
inductive Turn (c : InputClient) : Op → Except ClientError Answer → InputClient → Prop
  /-- The owner has stopped, by this call or before it. -/
  | halted {op r c'} (hstopped : c'.stopped.isSome = true)
    (hcredentials : c'.credentials = c.credentials) (hticket : c'.ticketState = c.ticketState)
    (hplain : Plain op r) : Turn c op r c'
  /-- No servicing, or nothing after it. -/
  | idle {op r c'} (h : Same c c') (hplain : Plain op r) :
    Turn c op r c'
  | serviced {op r d c' now}
    (hd : Ticked c d now) (h : Same d c') (hplain : Plain op r) : Turn c op r c'
  /-- The call suspended the view by itself. -/
  | suspended {op r d c' now}
    (hd : c = d ∨ Ticked c d now) (h : Same (d.suspend now) c') (hplain : Plain op r) :
      Turn c op r c'
  | shown {evidence d c' now until_}
    (hd : Ticked c d now) (huntil : now < until_)
      (h : Same {d with viewUntil := some until_}.tryResume c') :
    Turn c (.presented evidence now) (.ok .done) c'
  | recovered {generation d c' now} (hd : Ticked c d now)
    (hnewer : generation.supersedes d.credentials.view.recovery = true)
    (h : Same {d with
      credentials.view.recovery := generation
      viewUntil := none
      awaitingRecoveryTicket := true
      readiness := d.readiness.map fun _ => .new false} c') :
    Turn c (.advanceRecovery generation now) (.ok .done) c'
  | ticketed {x d c' now} (hd : Ticked c d now)
    (hnone : d.ticketState = none) (h : Same {d with credentials.ticket := x} c') :
    Turn c (.ticket x now) (.ok .done) c'
  | enabled {d c' now} (hd : Ticked c d now)
    (h : Same {d with readiness := some (d.readiness.getD (.new d.suspendedSince.isSome))} c') :
    Turn c (.expectReadinessFeedback now) (.ok .done) c'
  | bound {cursor r d c' now}
    (hd : Ticked c d now) (hr : d.readiness = some r) (hnone : r.reporter = none)
    (h : Same (if cursor.sequence ≠ 0 ∧ cursor.visible = false then
      (d.bindReporter r cursor).lapse.suspend now
      else d.bindReporter r cursor) c') :
    Turn c (.bindReadinessReporter cursor now) (.ok .done) c'
  | rebound {cursor r d c' now}
    (hd : Ticked c d now) (hr : d.readiness = some r) (hsome : r.reporter.isSome = true)
    (hceiling : cursor.sequence = r.ceiling) (h : Same d c') :
    Turn c (.bindReadinessReporter cursor now) (.ok .done) c'
  | reported {receipt r d e c' now}
    (hd : Ticked c d now) (hr : d.readiness = some r) (hsome : r.reporter.isSome = true)
    (hnext : r.ceiling+1 = receipt.sequence)
    (he : e = {d with readiness := some {r with ceiling := receipt.sequence}})
    (h : Same (if receipt.visible = false then
        (if r.resume = .needLossReport then e else e.suspend now).markLoss receipt.sequence
      else e) c') :
    Turn c (.reportAdmitted receipt now) (.ok .done) c'
  /-- A ticket of a superseded generation is only counted. -/
  | drained {op t presented d c' now}
    (hd : Ticked c d now) (hop : ticketIn c op = some (t,presented))
      (hobsolete : d.Obsolete t.credentials.view)
    (hnewer : ∀ s, d.ticketState = some s → s.sequence < t.sequence) (h : Same (d.drain t) c') :
    Turn c op (.ok .done) c'
  /-- A ticket that came too late, or whose acknowledgement no report explains. -/
  | consumed {op e t presented d c' now until_ boot} (hd : Ticked c d now)
    (hop : ticketIn c op = some (t,presented)) (hcurrent : Current d t)
    (h : Same (d.consume t until_ boot) c' ∨ c' = (d.consume t until_ boot).stop .invalidTicket) :
    Turn c op (.error e) c'
  | granted {op t d c' clock now until_ boot} (hd : Ticked c d now)
    (hop : ticketIn c op = some (t,none)) (hcurrent : Current d t) (hnone : d.readiness = none)
    (h : Same ({d.consume t until_ boot with credentials.ticket := t.credentials.ticket}.admitTicket
      t clock now false) c') :
    Turn c op (.ok .done) c'
  | acknowledged {op t sequence r d c' clock now until_ boot} (hd : Ticked c d now)
    (hop : ticketIn c op = some (t,some sequence)) (hcurrent : Current d t)
      (hr : d.readiness = some r)
    (hreport : r.Acknowledges sequence)
    (h : Same ({d.consume t until_ boot with
        credentials.ticket := t.credentials.ticket
        readiness := some {r with
          acknowledged := sequence
          resume := if r.crosses sequence then .clear else r.resume}}.admitTicket t clock now
        (r.crosses sequence)) c') :
    Turn c op (.ok .done) c'

def Silent : Except ClientError Answer → Prop
  | .ok (.encoded _) | .ok (.held (some _)) => False
  | _ => True

/-- A receipt that retires the action it is for. -/
structure Completed (c d : InputClient) (result : InputResult) (slot : Fin maxPendingActions)
    (p : Pending) (c' : InputClient) : Prop where
  serviced : ReflTransGen Serviced c d
  owed : d.pending slot = some p
  sequence : p.sequence = result.sequence
  accepted : p.accepts result.outcome result.submittedOperations = true
  after : Frames
    {d with
      pending := erase d.pending slot
      receipts := store d.receipts d.receiptCursor result
      receiptCursor := d.receiptCursor+1} c'

/-- One call, as far as the identities of actions go. -/
inductive Sequenced (c : InputClient) : Op → Except ClientError Answer → InputClient → Prop
  | frames {op r c'} (h : Frames c c') (hr : Silent r)
    (hop : ∀ n, op = .abandonUnsent (.action n) → ∀ a, r ≠ .ok a) : Sequenced c op r c'
  | held {observed room now record c'}
    (hrunning : c.stopped = none) (h : Frames c c') :
    Sequenced c (.reconcileHeld observed room now) (.ok (.held (some record))) c'
  | action {a room now record d c' slot barrier}
      (h : SentAction c d a room now record slot barrier c') :
    Sequenced c (.action a room now) (.ok (.encoded record)) c'
  | pointer {position room now record d c'}
    (h : SentPointer c d position room now record c') :
    Sequenced c (.pointer position room now) (.ok (.encoded record)) c'
  | abandon {n slot p} (hsuspended : c.suspendedSince.isSome = true)
    (hnext : c.nextAction = checkedAdd n 1) (hpending : c.pending slot = some p)
      (hp : p.sequence = n) :
    Sequenced c (.abandonUnsent (.action n)) (.ok .done)
      {c with pending := erase c.pending slot, nextAction := some n}
  | completed {bytes now result d c' slot p} (h : Completed c d result slot p c')
    (hdecoded : decodeInputResult bytes c.limits c.binding .hostToViewer .reliable = .ok result)
    (hspace : result.space = .action) :
    Sequenced c (.result bytes now) (.ok (.result (.completed result))) c'

section Rules

variable {α : Type} {c c' d : InputClient} {now : ClientInstant} {e : ClientError}

/-- Servicing keeps the credentials and the ticket. -/
theorem Serviced.keeps (h : Serviced c c') :
    c'.credentials = c.credentials ∧ c'.ticketState = c.ticketState := by
  cases h with
  | clock | responder | stop => exact ⟨rfl,rfl⟩
  | suspend now =>
    obtain ⟨_,_,_,_,_,_,_,h⟩ := suspend_eq c now
    rw [h]
    exact ⟨rfl,rfl⟩

theorem keeps_of_serviced (h : ReflTransGen Serviced c c') :
    c'.credentials = c.credentials ∧ c'.ticketState = c.ticketState := by
  induction h with
  | refl => exact ⟨rfl,rfl⟩
  | tail _ h ih => exact ⟨h.keeps.1.trans ih.1,h.keeps.2.trans ih.2⟩

theorem stop_isSome (c : InputClient) (re : StopReason) : (c.stop re).stopped.isSome = true := rfl

theorem Frames.lapse (c : InputClient) : Frames c c.lapse := by
  unfold InputClient.lapse
  split
  · exact {Frames.refl c with}
  · exact .refl c

theorem Frames.tryResume (c : InputClient) : Frames c c.tryResume := by
  unfold InputClient.tryResume
  split
  · exact {Frames.refl c with}
  · exact .refl c

theorem Frames.markLoss (c : InputClient) (s : ℕ) : Frames c (c.markLoss s) := by
  unfold InputClient.markLoss
  split
  · exact {Frames.refl c with}
  · exact .refl c

theorem Frames.admitTicket (c : InputClient) (t : Ticket) (clock : ClockCorrelation)
    (now : ClientInstant) (ca : Bool) : Frames c (c.admitTicket t clock now ca) := by
  unfold InputClient.admitTicket
  split
  · exact .after (.tryResume _) {Frames.refl c with}
  · split
    · split
      · exact .after (.tryResume _) {Frames.refl c with}
      · exact .refl c
    · exact .refl c

/-- The turn of a call that changes no identity. -/
structure Runs (c : InputClient) (op : Op) (r : Except ClientError Answer) (c' : InputClient) :
    Prop where
  turn : Turn c op r c'
  frames : Frames c c'

structure Called (c : InputClient) (op : Op) (r : Except ClientError Answer) (c' : InputClient) :
    Prop where
  turn : Turn c op r c'
  sequenced : Sequenced c op r c'

variable {op : Op} {r : Except ClientError Answer}

theorem Runs.failed (h : Runs c op (.error e) c') : Called c op (.error e) c' :=
  ⟨h.turn,.frames h.frames trivial fun _ _ _ h => by cases h⟩

theorem called_of {m : Owner α} {f : α → Answer}
    (h : Ensures m c fun r c' => Called c op (r.map f) c') :
    Ensures (m >>= fun a => pure (f a)) c (Called c op) :=
  Ensures.bind h (fun _ _ h => .pure h) fun _ _ h => h

theorem runs_of {m : Owner α} {f : α → Answer} (ho : ∀ n, op ≠ .abandonUnsent (.action n))
    (hf : ∀ a, Silent (.ok (f a))) (h : Ensures m c fun r c' => Runs c op (r.map f) c') :
    Ensures (m >>= fun a => pure (f a)) c (Called c op) :=
  Ensures.bind h (fun a _ h => .pure ⟨h.turn,.frames h.frames (hf a) fun n hn => absurd hn (ho n)⟩)
    fun _ _ h => h.failed

theorem plain_of_not_marks (h : op.marks = false) : Plain op r :=
  fun hm => by rw [h] at hm; cases hm

theorem plain_error : Plain op (.error e) := fun _ _ h => by cases h

theorem Runs.of_tick_error (hs : c'.stopped.isSome = true) (h : ReflTransGen Serviced c c') :
    Runs c op (.error e) c' :=
  ⟨.halted hs (keeps_of_serviced h).1 (keeps_of_serviced h).2 plain_error,.of_serviced h⟩

namespace Ticked

variable (hd : Ticked c d now)
include hd

theorem frames : Frames c d := .of_serviced hd.serviced

theorem stop (re : StopReason) : Runs c op (.error e) (d.stop re) :=
  ⟨.halted (stop_isSome d re) (keeps_of_serviced hd.serviced).1 (keeps_of_serviced hd.serviced).2
    plain_error,hd.frames.trans (.stop d re)⟩

theorem refused : Runs c op (.error e) d := ⟨.serviced hd (.refl d) plain_error,hd.frames⟩

theorem serves (h : Same d c') (hf : Frames d c') (ho : op.marks = false) : Runs c op r c' :=
  ⟨.serviced hd h (plain_of_not_marks ho),hd.frames.trans hf⟩

variable {p : Prop} [Decidable p] {k : Unit → Owner α} {f : α → Answer}

theorem refuseIf_bind (h : ¬p → Ensures (k ()) d fun r c' => Runs c op (r.map f) c') :
    Ensures (refuseIf p e >>= k) d fun r c' => Runs c op (r.map f) c' :=
  .refuseIf_bind (fun _ => hd.refused) h

theorem failIf_bind {re} (h : ¬p → Ensures (k ()) d fun r c' => Runs c op (r.map f) c') :
    Ensures (failIf p re >>= k) d fun r c' => Runs c op (r.map f) c' :=
  Client.failIf_bind (fun _ _ => hd.stop _) h

theorem okOrFail_bind {β : Type} {o : Option β} {k : β → Owner α} {re}
    (h : ∀ a, o = some a → Ensures (k a) d fun r c' => Runs c op (r.map f) c') :
    Ensures (okOrFail o re >>= k) d fun r c' => Runs c op (r.map f) c' :=
  Client.okOrFail_bind (fun _ _ => hd.stop _) h

end Ticked

theorem ticked_runs {k : InputClient → Owner α} {f : α → Answer}
    (h : ∀ d, Ticked c d now → Ensures (k d) d fun r c' => Runs c op (r.map f) c') :
    Ensures (do tick now; let d ← get; k d) c fun r c' => Runs c op (r.map f) c' :=
  ticked_bind (fun _ _ => .of_tick_error) fun d hd => .get_bind (h d hd)

end Rules

/-- A call without an answer of its own. -/
abbrev Settles (c : InputClient) (op : Op) (r : Except ClientError Unit) (c' : InputClient) :
    Prop :=
  Runs c op (r.map fun _ => .done) c'

section Calls

variable {c c' d : InputClient} {op : Op} {now : ClientInstant}

theorem advanceRecovery_runs (g : RecoveryGeneration) (now : ClientInstant) :
    Ensures (advanceRecovery g now) c (Settles c (.advanceRecovery g now)) := by
  refine ticked_runs fun d hd => hd.refuseIf_bind fun _ => hd.failIf_bind
    fun hn => .of_exec rfl ⟨?_,?_⟩
  · exact .recovered hd (by simpa using hn) ⟨rfl,rfl,rfl,rfl,rfl,rfl,rfl,rfl,rfl⟩
  · exact {hd.frames with}

theorem session_bind {p : Prop} [Decidable p] {k : Unit → Owner Unit} {e}
    (h : ¬p → Ensures (k ()) c (Settles c op)) : Ensures (refuseIf p e >>= k) c (Settles c op) :=
  .refuseIf_bind (fun _ => ⟨.idle (.refl c) plain_error,.refl c⟩) h

theorem confirmMapping_runs (s : RemoteSessionId) (view : InputView) (now : ClientInstant) :
    Ensures (confirmMapping s view now) c (Settles c (.confirmMapping s view now)) :=
  .get_bind (session_bind fun _ => ticked_runs fun d hd => hd.failIf_bind fun _ => .of_exec rfl
    (hd.serves {Same.refl d with} {Frames.refl d with} rfl))

theorem presented_runs (ev : PresentedObservation) (now : ClientInstant) :
    Ensures (presented ev now) c (Settles c (.presented ev now)) := by
  refine .get_bind (session_bind fun _ => ticked_runs fun d hd => hd.refuseIf_bind
    fun _ => hd.failIf_bind fun _ => hd.refuseIf_bind fun _ => hd.failIf_bind fun _ => ?_)
  have ho (n : ℕ) : Same d {d with observation := some n} := {Same.refl d with}
  have hs (n : ℕ) : Runs c (.presented ev now) (.ok .done)
      ({d with observation := some n}.suspend now) :=
    ⟨.suspended (.inr hd) ((ho n).suspend now) (plain_of_not_marks rfl),
      .after (.suspend _ now) {hd.frames with}⟩
  refine .ite (fun _ => .of_exec rfl (hs _)) fun _ => hd.okOrFail_bind fun until_ _ => .modify_bind
    (.ite (fun _ => .of_exec rfl (hs _)) fun hl => .of_exec rfl ⟨?_,?_⟩)
  · exact .shown hd (not_le.mp hl) (Same.tryResume ⟨rfl,rfl,rfl,rfl,rfl,rfl,rfl,rfl,rfl⟩)
  · exact .after (.tryResume _) {hd.frames with}

theorem abandonUnsent_called (u : Unsent) : Ensures (abandonUnsent u) c fun r c' =>
    Called c (.abandonUnsent u) (r.map fun _ => .done) c' := by
  have hno (e) : Called c (.abandonUnsent u) (.error e) c :=
    Runs.failed ⟨.idle (.refl c) plain_error,.refl c⟩
  refine .get_bind (.refuseIf_bind (fun _ => hno _) fun hsus => ?_)
  cases u with
  | action n =>
    refine .refuseIf_bind (fun _ => hno _) fun hn => .okOr_bind (fun _ => hno _)
      fun slot hs => .of_exec rfl ⟨?_,?_⟩
    · exact .idle {Same.refl c with} (plain_of_not_marks rfl)
    · obtain ⟨p,hp,hsq⟩ := (Option.any_eq_true ..).mp (firstIndex_some hs)
      exact .abandon (Option.isSome_iff_ne_none.mpr hsus) (not_not.mp hn) hp (of_decide_eq_true hsq)
  | held n =>
    refine .refuseIf_bind (fun _ => hno _) fun _ => .of_exec rfl ⟨?_,.frames ?_ trivial nofun⟩
    · exact .idle {Same.refl c with} (plain_of_not_marks rfl)
    · exact {Frames.refl c with}
  | pointer => exact .pure ⟨.idle (.refl c) (plain_of_not_marks rfl),
    .frames (.refl c) trivial nofun⟩

theorem setViewBound_same (b : ℕ) : Ensures (setViewBound b) c fun _ c' => Same c c' ∧
    Frames c c' :=
  .get_bind (.refuseIf_bind (fun _ => ⟨.refl c,.refl c⟩) fun _ => .of_exec rfl
    ⟨{Same.refl c with},{Frames.refl c with}⟩)

theorem followPathRtt_same (s : Option ℕ) :
    Ensures (followPathRtt s) c fun _ c' => Same c c' ∧ Frames c c' :=
  .get_bind (.bind (setViewBound_same _) (fun _ _ h => .pure h) fun _ _ h => h)

theorem ticket_runs (x : InputTicketId) (now : ClientInstant) :
    Ensures (ticket x now) c (Settles c (.ticket x now)) := by
  refine ticked_runs fun d hd => hd.failIf_bind fun hn => hd.refuseIf_bind
    fun _ => .of_exec rfl ⟨?_,?_⟩
  · rw [not_or] at hn
    exact .ticketed hd (by simpa using hn.1) ⟨rfl,rfl,rfl,rfl,rfl,rfl,rfl,rfl,rfl⟩
  · exact {hd.frames with}

theorem same_remember (c : InputClient) (ev : InputEvent) : Same c (c.remember ev) := by
  cases ev <;> exact {Same.refl c with}

theorem Attempted.called {e} (h : Attempted c c' now) : Called c op (.error e) c' := by
  rcases h with ⟨hmoves,hs | hd⟩
  · exact Runs.failed (.of_tick_error hs hmoves)
  · exact hd.refused.failed

theorem action_called (a : Action) (room : ℕ) (now : ClientInstant) :
    Ensures (action a room now) c fun r c' =>
    Called c (.action a room now) (r.map .encoded) c' := by
  refine action_ensures (fun _ _ h => h.called) fun d record slot b c' hs => ⟨?_,.action hs⟩
  have hsm : Same (d.remember (a.event b)) c' := by
    rw [hs.after]
    exact ⟨rfl,rfl,rfl,rfl,rfl,rfl,rfl,rfl,rfl⟩
  exact .serviced hs.ticked ((same_remember d _).trans hsm) (plain_of_not_marks rfl)

theorem pointer_called (p : DesktopPoint) (room : ℕ) (now : ClientInstant) :
    Ensures (pointer p room now) c fun r c' => Called c (.pointer p room now)
      (r.map .encoded) c' := by
  refine pointer_ensures (fun _ _ h => h.called) fun d record c' hs =>
    ⟨.serviced hs.ticked ?_ ?_,.pointer hs⟩
  · rw [hs.after]
    exact ⟨rfl,rfl,rfl,rfl,rfl,rfl,rfl,rfl,rfl⟩
  · exact plain_of_not_marks rfl

theorem reconcileHeld_called (o : HeldState) (room : ℕ) (now : ClientInstant) :
    Ensures (reconcileHeld o room now) c fun r c' => Called c (.reconcileHeld o room now)
      (r.map .held) c' := by
  refine ticked_bind (fun _ _ h h' => (Runs.of_tick_error h h').failed) fun d hd => .get_bind
    (.refuseIf_bind (fun _ => hd.refused.failed)
      fun _ => .ite (fun _ => .pure ⟨?_,.frames hd.frames trivial nofun⟩)
      fun _ => okOrFail_bind (fun _ _ => (hd.stop _).failed) fun _ _ => okOrFail_bind
        (fun _ _ => (hd.stop _).failed) fun _ _ => okOrFail_bind (fun _ _ => (hd.stop _).failed)
          fun _ _ => .ofResult_bind (fun _ _ => hd.refused.failed)
            fun _ _ => .modify_bind (.pure ⟨?_,.held hd.running ?_⟩))
  · exact .serviced hd (.refl d) (plain_of_not_marks rfl)
  · exact .serviced hd {Same.refl d with} (plain_of_not_marks rfl)
  · exact {hd.frames with}

/-- Calls that only ever stop the owner, as far as the view goes. -/
def Stops (c c' : InputClient) : Prop :=
  Same c c' ∨ (c'.stopped.isSome = true ∧ c'.credentials = c.credentials ∧
    c'.ticketState = c.ticketState)

theorem Stops.refl (c : InputClient) : Stops c c := .inl (.refl c)

theorem Stops.stop (c : InputClient) (re : StopReason) : Stops c (c.stop re) := .inr ⟨rfl,rfl,rfl⟩

theorem Stops.trans {c c''} (h : Stops c c') (h' : Stops c' c'') : Stops c c'' := by
  rcases h with h | ⟨hs,hc,ht⟩
  · rcases h' with h' | ⟨hs,hc,ht⟩
    · exact .inl (h.trans h')
    · exact .inr ⟨hs,hc.trans h.credentials,ht.trans h.ticketState⟩
  · rcases h' with h' | ⟨hs',hc',ht'⟩
    · exact .inr ⟨by rwa [h'.stopped],h'.credentials.trans hc,h'.ticketState.trans ht⟩
    · exact .inr ⟨hs',hc'.trans hc,ht'.trans ht⟩

theorem Stops.after {c c''} (h' : Stops c' c'') (h : Same c c') : Stops c c'' := .trans (.inl h) h'

theorem stopUnless_ensures (succeeded : Bool) (re : StopReason) :
    Ensures (stopUnless succeeded re) c fun r c' => r = .ok () ∧ Frames c c' ∧ Stops c c' :=
  .ite (fun _ => .pure ⟨rfl,.refl c,.refl c⟩) fun _ => .of_exec rfl ⟨rfl,.stop c re,.stop c re⟩

/-- After servicing, a call that only ever stops the owner. -/
theorem Ticked.turn {r}
    (hd : Ticked c d now) (h : Stops d c') (hp : Plain op r) : Turn c op r c' := by
  obtain ⟨hc,ht⟩ := keeps_of_serviced hd.serviced
  rcases h with h | ⟨hs,hc',ht'⟩
  · exact .serviced hd h hp
  · exact .halted hs (hc'.trans hc) (ht'.trans ht) hp

/-- What a receipt does: it retires an action, or it changes no identity. -/
def Receives (c : InputClient) (result : InputResult) (r : Except ClientError ResultEvent)
    (c' : InputClient) : Prop :=
  (∃ d slot p, r = .ok (.completed result) ∧ Completed c d result slot p c') ∨ Frames c c'

section Results

variable (hmoves : ReflTransGen Serviced c d)
include hmoves

theorem completeAction_ensures {result : InputResult} {slot p}
    (howed : d.pending slot = some p) (hp : p.sequence = result.sequence) :
    Ensures (completeAction result slot p) d fun r c' => Receives c result r c' ∧ Stops d c' := by
  refine failIf_bind (fun _ _ => ⟨.inr ((Frames.of_serviced hmoves).trans (.stop d _)),.stop d _⟩)
    fun ha => ?_
  have ha' : p.accepts result.outcome result.submittedOperations = true := by simpa using ha
  refine .modify_bind (.bind (stopUnless_ensures _ _) (fun _ c' hc' => .pure ⟨.inl ?_,?_⟩) ?_)
  · exact ⟨d,slot,p,rfl,hmoves,howed,hp,ha',hc'.2.1⟩
  · exact hc'.2.2.after ⟨rfl,rfl,rfl,rfl,rfl,rfl,rfl,rfl,rfl⟩
  · rintro e c' ⟨h,_⟩
    cases h

theorem actionResult_ensures (result : InputResult) :
    Ensures (actionResult result) d fun r c' => Receives c result r c' ∧ Stops d c' := by
  have hf := Frames.of_serviced hmoves
  have hstop (reason : StopReason) : Frames c (d.stop reason) := hf.trans (.stop d reason)
  refine .get_bind ?_
  cases (entries d.receipts).find? (·.sequence = result.sequence) with
  | some old => exact failIf_bind (fun _ _ => ⟨.inr (hstop _),.stop d _⟩) fun _ => .pure ⟨.inr hf,
    .refl d⟩
  | none =>
    cases howed : d.owed result.sequence with
    | some x =>
      have hfd := List.find?_some howed
      exact completeAction_ensures hmoves (mem_indexed.mp (List.mem_of_find?_eq_some howed))
        (of_decide_eq_true hfd)
    | none => exact failIf_bind (fun _ _ => ⟨.inr (hstop _),.stop d _⟩) fun _ => .pure ⟨.inr hf,
      .refl d⟩

theorem pointerResult_ensures (result : InputResult) :
    Ensures (pointerResult result) d fun _ c' => Frames c c' ∧ Stops d c' := by
  have hf := Frames.of_serviced hmoves
  refine .get_bind (failIf_bind (fun _ _ => ⟨hf.trans (.stop d _),.stop d _⟩) fun _ => ?_)
  exact .bind (stopUnless_ensures _ _) (fun _ _ h => .pure ⟨hf.trans h.2.1,h.2.2⟩)
    fun _ _ h => ⟨hf.trans h.2.1,h.2.2⟩

end Results

theorem result_called (b : List Byte) (now : ClientInstant) : Ensures (result b now) c fun r c' =>
    Called c (.result b now) (r.map .result) c' := by
  refine .get_bind (.ofResult_bind (fun _ _ => Runs.failed ⟨.idle (.refl c) plain_error,.refl c⟩)
    fun result hdc => ?_)
  -- a receipt counts even when servicing has just stopped the owner
  refine .caught_bind (Q := fun _ d => ReflTransGen Serviced c d ∧ ∀ r c', Stops d c' →
    Turn c (.result b now) r c')
    (tick_ensures (fun _ d hs hmoves _ => ⟨hmoves,fun r c' h => ?_⟩) fun d hd =>
      ⟨hd.serviced,fun _ _ h => hd.turn h (plain_of_not_marks rfl)⟩) fun _ d hd => ?_
  · have hst : Stops c d := .inr ⟨hs,keeps_of_serviced hmoves⟩
    rcases hst.trans h with h' | ⟨hs',hcr,ht⟩
    · exact .idle h' (plain_of_not_marks rfl)
    · exact .halted hs' hcr ht (plain_of_not_marks rfl)
  · have hquiet {r : Except ClientError ResultEvent} {c'} (h : Frames c c') :
        Sequenced c (.result b now) (r.map .result) c' := .frames h (by cases r <;> trivial) nofun
    cases hspace : result.space with
    | pointer => exact (pointerResult_ensures hd.1 result).mono fun _ _ h => ⟨hd.2 _ _
      h.2,hquiet h.1⟩
    | action =>
      refine (actionResult_ensures hd.1 result).mono fun r c' h => ⟨hd.2 _ _ h.2,?_⟩
      rcases h.1 with ⟨_,_,_,rfl,hc⟩ | hf
      · exact .completed hc (mapError_eq_ok hdc) hspace
      · exact hquiet hf

/-! Control. -/

theorem enableControlRenewal_runs (ch : ℕ) (now : ClientInstant) :
    Ensures (enableControlRenewal ch now) c (Settles c (.enableControlRenewal ch now)) :=
  ticked_runs fun d hd => hd.refuseIf_bind fun _ => .ofResult_bind (fun _ _ => hd.refused)
    fun _ _ => .of_exec rfl (hd.serves {Same.refl d with} {Frames.refl d with} rfl)

variable {clock : ClockCorrelation} {α : Type}

theorem control_runs (ho : op.marks = false)
    (m : ObservationResponder.Responder α) (stops : ResponderError → Bool) (f : α → Answer) :
    Ensures (do controlReady now; let reply ← onResponder m; controlOf stops reply) c fun r c' =>
      Runs c op (r.map f) c' := by
  refine .of_bind (ticked_bind (fun _ _ h h' => .throw (.of_tick_error h h')) fun d hd => .get_bind
    (.refuseIf_bind (fun _ => .throw hd.refused) fun _ => .refuseIf (fun _ => .throw hd.refused)
      fun _ => .of_bind
      (.get_bind (.okOr_bind (fun _ => .throw hd.refused) fun x _ => .modify_bind (.pure ?_)))))
  have hruns {r : Except ClientError Answer} {c' : InputClient}
      (h : Frames {d with controlResponse := some (exec m x).2} c' ∧
        Stops {d with controlResponse := some (exec m x).2} c') : Runs c op r c' :=
    ⟨hd.turn (h.2.after {Same.refl d with}) (plain_of_not_marks ho),
      hd.frames.trans (h.1.after {Frames.refl d with})⟩
  cases (exec m x).1 with
  | ok a => exact .pure (hruns ⟨.refl _,.refl _⟩)
  | error e => exact .bind (stopUnless_ensures _ _) (fun _ _ h =>
    .throw (hruns h.2)) fun _ _ h => hruns h.2

/-! Readiness. -/

theorem expectReadinessFeedback_runs (now : ClientInstant) :
    Ensures (expectReadinessFeedback now) c (Settles c (.expectReadinessFeedback now)) :=
  ticked_runs fun _ hd => hd.refuseIf_bind fun _ => .of_exec rfl
    ⟨.enabled hd ⟨rfl,rfl,rfl,rfl,rfl,rfl,rfl,rfl,rfl⟩,{hd.frames with}⟩

theorem bindReadinessReporter_runs (cu : AdmittedCursor) (now : ClientInstant) :
    Ensures (bindReadinessReporter cu now) c (Settles c (.bindReadinessReporter cu now)) := by
  refine ticked_runs fun d hd => hd.failIf_bind fun _ => .okOr_bind (fun _ => hd.refused)
    fun r hr => ?_
  cases hrep : r.reporter with
  | some original =>
    refine failIf_last (fun _ _ => hd.stop _) fun hs => ?_
    rw [not_or,not_not] at hs
    exact ⟨.rebound hd hr (by rw [hrep]; rfl) hs.2 (.refl d),hd.frames⟩
  | none =>
    have hb : Frames c (d.bindReporter r cu) :=
      {hd.frames with}
    refine .modify_bind (.ite (fun hn => .of_exec rfl ⟨?_,?_⟩) fun hpos => .pure ⟨?_,hb⟩)
    · exact .bound hd hr hrep (by rw [if_pos hn]; exact .refl _)
    · exact .after (.suspend _ now) (hb.trans (.lapse _))
    · exact .bound hd hr hrep (by rw [if_neg hpos]; exact .refl _)

theorem reportAdmitted_runs (rc : QueuedReport) (now : ClientInstant) :
    Ensures (reportAdmitted rc now) c (Settles c (.reportAdmitted rc now)) := by
  refine ticked_runs fun d hd => .okOr_bind (fun _ => hd.refused) fun r hr => hd.failIf_bind
    fun hfrom => ?_
  rw [not_or,not_not] at hfrom
  have hsome : r.reporter.isSome = true := by
    cases hrep : r.reporter with
    | none => simp [hrep] at hfrom
    | some _ => rfl
  have hn := (checkedAdd_eq_some.mp hfrom.2).1
  have hk : Frames c {d with readiness := some {r with ceiling := rc.sequence}} :=
    {hd.frames with}
  refine .modify_bind (.ite (fun hneg => ?_) fun hpos => .pure ⟨?_,hk⟩)
  · refine .bind (Q := fun r' e => r' = .ok () ∧ e = if r.resume = .needLossReport then
        {d with readiness := some {r with ceiling := rc.sequence}}
      else {d with readiness := some {r with ceiling := rc.sequence}}.suspend now) ?_
        (fun _ e he => ?_)
      fun _ _ h => by cases h.1
    · refine .ite (fun hne => .of_exec rfl ⟨rfl,?_⟩) fun heq => .pure ⟨rfl,?_⟩
      · rw [if_neg hne]
      · rw [if_pos (not_not.mp heq)]
    · have hf : Frames c e := by
        rw [he.2]
        split
        · exact hk
        · exact hk.trans (.suspend _ now)
      refine .of_exec rfl ⟨.reported hd hr hsome hn rfl ?_,hf.trans (.markLoss e _)⟩
      rw [if_pos hneg,he.2]
      exact .refl _
  · exact .reported hd hr hsome hn rfl (by rw [if_neg hpos]; exact .refl _)

/-! Tickets. -/

theorem not_foreign {t} (h : ¬d.Foreign t clock) :
    (t.credentials.view = d.credentials.view ∨ d.Obsolete t.credentials.view) ∧
      ∀ s, d.ticketState = some s → s.sequence < t.sequence := by
  simp only [InputClient.Foreign,not_or,not_and_or,not_not] at h
  refine ⟨h.2.2.1,fun s hs => ?_⟩
  have hr := h.2.2.2.2
  rw [hs] at hr
  simp only [Option.any_some,Bool.or_eq_true,decide_eq_true_eq,not_or,not_le,not_lt] at hr
  exact hr.1.1

theorem installTicket_runs {t presented}
    (hd : Ticked c d now) (hop : ticketIn c op = some (t,presented)) :
    Ensures (installTicket t presented clock now) d (Settles c op) := by
  refine .get_bind (hd.failIf_bind fun hp => hd.failIf_bind fun hf => hd.failIf_bind fun _ =>
    hd.okOrFail_bind fun u _ => ?_)
  obtain ⟨hview,hn⟩ := not_foreign hf
  refine .ite (fun ho => .of_exec rfl ⟨.drained hd hop ho hn (.refl _),{hd.frames with}⟩)
    fun hc => ?_
  have hc' : Current d t := ⟨hview.resolve_right hc,hn⟩
  have hcon : Frames c (d.consume t u clock.hostBoot) :=
    {hd.frames with}
  refine .modify_bind (.refuseIf_bind (fun _ => ⟨.consumed hd hop hc' (.inl (.refl _)),hcon⟩)
    fun _ => ?_)
  cases presented with
  | none =>
    have hnn : d.readiness = none := by simpa using hp
    refine .of_exec rfl ⟨.granted hd hop hc' hnn (.refl _),.after (.admitTicket ..) ?_⟩
    exact {hcon with}
  | some n =>
    obtain ⟨r,hr⟩ := Option.isSome_iff_exists.mp (not_not.mp hp).symm
    have ha : ((d.consume t u clock.hostBoot).readiness.getD (.new false)).acknowledge n =
        r.acknowledge n := by
      change (d.readiness.getD _).acknowledge n = _
      rw [hr]
      rfl
    by_cases hreport : r.Acknowledges n
    · rw [ReadinessState.acknowledge.eq_1 r,if_pos hreport] at ha
      refine .bind (Q := fun r' e => r' = .ok (r.crosses n) ∧ e = {d.consume t u clock.hostBoot with
          readiness := some {r with
            acknowledged := n
            resume := if r.crosses n then .clear else r.resume}}) ?_ (fun _ _ he => ?_)
              fun _ _ h => by cases h.1
      · refine .get_bind ?_
        rw [ha]
        exact .of_exec rfl ⟨rfl,rfl⟩
      · obtain ⟨hready,rfl⟩ := he
        cases hready
        refine .of_exec rfl ⟨.acknowledged hd hop hc' hr hreport (.refl _),
          .after (.admitTicket ..) ?_⟩
        exact {hcon with}
    · rw [ReadinessState.acknowledge.eq_1 r,if_neg hreport] at ha
      refine .bind (Q := fun r' e => (∃ x, r' = .error x) ∧
          e = (d.consume t u clock.hostBoot).stop .invalidTicket) ?_ (fun _ _ h => ?_)
            fun _ _ h => ?_
      · refine .get_bind ?_
        rw [ha]
        exact .of_exec rfl ⟨⟨_,rfl⟩,rfl⟩
      · obtain ⟨⟨_,h⟩,_⟩ := h
        cases h
      · exact ⟨.consumed hd hop hc' (.inr h.2),h.2 ▸ hcon.trans (.stop _ _)⟩

theorem readTicket_runs {read : InputClient → Except WireError α} {ticket : α → Ticket}
    {presented : α → Option ℕ} (hread : ∀ d, Frames c d → read d = read c)
    (ho : ticketIn c op = (read c).toOption.map fun t => (ticket t,presented t)) :
    Ensures (do
      tick now
      let d ← get
      let t ← ticketOf (read d)
      installTicket (ticket t) (presented t) clock now) c (Settles c op) := by
  refine ticked_runs fun d hd => ?_
  rw [hread d hd.frames]
  cases ht : read c with
  | ok t => exact installTicket_runs hd (by rw [ho,ht]; rfl)
  | error e => exact .of_exec rfl (hd.stop _)

theorem call_called (c : InputClient) (op : Op) : Ensures (call op) c (Called c op) := by
  have hs {α : Type} {m : Owner α} {f : α → Answer} (hm : op.marks = false)
      (h : Ensures m c fun _ c' => Same c c' ∧ Frames c c') :
          Ensures m c fun r c' => Runs c op (r.map f) c' :=
    h.mono fun _ _ h => ⟨.idle h.1 (plain_of_not_marks hm),h.2⟩
  cases op with
  | stop reason =>
    exact .of_exec rfl ⟨.halted (stop_isSome c reason) rfl rfl (plain_of_not_marks rfl),
      .frames (.stop c reason) trivial nofun⟩
  | tick now =>
    exact runs_of nofun (fun _ => trivial) (tick_ensures (fun _ _ h h' _ => .of_tick_error h h')
      fun d hd => hd.serves (.refl d) (.refl d) rfl)
  | advanceRecovery g now => exact runs_of nofun (fun _ => trivial) (advanceRecovery_runs g now)
  | confirmMapping s view now =>
    exact runs_of nofun (fun _ => trivial) (confirmMapping_runs s view now)
  | presented ev now => exact runs_of nofun (fun _ => trivial) (presented_runs ev now)
  | suspend now =>
    refine runs_of nofun (fun _ => trivial) (.of_exec rfl ⟨?_,.suspend c now⟩)
    exact .suspended (.inl rfl) (.refl (c.suspend now)) (plain_of_not_marks rfl)
  | setViewBound bound => exact runs_of nofun (fun _ => trivial) (hs rfl (setViewBound_same bound))
  | followPathRtt smoothedRtt =>
    exact runs_of nofun (fun _ => trivial) (hs rfl (followPathRtt_same smoothedRtt))
  | ticket x now => exact runs_of nofun (fun _ => trivial) (ticket_runs x now)
  | enableControlRenewal ch now =>
    exact runs_of nofun (fun _ => trivial) (enableControlRenewal_runs ch now)
  | acceptControlChallenge | pendingControlResponse | controlResponseSent =>
    exact runs_of nofun (fun _ => trivial) (control_runs rfl _ _ _)
  | expectReadinessFeedback now =>
    exact runs_of nofun (fun _ => trivial) (expectReadinessFeedback_runs now)
  | bindReadinessReporter cursor now =>
    exact runs_of nofun (fun _ => trivial) (bindReadinessReporter_runs cursor now)
  | reportAdmitted rc now => exact runs_of nofun (fun _ => trivial) (reportAdmitted_runs rc now)
  | acceptTicket | acceptAuthorityTicket | acceptReadinessTicket =>
    exact runs_of nofun (fun _ => trivial)
      (readTicket_runs (fun d h => by simp only [h.limits,h.binding]) rfl)
  | pointer position room now => exact called_of (pointer_called position room now)
  | action a room now => exact called_of (action_called a room now)
  | abandonUnsent unsent => exact called_of (abandonUnsent_called unsent)
  | result bs now => exact called_of (result_called bs now)
  | reconcileHeld observed room now => exact called_of (reconcileHeld_called observed room now)

theorem call_turn (c : InputClient) (op : Op) : Ensures (call op) c (Turn c op) :=
  (call_called c op).turn

theorem call_sequenced (c : InputClient) (op : Op) : Ensures (call op) c (Sequenced c op) :=
  (call_called c op).sequenced

end Calls

end FrankenRemote.Client
