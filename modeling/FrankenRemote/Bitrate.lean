import FrankenRemote.Primitives
import FrankenRemote.Procedure
import FrankenRemote.Transition

/-! The bitrate of one encoder. Measured pressure and headroom propose a rate, the only capture in
flight carries it, and the rate counts as applied once the encoder has confirmed it. -/
namespace FrankenRemote
namespace Pacing

inductive Availability
  | unknown | ready | blocked
  deriving DecidableEq

inductive Mode
  | active | idle
  deriving DecidableEq

inductive Reason
  | hold | sourceWork | sendAdmission | captureCredit | receiverBacklog | decoderWork |
      headroomProbe
  | verifiedIdle | changedAfterIdle | evidenceGap
  deriving DecidableEq

structure Load where
  retainedPictures : ℕ
  workUs : Option ℕ

inductive ReceiverEvidence
  | unobserved | unknown
  | measured (load : Load)

structure Sample where
  nowUs : ℕ
  sourceWorkUs : Option ℕ
  send : Availability
  captureCredit : Availability

structure Report where
  sample : Sample
  intervalUs : ℕ
  mode : Mode
  reason : Reason
  headroomUs : ℕ
  receiver : ReceiverEvidence

end Pacing

namespace Bitrate

open Procedure Transition

inductive Error
  | invalidBitrate | clockRegression | closed | captureInFlight | unexpectedCapture |
      unexpectedBitrate
  | missingIdr | sequenceExhausted
  deriving DecidableEq

inductive Reason
  | sendPressure | headroom
  /-- Takes back a target that the encoder may still hold. -/
  | evidenceReset
  deriving DecidableEq

structure Change where
  id : ℕ
  bitrate : ℕ
  reason : Reason
  deriving DecidableEq

/-- The rate that one capture asks for, and the one that was applied when it began. -/
structure Capture where
  sequence : ℕ
  bitrate : ℕ
  previous : ℕ
  deriving DecidableEq

def pressureUs : ℕ := 100000
def changeDwellUs : ℕ := 2000000
def headroomUs : ℕ := 4000000
def evidenceGapUs : ℕ := 100000

structure Headroom where
  lastPositive : Option ℕ := none
  previousPositive : Bool := false
  measuredUs : ℕ := 0
  deriving DecidableEq

namespace Headroom

def expired (h : Headroom) (now : ℕ) : Bool := h.lastPositive.any (evidenceGapUs < now - ·)

def measure (h : Headroom) (now : ℕ) : ℕ :=
  match h.lastPositive with
  | some last => if h.previousPositive then min (h.measuredUs +
    (now-last)) (2^64-1) else h.measuredUs
  | none => h.measuredUs

def record (h : Headroom) (now : ℕ) (positive : Bool) : ℕ × Headroom :=
  if positive then (h.measure now,⟨some now,true,h.measure now⟩)
  -- neither edge next to an unknown sample counts
  else (0,{h with previousPositive := false})

def observe (h : Headroom) (now : ℕ) (positive negative : Bool) : ℕ × Headroom :=
  (if negative || h.expired now then {} else h).record now positive

end Headroom

structure Controller where
  ceiling : ℕ
  floor : ℕ
  applied : ℕ
  pending : Option Change
  inFlight : Option Capture
  nativeTarget : ℕ
  nextChange : ℕ
  nextCapture : ℕ
  lastNow : Option ℕ
  lastSample : Option ℕ
  changedAt : Option ℕ
  pressureSince : Option ℕ
  headroom : Headroom
  closed : Bool
  deriving DecidableEq

abbrev Call := Proc Controller Error

def headroomNegative (r : Pacing.Report) : Bool :=
  r.mode ≠ .active || r.sample.send = .blocked || r.sample.captureCredit = .blocked ||
    r.sample.sourceWorkUs.any (min (r.intervalUs*3) (2^64-1) / 4 < ·) ||
    match r.receiver with
    | .measured load => 1 < load.retainedPictures || load.workUs.any (r.intervalUs ≤ ·)
    | _ => false

def blocked (r : Pacing.Report) : Bool := r.mode = .active && r.sample.send = .blocked

namespace Controller

def new (initial : ℕ) : Except Error Controller :=
  if ¬(10000 ≤ initial ∧ initial ≤ 200000000) then .error .invalidBitrate
  else .ok ⟨initial,min (max (initial/8) 100000) initial,initial,none,none,initial,1,1,none,none,
    none,none,{},false⟩

def clearMeasurements (c : Controller) : Controller :=
  {c with pressureSince := none, headroom := {}}

def close (c : Controller) : Controller :=
  {c with closed := true, pending := none}.clearMeasurements

def checkOpen : Call Unit := do
  let c ← get
  refuseIf (c.closed = true) .closed

def clock (now : ℕ) : Call Unit := do
  checkOpen
  let c ← get
  if c.lastNow.any (now < ·) then
    modify close
    throw .clockRegression
  else modify ({· with lastNow := some now})

def exhausted {α : Type} : Call α := do
  modify close
  throw .sequenceExhausted

def propose (bitrate : ℕ) (reason : Reason) : Call Unit := do
  let c ← get
  match checkedAdd c.nextChange 1 with
  | none => exhausted
  | some next => modify ({· with nextChange := next, pending := some ⟨c.nextChange,bitrate,reason⟩})

def resetEvidence : Call Unit := do
  checkOpen
  modify clearMeasurements
  let c ← get
  if c.pending.any (·.reason = .evidenceReset) then pure ()
  else if c.nativeTarget = c.applied then modify ({· with pending := none})
  else propose c.applied .evidenceReset

def evidenceGap (c : Controller) (r : Pacing.Report) : Bool :=
  c.lastSample.any (evidenceGapUs < r.sample.nowUs - ·) || r.reason = .evidenceGap

/-- The evidence for an increase is gone. -/
def evidenceLost (c : Controller) (r : Pacing.Report) : Bool :=
  c.evidenceGap r || headroomNegative r || c.headroom.expired r.sample.nowUs

/-- The durations of pressure and of headroom that the report completes. -/
def measure (c : Controller) (r : Pacing.Report) : (ℕ × ℕ) × Controller :=
  let now := r.sample.nowUs
  let since := if blocked r then some (c.pressureSince.getD now) else none
  let h := c.headroom.observe now (r.mode = .active && 0 < r.headroomUs) (headroomNegative r)
  ((since.elim 0 (now - ·),h.1),{c with pressureSince := since, headroom := h.2})

def proposeFor (r : Pacing.Report) (pressure headroom : ℕ) : Call Unit := do
  let c ← get
  if c.pending.isSome || c.changedAt.any (r.sample.nowUs - · < changeDwellUs) then pure ()
  else if blocked r ∧ pressureUs ≤ pressure ∧ c.floor < c.applied then
    propose (max (c.applied/2) c.floor) .sendPressure
  else if headroomUs ≤ headroom ∧ c.applied < c.ceiling then
    propose (min (min (c.applied + (c.applied+15)/16) (2^32-1)) c.ceiling) .headroom
  else pure ()

/-- A deferred increase must not outlive its evidence. -/
def withdraw (lost : Bool) : Call Unit := do
  let c ← get
  if c.pending.any (·.reason = .headroom) && lost then resetEvidence else pure ()

def observe (r : Pacing.Report) : Call Unit := do
  clock r.sample.nowUs
  let c ← get
  modify ({· with lastSample := some r.sample.nowUs})
  withdraw (c.evidenceLost r)
  modify fun t => bif c.evidenceGap r then t.clearMeasurements else t
  let t ← get
  modify (·.measure r |>.2)
  proposeFor r (t.measure r).1.1 (t.measure r).1.2

def beginCapture : Call Capture := do
  checkOpen
  let c ← get
  refuseIf (c.inFlight.isSome = true) .captureInFlight
  match checkedAdd c.nextCapture 1 with
  | none => exhausted
  | some next =>
    let capture : Capture := ⟨c.nextCapture,c.pending.elim c.applied Change.bitrate,c.applied⟩
    modify ({· with nextCapture := next, nativeTarget := capture.bitrate, inFlight := some capture})
    pure capture

/-- The encoder's answer to a capture. -/
def confirm (c : Controller) (capture : Capture) (actual now : ℕ) : Controller :=
  let t : Controller := {c with
    inFlight := none
    pending := c.pending.filter fun p => ¬(p.bitrate = actual ∧ capture.bitrate = actual)}
  if actual ≠ c.applied then
    {t with applied := actual, changedAt := some now}.clearMeasurements else t

def completeCapture (capture : Capture) (actual : ℕ) (isIdr : Bool) (now : ℕ) : Call Unit := do
  checkOpen
  let c ← get
  refuseIf (c.inFlight ≠ some capture ∨ c.applied ≠ capture.previous) .unexpectedCapture
  refuseIf (actual ≠ capture.previous ∧ actual ≠ capture.bitrate) .unexpectedBitrate
  refuseIf (actual ≠ c.applied ∧ isIdr = false) .missingIdr
  clock now
  modify (·.confirm capture actual now)

end Controller

/-! Runs. -/

inductive Op
  | observe (report : Pacing.Report)
  | beginCapture
  | completeCapture (capture : Capture) (actual : ℕ) (isIdr : Bool) (now : ℕ)
  | resetEvidence
  | close

/-- Only a capture that begins has something to return. -/
abbrev Reply := Except Error (Option Capture)

def Op.run : Op → Call (Option Capture)
  | observe r => do
    Controller.observe r
    pure none
  | beginCapture => do
    let q ← Controller.beginCapture
    pure (some q)
  | completeCapture q actual isIdr now => do
    Controller.completeCapture q actual isIdr now
    pure none
  | resetEvidence => do
    Controller.resetEvidence
    pure none
  | close => do
    modify Controller.close
    pure none

def step (c : Controller) (op : Op) : Reply × Controller := exec op.run c

abbrev Event := Transition.Event Controller Op Reply

/-- The rate that the encoder was told last, and the capture that has not been completed. -/
def carried (initial : ℕ) (h : List Event) : ℕ × Option Capture :=
  h.foldl (fun s e => match e.input,e.reply with
    | _,.ok (some q) => (q.bitrate,some q)
    | .completeCapture ..,.ok none => (s.1,none)
    | _,_ => s) (initial,none)

/-- Rates between floor and ceiling, and a change pending while the encoder may hold another
target. -/
structure Agrees (lo hi rate target : ℕ) (flight : Option Capture) (change : Option Change)
    (closed : Bool) : Prop where
  width : hi < 2^32
  applied : lo ≤ rate ∧ rate ≤ hi
  native : lo ≤ target ∧ target ≤ hi
  carried : ∀ q, flight = some q → q.bitrate = target
  pending : ∀ p, change = some p → lo ≤ p.bitrate ∧ p.bitrate ≤ hi
  settled : closed = false → change = none → target = rate
  lowers : closed = false → ∀ p, change = some p → p.reason = .sendPressure →
    (target = rate ∨ target = p.bitrate) ∧ p.bitrate ≤ rate

abbrev Bounded (c : Controller) : Prop :=
  Agrees c.floor c.ceiling c.applied c.nativeTarget c.inFlight c.pending c.closed

/-- What only captures change. -/
def Controller.core (c : Controller) : ℕ × ℕ × Option Capture :=
  (c.applied,c.nativeTarget,c.inFlight)

/-- At most another change is pending. -/
def Judges (c t : Controller) : Prop := t.core = c.core ∧ Bounded t

theorem Judges.trans {c t u} (h : Judges c t) (hu : Judges t u) : Judges c u :=
  ⟨hu.1.trans h.1,hu.2⟩

namespace Controller

variable {c t : Controller} {now : ℕ} {α : Type}

theorem close_judges (h : Bounded c) : Judges c c.close :=
  ⟨rfl,h.width,h.applied,h.native,h.carried,(fun _ hp => by cases hp),(fun hc => by cases hc),
    (fun hc => by cases hc)⟩

theorem checkOpen_bind {k : Unit → Call α} {P : Except Error α → Controller → Prop}
    (hbad : c.closed = true → P (.error .closed) c) (hok : c.closed = false → Ensures (k ()) c P) :
    Ensures (checkOpen >>= k) c P := by
  cases hc : c.closed with
  | false => exact .bind_of_exec (by simp [checkOpen,hc]) (hok hc)
  | true => exact .of_exec (exec_bind_error (by simp [checkOpen,hc])) (hbad hc)

inductive Clocked (c : Controller) (now : ℕ) : Except Error Unit → Controller → Prop
  | sampled (hopen : c.closed = false) : Clocked c now (.ok ()) {c with lastNow := some now}
  | ended (hclosed : c.closed = true) : Clocked c now (.error .closed) c
  | regressed : Clocked c now (.error .clockRegression) c.close

theorem clock_ensures (c : Controller) (now : ℕ) : Ensures (clock now) c (Clocked c now) := by
  refine checkOpen_bind .ended fun ho => .get_bind (.ite (fun _ => ?_) fun _ => ?_)
  · exact .modify_bind (.throw .regressed)
  · exact .of_exec (exec_modify _ _) (.sampled ho)

theorem Clocked.judges {r} (h : Clocked c now r t) (hc : Bounded c) : Judges c t := by
  cases h with
  | sampled | ended => exact ⟨rfl,hc⟩
  | regressed => exact close_judges hc

theorem propose_judges {b re} (h : Bounded c)
    (hb : c.floor ≤ b ∧ b ≤ c.ceiling) (hl : c.closed = false → re = .sendPressure →
      c.nativeTarget = c.applied ∧
      b ≤ c.applied) : Ensures (propose b re) c fun _ t => Judges c t := by
  refine .get_bind ?_
  cases checkedAdd c.nextChange 1 with
  | none => exact .modify_bind (.throw (close_judges h))
  | some next =>
    refine .of_exec (exec_modify _ _) ⟨rfl,h.width,h.applied,h.native,h.carried,?_,
      (fun _ hp => by cases hp),?_⟩
    · rintro _ ⟨⟩
      exact hb
    · rintro ho _ ⟨⟩ hr
      exact ⟨.inl (hl ho hr).1,(hl ho hr).2⟩

theorem resetEvidence_judges (h : Bounded c) : Ensures resetEvidence c fun _ t => Judges c t := by
  refine checkOpen_bind (fun _ => ⟨rfl,h⟩)
    fun _ => .modify_bind (.get_bind (.ite (fun _ => .pure ⟨rfl,h⟩) fun _ => ?_))
  refine .ite (fun ht => ?_) fun _ => ?_
  · exact .of_exec (exec_modify _ _)
      ⟨rfl,h.width,h.applied,h.native,h.carried,(fun _ hp => by cases hp),fun _ _ =>
        ht,(fun _ _ hp => by cases hp)⟩
  · exact propose_judges (c := c.clearMeasurements) h h.applied fun _ hr => by cases hr

theorem proposeFor_judges (h : Bounded c) (r : Pacing.Report) (pr headroom : ℕ) :
    Ensures (proposeFor r pr headroom) c fun _ t => Judges c t := by
  refine .get_bind (.ite (fun _ => .pure ⟨rfl,h⟩) fun hfree => .ite (fun hl => ?_)
    fun _ => .ite (fun hhigh => ?_) ?_)
  · have hn : c.pending = none := by
      cases hp : c.pending with
      | none => rfl
      | some => simp [hp] at hfree
    have ha := h.applied
    refine propose_judges h (by omega) fun ho _ => ⟨h.settled ho hn,?_⟩
    omega
  · have ha := h.applied
    have hw := h.width
    exact propose_judges h (by omega) fun _ hr => by cases hr
  · exact fun _ => .pure ⟨rfl,h⟩

theorem observe_judges (h : Bounded c) (r : Pacing.Report) :
    Ensures (observe r) c fun _ t => Judges c t := by
  refine .bind (clock_ensures c _) (fun _ t ht => ?_) fun _ _ ht => ht.judges h
  have ht := ht.judges h
  refine .get_bind (.modify_bind (.bind (Q := fun _ u => Judges t u) ?_ (fun _ u hu => ?_)
    fun _ _ hu => ht.trans hu))
  · exact .get_bind (.ite (fun _ => resetEvidence_judges ht.2) fun _ => .pure ⟨rfl,ht.2⟩)
  · refine .modify_bind (.get_bind (.modify_bind ?_))
    cases t.evidenceGap r with
    | true | false =>
      refine .mono (proposeFor_judges ?_ r _ _) fun _ _ hv => (ht.trans hu).trans hv
      exact hu.2

end Controller

/-- What a call can do to the rate, the target and the capture in flight. -/
inductive Turn (k : ℕ × ℕ × Option Capture) : Op → Reply → ℕ × ℕ × Option Capture → Prop
  | quiet {op} (hop : ∀ q a i n, op ≠ .completeCapture q a i n) : Turn k op (.ok none) k
  | refused {op e} : Turn k op (.error e) k
  | began {q} : Turn k .beginCapture (.ok (some q)) (k.1,q.bitrate,some q)
  | completed {q actual now isIdr} (hq : k.2.2 = some q)
      (hidr : actual = k.1 ∨ (actual = q.bitrate ∧ isIdr = true)) :
      Turn k (.completeCapture q actual isIdr now) (.ok none) (actual,k.2.1,none)

section Turns

variable {c t : Controller} {q : Capture} {actual : ℕ} {op : Op}

theorem Judges.turn (h : Judges c t) (ho : ∀ q a i n, op ≠ .completeCapture q a i n) :
    Bounded t ∧ Turn c.core op (.ok none) t.core := ⟨h.2,h.1 ▸ .quiet ho⟩

theorem Judges.refusal {e} (h : Judges c t) : Bounded t ∧ Turn c.core op (.error e) t.core :=
  ⟨h.2,h.1 ▸ .refused⟩

theorem Agrees.begin (h : Bounded c) (hq : q.bitrate = c.pending.elim c.applied Change.bitrate) :
    Agrees c.floor c.ceiling c.applied q.bitrate (some q) c.pending c.closed := by
  cases hp : c.pending with
  | none =>
    rw [hp] at hq
    refine ⟨h.width,h.applied,hq ▸ h.applied,?_,(fun _ hp => by cases hp),fun _ _ =>
      hq,fun _ _ hp => by cases hp⟩
    rintro _ ⟨⟩
    rfl
  | some p =>
    rw [hp] at hq
    refine ⟨h.width,h.applied,hq ▸ h.pending p hp,?_,hp ▸ h.pending,(fun _ hp => by cases hp),?_⟩
    · rintro _ ⟨⟩
      rfl
    · rintro ho _ ⟨⟩ hr
      exact ⟨.inr hq,(h.lowers ho p hp hr).2⟩

/-- A target that is left unapplied is still pending. -/
theorem Agrees.confirm (h : Bounded c) (hq : c.inFlight = some q)
    (ha : actual = c.applied ∨ actual = q.bitrate) :
    Agrees c.floor c.ceiling actual c.nativeTarget none
      (c.pending.filter fun p => ¬(p.bitrate = actual ∧ q.bitrate = actual)) c.closed := by
  have hc := h.carried q hq
  rw [hc] at ha
  refine ⟨h.width,?_,h.native,(fun _ hp => by cases hp),fun p hp => ?_,fun ho hn =>
    ?_,fun ho p hp hr => ?_⟩
  · rcases ha with rfl | rfl
    · exact h.applied
    · exact h.native
  · exact h.pending p (Option.filter_eq_some_iff.mp hp).1
  · cases hp : c.pending with
    | none =>
      have hs := h.settled ho hp
      omega
    | some p =>
      simp only [hp,Option.filter_some,decide_not,Bool.not_eq_true',decide_eq_false_iff_not] at hn
      split_ifs at hn with hcut
      exact hc.symm.trans hcut.2
  · obtain ⟨hp,hcut⟩ := Option.filter_eq_some_iff.mp hp
    have hl := h.lowers ho p hp hr
    simp only [decide_eq_true_eq,hc] at hcut
    omega

theorem confirm_turn {now i} (h : Bounded c) (hq : c.inFlight = some q)
    (hi : actual = c.applied ∨ (actual = q.bitrate ∧ i = true)) : Bounded (c.confirm q actual now) ∧
      Turn c.core (.completeCapture q actual i now) (.ok none) (c.confirm q actual now).core := by
  have ht := @Turn.completed c.core q actual now i hq hi
  have hc := h.confirm hq (hi.imp_right And.left)
  unfold Controller.confirm
  split_ifs with hne
  · exact ⟨hc,ht⟩
  · rw [not_not.mp hne] at hc ht ⊢
    exact ⟨hc,ht⟩

open Controller

theorem run_turn (h : Bounded c) (op : Op) :
    Ensures op.run c fun r t => Bounded t ∧ Turn c.core op r t.core := by
  have hself {op : Op} {e : Error} : Bounded c ∧ Turn c.core op (.error e) c.core := ⟨h,.refused⟩
  cases op with
  | observe r =>
    exact .bind (observe_judges h r) (fun _ _ ht => .pure (ht.turn fun _ _ _ _ h => by cases h))
      fun _ _ ht => ht.refusal
  | resetEvidence =>
    exact .bind (resetEvidence_judges h) (fun _ _ ht => .pure (ht.turn fun _ _ _ _ h => by cases h))
      fun _ _ ht => ht.refusal
  | close => exact .modify_bind (.pure ((close_judges h).turn fun _ _ _ _ h => by cases h))
  | beginCapture =>
    refine .bind (Q := fun r t => Bounded t ∧ Turn c.core .beginCapture (r.map some) t.core) ?_
      (fun _ _ ht => .pure ht) fun _ _ ht => ht
    refine checkOpen_bind (fun _ => hself) fun _ => .get_bind (.refuseIf_bind (fun _ => hself)
      fun _ => ?_)
    cases checkedAdd c.nextCapture 1 with
    | none => exact .modify_bind (.throw (close_judges h).refusal)
    | some next => exact .modify_bind (.pure ⟨h.begin (q :=
      ⟨c.nextCapture,_,c.applied⟩) rfl,.began⟩)
  | completeCapture q actual isIdr now =>
    refine .bind (Q :=
      fun r t => Bounded t ∧
      Turn c.core (.completeCapture q actual isIdr now) (r.map fun _ => none) t.core)
      ?_ (fun _ _ ht => .pure ht) fun _ _ ht => ht
    refine checkOpen_bind (fun _ => hself)
      fun _ => .get_bind (.refuseIf_bind (fun _ => hself) fun hq =>
      .refuseIf_bind (fun _ => hself) fun ha => .refuseIf_bind (fun _ => hself) fun hi =>
        .bind (clock_ensures c now) ?_ fun _ _ ht => (ht.judges h).refusal)
    rintro _ t ⟨⟩
    push Not at hq ha hi
    refine .of_exec (exec_modify _ _) (confirm_turn (c := {c with lastNow := some now}) h hq.1 ?_)
    by_cases hs : actual = c.applied
    · exact .inl hs
    · exact .inr ⟨ha (hq.2 ▸ hs),by simpa using hi hs⟩

/-- The history tells the target and the capture in flight. -/
structure Honest (initial : ℕ) (past : List Event) (c : Controller) : Prop where
  bounded : Bounded c
  carried : carried initial past = (c.nativeTarget,c.inFlight)

theorem Turn.carried {initial past r} (ht : Turn c.core op r t.core)
    (h : carried initial past = (c.nativeTarget,c.inFlight)) :
    Bitrate.carried initial (past ++ [⟨c,op,r⟩]) = (t.nativeTarget,t.inFlight) := by
  unfold Bitrate.carried at h
  rw [Bitrate.carried,List.foldl_append,h,show (t.nativeTarget,t.inFlight) = t.core.2 from rfl]
  generalize t.core = k at ht
  cases ht with
  | quiet ho =>
    cases op with
    | completeCapture => exact absurd rfl (ho _ _ _ _)
    | observe | beginCapture | resetEvidence | close => rfl
  | refused => cases op <;> rfl
  | began | completed => rfl

end Turns

namespace Controller

variable {c : Controller} {p : Change} {r : Pacing.Report}

/-- What is left of an increase: nothing, or the return to the applied rate. -/
def Withdrawn (rate : ℕ) (t : Controller) : Prop :=
  ∀ p, t.pending = some p → p.reason = .evidenceReset ∧ p.bitrate = rate

theorem resetEvidence_withdraws (ho : c.closed = false) (hp : c.pending = some p)
    (hr : p.reason = .headroom) : Ensures resetEvidence c fun res t => Withdrawn c.applied t ∧
      (res = .ok () → t.pressureSince = none ∧ t.headroom = {}) := by
  refine checkOpen_bind (fun h => ?_)
    fun _ => .modify_bind (.get_bind (.ite (fun h => ?_) fun _ => .ite (fun _ => ?_) ?_))
  · rw [ho] at h
    cases h
  · simp [clearMeasurements,hp,hr] at h
  · exact .of_exec (exec_modify _ _) ⟨(fun _ h => by cases h),fun _ => ⟨rfl,rfl⟩⟩
  · refine fun _ => .get_bind ?_
    cases checkedAdd c.clearMeasurements.nextChange 1 with
    | none => exact .modify_bind (.throw ⟨(fun _ h => by cases h),fun h => by cases h⟩)
    | some next =>
      refine .of_exec (exec_modify _ _) ⟨?_,fun _ => ⟨rfl,rfl⟩⟩
      rintro _ ⟨⟩
      exact ⟨rfl,rfl⟩

theorem measure_cleared (hs : c.pressureSince = none) (hh : c.headroom = {}) :
    (c.measure r).1 = (0,0) := by
  unfold measure
  rw [hs,hh]
  cases blocked r <;> cases decide (r.mode = .active) && decide (0 < r.headroomUs) <;>
    cases headroomNegative r <;> simp [Headroom.observe,Headroom.record,Headroom.measure,
      Headroom.expired]

/-- Without measurements nothing is proposed. -/
theorem proposeFor_withdraws {rate} (h : Withdrawn rate c) :
    Ensures (proposeFor r 0 0) c fun _ t => Withdrawn rate t := by
  refine .get_bind (.ite (fun _ => .pure h) fun _ => .ite (fun hb => ?_)
    fun _ => .ite (fun hb => ?_) fun _ => .pure h)
  · exact absurd hb.2.1 (by decide)
  · exact absurd hb.1 (by decide)

theorem observe_withdraws (ho : c.closed = false) (hp : c.pending = some p)
    (hr : p.reason = .headroom)
    (hlost : c.evidenceLost r = true) : Ensures (observe r) c fun _ t => Withdrawn c.applied t := by
  refine .bind (clock_ensures c _) (fun _ t ht => ?_) fun _ t ht => ?_
  · cases ht
    refine .get_bind (.modify_bind (.bind (Q := fun res t => Withdrawn c.applied t ∧
      (res = .ok () → t.pressureSince = none ∧ t.headroom = {})) (.get_bind (.ite ?_ ?_))
        (fun _ u hu => ?_) ?_))
    · exact fun _ => resetEvidence_withdraws (p := p) ho hp hr
    · refine fun h => absurd ?_ h
      simp only [hp,Option.any_some,hr,decide_true,Bool.true_and]
      exact hlost
    · obtain ⟨hs,hh⟩ := hu.2 rfl
      refine .modify_bind (.get_bind (.modify_bind ?_))
      cases evidenceGap {c with lastNow := some r.sample.nowUs} r with
      | true =>
        rw [measure_cleared (c := bif true then u.clearMeasurements else u) rfl rfl]
        exact proposeFor_withdraws hu.1
      | false =>
        rw [measure_cleared (c := bif false then u.clearMeasurements else u) hs hh]
        exact proposeFor_withdraws hu.1
    · exact fun _ _ hu => hu.1
  · cases ht with
    | ended h =>
      rw [ho] at h
      cases h
    | regressed => exact fun _ h => by cases h

end Controller

theorem honest_new {initial c} (h : Controller.new initial = .ok c) : Honest initial [] c := by
  unfold Controller.new at h
  split_ifs at h with hi
  cases h
  refine ⟨⟨?_,?_,?_,(fun _ h => by cases h),(fun _ h => by cases h),fun _ _ =>
    rfl,fun _ _ h => by cases h⟩,rfl⟩
  all_goals dsimp only; omega

/-- In every run the applied rate and a pending one stay between floor and ceiling. Without a
pending change the encoder was last told the rate that is applied. The applied rate becomes only
what the capture in flight carried and an IDR confirmed, and a pending increase that lost its
evidence is withdrawn, or replaced by the return to the applied rate. -/
theorem bitrate_honest {initial : ℕ} {c : Controller} (hnew : Controller.new initial = .ok c)
    (ops : List Op) :
    let t := final step c ops
    (t.floor ≤ t.applied ∧ t.applied ≤ t.ceiling) ∧
    (∀ p, t.pending = some p → t.floor ≤ p.bitrate ∧ p.bitrate ≤ t.ceiling) ∧
    (t.closed = false → t.pending = none → (carried initial (trace step c ops)).1 = t.applied) ∧
    (∀ op, (step t op).2.applied ≠ t.applied →
      ∃ q now, op = .completeCapture q (step t op).2.applied true now ∧
      (carried initial (trace step c ops)).2 = some q ∧ q.bitrate = (step t op).2.applied ∧
      (step t op).1 = .ok none) ∧
    ∀ p, t.closed = false → t.pending = some p → t.applied < p.bitrate → p.reason = .evidenceReset ∨
      (p.reason = .headroom ∧ ∀ r, t.evidenceLost r = true →
        ∀ p', (step t (.observe r)).2.pending = some p' → p'.reason = .evidenceReset ∧
        p'.bitrate = t.applied) := by
  have h : Honest initial (trace step c ops) (final step c ops) :=
    history_invariant step (honest_new hnew)
    (fun _ _ op h => ⟨(run_turn h.bounded op).1,(run_turn h.bounded op).2.carried h.carried⟩) ops
  refine ⟨h.bounded.applied,h.bounded.pending,fun ho hn => ?_,fun op hne =>
    ?_,fun p ho hp hlt => ?_⟩
  · rw [h.carried]
    exact h.bounded.settled ho hn
  · rw [h.carried]
    generalize final step c ops = t at h hne
    have ht : Turn t.core op (step t op).1 (step t op).2.core := (run_turn h.bounded op).2
    generalize step t op = res at ht hne ⊢
    obtain ⟨r,u⟩ := res
    rw [show u.applied = u.core.1 from rfl] at hne ⊢
    generalize u.core = k at ht hne ⊢
    cases ht with
    | quiet | refused | began => exact absurd rfl hne
    | @completed q _ now _ hq hi =>
      obtain ⟨rfl,rfl⟩ := hi.resolve_left hne
      exact ⟨q,now,rfl,hq,rfl,rfl⟩
  · cases hr : p.reason with
    | evidenceReset => exact .inl rfl
    | sendPressure => exact absurd (h.bounded.lowers ho p hp hr).2 (not_le.mpr hlt)
    | headroom =>
      refine .inr ⟨rfl,fun r hlost => ?_⟩
      exact Ensures.bind (P := fun _ t => Controller.Withdrawn (final step c ops).applied t)
        (Controller.observe_withdraws ho hp hr hlost) (fun _ _ h => .pure h) fun _ _ h => h

/-- Blocked sends that halve the rate, with the encoder's confirmation. -/
def loweringRun : List Op :=
  let report (now : ℕ) :
    Pacing.Report := ⟨⟨now,none,.blocked,.unknown⟩,33000,.active,.hold,0,.unobserved⟩
  [.observe (report 0),.observe (report 100000),.beginCapture,.completeCapture
    ⟨1,500000,1000000⟩ 500000 true 100001]

theorem bitrate_honest_lowered :
    ∃ c, Controller.new 1000000 = .ok c ∧ (final step c loweringRun).applied = 500000 ∧
    (carried 1000000 (trace step c loweringRun)).1 = (final step c loweringRun).applied :=
  ⟨_,rfl,by decide,(bitrate_honest rfl loweringRun).2.2.1 (by decide) (by decide)⟩

end Bitrate
end FrankenRemote
