import FrankenRemote.SendLanes

/-! Admission of recovery pictures to one shared encoder. Accepted demands wait in a single
slot, and every way of taking them draws on the same rate credit. -/
namespace FrankenRemote.Delivery

open Procedure Transition

/-- The demands that wait together, by their own deadlines. -/
structure IdrPending where
  ready : ℕ
  /-- Earliest deadline of the current private cohort. -/
  until_ : ℕ
  /-- Latest deadline accepted since the slot was last empty. -/
  sharedUntil : ℕ
  deriving DecidableEq

structure IdrCoalescer where
  interval : ℕ
  nextAllowed : ℕ
  pending : Option IdrPending
  lastNow : Option ℕ
  closed : Bool
  deriving DecidableEq

/-- One more demand, accepted at `now`. A private cohort that has expired is replaced; what
the shared source may still serve is not. -/
def IdrPending.join (p : IdrPending) (nextAllowed deadline now : ℕ) : IdrPending :=
  if p.until_ ≤ now then ⟨max now nextAllowed,deadline,max p.sharedUntil deadline⟩
  else ⟨p.ready,min p.until_ deadline,max p.sharedUntil deadline⟩

namespace IdrCoalescer

abbrev Call := Proc IdrCoalescer DeliveryError

def new (minimumIntervalMicros : ℕ) : Except DeliveryError IdrCoalescer :=
  if ¬(100000 ≤ minimumIntervalMicros ∧ minimumIntervalMicros ≤ 1000000) then .error .invalidPolicy
  else .ok ⟨minimumIntervalMicros,0,none,none,false⟩

def close (c : IdrCoalescer) : IdrCoalescer := {c with closed := true, pending := none}

def cancelPending (c : IdrCoalescer) : IdrCoalescer := {c with pending := none}

def checkClock (now : ℕ) : Call Unit := do
  let c ← get
  refuseIf (c.closed = true) .wrongState
  if c.lastNow.any (now < ·) then
    modify close
    throw .clockRegression
  else modify ({· with lastNow := some now})

/-- The slot once a demand is in it. -/
def withDemand (c : IdrCoalescer) (deadline now : ℕ) : IdrCoalescer :=
  {c with pending := some (match c.pending with
    | some p => p.join c.nextAllowed deadline now
    | none => ⟨max now c.nextAllowed,deadline,deadline⟩)}

def queue (cache : SendCache) (demand : RecoveryDemand) (now : ℕ) : Call Unit := do
  checkClock now
  ofResult (demand.check cache now)
  modify (withDemand · demand.deadline now)

/-- Spend the credit, if there is any and the cohort is ready. -/
def admitUntil (now until_ : ℕ) : Call (Option ℕ) := do
  let c ← get
  if now < c.nextAllowed ∨ c.pending.any (now < ·.ready) then pure none
  else
    match deadline now c.interval with
    | .ok next =>
      modify ({· with nextAllowed := next, pending := none})
      pure (some until_)
    | .error e =>
      modify close
      throw e

/-- `admit`: the earlier of the cohort's deadline and a join's. -/
def admitEarliest (now : ℕ) (joinUntil : Option ℕ) : Call (Option ℕ) := do
  let c ← get
  match c.pending, joinUntil with
  | some p, some until_ => admitUntil now (min p.until_ until_)
  | some p, none => admitUntil now p.until_
  | none, some until_ => admitUntil now until_
  | none, none => pure none

def take (now : ℕ) : Call (Option ℕ) := do
  checkClock now
  let c ← get
  if c.pending.any (·.until_ ≤ now) then
    modify cancelPending
    throw .recoveryExpired
  else admitEarliest now none

def takeShared (now : ℕ) : Call (Option ℕ) := do
  checkClock now
  let c ← get
  match c.pending with
  | none => pure none
  | some p =>
    if p.sharedUntil ≤ now then
      modify cancelPending
      throw .recoveryExpired
    else admitUntil now p.sharedUntil

def takeForJoin (now until_ : ℕ) : Call (Option ℕ) := do
  checkClock now
  refuseIf (until_ ≤ now) .recoveryExpired
  let c ← get
  if c.pending.any (·.until_ ≤ now) then
    modify cancelPending
    admitEarliest now (some until_)
  else admitEarliest now (some until_)

def nextDeadline (c : IdrCoalescer) : Option ℕ :=
  if c.closed then none else c.pending.map fun p => if p.ready < p.until_ then p.ready else p.until_

def nextSharedDeadline (c : IdrCoalescer) : Option ℕ :=
  if c.closed then none
  else c.pending.map fun p => if p.ready < p.sharedUntil then p.ready else p.sharedUntil

end IdrCoalescer

/-! Runs. -/

inductive IdrOp
  | queue (cache : SendCache) (demand : RecoveryDemand) (now : ℕ)
  | take (now : ℕ)
  | takeShared (now : ℕ)
  | takeForJoin (now until_ : ℕ)
  | cancelPending
  | close

/-- The sample a call passes to the clock. -/
def IdrOp.now : IdrOp → Option ℕ
  | queue _ _ now | take now | takeShared now | takeForJoin now _ => some now
  | cancelPending | close => none

/-- Only the three takes have a deadline to return. -/
def IdrOp.run : IdrOp → IdrCoalescer.Call (Option ℕ)
  | queue cache demand now => do
    IdrCoalescer.queue cache demand now
    pure none
  | take now => IdrCoalescer.take now
  | takeShared now => IdrCoalescer.takeShared now
  | takeForJoin now until_ => IdrCoalescer.takeForJoin now until_
  | cancelPending => do
    modify IdrCoalescer.cancelPending
    pure none
  | close => do
    modify IdrCoalescer.close
    pure none

abbrev IdrReply := Except DeliveryError (Option ℕ)

def idrStep (c : IdrCoalescer) (op : IdrOp) : IdrReply × IdrCoalescer := exec op.run c

abbrev IdrEvent := Transition.Event IdrCoalescer IdrOp IdrReply

def IdrEvent.after (e : IdrEvent) : IdrCoalescer := (idrStep e.before e.input).2

def IdrEvent.admitted (e : IdrEvent) : Option ℕ :=
  match e.reply with
  | .ok (some _) => e.input.now
  | _ => none

def idrTimes (history : List IdrEvent) : List ℕ := history.filterMap IdrEvent.admitted

/-! What each call does. -/

namespace IdrCoalescer

variable {c t : IdrCoalescer} {now : ℕ} {α : Type}

inductive Clocked (c : IdrCoalescer) (now : ℕ) : Except DeliveryError Unit → IdrCoalescer → Prop
  | sampled (hopen : c.closed = false) (hclock : ∀ last, c.lastNow = some last → last ≤ now) :
      Clocked c now (.ok ()) {c with lastNow := some now}
  | ended (hclosed : c.closed = true) : Clocked c now (.error .wrongState) c
  | regressed {last} (hlast : c.lastNow = some last) (hback : now < last) :
      Clocked c now (.error .clockRegression) c.close

theorem checkClock_ensures (c : IdrCoalescer) (now : ℕ) : Ensures (checkClock now) c
    (Clocked c now) := by
  refine .get_bind (.refuseIf_bind .ended fun ho => .ite (fun hback => ?_) fun hc => ?_)
  · obtain ⟨last,hl,hlt⟩ := Option.any_eq_true _ _ |>.mp hback
    exact .modify_bind (.throw (.regressed hl (of_decide_eq_true hlt)))
  · refine .of_exec (exec_modify _ _) (.sampled (by simpa using ho) fun last hl => ?_)
    simpa [hl] using hc

inductive Queued (c : IdrCoalescer) (cache : SendCache) (demand : RecoveryDemand) (now : ℕ) :
    Except DeliveryError Unit → IdrCoalescer → Prop
  | accepted (hopen : c.closed = false) (hcheck : demand.check cache now = .ok ()) :
      Queued c cache demand now (.ok ())
        ({c with lastNow := some now}.withDemand demand.deadline now)
  | stale {e} (hopen : c.closed = false) :
      Queued c cache demand now (.error e) {c with lastNow := some now}
  | unclocked {e t} (h : Clocked c now (.error e) t) :
      Queued c cache demand now (.error e) t

theorem queue_ensures (c : IdrCoalescer) (ca : SendCache) (d : RecoveryDemand) (now : ℕ) :
    Ensures (queue ca d now) c (Queued c ca d now) := by
  refine .bind (checkClock_ensures c now) (fun _ t h => ?_) fun _ _ h => .unclocked h
  cases h with
  | sampled ho _ =>
    refine .ofResult_bind (fun _ _ => .stale ho) fun _ hc => ?_
    exact .of_exec (exec_modify _ _) (.accepted ho hc)

/-- What an attempt to spend the credit comes to. -/
inductive Admission (c : IdrCoalescer) (now until_ : ℕ) : IdrReply → IdrCoalescer → Prop
  | early (hearly : now < c.nextAllowed ∨ c.pending.any (now < ·.ready) = true) :
      Admission c now until_ (.ok none) c
  | granted (hallowed : c.nextAllowed ≤ now) :
      Admission c now until_ (.ok (some until_))
      {c with nextAllowed := now+c.interval, pending := none}
  | overflowed (hbound : 2^64 ≤ now+c.interval) :
      Admission c now until_ (.error .clockOverflow) c.close

theorem admitUntil_ensures (c : IdrCoalescer) (now u : ℕ) : Ensures (admitUntil now u) c
    (Admission c now u) := by
  refine .get_bind (.ite (fun he => .pure (.early he)) fun hr => ?_)
  have hall : c.nextAllowed ≤ now := by
    by_contra he
    exact hr (.inl (not_le.mp he))
  cases hd : deadline now c.interval with
  | ok next =>
    obtain ⟨rfl,_⟩ := deadline_eq_ok hd
    exact .modify_bind (.pure (.granted hall))
  | error e =>
    obtain ⟨rfl,hb⟩ := deadline_eq_error hd
    exact .modify_bind (.throw (.overflowed hb))

/-- What a call at `now` may do to the rate credit: only an admission spends it. -/
inductive Paid (c : IdrCoalescer) (now : Option ℕ) : IdrReply → IdrCoalescer → Prop
  | kept {res t} (hreply : ∀ until_, res ≠ .ok (some until_))
      (hinterval : t.interval = c.interval) (hcredit : t.nextAllowed = c.nextAllowed) :
      Paid c now res t
  | spent {until_ at_ t} (hnow : now = some at_) (hallowed : c.nextAllowed ≤ at_)
      (hinterval : t.interval = c.interval) (hcredit : t.nextAllowed = at_+c.interval) :
      Paid c now (.ok (some until_)) t

variable {n : Option ℕ}

theorem Paid.refused {e} (hi : t.interval = c.interval)
    (hc : t.nextAllowed = c.nextAllowed) : Paid c n (.error e) t :=
  .kept (fun _ => by simp) hi hc

theorem Paid.idle (hi : t.interval = c.interval) (hc : t.nextAllowed = c.nextAllowed) :
    Paid c n (.ok none) t :=
  .kept (fun _ => by simp) hi hc

theorem Clocked.paid {e} (h : Clocked c now (.error e) t) : Paid c n (.error e) t := by
  cases h with
  | ended | regressed => exact .refused rfl rfl

theorem Admission.paid {s u res} (h : Admission s now u res t)
    (hi : s.interval = c.interval) (hc : s.nextAllowed = c.nextAllowed) :
    Paid c (some now) res t := by
  cases h with
  | early _ => exact .idle hi hc
  | granted hall =>
    rw [hc] at hall
    refine .spent rfl hall hi ?_
    simp [hi]
  | overflowed _ => exact .refused hi hc

/-- Whatever follows the clock is paid for if the rest of the call is. -/
theorem clocked_paid {k : Call (Option ℕ)}
    (hk : Ensures k {c with lastNow := some now} (Paid c (some now))) :
    Ensures (checkClock now >>= fun _ => k) c (Paid c (some now)) := by
  refine .bind (checkClock_ensures c now) (fun _ t h => ?_) fun _ _ h => h.paid
  cases h
  exact hk

theorem admitEarliest_paid {s : IdrCoalescer} (j : Option ℕ) (hi : s.interval = c.interval)
    (hc : s.nextAllowed = c.nextAllowed) : Ensures (admitEarliest now j) s (Paid c (some now)) := by
  have ha : ∀ u, Ensures (admitUntil now u) s (Paid c (some now)) := fun u =>
    (admitUntil_ensures s now u).mono fun _ _ h => h.paid hi hc
  refine .get_bind ?_
  cases s.pending <;> cases j
  · exact .pure (.idle hi hc)
  all_goals exact ha _

theorem run_paid (op : IdrOp) (c : IdrCoalescer) : Ensures op.run c (Paid c op.now) := by
  cases op with
  | queue cache d now =>
    refine .bind (queue_ensures c cache d now) (fun _ t h => .pure ?_) fun e t h => ?_
    · cases h
      exact .idle rfl rfl
    · cases h with
      | stale _ => exact .refused rfl rfl
      | unclocked h => exact h.paid
  | take now =>
    refine clocked_paid (.get_bind (.ite (fun _ => ?_) fun _ => admitEarliest_paid none rfl rfl))
    exact .modify_bind (.throw (.refused rfl rfl))
  | takeShared now =>
    refine clocked_paid (.get_bind ?_)
    cases c.pending with
    | none => exact .pure (.idle rfl rfl)
    | some p =>
      refine .ite (fun _ => .modify_bind (.throw (.refused rfl rfl))) fun _ => ?_
      exact (admitUntil_ensures _ now _).mono fun _ _ h => h.paid rfl rfl
  | takeForJoin now u =>
    refine clocked_paid (.refuseIf_bind (fun _ => .refused rfl rfl) fun _ => .get_bind (.ite ?_ ?_))
    · intro _
      exact .modify_bind (admitEarliest_paid (some u) rfl rfl)
    · intro _
      exact admitEarliest_paid (some u) rfl rfl
  | cancelPending | close => exact .modify_bind (.pure (.idle rfl rfl))

end IdrCoalescer

/-! The rate over whole runs. -/

/-- Admissions so far are an interval apart, and the next is no closer. -/
structure Paced (interval next : ℕ) (times : List ℕ) : Prop where
  apart : times.Pairwise fun a b => a+interval ≤ b
  before : ∀ a ∈ times, a+interval ≤ next

theorem Paced.snoc {i next now ti} (h : Paced i next ti) (hn : next ≤ now) :
    Paced i (now+i) (ti++[now]) := by
  refine ⟨pairwise_snoc.mpr ⟨h.apart,fun a ha => (h.before a ha).trans hn⟩,forall_mem_snoc.mpr
    ⟨fun a ha => ?_,le_rfl⟩⟩
  have hb := h.before a ha
  omega

theorem idrStep_paced {i past} {c : IdrCoalescer}
    (hi : c.interval = i) (h : Paced i c.nextAllowed (idrTimes past)) (op : IdrOp) :
    (idrStep c op).2.interval = i ∧
      Paced i (idrStep c op).2.nextAllowed (idrTimes (past ++ [⟨c,op,(idrStep c op).1⟩])) := by
  have hpaid : IdrCoalescer.Paid c op.now (idrStep c op).1 (idrStep c op).2 :=
    IdrCoalescer.run_paid op c
  generalize (idrStep c op).1 = res,(idrStep c op).2 = t at hpaid
  cases hpaid with
  | kept hr hk hc =>
    have hs : IdrEvent.admitted ⟨c,op,res⟩ = none := by
      unfold IdrEvent.admitted
      split
      · exact absurd ‹_› (hr _)
      · rfl
    refine ⟨hk.trans hi,?_⟩
    simpa [idrTimes,hs,hc] using h
  | spent hn hall hk hc =>
    refine ⟨hk.trans hi,?_⟩
    rw [hc,hi]
    simpa [idrTimes,IdrEvent.admitted,hn] using h.snoc hall

theorem idrRun_paced {i c} (hnew : IdrCoalescer.new i = .ok c) (ops : List IdrOp) :
    (final idrStep c ops).interval = i ∧
      Paced i (final idrStep c ops).nextAllowed (idrTimes (trace idrStep c ops)) := by
  have hs : c.interval = i ∧ Paced i c.nextAllowed (idrTimes []) := by
    unfold IdrCoalescer.new at hnew
    split at hnew
    · cases hnew
    · cases hnew
      exact ⟨rfl,List.Pairwise.nil,by simp [idrTimes]⟩
  exact history_invariant idrStep
    (I := fun past t => t.interval = i ∧ Paced i t.nextAllowed (idrTimes past)) hs
    (fun _ _ op h => idrStep_paced h.1 h.2 op) ops

/-- In every run the admissions are an interval apart, and a call without one leaves the credit
as it was, whether it queued, expired, cancelled or was refused. -/
theorem idr_spacing {interval : ℕ} {c : IdrCoalescer} (hnew : IdrCoalescer.new interval = .ok c)
    (ops : List IdrOp) : (idrTimes (trace idrStep c ops)).Pairwise (fun a b => a+interval ≤ b) ∧
      ∀ e : IdrEvent, e ∈ trace idrStep c ops → (∀ until_, e.reply ≠ .ok (some until_)) →
        e.after.nextAllowed = e.before.nextAllowed := by
  refine ⟨(idrRun_paced hnew ops).2.apart,trace_invariant (I := fun _ => True) idrStep
    (fun s op _ => ⟨trivial,fun hr => ?_⟩) ops trivial⟩
  have hpaid : IdrCoalescer.Paid s op.now (idrStep s op).1 (idrStep s op).2 :=
    IdrCoalescer.run_paid op s
  unfold IdrEvent.after
  generalize (idrStep s op).1 = res at hr hpaid
  cases hpaid with
  | kept _ _ hc => exact hc
  | spent _ _ _ _ => exact absurd rfl (hr _)

/-- The view that the sample viewer has installed. -/
def sampleView : Wire.DecoderBinding := ⟨⟨9,1,1,1⟩,1,0,1,1,0⟩

/-- A demand that the sample cache has issued, at time one. -/
structure SampleDemand (cache : SendCache) (demand : RecoveryDemand) : Prop where
  issued : ∃ c bytes,
    SendCache.new 0 sampleConfig.limits sampleConfig.bindings sampleConfig.epoch sampleSendPolicy =
      .ok c ∧
    Wire.encodeRecoveryRequest ⟨.decodeFailed,none⟩ 256 sampleView sampleConfig.limits.protocol
      .viewerToHost .reliable = .ok bytes ∧
    exec (SendCache.requestRecovery bytes sampleView 1) c = (.ok (.accepted demand),cache)
  valid : demand.check cache 1 = .ok ()
  deadline : demand.deadline = 2000001

/-- The demand that a request brought, and the cache after it. -/
def demandOf : Except SendError RecoveryDisposition × SendCache → Option
    (RecoveryDemand × SendCache)
  | (.ok (.accepted demand),cache) => some (demand,cache)
  | _ => none

theorem eq_of_demandOf {x d ca} (h : demandOf x = some (d,ca)) : x = (.ok (.accepted d),ca) := by
  unfold demandOf at h
  split at h <;> cases h
  rfl

theorem exists_sampleDemand : ∃ cache d, SampleDemand cache d := by
  obtain ⟨c,hc⟩ := exists_sampleCache
  have hb : ∃ bs, Wire.encodeRecoveryRequest ⟨.decodeFailed,none⟩ 256 sampleView
      sampleConfig.limits.protocol .viewerToHost .reliable = .ok bs := ⟨_,rfl⟩
  obtain ⟨bs,hb⟩ := hb
  have ha : ((demandOf (exec (SendCache.requestRecovery bs sampleView 1) c)).any fun x =>
      (x.1.check x.2 1).isOk && decide (x.1.deadline = 2000001)) = true := by
    cases hc
    cases hb
    decide +kernel
  rcases hd : demandOf (exec (SendCache.requestRecovery bs sampleView 1) c) with _ | ⟨d,cache⟩ <;>
    rw [hd] at ha
  · cases ha
  obtain ⟨hv,hdl⟩ := Bool.and_eq_true_iff.mp ha
  refine ⟨cache,d,⟨c,bs,hc,hb,eq_of_demandOf hd⟩,?_,of_decide_eq_true hdl⟩
  cases hcheck : d.check cache 1 with
  | ok => rfl
  | error e => simp [hcheck,Except.isOk,Except.toBool] at hv

/-- A demand, served together with a join; then two refusals and one more join. -/
def sampleTakes (cache : SendCache) (demand : RecoveryDemand) : List IdrOp :=
  [.queue cache demand 1,.takeForJoin 1 3000000,.takeForJoin 2 3000000,.takeShared 3,.cancelPending,
    .takeForJoin 500001 3000000]

theorem idr_spacing_sampleTakes : ∃ c cache demand, SampleDemand cache demand ∧
    IdrCoalescer.new 500000 = .ok c ∧
    idrTimes (trace idrStep c (sampleTakes cache demand)) = [1,500001] ∧
    (idrTimes (trace idrStep c (sampleTakes cache demand))).Pairwise (· + 500000 ≤ ·) := by
  obtain ⟨cache,demand,hs⟩ := exists_sampleDemand
  have hnew : ∃ c, IdrCoalescer.new 500000 = .ok c := ⟨_,rfl⟩
  obtain ⟨c,hc⟩ := hnew
  obtain ⟨ha,_⟩ := idr_spacing hc (sampleTakes cache demand)
  refine ⟨c,cache,demand,hs,hc,?_,ha⟩
  have hq : idrStep c (.queue cache demand 1) =
      (.ok none,⟨500000,0,some ⟨1,2000001,2000001⟩,some 1,false⟩) := by
    cases hc
    simp only [idrStep,IdrOp.run,IdrCoalescer.queue,hs.valid,hs.deadline]
    rfl
  simp only [sampleTakes,trace,hq]
  rfl

end FrankenRemote.Delivery
