import FrankenRemote.PresentedVerifier

/-! The viewer's one pending presentation report. A report of visibility may be replaced until
the transport takes it; a report of its loss may not. -/
namespace FrankenRemote.Presented

open Bytes Wire Client Input Procedure Transition List

/-- `Pending`. -/
structure PendingReport where
  stamp : Option Stamp
  bytes : List Byte
  until_ : ℕ
  deriving DecidableEq

/-- What a reporter hands out when the transport took its record. -/
structure QueuedReport where
  binding : ReportBinding
  sequence : ℕ
  visible : Option Stamp
  lineage : ℕ
  deriving DecidableEq

structure Reporter where
  binding : ReportBinding
  lineage : ℕ
  limits : ProtocolLimits
  sequence : ℕ
  lastNow : ℕ
  after : ℕ
  sent : Option Stamp
  /-- One source that expired before the transport took it. -/
  discarded : Option Stamp
  unavailableSent : Bool
  pending : Option PendingReport
  deriving DecidableEq

namespace Reporter

abbrev Call := Proc Reporter PresentedError

def new (binding : ReportBinding) (lineage : ℕ) (limits : ProtocolLimits) (now : ℕ) :
    Except PresentedError Reporter := do
  (reportBindingValid binding).mapError .wire
  .ok ⟨binding,lineage,limits,1,now,now,none,none,false,none⟩

def tick (now : ℕ) : Call Unit := do
  let lastNow ← ofResult (ticked (← get).lastNow now)
  modify ({· with lastNow})

/-- An explicit loss report waits for the transport. -/
def LossPending (r : Reporter) : Prop := ∃ p ∈ r.pending, p.stamp = none

instance (r : Reporter) : Decidable r.LossPending :=
  inferInstanceAs (Decidable (∃ p ∈ r.pending, _))

def encode (r : Reporter) (visible : Option Sample) : Except PresentedError (List Byte) :=
  (encodePresented ⟨r.sequence,visible⟩ r.binding r.limits (headerBytes+presentedPayload)
    .viewerToHost .reliable).mapError .wire

def discardExpiredPositive (now : ℕ) : Call Bool := do
  tick now
  match (← get).pending.filter (·.until_ ≤ now) with
  | none => pure false
  | some p =>
    let stamp ← okOr p.stamp .expired
    modify ({· with discarded := some stamp, pending := none})
    pure true

def forceUnavailable (now : ℕ) : Call ℕ := do
  let _ ← discardExpiredPositive now
  let r ← get
  if r.LossPending then pure r.sequence
  else
    let until_ ← okOr (checkedAdd now reportInterval) .overflow
    let bytes ← ofResult (r.encode none)
    modify ({· with pending := some ⟨none,bytes,until_⟩})
    pure r.sequence

/-- The call `pending`. -/
def offer (now : ℕ) : Call (Option (List Byte × ℕ)) := do
  tick now
  let r ← get
  refuseIf (∃ p ∈ r.pending, p.until_ ≤ now) .expired
  pure (r.pending.map fun p => (p.bytes,p.until_))

/-- A sample that may be reported on this path. -/
def fresh (r : Reporter) (bound : ℕ) (sample : Option Sample) : Option Sample :=
  sample.filter fun s => s.ageUpper < bound ∧ r.discarded ≠ some s.stamp

/-- Another source gives up its place. -/
def dropOther (r : Reporter) (s : Stamp) : Reporter :=
  if ∃ p ∈ r.pending, p.stamp ≠ some s then {r with pending := none} else r

/-- The part of `prepare` with a fresh sample. -/
def prepareSample (s : Sample) (now bound : ℕ) : Call Unit := do
  ofResult (s.validate.mapError .wire)
  modify (·.dropOther s.stamp)
  let r ← get
  match r.pending with
  | some p => refuseIf (p.until_ ≤ now) .expired
  | none =>
    if r.sent = some s.stamp ∨ now < r.after then pure ()
    else
      let until_ ← okOr (checkedAdd now (bound - s.ageUpper)) .overflow
      let bytes ← ofResult (r.encode (some s))
      modify ({· with pending := some ⟨some s.stamp,bytes,until_⟩})

def prepare (sample : Option Sample) (now bound : ℕ) : Call Unit := do
  tick now
  refuseIf (¬boundValid bound) .overflow
  let r ← get
  if r.LossPending then
    let _ ← offer now
    pure ()
  else
    match r.fresh bound sample with
    | none =>
      modify ({· with pending := none})
      if r.sent.isSome ∧ ¬r.unavailableSent then
        let _ ← forceUnavailable now
        pure ()
      else pure ()
    | some s => prepareSample s now bound

/-- A candidate of visibility is no longer offered. -/
def withdraw (r : Reporter) : Reporter :=
  if ∃ p ∈ r.pending, p.stamp.isSome then {r with pending := none} else r

def pause (now : ℕ) : Call Unit := do
  tick now
  modify (·.withdraw)
  let _ ← offer now
  pure ()

def advance (r : Reporter) (p : PendingReport) (next after : ℕ) : Reporter :=
  {r with pending := none, sequence := next, after,
          sent := if p.stamp.isSome then p.stamp else r.sent, unavailableSent := p.stamp.isNone}

def queuedReceipt (now : ℕ) : Call QueuedReport := do
  let offered ← offer now
  let _ ← okOr offered .expired
  let r ← get
  let next ← okOr (checkedAdd r.sequence 1) .overflow
  let after ← okOr (checkedAdd now reportInterval) .overflow
  let p ← okOr r.pending .expired
  modify (·.advance p next after)
  pure ⟨r.binding,r.sequence,p.stamp,r.lineage⟩

/-! Runs. -/

inductive Input
  | forceUnavailable (now : ℕ)
  | prepare (sample : Option Sample) (now bound : ℕ)
  | pause (now : ℕ)
  | discardExpiredPositive (now : ℕ)
  | pending (now : ℕ)
  | queuedReceipt (now : ℕ)

inductive Reply
  | barrier (result : Except PresentedError ℕ)
  | done (result : Except PresentedError Unit)
  | discarded (result : Except PresentedError Bool)
  | offered (result : Except PresentedError (Option (List Byte × ℕ)))
  | receipt (result : Except PresentedError QueuedReport)
  deriving DecidableEq

def Input.now : Input → ℕ
  | .forceUnavailable now | .prepare _ now _ | .pause now | .discardExpiredPositive now |
    .pending now
  | .queuedReceipt now => now

def Reply.Failed : Reply → Prop
  | .barrier r => ∃ e, r = .error e
  | .done r => ∃ e, r = .error e
  | .discarded r => ∃ e, r = .error e
  | .offered r => ∃ e, r = .error e
  | .receipt r => ∃ e, r = .error e

def step (r : Reporter) : Input → Reply × Reporter
  | .forceUnavailable now =>
    (.barrier (exec (forceUnavailable now) r).1,(exec (forceUnavailable now) r).2)
  | .prepare s now bound =>
    (.done (exec (prepare s now bound) r).1,(exec (prepare s now bound) r).2)
  | .pause now => (.done (exec (pause now) r).1,(exec (pause now) r).2)
  | .discardExpiredPositive now =>
    (.discarded (exec (discardExpiredPositive now) r).1,(exec (discardExpiredPositive now) r).2)
  | .pending now => (.offered (exec (offer now) r).1,(exec (offer now) r).2)
  | .queuedReceipt now => (.receipt (exec (queuedReceipt now) r).1,(exec (queuedReceipt now) r).2)

abbrev Event := Transition.Event Reporter Input Reply

def receiptOf (e : Event) : Option QueuedReport :=
  match e.reply with
  | .receipt (.ok q) => some q
  | _ => none

/-! What the calls can do to the pending place. -/

/-- One change that a call makes before the transport takes a record. -/
inductive Turn (i : Input) : Reporter → Reporter → Prop
  | clock {r now} (h : r.lastNow ≤ now) : Turn i r {r with lastNow := now}
  | withdrawn {r} (d : Option Stamp) (h : ¬r.LossPending) :
      Turn i r {r with pending := none, discarded := d}
  | loss {r bytes} (until_ : ℕ) (h : ¬r.LossPending) (hbytes : r.encode none = .ok bytes) :
      Turn i r {r with pending := some ⟨none,bytes,until_⟩}
  | visible {r bytes s now bound} (h : ¬r.LossPending) (hinput : i = .prepare (some s) now bound)
      (hbound : boundValid bound) (hage : s.ageUpper < bound)
      (hbytes : r.encode (some s) = .ok bytes) :
      Turn i r {r with pending := some ⟨some s.stamp,bytes,now+(bound-s.ageUpper)⟩}

abbrev Turns (i : Input) := Relation.ReflTransGen (Turn i)

variable {i : Input} {r t : Reporter} {now bound : ℕ}

theorem tick_ensures {Q} (hback : now < r.lastNow → Q (.error .clock) r)
    (hok : r.lastNow ≤ now → Q (.ok ()) {r with lastNow := now}) : Ensures (tick now) r Q := by
  by_cases hc : now < r.lastNow
  · exact .of_exec (by simp [tick,ticked,exec_bind,hc]) (hback hc)
  · exact .of_exec (by simp [tick,ticked,exec_bind,hc]) (hok (not_lt.mp hc))

theorem offer_ensures {Q}
    (hback : Q (.error .clock) r)
    (he : r.lastNow ≤ now → Q (.error .expired) {r with lastNow := now})
    (hok : r.lastNow ≤ now → (¬∃ p ∈ r.pending, p.until_ ≤ now) →
      Q (.ok (r.pending.map fun p => (p.bytes,p.until_)))
      {r with lastNow := now}) : Ensures (offer now) r Q :=
  .of_bind (tick_ensures (fun _ => .throw hback) fun hc =>
    .get_bind (.refuseIf_bind (fun _ => he hc) fun h => .pure (hok hc h)))

theorem moves_tick : Moves (Turn i) (tick now) r :=
  tick_ensures (fun _ => .refl) fun hc => .single (.clock hc)

theorem moves_offer : Moves (Turn i) (offer now) r :=
  .bind moves_tick fun _ _ => .get_bind (.refuseIf_bind fun _ => .pure _)

variable {p : PendingReport} {sample : Option Sample}

theorem not_lossPending_of_pending (hp : r.pending = some p) (hs : p.stamp.isSome) :
    ¬r.LossPending := by
  rintro ⟨q,hq,hl⟩
  rw [hp] at hq
  cases hq
  simp [hl] at hs

theorem moves_discardExpiredPositive : Moves (Turn i) (discardExpiredPositive now) r := by
  refine .bind moves_tick fun _ t => .get_bind ?_
  cases hf : t.pending.filter (·.until_ ≤ now) with
  | none => exact .pure _
  | some p =>
    refine .okOr_bind fun s hs => .modify_bind ?_ (.pure _)
    have hp : t.pending = some p := (Option.filter_eq_some_iff.mp hf).1
    exact .withdrawn _ (not_lossPending_of_pending hp (by simp [hs]))

theorem moves_forceUnavailable : Moves (Turn i) (forceUnavailable now) r := by
  refine .bind moves_discardExpiredPositive fun _ t => .get_bind ?_
  refine .ite (fun _ => .pure _) fun hl => ?_
  refine .okOr_bind fun u _ => .ofResult_bind fun bytes hb => ?_
  exact .modify_bind (.loss u hl hb) (.pure _)

theorem fresh_eq_some {s} (h : r.fresh bound sample = some s) :
    sample = some s ∧ s.ageUpper < bound := by
  obtain ⟨hs,hf⟩ := Option.filter_eq_some_iff.mp h
  exact ⟨hs,by simpa using (by simpa using hf : _ ∧ _).1⟩

theorem turns_dropOther {s} (h : ¬r.LossPending) : Turns i r (r.dropOther s) := by
  unfold dropOther
  split
  · exact .single (.withdrawn r.discarded h)
  · exact .refl

theorem not_lossPending_dropOther {s} (h : ¬r.LossPending) : ¬(r.dropOther s).LossPending := by
  unfold dropOther
  split
  · simp [LossPending]
  · exact h

theorem moves_prepareSample {s} (h : ¬r.LossPending) (hi : i = .prepare (some s) now bound)
    (hb : boundValid bound) (ha : s.ageUpper < bound) :
    Moves (Turn i) (prepareSample s now bound) r := by
  refine .ofResult_bind fun _ _ => ?_
  have hd := not_lossPending_dropOther (s := s.stamp) h
  refine Ensures.modify_bind (Moves.trans (turns_dropOther h) (.get_bind ?_))
  generalize r.dropOther s.stamp = t at hd
  cases hp : t.pending with
  | some p => exact .refuseIf _ _
  | none =>
    refine .ite (fun _ => .pure _) fun _ => .okOr_bind fun until_ hu => ?_
    refine .ofResult_bind fun bytes hby => ?_
    obtain ⟨rfl,_⟩ := checkedAdd_eq_some.mp hu
    exact .modify (.visible hd hi hb ha hby)

theorem moves_prepare : Moves (Turn (.prepare sample now bound)) (prepare sample now bound) r := by
  refine .bind moves_tick fun _ t => .refuseIf_bind fun hb => .get_bind ?_
  refine .ite (fun _ => .bind moves_offer fun _ _ => .pure _) fun hl => ?_
  cases hf : t.fresh bound sample with
  | none =>
    refine .modify_bind (.withdrawn t.discarded hl) ?_
    exact .ite (fun _ => .bind moves_forceUnavailable fun _ _ => .pure _) fun _ => .pure _
  | some s =>
    obtain ⟨rfl,ha⟩ := fresh_eq_some hf
    exact moves_prepareSample hl rfl (not_not.mp hb) ha

theorem moves_pause : Moves (Turn i) (pause now) r := by
  refine .bind moves_tick fun _ t => Ensures.modify_bind ?_
  have ht : Turns i t t.withdraw := by
    unfold withdraw
    split
    · rename_i hpos
      obtain ⟨p,hp,hs⟩ := hpos
      exact .single (.withdrawn t.discarded (not_lossPending_of_pending hp hs))
    · exact .refl
  exact Moves.trans ht (.bind moves_offer fun _ _ => .pure _)

/-- Taking the pending record: what the receipt names is what was pending. -/
inductive Queued (r : Reporter) (now : ℕ) : Except PresentedError QueuedReport → Reporter → Prop
  | refused {e t} (h : Turns (.queuedReceipt now) r t) : Queued r now (.error e) t
  | taken {p after} (hp : r.pending = some p) (hclock : r.lastNow ≤ now)
      (hlive : now < p.until_) (hnext : r.sequence+1 < 2^64) :
      Queued r now (.ok ⟨r.binding,r.sequence,p.stamp,r.lineage⟩)
        ({r with lastNow := now}.advance p (r.sequence+1) after)

theorem queuedReceipt_queued (now : ℕ) (r : Reporter) : Ensures (queuedReceipt now) r
    (Queued r now) := by
  have ht (hc : r.lastNow ≤ now) : Turns (.queuedReceipt now) r {r with lastNow := now} :=
    .single (.clock hc)
  refine .of_bind (offer_ensures (.throw (.refused .refl)) (fun h => .throw (.refused (ht h)))
    fun hmono he => ?_)
  have ht := ht hmono
  refine .okOr_bind (fun _ => .refused ht) fun _ _ => .get_bind ?_
  refine .okOr_bind (fun _ => .refused ht) fun next hn => ?_
  refine .okOr_bind (fun _ => .refused ht) fun after _ => ?_
  refine .okOr_bind (fun _ => .refused ht) fun p hp => .modify_bind (.pure ?_)
  obtain ⟨rfl,hlt⟩ := checkedAdd_eq_some.mp hn
  refine .taken hp hmono ?_ hlt
  by_contra hg
  exact he ⟨p,hp,by omega⟩

theorem step_turns (hne : ∀ now, i ≠ .queuedReceipt now) : Turns i r (step r i).2 := by
  cases i with
  | forceUnavailable now => exact moves_forceUnavailable
  | prepare sample now bound => exact moves_prepare
  | pause now => exact moves_pause
  | discardExpiredPositive now => exact moves_discardExpiredPositive
  | pending now => exact moves_offer
  | queuedReceipt now => exact absurd rfl (hne now)

/-! A pending loss report. -/

theorem turns_loss (h : Turns i r t) (hp : r.pending = some p) (hl : p.stamp = none) :
    t.pending = some p := by
  induction h with
  | refl => exact hp
  | tail _ ht ih =>
    have hpd := And.intro ih hl
    cases ht with
    | clock h => exact ih
    | withdrawn d h | loss until_ h hb | visible h hi hbd ha hb =>
      exact absurd ⟨p,hpd⟩ h

theorem step_loss (hp : r.pending = some p) (hl : p.stamp = none)
    (hn : receiptOf ⟨r,i,(step r i).1⟩ = none) : (step r i).2.pending = some p := by
  cases i with
  | queuedReceipt now =>
    refine (queuedReceipt_queued now r).mono
      (P := fun res t => receiptOf ⟨r,.queuedReceipt now,.receipt res⟩ = none → t.pending = some p)
        (fun _ _ hc hn => ?_) hn
    cases hc with
    | refused ht => exact turns_loss ht hp hl
    | taken => cases hn
  | _ => exact turns_loss (step_turns (by simp)) hp hl

theorem run_loss (inp : List Input) (hp : r.pending = some p) (hl : p.stamp = none)
    (hn : ∀ e ∈ trace step r inp, receiptOf e = none) : (final step r inp).pending = some p := by
  induction inp generalizing r with
  | nil => exact hp
  | cons i inp ih =>
    simp only [Transition.trace,forall_mem_cons] at hn
    exact ih (step_loss hp hl hn.1) hn.2

section Expired

variable {α β : Type} {p : PendingReport}

/-- The call failed and its time is over for good. -/
def Stuck (p : PendingReport) (res : Except PresentedError α) (t : Reporter) : Prop :=
  (∃ e, res = .error e) ∧ t.pending = some p ∧ p.until_ ≤ t.lastNow

theorem stuck_bind {m : Call α} {f : α → Call β} (h : Ensures m r (Stuck p)) :
    Ensures (m >>= f) r (Stuck p) := by
  refine .bind h ?_ ?_
  · rintro a t ⟨⟨e,he⟩,_⟩
    cases he
  · rintro e t ⟨_,hs⟩
    exact ⟨⟨e,rfl⟩,hs⟩

section

variable (hp : r.pending = some p)

include hp

theorem stuck_tick_bind {f : Unit → Call α} (he : p.until_ ≤ max r.lastNow now)
    (hf : ∀ t, t.pending = some p → p.until_ ≤ now → t.lastNow = now → Ensures (f ()) t (Stuck p)) :
    Ensures (tick now >>= f) r (Stuck p) := by
  exact .of_bind (tick_ensures (fun _ => .throw ⟨⟨_,rfl⟩,hp,by omega⟩)
    fun _ => hf _ hp (by omega) rfl)

theorem stuck_offer (he : p.until_ ≤ max r.lastNow now) : Ensures (offer now) r (Stuck p) := by
  refine stuck_tick_bind hp he fun t hp hle hla => .get_bind ?_
  refine .refuseIf_bind (fun _ => ⟨⟨_,rfl⟩,hp,by omega⟩) fun hl => ?_
  exact absurd ⟨p,hp,hle⟩ hl

theorem stuck_discardExpiredPositive (hl : p.stamp = none)
    (he : p.until_ ≤ max r.lastNow now) : Ensures (discardExpiredPositive now) r (Stuck p) := by
  refine stuck_tick_bind hp he fun t hp hle hla => .get_bind ?_
  have hf : t.pending.filter (·.until_ ≤ now) = some p := by simp [hp,hle]
  rw [hf]
  refine .okOr_bind (fun _ => ⟨⟨_,rfl⟩,hp,by omega⟩) fun s hs => ?_
  simp [hl] at hs

theorem stuck_prepare {sample : Option Sample} (hl : p.stamp = none)
    (he : p.until_ ≤ max r.lastNow now) : Ensures (prepare sample now bound) r (Stuck p) := by
  refine stuck_tick_bind hp he fun t hp hle hla => ?_
  refine .refuseIf_bind (fun _ => ⟨⟨_,rfl⟩,hp,by omega⟩) fun _ => .get_bind ?_
  refine .ite (fun _ => stuck_bind (stuck_offer hp (by omega))) fun hnot => ?_
  exact absurd ⟨p,hp,hl⟩ hnot

theorem stuck_pause (hl : p.stamp = none)
    (he : p.until_ ≤ max r.lastNow now) : Ensures (pause now) r (Stuck p) := by
  refine stuck_tick_bind hp he fun t hp hle hla => .modify_bind ?_
  have hs : t.withdraw = t := by simp [withdraw,hp,hl]
  rw [hs]
  exact stuck_bind (stuck_offer hp (by omega))

/-- Once its time is over no call succeeds, and none removes it. -/
theorem step_expired (hl : p.stamp = none) (he : p.until_ ≤ max r.lastNow i.now) :
    (step r i).1.Failed ∧ (step r i).2.pending = some p ∧ p.until_ ≤ (step r i).2.lastNow := by
  cases i with
  | forceUnavailable now => exact stuck_bind (stuck_discardExpiredPositive hp hl he)
  | prepare sample now bound => exact stuck_prepare hp hl he
  | pause now => exact stuck_pause hp hl he
  | discardExpiredPositive now => exact stuck_discardExpiredPositive hp hl he
  | pending now => exact stuck_offer hp he
  | queuedReceipt now => exact stuck_bind (stuck_offer hp he)

end

theorem run_expired (inp : List Input) (hp : r.pending = some p) (hl : p.stamp = none)
    (he : p.until_ ≤ r.lastNow) : ∀ e ∈ trace step r inp, e.reply.Failed := by
  induction inp generalizing r with
  | nil => simp [Transition.trace]
  | cons i inp ih =>
    obtain ⟨hf,hpd,hla⟩ := step_expired (i := i) hp hl (by omega)
    simp only [Transition.trace,forall_mem_cons]
    exact ⟨hf,ih hpd hla⟩

end Expired

/-! How a loss report becomes pending. -/

theorem forceUnavailable_loss (now : ℕ) (r : Reporter) :
    Ensures (forceUnavailable now) r fun res t =>
    ∀ n, res = .ok n → t.LossPending ∧ n = t.sequence := by
  refine .bind (.trivial _) (fun _ t _ => .get_bind ?_) (fun _ _ _ => by simp)
  refine .ite (fun hl => .pure ?_) fun _ => ?_
  · simp [hl]
  refine .okOr_bind (fun _ => by simp) fun until_ _ => ?_
  refine .ofResult_bind (fun _ _ => by simp) fun bytes _ => .modify_bind (.pure ?_)
  simp [LossPending]

theorem offer_pending (now : ℕ) (r : Reporter) : Ensures (offer now) r fun res t =>
    t.pending = r.pending ∧ ∀ o, res = .ok o → o = r.pending.map fun p => (p.bytes,p.until_) := by
  exact offer_ensures ⟨rfl,by simp⟩ (fun _ => ⟨rfl,by simp⟩) fun _ _ => ⟨rfl,by simp⟩

theorem prepare_loss (hs : r.fresh bound sample = none) (hse : r.sent.isSome)
    (hv : ¬r.unavailableSent) : Ensures (prepare sample now bound) r fun res t =>
      res = .ok () → t.LossPending := by
  refine .of_bind (tick_ensures (fun _ => .throw (by simp))
    fun _ => .refuseIf_bind (fun _ => by simp) fun _ => .get_bind ?_)
  refine .ite (fun hl => ?_) fun _ => ?_
  · refine .bind (offer_pending _ _) (fun _ t ht => .pure fun _ => ?_) (fun _ _ _ => by simp)
    obtain ⟨p,hp,hn⟩ := hl
    exact ⟨p,by rw [ht.1]; exact hp,hn⟩
  · rw [show ({r with lastNow := now} : Reporter).fresh bound sample = none from hs]
    refine .modify_bind (.ite (fun _ => ?_) fun hnot => absurd ⟨hse,hv⟩ hnot)
    refine .bind (forceUnavailable_loss _ _) (fun n t ht => .pure fun _ => ?_)
      (fun _ _ _ => by simp)
    exact (ht n rfl).1

/-! What holds of the whole history. -/

def Input.Sized : Input → Prop
  | .prepare (some s) _ _ => s.Sized
  | _ => True

/-- The pending bytes are a report of the current sequence. A picture in it was young enough
for the bound it was prepared with. -/
def Prepared (past : List Event) (r : Reporter) (p : PendingReport) : Prop :=
  ∃ visible, r.encode visible = .ok p.bytes ∧ p.stamp = visible.map Sample.stamp ∧
    ∀ s, visible = some s → ∃ e ∈ past, ∃ now bound, e.input = .prepare (some s) now bound ∧
      boundValid bound ∧ s.ageUpper < bound ∧ p.until_ = now+(bound-s.ageUpper)

structure Traced (origin : Reporter) (past : List Event) (r : Reporter) : Prop where
  binding : r.binding = origin.binding
  lineage : r.lineage = origin.lineage
  limits : r.limits = origin.limits
  sequence_lt : r.sequence < 2^64
  sequence : r.sequence = (past.filterMap receiptOf).length+1
  numbered : (past.filterMap receiptOf).map QueuedReport.sequence =
    List.range' 1 (past.filterMap receiptOf).length
  pending : ∀ p, r.pending = some p → Prepared past r p

variable {origin : Reporter} {past : List Event} {e : Event}

theorem Prepared.snoc (h : Prepared past r p) : Prepared (past++[e]) r p := by
  obtain ⟨visible,hb,hstamp,ha⟩ := h
  refine ⟨visible,hb,hstamp,fun s hs => ?_⟩
  obtain ⟨x,hx,hpr⟩ := ha s hs
  exact ⟨x,mem_append_left _ hx,hpr⟩

/-- An event without a receipt, before the changes that it makes. -/
theorem Traced.quiet (h : Traced origin past r) (hn : receiptOf e = none) :
    Traced origin (past++[e]) r := by
  have hs : (past++[e]).filterMap receiptOf = past.filterMap receiptOf := by simp [hn]
  refine ⟨h.binding,h.lineage,h.limits,h.sequence_lt,?_,?_,fun p hp => (h.pending p hp).snoc⟩
  · rw [hs]
    exact h.sequence
  · rw [hs]
    exact h.numbered

theorem Traced.turns (h : Traced origin past r) (hm : ∃ e ∈ past, e.input = i) (ht : Turns i r t) :
    Traced origin past t := by
  induction ht with
  | refl => exact h
  | tail _ htu ih =>
    cases htu with
    | clock _ => exact {ih with}
    | withdrawn d _ =>
      exact {ih with pending := by simp}
    | loss until_ _ hb =>
      refine {ih with pending := ?_}
      rintro p ⟨⟩
      exact ⟨none,hb,rfl,by simp⟩
    | @visible _ s now bound _ hi hbd ha hb =>
      refine {ih with pending := ?_}
      rintro p ⟨⟩
      obtain ⟨x,hx,rfl⟩ := hm
      refine ⟨some s,hb,rfl,?_⟩
      rintro _ ⟨⟩
      exact ⟨x,hx,now,bound,hi,hbd,ha,rfl⟩

theorem Traced.step (h : Traced origin past r) (i : Input) :
    Traced origin (past ++ [⟨r,i,(Reporter.step r i).1⟩]) (Reporter.step r i).2 := by
  have hm : ∀ x : Event, x.input = i → ∃ e ∈ past ++ [x], e.input = i := fun x hx => ⟨x,by simp,hx⟩
  cases i with
  | queuedReceipt now =>
    refine (queuedReceipt_queued now r).mono
      (P := fun res t => Traced origin (past ++ [⟨r,.queuedReceipt now,.receipt res⟩]) t)
        fun _ _ hc => ?_
    cases hc with
    | refused ht => exact (h.quiet rfl).turns (hm _ rfl) ht
    | @taken p _ _ _ _ hn =>
      have hr : (past ++
        [(⟨r,.queuedReceipt now,.receipt (.ok ⟨r.binding,r.sequence,p.stamp,r.lineage⟩)⟩ :
          Event)]).filterMap receiptOf = past.filterMap receiptOf ++ [⟨r.binding,r.sequence,p.stamp,
              r.lineage⟩] := by
        simp [receiptOf]
      refine ⟨h.binding,h.lineage,h.limits,hn,?_,?_,by simp [advance]⟩
      · rw [hr]
        simp [advance,h.sequence]
      · rw [hr]
        simp only [map_append,h.numbered,length_append,length_singleton,List.range'_concat]
        simp [h.sequence,Nat.add_comm]
  | _ => exact (h.quiet rfl).turns (hm _ rfl) (step_turns (by simp))

theorem traced_run {b l li start} (hnew : new b l li start = .ok r) (inp : List Input) :
    Traced r (trace step r inp) (final step r inp) := by
  obtain ⟨_,_,hr⟩ := bind_eq_ok.mp hnew
  cases hr
  apply history_invariant
  · exact ⟨rfl,rfl,rfl,by simp,rfl,rfl,by simp⟩
  · intro past t i h
    exact h.step i

/-- What is pending reads back as a report of the current sequence. -/
theorem Prepared.decodes (h : Prepared past r p) (hb : ReportBindingSized r.binding)
    (hsq : r.sequence < 2^64) (hsz : ∀ e ∈ past, e.input.Sized) :
    ∃ visible, decodePresented p.bytes r.binding r.limits .viewerToHost .reliable =
      .ok ⟨r.sequence,visible⟩ ∧
      p.stamp = visible.map Sample.stamp ∧ ∀ s, visible = some s → ∃ e ∈ past, ∃ now bound,
        e.input = .prepare (some s) now bound ∧ boundValid bound ∧ s.ageUpper < bound ∧
        p.until_ = now+(bound-s.ageUpper) := by
  obtain ⟨visible,hby,hstamp,ha⟩ := h
  refine ⟨visible,?_,hstamp,ha⟩
  apply decodePresented_encodePresented hb _ (mapError_eq_ok hby)
  refine ⟨hsq,fun s hs => ?_⟩
  obtain ⟨x,hx,now,bound,hi,_⟩ := ha s hs
  have hx := hsz x hx
  rwa [hi] at hx

theorem loss_report_unmasked {binding : ReportBinding} {lineage : ℕ}
    {limits : ProtocolLimits} {start : ℕ}
    {origin : Reporter} (hnew : new binding lineage limits start = .ok origin)
    (hbinding : ReportBindingSized binding) {before : List Input} (hsized : ∀ i ∈ before, i.Sized)
    {r : Reporter} (hr : final step origin before = r) :
    -- The receipts so far are numbered from one.
    ((trace step origin before).filterMap receiptOf).map QueuedReport.sequence =
      List.range' 1 ((trace step origin before).filterMap receiptOf).length ∧
    -- What is pending is a report of the next number, of a picture young enough when prepared.
    (∀ p, r.pending = some p → ∃ visible,
      decodePresented p.bytes binding limits .viewerToHost .reliable = .ok ⟨r.sequence,visible⟩ ∧
      p.stamp = visible.map Sample.stamp ∧ ∀ s, visible = some s →
        ∃ e ∈ trace step origin before, ∃ now bound, e.input = .prepare (some s) now bound ∧
          boundValid bound ∧ s.ageUpper < bound ∧ p.until_ = now+(bound-s.ageUpper)) ∧
    -- Only what is pending is offered or taken, and the receipt describes it.
    (∀ now o, (step r (.pending now)).1 = .offered (.ok o) → o = r.pending.map
      fun p => (p.bytes,p.until_)) ∧
    (∀ now q, (step r (.queuedReceipt now)).1 = .receipt (.ok q) → ∃ p, r.pending = some p ∧
      now < p.until_ ∧ q = ⟨binding,r.sequence,p.stamp,lineage⟩) ∧
    -- Both calls that owe a loss report leave one pending.
    (∀ now n, (step r (.forceUnavailable now)).1 = .barrier (.ok n) →
      (step r (.forceUnavailable now)).2.LossPending ∧
      n = (step r (.forceUnavailable now)).2.sequence) ∧
    (∀ sample now bound, r.fresh bound sample = none → r.sent.isSome → ¬r.unavailableSent →
      (step r (.prepare sample now bound)).1 = .done (.ok ()) →
      (step r (.prepare sample now bound)).2.LossPending) ∧
    -- Until it is taken it stays as it is, and after its time nothing succeeds any more.
    ∀ p, r.pending = some p → p.stamp = none →
      ∀ after, ((∀ e ∈ trace step r after, receiptOf e = none) →
        (final step r after).pending = some p) ∧
      ∀ i, p.until_ ≤ max r.lastNow i.now → ∀ e ∈ trace step r (i::after), e.reply.Failed := by
  have ht := traced_run hnew before
  rw [hr] at ht
  have hi : ∀ e ∈ trace step origin before, e.input.Sized := by
    intro e he
    apply hsized
    rw [← map_input_trace step origin before]
    exact mem_map_of_mem he
  obtain ⟨hb,hn,hl⟩ : r.binding = binding ∧ r.lineage = lineage ∧ r.limits = limits := by
    rw [ht.binding,ht.lineage,ht.limits]
    obtain ⟨_,_,horig⟩ := bind_eq_ok.mp hnew
    cases horig
    simp
  refine ⟨ht.numbered,?_,?_,?_,?_,?_,?_⟩
  · intro p hp
    have hd := (ht.pending p hp).decodes (by rw [hb]; exact hbinding) ht.sequence_lt hi
    rwa [hb,hl] at hd
  · intro now o ho
    exact (offer_pending now r).2 o (Reply.offered.inj ho)
  · intro now q hq
    have hca := queuedReceipt_queued now r
    rw [Ensures,Reply.receipt.inj hq] at hca
    generalize (exec (queuedReceipt now) r).2 = t at hca
    cases hca with
    | taken hp hc hli hnx => exact ⟨_,hp,hli,by rw [hb,hn]⟩
  · intro now n hn
    exact forceUnavailable_loss now r n (Reply.barrier.inj hn)
  · intro sample now bound hs hse hv hdone
    exact prepare_loss hs hse hv (Reply.done.inj hdone)
  · intro p hp hlo after
    refine ⟨run_loss after hp hlo,fun i hex => ?_⟩
    obtain ⟨hf,hpd,hla⟩ := step_expired hp hlo hex
    simp only [Transition.trace,forall_mem_cons]
    exact ⟨hf,run_expired after hpd hlo hla⟩

def sampleReporter : Reporter :=
  ⟨sampleReportBinding,0,sampleProtocolLimits,1,0,0,none,none,false,none⟩

def sampleShown : Sample := ⟨⟨5,100,100,.captured⟩,10⟩

/-- A picture is reported, then nothing is visible any more. -/
def sampleLoss : List Input :=
  [.prepare (some sampleShown) 10 250000,.queuedReceipt 11,.prepare none 20 250000]

theorem loss_report_unmasked_expired :
    new sampleReportBinding 0 sampleProtocolLimits 0 = .ok sampleReporter ∧
    ∃ p, (final step sampleReporter sampleLoss).pending = some p ∧ p.stamp = none ∧
      p.until_ = 50020 ∧ ∀ e ∈ trace step (final step sampleReporter sampleLoss)
        [.pending 50020,.prepare (some sampleShown) 50021 250000,.queuedReceipt 50022],
          e.reply.Failed := by
  have hnew : new sampleReportBinding 0 sampleProtocolLimits 0 = .ok sampleReporter := rfl
  have hsz : ∀ i ∈ sampleLoss, i.Sized := by
    simp only [sampleLoss,forall_mem_cons,Input.Sized]
    exact ⟨⟨by decide,by decide,by decide,by decide⟩,trivial,trivial,by simp⟩
  have hpd : (final step sampleReporter sampleLoss).pending.map (fun p => (p.stamp,p.until_)) =
      some (none,50020) := by decide +kernel
  obtain ⟨p,hp,hf⟩ := Option.map_eq_some_iff.mp hpd
  obtain ⟨hs,hu⟩ := Prod.mk.inj hf
  obtain ⟨_,_,_,_,_,_,hl⟩ := loss_report_unmasked hnew sampleReportBinding_sized hsz rfl
  refine ⟨hnew,p,hp,hs,hu,(hl p hp hs _).2 _ ?_⟩
  rw [hu]
  exact le_max_right _ _

end Reporter
end FrankenRemote.Presented
