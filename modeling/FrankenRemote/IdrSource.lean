import FrankenRemote.Idr

/-! One capture source and the recovery demands of its viewers. A capture asks the scheduler
for the waiting demands first, and for a late join only if none of them is left. -/
namespace FrankenRemote.Delivery

open Procedure Transition

/-- The scheduler stays when the source behind it is replaced. -/
structure SourceRecovery where
  source : ℕ
  scheduler : IdrCoalescer

namespace SourceRecovery

def new (source : ℕ) : Except DeliveryError SourceRecovery := do
  let scheduler ← IdrCoalescer.new 500000
  .ok ⟨source,scheduler⟩

/-- An expired demand is no demand. -/
def unexpired (call : IdrCoalescer.Call (Option ℕ)) : IdrCoalescer.Call (Option ℕ) :=
  tryCatch call fun e => if e = .recoveryExpired then pure none else throw e

/-- A join that has not expired, unless a demand was served or still waits for the credit. -/
def joinCapture (now : ℕ) (joinUntil : Option ℕ) (recovered waiting : Bool) :
    IdrCoalescer.Call Bool :=
  if recovered ∨ waiting then pure false
  else
    match joinUntil.filter (now < ·) with
    | some until_ => do
      let joined ← IdrCoalescer.takeForJoin now until_
      pure joined.isSome
    | none => pure false

/-- Whether this capture is to be an IDR, and the deadline a private one has to keep. -/
def admitCapture (now : ℕ) (joinUntil : Option ℕ) (shared : Bool) :
    IdrCoalescer.Call (Bool × Option ℕ) := do
  let recovery ← unexpired (if shared then IdrCoalescer.takeShared now else IdrCoalescer.take now)
  let c ← get
  let joinIdr ← joinCapture now joinUntil recovery.isSome (shared && c.nextSharedDeadline.isSome)
  pure (recovery.isSome || joinIdr,if shared then none else recovery)

def retire (q : SourceRecovery) (source : ℕ) : SourceRecovery :=
  ⟨source,q.scheduler.cancelPending⟩

end SourceRecovery

inductive SourceOp
  | queue (cache : SendCache) (demand : RecoveryDemand) (now : ℕ)
  | admitCapture (now : ℕ) (joinUntil : Option ℕ) (shared : Bool)
  | retire (source : ℕ)

inductive SourceReply
  | queued (res : Except DeliveryError Unit)
  | capture (res : Except DeliveryError (Bool × Option ℕ))
  | retired

def sourceStep (q : SourceRecovery) : SourceOp → SourceReply × SourceRecovery
  | .queue cache demand now =>
    let r := exec (IdrCoalescer.queue cache demand now) q.scheduler
    (.queued r.1,{q with scheduler := r.2})
  | .admitCapture now joinUntil shared =>
    let r := exec (SourceRecovery.admitCapture now joinUntil shared) q.scheduler
    (.capture r.1,{q with scheduler := r.2})
  | .retire source => (.retired,q.retire source)

abbrev SourceEvent := Transition.Event SourceRecovery SourceOp SourceReply

/-- When the event was a capture that is to be an IDR. -/
def SourceEvent.admitted (e : SourceEvent) : Option ℕ :=
  match e.input, e.reply with
  | .admitCapture now _ _, .capture (.ok (true,_)) => some now
  | _, _ => none

def captureTimes (history : List SourceEvent) : List ℕ := history.filterMap SourceEvent.admitted

theorem captureTimes_append (h later : List SourceEvent) :
    captureTimes (h++later) = captureTimes h ++ captureTimes later :=
  List.filterMap_append ..

/-! The source only drives its scheduler: each of its steps is a run of coalescer calls, and it
is an IDR exactly if one of them was admitted. -/

/-- The admission that a reply at `now` stands for, if any. -/
def admittedBy (now : ℕ) : IdrReply → List ℕ
  | .ok (some _) => [now]
  | _ => []

def capturedBy (now : ℕ) : Except DeliveryError (Bool × Option ℕ) → List ℕ
  | .ok (true,_) => [now]
  | _ => []

/-- The scheduler went from `c` to `t` by calls that admitted pictures at `times`. -/
def Drives (c : IdrCoalescer) (times : List ℕ) (t : IdrCoalescer) : Prop :=
  ∃ ops, final idrStep c ops = t ∧ idrTimes (trace idrStep c ops) = times

namespace Drives

variable {c s t : IdrCoalescer} {times times' : List ℕ}

theorem refl (c : IdrCoalescer) : Drives c [] c := ⟨[],rfl,rfl⟩

theorem trans (h : Drives c times s) (h' : Drives s times' t) : Drives c (times++times') t := by
  obtain ⟨ops,rfl,rfl⟩ := h
  obtain ⟨ops',rfl,rfl⟩ := h'
  exact ⟨ops++ops',by simp,by simp [idrTimes]⟩

theorem call (op : IdrOp) {now} (hn : op.now = some now) (c : IdrCoalescer) :
    Ensures op.run c fun res t => Drives c (admittedBy now res) t := by
  refine ⟨[op],rfl,?_⟩
  change idrTimes [⟨c,op,(exec op.run c).1⟩] = admittedBy now (exec op.run c).1
  generalize (exec op.run c).1 = res
  rcases res with e | _ | until_ <;> simp [idrTimes,IdrEvent.admitted,admittedBy,hn]

end Drives

namespace SourceRecovery

theorem unexpired_drives {call : IdrCoalescer.Call (Option ℕ)} {c : IdrCoalescer} {now : ℕ}
    (h : Ensures call c fun res t => Drives c (admittedBy now res) t) :
    Ensures (unexpired call) c fun res t => Drives c (admittedBy now res) t := by
  refine .tryCatch h (fun _ _ h => h) fun e t h => .ite (fun _ => .pure h) fun _ => .throw h

theorem joinCapture_drives (now : ℕ) (j : Option ℕ) (w : Bool) (c : IdrCoalescer) :
    Ensures (joinCapture now j false w) c fun res t => Drives c
      (capturedBy now (res.map (·,none))) t := by
  refine .ite (fun _ => .pure (.refl c)) fun _ => ?_
  cases j.filter (now < ·) with
  | none => exact .pure (.refl c)
  | some u =>
    have hjoin := Drives.call (.takeForJoin now u) rfl c
    refine .bind hjoin (fun joined t ht => .pure ?_) fun _ _ ht => ht
    cases joined <;> exact ht

theorem admitCapture_drives (now : ℕ) (j : Option ℕ) (shared : Bool) (c : IdrCoalescer) :
    Ensures (admitCapture now j shared) c fun res t => Drives c (capturedBy now res) t := by
  have hr : Ensures (if shared then IdrCoalescer.takeShared now else IdrCoalescer.take now) c
      fun res t => Drives c (admittedBy now res) t := by
    cases shared
    · exact Drives.call (.take now) rfl c
    · exact Drives.call (.takeShared now) rfl c
  refine .bind (unexpired_drives hr) (fun recovery s hs => .get_bind ?_) fun _ _ h => h
  cases recovery with
  | some until_ => exact .of_exec rfl hs
  | none =>
    refine .bind (joinCapture_drives now j _ s) (fun joinIdr t ht => .pure ?_)
      fun e t ht => hs.trans ht
    cases joinIdr <;> exact hs.trans ht

end SourceRecovery

theorem sourceStep_drives (q : SourceRecovery) (op : SourceOp) :
    Drives q.scheduler (captureTimes [⟨q,op,(sourceStep q op).1⟩])
      (sourceStep q op).2.scheduler := by
  cases op with
  | queue cache demand now =>
    have hc : Drives q.scheduler (admittedBy now (idrStep q.scheduler (.queue cache demand now)).1)
        (idrStep q.scheduler (.queue cache demand now)).2 := Drives.call _ rfl q.scheduler
    rcases h : exec (IdrCoalescer.queue cache demand now) q.scheduler with ⟨e | _,t⟩
    · rw [idrStep,IdrOp.run,exec_bind_error h] at hc
      simp only [sourceStep,h]
      exact hc
    · rw [idrStep,IdrOp.run,exec_bind_ok h] at hc
      simp only [sourceStep,h]
      exact hc
  | admitCapture now joinUntil shared =>
    have h : Drives q.scheduler (capturedBy now _) _ :=
      SourceRecovery.admitCapture_drives now joinUntil shared q.scheduler
    have ht : ∀ res, captureTimes [⟨q,.admitCapture now joinUntil shared,.capture res⟩] =
        capturedBy now res := by
      rintro (e | ⟨_ | _,_⟩) <;> rfl
    rw [← ht] at h
    exact h
  | retire source => exact ⟨[.cancelPending],rfl,rfl⟩

/-- Every run of a source is a run of its scheduler, with the same admissions. -/
theorem sourceRun_drives (q : SourceRecovery) (ops : List SourceOp) :
    Drives q.scheduler (captureTimes (trace sourceStep q ops))
      (final sourceStep q ops).scheduler := by
  induction ops generalizing q with
  | nil => exact .refl _
  | cons op ops ih =>
    have h := (sourceStep_drives q op).trans (ih (sourceStep q op).2)
    rwa [← captureTimes_append] at h

variable {q : SourceRecovery} {d i : ℕ} {c : IdrCoalescer}

/-- So the captures that are IDRs keep the encoder's interval. -/
theorem capture_spacing {source} (hnew : SourceRecovery.new source = .ok q) (ops : List SourceOp) :
    (captureTimes (trace sourceStep q ops)).Pairwise fun a b => a+500000 ≤ b := by
  obtain ⟨calls,_,ht⟩ := sourceRun_drives q ops
  obtain ⟨c,hc,hq⟩ := Bytes.bind_eq_ok.mp hnew
  cases hq
  rw [← ht]
  exact (idrRun_paced hc calls).2.apart

theorem capture_spacing_joins : ∃ q ops, SourceRecovery.new 7 = .ok q ∧
    captureTimes (trace sourceStep q ops) = [1,500001] ∧
    (captureTimes (trace sourceStep q ops)).Pairwise fun a b => a+500000 ≤ b :=
  ⟨_,[.admitCapture 1 (some 9) true,.admitCapture 500001 (some 600000) false],rfl,rfl,
    capture_spacing rfl _⟩

/-! A shared demand waits until it is served. -/

/-- Something with a deadline of at least `d` waits for the shared source. -/
structure Waiting (d : ℕ) (c : IdrCoalescer) : Prop where
  open_ : c.closed = false
  slot : ∃ p, c.pending = some p ∧ d ≤ p.sharedUntil

theorem Waiting.nextSharedDeadline (h : Waiting d c) :
    ∃ p, c.pending = some p ∧ d ≤ p.sharedUntil ∧ c.nextSharedDeadline = some
      (min p.ready p.sharedUntil) := by
  obtain ⟨p,hp,hd⟩ := h.slot
  refine ⟨p,hp,hd,?_⟩
  rw [IdrCoalescer.nextSharedDeadline,hp,h.open_]
  by_cases hr : p.ready < p.sharedUntil
  · simp [hr,hr.le]
  · simp [hr,not_lt.mp hr]

theorem Waiting.withDemand (h : Waiting d c) (deadline now : ℕ) :
    Waiting d (c.withDemand deadline now) := by
  obtain ⟨p,hp,hd⟩ := h.slot
  refine ⟨h.open_,_,rfl,?_⟩
  simp only [hp,IdrPending.join]
  split <;> exact hd.trans (le_max_left _ _)

theorem waiting_withDemand (ho : c.closed = false) (deadline now : ℕ) :
    Waiting deadline (c.withDemand deadline now) := by
  refine ⟨ho,_,rfl,?_⟩
  cases c.pending with
  | none => exact le_rfl
  | some p =>
    simp only [IdrPending.join]
    split <;> exact le_max_right _ _

/-- The clock is at `now` and goes on. -/
structure WaitingAt (d interval now : ℕ) (c : IdrCoalescer) : Prop extends Waiting d c where
  clock : c.lastNow = some now
  rate : c.interval = interval

/-- The clock has no room for another interval before `d`. -/
def OutOfClock (d interval : ℕ) (c : IdrCoalescer) : Prop := c.closed = true ∧ 2^64 ≤ d+interval

/-- What a take may find of a demand with deadline `d`: it is served, it waits, or the clock is
at its end. -/
inductive Shared (d interval now : ℕ) : IdrReply → IdrCoalescer → Prop
  | served (until_ : ℕ) (t : IdrCoalescer) : Shared d interval now (.ok (some until_)) t
  | waits {t} (h : WaitingAt d interval now t) : Shared d interval now (.ok none) t
  | ended {t} (h : OutOfClock d interval t) : Shared d interval now (.error .clockOverflow) t

section Step

variable {d i last now : ℕ} {c : IdrCoalescer}

theorem takeShared_shared (h : WaitingAt d i last c) (hc : last ≤ now) (hb : now < d) :
    Ensures (IdrCoalescer.takeShared now) c (Shared d i now) := by
  obtain ⟨p,hp,hd⟩ := h.slot
  refine .bind (IdrCoalescer.checkClock_ensures c now) (fun _ t hs => ?_) fun e t hr => ?_
  · cases hs
    refine .get_bind ?_
    simp only [hp]
    refine .ite (fun he => absurd he (by omega)) fun _ => ?_
    refine (IdrCoalescer.admitUntil_ensures _ now _).mono fun res t ht => ?_
    cases ht with
    | early _ => exact .waits ⟨⟨h.open_,p,rfl,hd⟩,rfl,h.rate⟩
    | granted _ => exact .served _ _
    | overflowed hbd =>
      have hrate := h.rate
      exact .ended ⟨rfl,by simp only at hbd; omega⟩
  · cases hr with
    | ended hcl => exact absurd h.open_ (by simp [hcl])
    | regressed hl hback =>
      cases h.clock.symm.trans hl
      omega

/-- A join neither overtakes a waiting demand nor retires it. -/
theorem admitCapture_shared (j : Option ℕ) (h : WaitingAt d i last c) (hc : last ≤ now)
    (hb : now < d) : Ensures (SourceRecovery.admitCapture now j true) c fun res t =>
      (∃ u, res = .ok (true,u)) ∨ WaitingAt d i now t ∨ OutOfClock d i t := by
  have hr : Ensures (SourceRecovery.unexpired (IdrCoalescer.takeShared now)) c
      (Shared d i now) := by
    refine .tryCatch (takeShared_shared h hc hb) (fun _ _ h => h) fun e t h => ?_
    cases h with
    | ended h => exact .ite (fun he => by cases he) fun _ => .throw (.ended h)
  refine .bind hr (fun recovery t ht => .get_bind ?_) fun e t ht => ?_
  · cases ht with
    | served u => exact .of_exec rfl (.inl ⟨none,rfl⟩)
    | waits h =>
      obtain ⟨_,_,_,hn⟩ := h.nextSharedDeadline
      simp only [hn,SourceRecovery.joinCapture]
      exact .of_exec rfl (.inr (.inl h))
  · cases ht with
    | ended h => exact .inr (.inr h)

theorem queue_shared (ca : SendCache) (de : RecoveryDemand) (h : WaitingAt d i last c)
    (hc : last ≤ now) :
    Ensures (IdrCoalescer.queue ca de now) c fun _ t => WaitingAt d i now t := by
  refine (IdrCoalescer.queue_ensures c ca de now).mono fun res t ht => ?_
  have hs : Waiting d {c with lastNow := some now} := ⟨h.open_,h.slot⟩
  cases ht with
  | accepted _ _ => exact ⟨hs.withDemand _ _,rfl,h.rate⟩
  | stale _ => exact ⟨hs,rfl,h.rate⟩
  | unclocked hr =>
    cases hr with
    | ended hcl => exact absurd h.open_ (by simp [hcl])
    | regressed hl hback =>
      cases h.clock.symm.trans hl
      omega

end Step

/-- The calls of a shared source between two retirements. -/
inductive SharedCall
  | queue (cache : SendCache) (demand : RecoveryDemand) (now : ℕ)
  | admitCapture (now : ℕ) (joinUntil : Option ℕ)

namespace SharedCall

def now : SharedCall → ℕ
  | queue _ _ now | admitCapture now _ => now

def op : SharedCall → SourceOp
  | queue cache demand now => .queue cache demand now
  | admitCapture now joinUntil => .admitCapture now joinUntil true

end SharedCall

def SourceReply.Idr (reply : SourceReply) : Prop := ∃ until_, reply = .capture (.ok (true,until_))

theorem sharedCall_step {last} (call : SharedCall)
    (h : WaitingAt d i last q.scheduler) (hc : last ≤ call.now) (hb : call.now < d) :
    (sourceStep q call.op).1.Idr ∨ WaitingAt d i call.now (sourceStep q call.op).2.scheduler ∨
      OutOfClock d i (sourceStep q call.op).2.scheduler := by
  cases call with
  | queue cache demand now => exact .inr (.inl (queue_shared cache demand h hc))
  | admitCapture now joinUntil =>
    rcases admitCapture_shared joinUntil h hc hb with ⟨u,hr⟩ | hk
    · exact .inl ⟨u,congrArg _ hr⟩
    · exact .inr hk

/-- A scheduler that has closed answers nothing any more. -/
theorem sharedCall_closed (call : SharedCall) (hcl : q.scheduler.closed = true) :
    (sourceStep q call.op).2.scheduler = q.scheduler := by
  have hc : ∀ now, exec (IdrCoalescer.checkClock now) q.scheduler =
      (.error .wrongState,q.scheduler) := by
    intro now
    simp [IdrCoalescer.checkClock,hcl]
  cases call with
  | queue cache demand now =>
    have hca : exec (IdrCoalescer.queue cache demand now) q.scheduler = _ :=
      exec_bind_error (hc now)
    simp only [SharedCall.op,sourceStep,hca]
  | admitCapture now joinUntil =>
    have htake : exec (IdrCoalescer.takeShared now) q.scheduler = _ := exec_bind_error (hc now)
    have hca : exec (SourceRecovery.unexpired (IdrCoalescer.takeShared now)) q.scheduler =
        (.error .wrongState,q.scheduler) := by
      rw [SourceRecovery.unexpired,exec_tryCatch,htake]
      rfl
    have hcap : exec (SourceRecovery.admitCapture now joinUntil true) q.scheduler = _ :=
      exec_bind_error hca
    simp only [SharedCall.op,sourceStep,hcap]

theorem sharedRun_closed (later : List SharedCall) (h : OutOfClock d i q.scheduler) :
    OutOfClock d i (final sourceStep q (later.map SharedCall.op)).scheduler := by
  induction later generalizing q with
  | nil => exact h
  | cons call later ih =>
    apply ih
    rw [sharedCall_closed call h.1]
    exact h

theorem sharedRun_waits {last} {later : List SharedCall} (h : WaitingAt d i last q.scheduler)
    (hck : (last :: later.map SharedCall.now).Pairwise (· ≤ ·))
    (hb : ∀ call ∈ later, call.now < d) :
    (∃ e ∈ trace sourceStep q (later.map SharedCall.op), e.reply.Idr) ∨
      Waiting d (final sourceStep q (later.map SharedCall.op)).scheduler ∨
      OutOfClock d i (final sourceStep q (later.map SharedCall.op)).scheduler := by
  induction later generalizing q last with
  | nil => exact .inr (.inl h.toWaiting)
  | cons call later ih =>
    obtain ⟨hl,hck⟩ := List.pairwise_cons.mp hck
    have hn := hl call.now (by simp)
    rcases sharedCall_step call h hn (hb call (by simp)) with hs | hw | hend
    · exact .inl ⟨_,List.mem_cons_self,hs⟩
    · rcases ih hw hck fun c hc => hb c (List.mem_cons_of_mem _ hc) with ⟨e,he,hi⟩ | hr
      · exact .inl ⟨e,List.mem_cons_of_mem _ he,hi⟩
      · exact .inr hr
    · exact .inr (.inr (sharedRun_closed later hend))

/-- The interval of a source's scheduler never changes. -/
theorem sourceRun_interval {source} (hnew : SourceRecovery.new source = .ok q)
    (ops : List SourceOp) : (final sourceStep q ops).scheduler.interval = 500000 := by
  obtain ⟨c,hc,hq⟩ := Bytes.bind_eq_ok.mp hnew
  cases hq
  obtain ⟨calls,hfin,_⟩ := sourceRun_drives ⟨source,c⟩ ops
  rw [← hfin]
  exact (idrRun_paced hc calls).1

/-- A demand that the source has accepted is followed by an IDR, or still waits in a slot that
outlasts it, as long as its deadline has not passed and no retirement discards it. Joins,
earlier demands and the rate make no difference; only the end of the clock does. -/
theorem shared_demand_waits {source : ℕ} {q₀ q : SourceRecovery} {ops : List SourceOp}
    {cache : SendCache} {demand : RecoveryDemand} {now : ℕ} {later : List SharedCall}
    (hnew : SourceRecovery.new source = .ok q₀)
    (hqueue : sourceStep (final sourceStep q₀ ops) (.queue cache demand now) = (.queued (.ok ()),q))
    (hclock : (now :: later.map SharedCall.now).Pairwise (· ≤ ·))
    (hbefore : ∀ call ∈ later, call.now < demand.deadline) :
    (∃ e ∈ trace sourceStep q (later.map SharedCall.op), e.reply.Idr) ∨
      (∃ p, (final sourceStep q (later.map SharedCall.op)).scheduler.pending = some p ∧
        demand.deadline ≤ p.sharedUntil ∧
        (final sourceStep q (later.map SharedCall.op)).scheduler.nextSharedDeadline =
          some (min p.ready p.sharedUntil)) ∨
      ((final sourceStep q (later.map SharedCall.op)).scheduler.closed = true ∧
        2^64 ≤ demand.deadline+500000) := by
  have hi := sourceRun_interval hnew ops
  generalize final sourceStep q₀ ops = s at hqueue hi
  have hq := IdrCoalescer.queue_ensures s.scheduler cache demand now
  obtain ⟨hr,rfl⟩ := Prod.mk.inj hqueue
  have hst : WaitingAt demand.deadline 500000 now
      (sourceStep s (.queue cache demand now)).2.scheduler := by
    rw [Ensures,SourceReply.queued.inj hr] at hq
    change WaitingAt _ _ _ (exec (IdrCoalescer.queue cache demand now) s.scheduler).2
    generalize (exec (IdrCoalescer.queue cache demand now) s.scheduler).2 = t at hq
    cases hq with
    | accepted ho _ => exact ⟨waiting_withDemand (c :=
      {s.scheduler with lastNow := some now}) ho _ _,rfl,hi⟩
  rcases sharedRun_waits hst hclock hbefore with hs | hw | he
  · exact .inl hs
  · exact .inr (.inl hw.nextSharedDeadline)
  · exact .inr (.inr he)

/-- The credit is spent on a join when the demand arrives, and a second join comes too early. -/
theorem shared_demand_waits_sampleDemand : ∃ cache demand q₀ q p, SampleDemand cache demand ∧
    SourceRecovery.new 7 = .ok q₀ ∧
    sourceStep (final sourceStep q₀ [.admitCapture 1 (some 3000000) true]) (.queue cache demand 1) =
      (.queued (.ok ()),q) ∧
      (sourceStep q (.admitCapture 2 (some 3000000) true)).2.scheduler.pending = some p ∧
    demand.deadline ≤ p.sharedUntil := by
  obtain ⟨cache,demand,hs⟩ := exists_sampleDemand
  have hq : sourceStep (final sourceStep ⟨7,⟨500000,0,none,none,false⟩⟩
      [.admitCapture 1 (some 3000000) true]) (.queue cache demand 1) =
      (.queued (.ok ()),⟨7,⟨500000,500001,some ⟨500001,2000001,2000001⟩,some 1,false⟩⟩) := by
    simp only [sourceStep,IdrCoalescer.queue,hs.valid,hs.deadline]
    rfl
  have hb : ∀ call ∈ [SharedCall.admitCapture 2 (some 3000000)], call.now < demand.deadline := by
    simp [hs.deadline,SharedCall.now]
  have hnew : SourceRecovery.new 7 = .ok ⟨7,⟨500000,0,none,none,false⟩⟩ := rfl
  rcases shared_demand_waits hnew hq (by decide) hb with
    ⟨e,he,hi⟩ | ⟨p,hp,hd,_⟩ | ⟨_,hbd⟩
  · obtain ⟨_,hr⟩ := hi
    rw [List.mem_singleton.mp he] at hr
    cases hr
  · exact ⟨cache,demand,_,_,p,hs,hnew,hq,hp,hd⟩
  · rw [hs.deadline] at hbd
    omega

/-- While the demand waits, the next shared deadline is the moment it may be admitted, which is
not as late as the demand's own deadline. -/
theorem shared_deadline_before_demand : ∃ cache demand q₀ q, SampleDemand cache demand ∧
    SourceRecovery.new 7 = .ok q₀ ∧ sourceStep q₀ (.queue cache demand 1) = (.queued (.ok ()),q) ∧
    q.scheduler.nextSharedDeadline = some 1 ∧ 1 < demand.deadline := by
  obtain ⟨cache,demand,hs⟩ := exists_sampleDemand
  have hq : sourceStep ⟨7,⟨500000,0,none,none,false⟩⟩ (.queue cache demand 1) =
      (.queued (.ok ()),⟨7,⟨500000,0,some ⟨1,2000001,2000001⟩,some 1,false⟩⟩) := by
    simp only [sourceStep,IdrCoalescer.queue,hs.valid,hs.deadline]
    rfl
  refine ⟨cache,demand,_,_,hs,rfl,hq,rfl,?_⟩
  rw [hs.deadline]
  decide

end FrankenRemote.Delivery
