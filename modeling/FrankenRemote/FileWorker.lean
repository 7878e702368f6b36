import FrankenRemote.FileReceiver
import FrankenRemote.Transition

/-! The mailbox of the disk worker. One slot carries a command to the worker and its receipt back.
Callers and the worker interleave at every section of the mutex and every access of the
permission. -/
namespace FrankenRemote.FileWorker

open Files Transition List

inductive Error
  | busy | closed | allocation | sequenceExhausted

inductive Completion
  | begun (progress : FileProgress)
  | written (progress : FileProgress)
  | published (receipt : FileReceipt)
  | cancelled

structure Receipt where
  sequence : ℕ
  result : Except ReceiveError Completion

structure Work (C : Type) where
  sequence : ℕ
  command : C

inductive Slot (C : Type)
  | idle
  | queued (work : Work C)
  | executing
  | complete (receipt : Receipt)

structure Inbox (C : Type) where
  next : ℕ := 1
  slot : Slot C := .idle

namespace Inbox

variable {C : Type} (b : Inbox C)

/-- The section of `submit`, once the permission was seen inside it. -/
def submit (make : Except Error C) : Except Error ℕ × Inbox C :=
  match b.slot,checkedAdd b.next 1,make with
  | .idle,some next,.ok command => (.ok b.next,⟨next,.queued ⟨b.next,command⟩⟩)
  | .idle,some _,.error e => (.error e,b)
  | .idle,none,_ => (.error .sequenceExhausted,b)
  | _,_,_ => (.error .busy,b)

def takeReceipt : Option Receipt × Inbox C :=
  match b.slot with
  | .complete receipt => (some receipt,{b with slot := .idle})
  | _ => (none,b)

/-- The last section of the worker. -/
def drain (e : ReceiveError) : Option Receipt × Inbox C :=
  match b.slot with
  | .queued work => (some ⟨work.sequence,.error e⟩,
    {b with slot := .complete ⟨work.sequence,.error e⟩})
  | _ => (none,b)

def fetch : Option (Work C) × Inbox C :=
  match b.slot with
  | .queued work => (some work,{b with slot := .executing})
  | _ => (none,b)

end Inbox

/-- A call of `submit` inside the mutex. -/
structure Holder (C : Type) where
  make : Except Error C
  approved : Bool

/-- The worker before its next step. -/
inductive Worker (C : Type)
  | sampling
  | servicing
  | stopping (error : ReceiveError)
  | draining (error : ReceiveError)
  | finished
  | fetching
  | executing (work : Work C)
  | panicked (sequence : ℕ)
  | delivering (receipt : Receipt)

structure Shared (C : Type) where
  inbox : Inbox C := {}
  permission : Bool
  /-- Calls of `submit` that saw the permission and come to the mutex. -/
  callers : ℕ → Option (Except Error C) := fun _ => none
  holder : Option (Holder C) := none
  worker : Worker C := .sampling

/-- What the receiver and the clock answer to the worker. A panic of a command is no effect. -/
structure Turn where
  fault : Bool
  service : Except ReceiveError Unit
  effect : Option (Except ReceiveError Completion)

inductive Input (C : Type)
  | submit (caller : ℕ) (make : Except Error C) (cancelled : Bool)
  | tryLock (caller : ℕ)
  | proceed (cancelled : Bool)
  | takeReceipt
  | isClosed (cancelled : Bool)
  | stop
  | worker (turn : Turn)

inductive Reply
  | nothing
  | closed (closed : Bool)
  | submitted (result : Except Error ℕ)
  | collected (result : Except Error (Option Receipt))
  | started (sequence : ℕ)
  | delivered (receipt : Receipt)
  | drained (receipt : Option Receipt)

namespace Shared

variable {C : Type} (s : Shared C)

def stop : Shared C := {s with permission := false}

/-- The permission as `is_closed` leaves it. Nothing approves again, so after its own revocation it
reads what it wrote. -/
def fence (cancelled : Bool) : Shared C := if cancelled then s.stop else s

def tryLock (caller : ℕ) (make : Except Error C) : Reply × Shared C :=
  let s := {s with callers := Function.update s.callers caller none}
  if s.holder.isSome then (.submitted (.error .busy),s) else (.nothing,
    {s with holder := some ⟨make,false⟩})

/-- The call inside the mutex looks at the permission again, then leaves its command. -/
def proceed (cancelled : Bool) (h : Holder C) : Reply × Shared C :=
  if h.approved then
    (.submitted (s.inbox.submit h.make).1,
      {s with holder := none, inbox := (s.inbox.submit h.make).2})
  else if (s.fence cancelled).permission then (.nothing,{s with holder := some ⟨h.make,true⟩})
  else (.submitted (.error .closed),{s.fence cancelled with holder := none})

/-- One step of `run`. A blocking `lock` waits while a caller owns the mutex. -/
def run (turn : Turn) : Reply × Shared C :=
  match s.worker with
  | .sampling => (.nothing,{s.fence turn.fault with worker := .servicing})
  | .servicing =>
    match turn.service with
    | .error e => (.nothing,{s with worker := .stopping e})
    | .ok _ => (.nothing,{s with worker := .fetching})
  | .stopping e => (.nothing,{s.stop with worker := .draining e})
  | .draining e =>
    if s.holder.isSome then (.nothing,s)
    else (.drained (s.inbox.drain e).1,{s with inbox := (s.inbox.drain e).2, worker := .finished})
  | .finished => (.nothing,s)
  | .fetching =>
    if s.holder.isSome then (.nothing,s)
    else
      match s.inbox.fetch with
      | (some work,inbox) => (.started work.sequence,{s with inbox, worker := .executing work})
      | (none,_) => (.nothing,{s with worker := .sampling})
  | .executing work =>
    match turn.effect with
    | some result => (.nothing,{s with worker := .delivering ⟨work.sequence,result⟩})
    | none => (.nothing,{s with worker := .panicked work.sequence})
  | .panicked sequence =>
    (.nothing,{s.stop with worker := .delivering ⟨sequence,.error .unknownEffect⟩})
  | .delivering receipt =>
    if s.holder.isSome then (.nothing,s)
    else (.delivered receipt,
      {s with inbox := {s.inbox with slot := .complete receipt}, worker := .sampling})

def step : Input C → Reply × Shared C
  | .submit caller make cancelled =>
    if (s.fence cancelled).permission then
      (.nothing,{s with callers := Function.update s.callers caller (some make)})
    else (.submitted (.error .closed),s.fence cancelled)
  | .tryLock caller =>
    match s.callers caller with
    | some make => s.tryLock caller make
    | none => (.nothing,s)
  | .proceed cancelled =>
    match s.holder with
    | some h => s.proceed cancelled h
    | none => (.nothing,s)
  | .takeReceipt =>
    if s.holder.isSome then (.collected (.error .busy),s)
    else (.collected (.ok s.inbox.takeReceipt.1),{s with inbox := s.inbox.takeReceipt.2})
  | .isClosed cancelled => (.closed (!(s.fence cancelled).permission),s.fence cancelled)
  | .stop => (.nothing,s.stop)
  | .worker turn => s.run turn

end Shared

/-! What a run tells. -/

abbrev History (C : Type) := List (Event (Shared C) (Input C) Reply)

namespace Reply

@[simp] def submission : Reply → Option ℕ
  | .submitted (.ok n) => some n
  | _ => none

@[simp] def receipt : Reply → Option Receipt
  | .delivered r => some r
  | .drained r => r
  | _ => none

@[simp] def collection : Reply → Option Receipt
  | .collected (.ok r) => r
  | _ => none

@[simp] def execution : Reply → Option ℕ
  | .started n => some n
  | _ => none

@[simp] def leftover : Reply → Option ℕ
  | .drained r => r.map Receipt.sequence
  | _ => none

end Reply

variable {C β : Type}

def told (f : Reply → Option β) (h : History C) : List β := h.filterMap (f ·.reply)

@[simp] theorem told_append (f : Reply → Option β) (h h' : History C) :
    told f (h ++ h') = told f h ++ told f h' :=
  filterMap_append

@[simp] theorem told_cons (f : Reply → Option β) (e : Event (Shared C) (Input C) Reply)
    (h : History C) : told f (e :: h) = (f e.reply).toList ++ told f h := by
  cases hf : f e.reply <;> simp [told,hf]

@[simp] theorem told_nil (f : Reply → Option β) : told f ([] : History C) = [] := rfl

@[simp] def Slot.waiting : Slot C → List ℕ
  | .queued work => [work.sequence]
  | _ => []

@[simp] def Slot.receipt : Slot C → List Receipt
  | .complete receipt => [receipt]
  | _ => []

/-- The command that the worker took and has not answered. -/
@[simp] def Worker.busy : Worker C → List ℕ
  | .executing work => [work.sequence]
  | .panicked sequence => [sequence]
  | .delivering receipt => [receipt.sequence]
  | _ => []

/-- Steps until the worker has answered a command that waits. -/
def Worker.rank : Worker C → ℕ
  | .finished => 0
  | .draining _ | .delivering _ => 1
  | .stopping _ | .panicked _ => 2
  | .executing _ => 3
  | .fetching => 4
  | .servicing => 5
  | .sampling => 6

def Shared.outstanding (s : Shared C) : List ℕ := s.inbox.slot.waiting ++ s.worker.busy

/-- No call is inside the mutex with an approval once the worker has left. -/
structure Guarded (s : Shared C) : Prop where
  fenced : s.worker = .finished ∨ (∃ e, s.worker = .draining e) → s.permission = false
  shut : s.worker = .finished → ∀ h, s.holder = some h → h.approved = false

variable {s : Shared C}

section Fence

variable (cancelled : Bool)

theorem fence_worker : (s.fence cancelled).worker = s.worker := by cases cancelled <;> rfl

theorem fence_inbox : (s.fence cancelled).inbox = s.inbox := by cases cancelled <;> rfl

theorem fence_holder : (s.fence cancelled).holder = s.holder := by cases cancelled <;> rfl

theorem fence_permission (hp : s.permission = false) : (s.fence cancelled).permission = false := by
  cases cancelled
  · exact hp
  · rfl

end Fence

/-- The worker leaves the mutex to its owner and gives no permission. -/
theorem run_guards (turn : Turn) : (s.run turn).2.holder = s.holder ∧
    (s.permission = false → (s.run turn).2.permission = false) := by
  unfold Shared.run
  cases s.worker with
  | sampling => exact ⟨fence_holder _,fence_permission _⟩
  | servicing => cases turn.service <;> exact ⟨rfl,id⟩
  | stopping | panicked => exact ⟨rfl,fun _ => rfl⟩
  | draining | delivering => dsimp only; split <;> exact ⟨rfl,id⟩
  | finished => exact ⟨rfl,id⟩
  | fetching =>
    dsimp only
    split
    · exact ⟨rfl,id⟩
    · split <;> exact ⟨rfl,id⟩
  | executing => cases turn.effect <;> exact ⟨rfl,id⟩

/-- One step, as far as the permission, the mutex and the worker go. -/
structure Access (s : Shared C) (i : Input C) (s' : Shared C) : Prop where
  revoked : s.permission = false → s'.permission = false
  approved : ∀ h, s'.holder = some h → h.approved = true → s.holder = some h ∨ s.permission = true
  worker : (∀ turn, i ≠ .worker turn) → s'.worker = s.worker

theorem step_access (i : Input C) : Access s i (s.step i).2 := by
  have hsame : Access s i s := ⟨id,fun _ h _ => .inl h,fun _ => rfl⟩
  have hfence (c : Bool) : Access s i (s.fence c) :=
    ⟨fence_permission c,fun _ h _ => .inl (fence_holder c ▸ h),fun _ => fence_worker c⟩
  cases i with
  | submit caller make cancelled =>
    dsimp only [Shared.step]
    split
    · exact ⟨id,fun _ h _ => .inl h,fun _ => rfl⟩
    · exact hfence cancelled
  | tryLock caller =>
    dsimp only [Shared.step,Shared.tryLock]
    split
    · split
      · exact ⟨id,fun _ h _ => .inl h,fun _ => rfl⟩
      · exact ⟨id,fun _ h ha => (by cases h; cases ha),fun _ => rfl⟩
    · exact hsame
  | proceed cancelled =>
    dsimp only [Shared.step,Shared.proceed]
    split
    · split_ifs with _ hp
      · exact ⟨id,nofun,fun _ => rfl⟩
      · -- the permission was seen again
        refine ⟨id,fun _ _ _ => .inr (by_contra fun hno => ?_),fun _ => rfl⟩
        rw [fence_permission cancelled (Bool.eq_false_of_not_eq_true hno)] at hp
        cases hp
      · exact ⟨(hfence cancelled).revoked,nofun,(hfence cancelled).worker⟩
    · exact hsame
  | takeReceipt =>
    dsimp only [Shared.step]
    split
    · exact hsame
    · exact ⟨id,fun _ h _ => .inl h,fun _ => rfl⟩
  | isClosed cancelled => exact hfence cancelled
  | stop => exact ⟨fun _ => rfl,fun _ h _ => .inl h,fun _ => rfl⟩
  | worker turn =>
    obtain ⟨hh,hp⟩ := run_guards (s := s) turn
    exact ⟨hp,fun _ h _ => .inl (hh.symm.trans h),fun h => absurd rfl (h turn)⟩

theorem Guarded.away (hw : ∀ e, s.worker ≠ .draining e) (hw' : s.worker ≠ .finished) : Guarded s :=
  ⟨fun h => h.elim (absurd · hw') fun ⟨e,he⟩ => absurd he (hw e),fun h => absurd h hw'⟩

theorem Guarded.run (hg : Guarded s) (turn : Turn) : Guarded (s.run turn).2 := by
  unfold Shared.run
  cases hw : s.worker with
  | sampling | panicked => exact .away nofun nofun
  | servicing => cases turn.service <;> exact .away nofun nofun
  | stopping e => exact ⟨fun _ => rfl,nofun⟩
  | draining e =>
    dsimp only
    split
    · exact hg
    · next hh => exact ⟨fun _ => hg.fenced (.inr ⟨e,hw⟩),fun _ h h' => absurd (by rw [h']; rfl) hh⟩
  | finished => exact hg
  | fetching =>
    dsimp only
    split
    · exact hg
    · split <;> exact .away nofun nofun
  | executing => cases turn.effect <;> exact .away nofun nofun
  | delivering =>
    dsimp only
    split
    · exact hg
    · exact .away nofun nofun

theorem Guarded.step (hg : Guarded s) (i : Input C) : Guarded (s.step i).2 := by
  by_cases hi : ∃ turn, i = .worker turn
  · obtain ⟨turn,rfl⟩ := hi
    exact hg.run turn
  · have ha := step_access (s := s) i
    have hw := ha.worker fun turn h => hi ⟨turn,h⟩
    refine ⟨fun h => ha.revoked (hg.fenced (hw ▸ h)),fun h holder hhold =>
      Bool.eq_false_of_not_eq_true ?_⟩
    intro happ
    rw [hw] at h
    rcases ha.approved holder hhold happ with hold | hp
    · cases happ.symm.trans (hg.shut h holder hold)
    · cases hp.symm.trans (hg.fenced (.inl h))

/-! Commands and their receipts. -/

def Reply.silent : Reply → Bool
  | .submitted (.ok _) | .collected (.ok (some _)) | .started _ | .delivered _
  | .drained (some _) => false
  | _ => true

/-- One step, as far as commands and receipts go. -/
inductive Did (s s' : Shared C) : Reply → Prop
  | kept {r} (hr : r.silent) (hb : s'.inbox = s.inbox) (hw : s'.worker.busy = s.worker.busy)
    (hf : s.worker = .finished → s'.worker = .finished)
    (he : s'.worker = .finished → s.worker = .finished ∨ s.outstanding = []) : Did s s' r
  | submitted {h command} (hh : s.holder = some h) (ha : h.approved) (hb : s.inbox.slot = .idle)
    (hb' : s'.inbox = ⟨s.inbox.next+1,.queued ⟨s.inbox.next,command⟩⟩) (hw : s'.worker = s.worker) :
    Did s s' (.submitted (.ok s.inbox.next))
  | collected {r} (hb : s.inbox.slot = .complete r) (hb' : s'.inbox = {s.inbox with slot := .idle})
    (hw : s'.worker = s.worker) : Did s s' (.collected (.ok (some r)))
  | started {work} (hb : s.inbox.slot = .queued work)
    (hb' : s'.inbox = {s.inbox with slot := .executing}) (hw : s.worker = .fetching)
    (hw' : s'.worker = .executing work) : Did s s' (.started work.sequence)
  | drained {work e} (hb : s.inbox.slot = .queued work)
    (hb' : s'.inbox = {s.inbox with slot := .complete ⟨work.sequence,.error e⟩})
    (hw : s.worker = .draining e) (hw' : s'.worker = .finished) :
    Did s s' (.drained (some ⟨work.sequence,.error e⟩))
  | delivered {r} (hb' : s'.inbox = {s.inbox with slot := .complete r})
    (hw : s.worker = .delivering r) (hw' : s'.worker = .sampling) : Did s s' (.delivered r)

theorem Did.same {r s'} (hr : r.silent) (hb : s'.inbox = s.inbox) (hw : s'.worker = s.worker) :
    Did s s' r :=
  .kept hr hb (by rw [hw]) (hw ▸ id) fun he => .inl (hw ▸ he)

theorem proceed_did {h} (hh : s.holder = some h) (cancelled : Bool) :
    Did s (s.proceed cancelled h).2 (s.proceed cancelled h).1 := by
  unfold Shared.proceed Inbox.submit
  split_ifs with ha
  · split
    · next hb hn _ =>
      obtain ⟨rfl,_⟩ := checkedAdd_eq_some.mp hn
      exact .submitted hh ha hb rfl rfl
    all_goals exact .same rfl rfl rfl
  · exact .same rfl rfl rfl
  · exact .same rfl (fence_inbox _) (fence_worker _)

theorem run_did (turn : Turn) : Did s (s.run turn).2 (s.run turn).1 := by
  unfold Shared.run
  split
  · next hw => exact .kept rfl (fence_inbox _) (by simp [hw]) (by simp [hw]) (by simp)
  · next hw => split <;> exact .kept rfl rfl (by simp [hw]) (by simp [hw]) (by simp)
  · next hw => exact .kept rfl rfl (by simp [hw]) (by simp [hw]) (by simp)
  · next e hw =>
    unfold Inbox.drain
    split
    · exact .same rfl rfl rfl
    · split
      · next hb => exact .drained hb rfl hw rfl
      · next hb =>
        refine .kept rfl rfl (by simp [hw]) (by simp) fun _ => .inr ?_
        cases hs : s.inbox.slot with
        | queued work => exact absurd hs (hb work)
        | _ => simp [Shared.outstanding,hs,hw]
  · exact .same rfl rfl rfl
  · next hw =>
    unfold Inbox.fetch
    split
    · exact .same rfl rfl rfl
    · cases hs : s.inbox.slot with
      | queued work => exact .started hs rfl hw rfl
      | _ => exact .kept rfl rfl (by simp [hw]) (by simp [hw]) (by simp)
  · next hw => split <;> exact .kept rfl rfl (by simp [hw]) (by simp [hw]) (by simp)
  · next hw => exact .kept rfl rfl (by simp [hw]) (by simp [hw]) (by simp)
  · next hw =>
    split
    · exact .same rfl rfl rfl
    · exact .delivered rfl hw rfl

theorem step_did (i : Input C) : Did s (s.step i).2 (s.step i).1 := by
  cases i with
  | submit caller make cancelled =>
    dsimp only [Shared.step]
    split
    · exact .same rfl rfl rfl
    · exact .same rfl (fence_inbox _) (fence_worker _)
  | tryLock caller =>
    dsimp only [Shared.step,Shared.tryLock]
    split
    · split <;> exact .same rfl rfl rfl
    · exact .same rfl rfl rfl
  | proceed cancelled =>
    dsimp only [Shared.step]
    split
    · next hh => exact proceed_did hh cancelled
    · exact .same rfl rfl rfl
  | takeReceipt =>
    dsimp only [Shared.step,Inbox.takeReceipt]
    split
    · exact .same rfl rfl rfl
    · split
      · next hb => exact .collected hb rfl rfl
      · exact .same rfl rfl rfl
  | isClosed cancelled => exact .same rfl (fence_inbox _) (fence_worker _)
  | stop => exact .same rfl rfl rfl
  | worker turn => exact run_did turn

structure Ledger (h : History C) (s : Shared C) : Prop where
  numbered : told Reply.submission h = List.range' 1 (s.inbox.next-1)
  positive : 0 < s.inbox.next
  custody : told Reply.submission h = (told Reply.receipt h).map Receipt.sequence ++ s.outstanding
  retained : told Reply.receipt h = told Reply.collection h ++ s.inbox.slot.receipt
  taken : told Reply.submission h = told Reply.execution h ++
    (s.inbox.slot.waiting ++ told Reply.leftover h)
  busy : s.inbox.slot = .executing ↔ s.worker.busy ≠ []
  left : told Reply.leftover h ≠ [] → s.worker = .finished
  ended : s.worker = .finished → s.outstanding = []

theorem Reply.told_silent {r : Reply} (hr : r.silent) :
    r.submission = none ∧ r.receipt = none ∧ r.collection = none ∧ r.execution = none ∧
    r.leftover = none := by
  rcases r with _ | _ | (_ | _) | (_ | _ | _) | _ | _ | (_ | _) <;> simp_all [Reply.silent]

theorem told_snoc_none {f : Reply → Option β} {h : History C} {e} (he : f e.reply = none) :
    told f (h ++ [e]) = told f h := by
  simp [he]

theorem Ledger.step {h i r s'} (hl : Ledger h s) (hg : Guarded s) (hd : Did s s' r) :
    Ledger (h ++ [⟨s,i,r⟩]) s' := by
  obtain ⟨hnum,hpos,hc,hret,ht,hbusy,hleft,hend⟩ := hl
  have hno (hw : s.worker ≠ .finished) : told Reply.leftover h = [] := not_not.mp (mt hleft hw)
  cases hd with
  | kept hr hb hw hf he =>
    obtain ⟨h1,h2,h3,h4,h5⟩ := Reply.told_silent hr
    have ho : s'.outstanding = s.outstanding := by rw [Shared.outstanding,hb,hw]; rfl
    constructor
    case numbered => rwa [told_snoc_none h1,hb]
    case positive => rwa [hb]
    case custody => rwa [told_snoc_none h1,told_snoc_none h2,ho]
    case retained => rwa [told_snoc_none h2,told_snoc_none h3,hb]
    case taken => rwa [told_snoc_none h1,told_snoc_none h4,told_snoc_none h5,hb]
    case busy => rwa [hb,hw]
    case left => rw [told_snoc_none h5]; exact hf ∘ hleft
    case ended => exact fun h => ho ▸ (he h).elim hend id
  | submitted hh ha hb hb' hw =>
    have hfin : s.worker ≠ .finished := fun hf => absurd ha (by simp [hg.shut hf _ hh])
    have hno := hno hfin
    have hidle : s.worker.busy = [] := by simpa [hb] using hbusy
    have hr : List.range' 1 s.inbox.next = List.range' 1 (s.inbox.next-1) ++ [s.inbox.next] := by
      obtain ⟨n,hn⟩ := Nat.exists_eq_add_one.mpr hpos
      simp [hn,List.range'_concat,Nat.add_comm]
    -- the number of the command goes to the end of every list that is still open
    constructor
    case numbered => simp [hnum,hb',hr]
    case positive => simp [hb']
    case custody => simp [-Worker.busy,hc,Shared.outstanding,hb,hb',hw,hidle]
    case retained => simp [hret,hb,hb']
    case taken => simp [ht,hno,hb,hb']
    case busy => simp [-Worker.busy,hb',hw,hidle]
    case left => simp [hno]
    case ended => exact fun h => absurd (hw ▸ h) hfin
  | collected hb hb' hw =>
    have hidle : s.worker.busy = [] := by simpa [hb] using hbusy
    -- the receipt goes from the slot to the collected ones
    constructor
    case numbered => simpa [hb'] using hnum
    case positive => simpa [hb'] using hpos
    case custody => simpa [Shared.outstanding,hb,hb',hw] using hc
    case retained => simp [hret,hb,hb']
    case taken => simpa [hb,hb'] using ht
    case busy => simp [-Worker.busy,hb',hw,hidle]
    case left => simpa [hw] using hleft
    case ended => simp [-Worker.busy,Shared.outstanding,hb',hw,hidle]
  | started hb hb' hw hw' =>
    have hno := hno (by simp [hw])
    -- the command goes from the slot to the worker
    constructor
    case numbered => simpa [hb'] using hnum
    case positive => simpa [hb'] using hpos
    case custody => simpa [Shared.outstanding,hb,hb',hw,hw'] using hc
    case retained => simpa [hb,hb'] using hret
    case taken => simpa [hno,hb,hb'] using ht
    case busy => simp [hb',hw']
    case left => simp [hno]
    case ended => simp [hw']
  | drained hb hb' hw hw' =>
    have hno := hno (by simp [hw])
    -- the command that waited is answered in its slot
    constructor
    case numbered => simpa [hb'] using hnum
    case positive => simpa [hb'] using hpos
    case custody => simpa [Shared.outstanding,hb,hb',hw,hw'] using hc
    case retained => simpa [hb,hb'] using hret
    case taken => simpa [hno,hb,hb'] using ht
    case busy => simp [hb',hw']
    case left => exact fun _ => hw'
    case ended => simp [Shared.outstanding,hb',hw']
  | delivered hb' hw hw' =>
    have hb := hbusy.mpr (by simp [hw])
    have hno := hno (by simp [hw])
    -- the receipt goes from the worker to the slot
    constructor
    case numbered => simpa [hb'] using hnum
    case positive => simpa [hb'] using hpos
    case custody => simpa [Shared.outstanding,hb,hb',hw,hw'] using hc
    case retained => simpa [hb,hb'] using hret
    case taken => simpa [hno,hb,hb'] using ht
    case busy => simp [hb',hw']
    case left => simp [hno]
    case ended => simp [hw']

/-! The worker gets to every command. -/

/-- The worker's turn, with the mutex free. -/
def due (e : Event (Shared C) (Input C) Reply) : Bool :=
  match e.input with
  | .worker _ => e.before.holder.isNone
  | _ => false

theorem Worker.rank_le (w : Worker C) : w.rank ≤ 6 := by cases w <;> simp [rank]

theorem rank_run {k} (turn : Turn) (hw : s.worker ≠ .finished)
    (hn : (s.run turn).2.outstanding ≠ []) (hk : k ≤ 1)
    (hl : s.holder.isSome → k = 0) : (s.run turn).2.worker.rank + k ≤ s.worker.rank := by
  unfold Shared.run at *
  cases hs : s.worker with
  | finished => exact absurd hs hw
  | sampling | stopping | panicked => simpa [hs,Worker.rank,Nat.add_comm] using hk
  | servicing => cases turn.service <;> simp only [Worker.rank] <;> omega
  | executing => cases turn.effect <;> simp only [Worker.rank] <;> omega
  | draining | delivering => cases hl : s.holder <;> simp_all [Worker.rank,Shared.outstanding,
    Inbox.drain]
  | fetching =>
    cases hl : s.holder <;> cases hb : s.inbox.slot <;> simp_all [Worker.rank,Shared.outstanding,
      Inbox.fetch]
    omega

theorem rank_step (i : Input C) (hw : s.worker ≠ .finished) (hn : (s.step i).2.outstanding ≠ []) :
    (s.step i).2.worker.rank + (if due ⟨s,i,(s.step i).1⟩ then 1 else 0) ≤ s.worker.rank := by
  cases i with
  | worker turn => exact rank_run turn hw hn (by split <;> decide) (by
    simp +contextual [due,Option.isSome_iff_ne_none])
  | _ =>
    rw [(step_access _).worker (by simp)]
    exact le_rfl

theorem answered {h} (hl : Ledger h s) (hg : Guarded s) (hn : s.outstanding ≠ [])
    (is : List (Input C)) (ht : s.worker.rank ≤ (trace Shared.step s is).countP due) :
    told Reply.receipt (trace Shared.step s is) ≠ [] := by
  have hw : s.worker ≠ .finished := fun hw => hn (hl.ended hw)
  induction is generalizing h s with
  | nil =>
    cases hs : s.worker <;> simp_all [trace,Worker.rank]
  | cons i is ih =>
    have hl' := hl.step (i := i) hg (step_did i)
    cases hr : (s.step i).1.receipt with
    | some r =>
      rw [trace,told_cons,hr]
      exact cons_ne_nil _ _
    | none =>
      -- the command still waits
      have hn' : (s.step i).2.outstanding ≠ [] := by
        have hc := hl'.custody
        simp only [told_append,told_cons,told_nil,hr,Option.toList_none,append_nil,hl.custody,
          append_assoc,append_cancel_left_eq] at hc
        rw [← hc]
        simp [hn]
      have hrank := rank_step i hw hn'
      simp only [trace,countP_cons] at ht
      have hlater := ih hl' (hg.step i) hn' (by omega) fun hw' => hn' (hl'.ended hw')
      rwa [trace,told_cons,hr]

theorem ledger_run (permission : Bool) (is : List (Input C)) :
    Ledger (trace Shared.step {permission} is) (final Shared.step {permission} is) ∧
      Guarded (final Shared.step {permission} is) := by
  refine history_invariant (I := fun h s => Ledger h s ∧ Guarded s) _ ⟨?_,?_⟩
    (fun h s i hs => ⟨hs.1.step hs.2 (step_did i),hs.2.step i⟩) is
  · constructor <;> simp [told,Shared.outstanding]
  · constructor <;> simp

theorem stopped_run (permission : Bool) (is : List (Input C))
    (hx : ∃ x ∈ trace Shared.step {permission} is, x.input = .stop) :
    (final Shared.step {permission} is).permission = false := by
  refine history_invariant (I := fun h s => (∃ x ∈ h, x.input = .stop) → s.permission = false) _
    (by simp) ?_ is hx
  rintro h s i hs ⟨x,hx,hi⟩
  rcases mem_append.mp hx with hx | hx
  · exact (step_access i).revoked (hs ⟨x,hx,hi⟩)
  · cases mem_singleton.mp hx
    cases hi
    rfl

/-- The slot holds one command or one receipt. -/
theorem Ledger.room {h} (hl : Ledger h s) :
    s.inbox.slot.receipt.length + s.outstanding.length ≤ 1 := by
  have hb := hl.busy
  have hone : s.worker.busy.length ≤ 1 := by cases s.worker <;> simp
  unfold Shared.outstanding
  cases hs : s.inbox.slot with
  | executing => simpa using hone
  | idle | queued | complete =>
    have hnone : s.worker.busy = [] := by simpa [hs] using hb
    simp [-Worker.busy,hnone]

/-- No interleaving loses, repeats or reorders a command, or replaces its receipt. -/
theorem worker_loses_nothing (permission : Bool) (is : List (Input C)) :
    let h := trace Shared.step {permission} is
    let submitted := told Reply.submission h
    let receipts := told Reply.receipt h
    submitted = List.range' 1 submitted.length ∧
    submitted.length ≤ (told Reply.collection h).length+1 ∧
    receipts.map Receipt.sequence <+: submitted ∧
    (∀ later, 6 ≤ (trace Shared.step (final Shared.step {permission} is) later).countP due →
      submitted <+: (told Reply.receipt (trace Shared.step {permission} (is ++ later))).map
        Receipt.sequence) ∧
    ((final Shared.step {permission} is).worker = .finished → receipts.map Receipt.sequence =
      submitted) ∧
    told Reply.collection h <+: receipts ∧
    (∀ e ∈ h, ∀ r, e.reply = .drained (some r) →
      (∃ error, r.result = .error error) ∧ r.sequence ∉ told Reply.execution h) ∧
    ∀ past e later caller make cancelled, h = past ++ e :: later →
      e.input = .submit caller make cancelled →
      (∃ x ∈ past, x.input = .stop) → e.reply = .submitted (.error .closed) := by
  obtain ⟨hl,hg⟩ := ledger_run permission is
  refine ⟨?_,?_,⟨_,hl.custody.symm⟩,fun later ht => ?_,fun hw => ?_,⟨_,hl.retained.symm⟩,
    fun e he r hr => ?_,?_⟩
  · rw [hl.numbered,length_range']
  · have hr := hl.room
    rw [hl.custody,hl.retained]
    simp only [length_append,length_map]
    omega
  · refine prefix_of_prefix_length_le ?_ ⟨_,(ledger_run permission (is ++ later)).1.custody.symm⟩ ?_
    · rw [trace_append,told_append]
      exact prefix_append ..
    · have hr := hl.room
      rw [hl.custody]
      simp only [trace_append,told_append,length_append,length_map]
      by_cases hn : (final Shared.step {permission} is).outstanding = []
      · simp [hn]
      · have hpos := length_pos_iff.mpr (answered hl hg hn later ((Worker.rank_le _).trans ht))
        omega
  · rw [hl.custody,hl.ended hw,append_nil]
  · obtain ⟨past,later,hs⟩ := append_of_mem he
    obtain ⟨is₁,i,_,_,_,rfl,_⟩ := trace_split _ hs
    constructor
    · have hd := step_did (s := final Shared.step {permission} is₁) i
      rw [show (Shared.step _ i).1 = _ from hr] at hd
      cases hd with
      | kept hs => cases hs
      | drained => exact ⟨_,rfl⟩
    · have hnd : (told Reply.submission (trace Shared.step {permission} is)).Nodup := by
        rw [hl.numbered]
        exact nodup_range'
      rw [hl.taken] at hnd
      refine fun hx => (nodup_append.mp hnd).2.2 _ hx _ (mem_append_right _ ?_) rfl
      exact mem_filterMap.mpr ⟨_,he,by rw [hr]; rfl⟩
  · intro past e later caller make cancelled hs hi hx
    obtain ⟨is₁,i,_,_,rfl,rfl,_⟩ := trace_split _ hs
    cases hi
    have hp := stopped_run permission is₁ hx
    have hf := fence_permission cancelled hp
    simp [Shared.step,hf]

end FrankenRemote.FileWorker
