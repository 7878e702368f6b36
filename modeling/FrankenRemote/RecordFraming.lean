import FrankenRemote.RecordStream
import FrankenRemote.Transition

/-! Framing does not depend on how the byte string was cut into reads. -/
namespace FrankenRemote.Framing

open Bytes Wire Procedure RecordStream Transition List

/-! What the stream computes, as a function of the whole byte string. -/

variable {b m now start : ℕ} {s : RecordStream} {α : Type} {alloc : Allocator} {total : ℕ}

theorem headerBytes_le_total {h} (hv : validateHeader b m h = .ok total) :
    total = headerBytes + word h 12 ∧ total ≤ m := by
  simp only [validateHeader,bind,Except.bind,throw,throwThe,MonadExceptOf.throw,pure,
    Except.pure] at hv
  repeat' split at hv
  all_goals cases hv
  exact ⟨rfl,by omega⟩

structure Parsed where
  frames : List (List Byte)
  failure : Option StreamError
  deriving DecidableEq, Repr

/-- Frames of a byte string that starts at a record boundary, up to the first refused
header. The buffer capacity is the only thing one record leaves to the next. -/
def parseAll (alloc : Allocator) (binding maximum : ℕ) (capacity : ℕ) (bs : List Byte) : Parsed :=
  if bs.length < headerBytes then ⟨[],none⟩
  else
    match _hv : validateHeader binding maximum (bs.take headerBytes) with
    | .error e => ⟨[],some (.wire e)⟩
    | .ok total =>
      match reserve alloc maximum capacity total with
      | none => ⟨[],some .allocation⟩
      | some capacity' =>
        if bs.length < total then ⟨[],none⟩
        else
          let rest := parseAll alloc binding maximum capacity' (bs.drop total)
          ⟨bs.take total :: rest.frames,rest.failure⟩
termination_by bs.length
decreasing_by
  have := (headerBytes_le_total _hv).1
  simp only [List.length_drop,headerBytes] at *
  omega

def Refused (alloc : Allocator) (binding maximum capacity : ℕ) (bs : List Byte) (e : StreamError) :
    Prop :=
  headerBytes ≤ bs.length ∧
    ((∃ w, validateHeader binding maximum (bs.take headerBytes) = .error w ∧ e = .wire w) ∨
      ∃ total, validateHeader binding maximum (bs.take headerBytes) = .ok total ∧
        reserve alloc maximum capacity total = none ∧ e = .allocation)

section Parse

variable {alloc : Allocator} {b m capacity : ℕ} {bs : List Byte}

theorem parseAll_short (h : bs.length < headerBytes) :
    parseAll alloc b m capacity bs = ⟨[],none⟩ := by
  rw [parseAll,if_pos h]

theorem parseAll_refused {e} (h : Refused alloc b m capacity bs e) :
    parseAll alloc b m capacity bs = ⟨[],some e⟩ := by
  obtain ⟨hlen,⟨w,hw,rfl⟩|⟨_,ht,hr,rfl⟩⟩ := h
  · rw [parseAll,if_neg (not_lt.mpr hlen)]
    split
    · next e he => cases he.symm.trans hw; rfl
    · next _ he => cases he.symm.trans hw
  · rw [parseAll,if_neg (not_lt.mpr hlen)]
    split
    · next e he => cases he.symm.trans ht
    · next _ he =>
      cases he.symm.trans ht
      rw [hr]

theorem parseAll_accepted {total capacity'} (hlen : headerBytes ≤ bs.length)
    (ht : validateHeader b m (bs.take headerBytes) = .ok total)
    (hr : reserve alloc m capacity total = some capacity') :
    parseAll alloc b m capacity bs = if bs.length < total then ⟨[],none⟩
      else ⟨bs.take total :: (parseAll alloc b m capacity' (bs.drop total)).frames,
        (parseAll alloc b m capacity' (bs.drop total)).failure⟩ := by
  rw [parseAll,if_neg (not_lt.mpr hlen)]
  split
  · next e he => cases he.symm.trans ht
  · next _ he =>
    cases he.symm.trans ht
    rw [hr]

/-- A refused header stays refused whatever follows it. -/
theorem Refused.append {e} (h : Refused alloc b m capacity bs e)
    (more : List Byte) : Refused alloc b m capacity (bs++more) e := by
  have ht : (bs++more).take headerBytes = bs.take headerBytes := take_append_of_le_length h.1
  refine ⟨by rw [length_append]; exact h.1.trans (Nat.le_add_right _ _),?_⟩
  rw [ht]
  exact h.2

end Parse

/-! The clock on one call. -/

/-- The stream is open and the sample is neither late nor a regression. -/
structure OnTime (s : RecordStream) (now : ℕ) : Prop where
  sound : s.failure = none
  opened : s.closed = false
  mono : ∀ x, s.lastNow = some x → x ≤ now
  early : ∀ u, s.until_ = some u → now < u

/-- No call gets past the stream's first check. -/
def Dead (s : RecordStream) : Prop := s.failure.isSome = true ∨ s.closed = true

/-- A tick passes on time, or ends the stream. -/
theorem tick_ensures {P}
    (hno : ∀ e t, ¬OnTime s now → Dead t → (Dead s → t = s) → P (.error e) t)
    (hok : OnTime s now → P (.ok ()) {s with lastNow := some now}) : Ensures (tick now) s P := by
  refine .get_bind ?_
  cases hf : s.failure with
  | some e => exact .throw (hno e s (fun h => by simp [h.sound] at hf) (.inl (by simp [hf]))
    fun _ => rfl)
  | none =>
    refine .refuseIf_bind (fun hc => hno _ _ (fun h => by simp [h.opened] at hc) (.inr hc)
      fun _ => rfl) fun hc => ?_
    have hd : ¬Dead s := by simp [Dead,hf,hc]
    refine .ite (fun hm =>
      .modify_bind (.throw (hno _ _ (fun h => ?_) (.inl rfl) fun h => absurd h hd))) fun hm =>
      .modify_bind (.ite
        (fun hu => .modify_bind (.throw (hno _ _ (fun h => ?_) (.inl rfl) fun h => absurd h hd)))
        fun hu => .pure (hok ⟨hf,by simpa using hc,fun x hx => ?_,fun u hx => ?_⟩))
    · obtain ⟨x,hx,hlt⟩ := (Option.any_eq_true _ _).mp hm
      exact absurd (h.mono x hx) (by simpa using hlt)
    · obtain ⟨u,hx,hle⟩ := (Option.any_eq_true _ _).mp hu
      exact absurd (h.early u hx) (by simpa using hle)
    · simpa [hx] using hm
    · simpa [hx] using hu

theorem tick_bind {P : Except StreamError α → RecordStream → Prop} {f : Unit → Call α}
    (hno : ∀ e t, ¬OnTime s now → Dead t → (Dead s → t = s) → P (.error e) t)
    (hok : OnTime s now → Ensures (f ()) {s with lastNow := some now} P) :
    Ensures (tick now >>= f) s P :=
  .of_bind (tick_ensures (fun e t hn hd hs => .throw (hno e t hn hd hs)) hok)

theorem OnTime.of_sample {x u} (hf : s.failure = none) (hc : s.closed = false)
    (hl : s.lastNow = some x)
    (hu : s.until_ = some u) (hx : x ≤ now) (he : now < u) : OnTime s now := by
  refine ⟨hf,hc,fun y hy => ?_,fun v hv => ?_⟩
  · cases hl.symm.trans hy
    exact hx
  · cases hu.symm.trans hv
    exact he

theorem exec_tick_bind (h : OnTime s now)
    (f : Unit → Call α) : exec (tick now >>= f) s = exec (f ()) {s with lastNow := some now} :=
  tick_bind (P := fun r t => (r,t) = exec (f ()) {s with lastNow := some now})
    (fun _ _ hn => absurd h hn) fun _ => rfl

/-- The deadline of the record that the next byte belongs to. -/
def deadline (s : RecordStream) (now : ℕ) : ℕ := s.until_.getD (now+s.lifetime)

theorem exec_startDeadline (s : RecordStream) (now : ℕ) (h : deadline s now < 2^64) :
    exec (startDeadline now) s = (.ok (),{s with until_ := some (deadline s now)}) := by
  cases hu : s.until_ with
  | none =>
    have hd : deadline s now = now+s.lifetime := by rw [deadline,hu]; rfl
    rw [hd] at h ⊢
    have hc : checkedAdd now s.lifetime = some (now+s.lifetime) :=
      checkedAdd_eq_some.mpr ⟨rfl,h⟩
    simp only [startDeadline,exec_get_bind,hu,if_true,hc,exec_modify]
  | some u =>
    have hd : deadline s now = u := by rw [deadline,hu]; rfl
    have hs : {s with until_ := some u} = s := by rw [← hu]
    rw [hd,hs]
    simp only [startDeadline,exec_get_bind,hu,reduceCtorEq,if_false,exec_pure]

/-! One record in assembly. -/

/-- Bytes of the current record received so far. -/
def RecordStream.held (s : RecordStream) : List Byte :=
  if s.total.isSome then s.record else s.header

/-- The current record's header is incomplete, or accepted and reserved out of a buffer
of capacity `start`. -/
inductive Assembling (alloc : Allocator) (start : ℕ) (s : RecordStream) : Prop
  | header : s.total = none → s.record = [] → s.header.length < headerBytes →
      s.capacity = start → Assembling alloc start s
  | body {total : ℕ} : s.total = some total → s.header = s.record.take headerBytes →
      headerBytes ≤ s.record.length → s.record.length ≤ total →
      validateHeader s.binding s.maximum s.header = .ok total →
      reserve alloc s.maximum start total = some s.capacity → Assembling alloc start s

theorem Assembling.retimed (h : Assembling alloc start s) (lastNow until_ : Option ℕ) :
    Assembling alloc start {s with lastNow, until_} := by
  cases h with
  | header h1 h2 h3 h4 => exact .header h1 h2 h3 h4
  | body h1 h2 h3 h4 h5 h6 => exact .body h1 h2 h3 h4 h5 h6

/-- The current record grew by the bytes taken; nothing else changed. -/
structure Extended (alloc : Allocator) (start : ℕ) (s s' : RecordStream) (taken : List Byte) :
    Prop where
  assembling : Assembling alloc start s'
  held : s'.held = s.held++taken
  maximum : s'.maximum = s.maximum
  lifetime : s'.lifetime = s.lifetime
  binding : s'.binding = s.binding
  failure : s'.failure = s.failure
  closed : s'.closed = s.closed
  lastNow : s'.lastNow = s.lastNow
  until_ : s'.until_ = s.until_

/-- The pure part of a push on an open stream whose deadline is set. -/
def pushOpen (alloc : Allocator) (bytes : List Byte) : Call ℕ := do
  let (consumed,complete) ← pushHeader alloc bytes
  if complete then pushBody bytes consumed else pure consumed

theorem exec_push (alloc : Allocator) {bytes}
    (ht : OnTime s now) (hb : bytes ≠ []) (hr : s.ready = false) (hd : deadline s now < 2^64) :
    exec (push alloc bytes now) s =
      exec (pushOpen alloc bytes)
      {s with lastNow := some now, until_ := some (deadline s now)} := by
  have hs := exec_startDeadline {s with lastNow := some now} now hd
  have ho : ¬(bytes = [] ∨ {s with lastNow := some now}.ready = true) := by
    rintro (h|h)
    · exact hb h
    · cases hr.symm.trans h
  rw [push,exec_tick_bind ht]
  simp only [exec_get_bind]
  rw [exec_ite,if_neg ho,exec_bind_ok hs]
  rfl

section Push

variable {alloc : Allocator} {start : ℕ} {s : RecordStream} {bytes : List Byte}

/-- Outcome of a push: a prefix of the bytes was appended to the record, or the
completed header was refused. -/
def PushOutcome (alloc : Allocator) (start : ℕ) (s : RecordStream) (bytes : List Byte)
    (r : Except StreamError ℕ × RecordStream) : Prop :=
  (∃ k, r.1 = .ok k ∧ 0 < k ∧ k ≤ bytes.length ∧ Extended alloc start s r.2 (bytes.take k)) ∨
  ∃ e, r.1 = .error e ∧ Refused alloc s.binding s.maximum start (s.held++bytes) e

theorem exec_pushBody {total c n} (ht : s.total = some total)
    (hn : n = min (total - s.record.length) (bytes.length - c)) :
    exec (pushBody bytes c) s =
      (.ok (c+n),{s with record := s.record ++ (bytes.drop c).take n}) := by
  subst hn
  simp only [pushBody,exec_get_bind,exec_modify_bind,exec_pure,ht,Option.getD_some]

theorem not_ready_lt (ht : s.total = some total) (hle : s.record.length ≤ total)
    (hr : s.ready = false) : s.record.length < total := by
  have hne : s.record.length ≠ total := by simpa [ready,ht] using hr
  omega

theorem pushOpen_body (ht : s.total = some total)
    (hh : s.header = s.record.take headerBytes) (hlen : headerBytes ≤ s.record.length)
    (hle : s.record.length ≤ total) (hv : validateHeader s.binding s.maximum s.header = .ok total)
    (hc : reserve alloc s.maximum start total = some s.capacity) (hr : s.ready = false)
    (hb : bytes ≠ []) : PushOutcome alloc start s bytes (exec (pushOpen alloc bytes) s) := by
  have hfull : ¬s.header.length < headerBytes := by
    rw [hh,length_take]
    omega
  have hlt := not_ready_lt ht hle hr
  have hpos := length_pos_of_ne_nil hb
  have hhead : exec (pushHeader alloc bytes) s = (.ok (0,true),s) := by
    simp only [pushHeader,exec_get_bind,hfull,if_false,exec_pure]
  set n := min (total - s.record.length) (bytes.length - 0) with hn
  have hbody := exec_pushBody (s := s) ht hn
  rw [pushOpen,exec_bind_ok hhead]
  simp only [if_true]
  rw [hbody]
  refine .inl ⟨0+n,rfl,by omega,by omega,?_⟩
  have hrec : (s.record ++ (bytes.drop 0).take n).take headerBytes = s.record.take headerBytes :=
    take_append_of_le_length hlen
  refine ⟨.body ht (hh.trans hrec.symm) ?_ ?_ hv hc,?_,rfl,rfl,rfl,rfl,rfl,rfl,rfl⟩
  · simp only [length_append]
    omega
  · simp only [length_append,length_take,drop_zero]
    omega
  · simp [held,ht]

/-- A complete header on an empty record is refused, or starts the record's body. -/
theorem acceptHeader_bind {P : Except StreamError α → RecordStream → Prop} {m : Call α}
    (hrec : s.record = [])
    (hw : ∀ w t, validateHeader s.binding s.maximum s.header = .error w → P (.error (.wire w)) t)
    (ha : ∀ total t, validateHeader s.binding s.maximum s.header = .ok total →
      reserve alloc s.maximum s.capacity total = none → P (.error .allocation) t)
    (hok : ∀ total capacity, validateHeader s.binding s.maximum s.header = .ok total →
      reserve alloc s.maximum s.capacity total = some capacity →
      Ensures m {s with capacity, record := s.header, total := some total} P) :
    Ensures (do acceptHeader alloc; m) s P := by
  refine .of_bind (.get_bind ?_)
  simp only [hrec,length_nil,zero_add,nil_append]
  cases hv : validateHeader s.binding s.maximum s.header with
  | error w => exact .modify_bind (.throw (.throw (hw w _ hv)))
  | ok total =>
    dsimp only
    cases hr : reserve alloc s.maximum s.capacity total with
    | none => exact .modify_bind (.throw (.throw (ha total _ hv hr)))
    | some capacity => exact .of_exec (exec_modify _ _) (hok total capacity hv hr)

theorem pushOpen_header (hn : s.total = none) (hrec : s.record = [])
    (hlen : s.header.length < headerBytes) (hc : s.capacity = start) (hb : bytes ≠ []) :
    PushOutcome alloc start s bytes (exec (pushOpen alloc bytes) s) := by
  have hpos := length_pos_of_ne_nil hb
  have hh : s.held = s.header := by simp [held,hn]
  set n := min (headerBytes - s.header.length) bytes.length with hndef
  refine Ensures.of_bind (P := fun r t => PushOutcome alloc start s bytes (r,t)) (.get_bind (.ite
    (fun _ => .modify_bind (.ite (fun hs => .pure (.pure ?_)) fun hs => ?_))
      fun h => absurd hlen h))
  · refine .inl ⟨n,rfl,by omega,by omega,.header hn hrec ?_ hc,by
      simp [held,hn,n],rfl,rfl,rfl,rfl,rfl,rfl,rfl⟩
    simp only [length_append,length_take]
    omega
  · have hn' : n = headerBytes - s.header.length := by omega
    set t : RecordStream := {s with header := s.header ++ bytes.take n} with ht
    have hfull : t.header.length = headerBytes := by
      simp only [ht,length_append,length_take]
      omega
    have hf : (s.held++bytes).take headerBytes = t.header := by
      rw [hh,take_append,take_of_length_le hlen.le,← hn']
    have hall : headerBytes ≤ (s.held++bytes).length := by
      rw [hh,length_append]
      omega
    subst hc
    refine acceptHeader_bind (s :=
      t) hrec (fun w u hv => .throw (.inr ⟨_,rfl,hall,.inl ⟨w,hf ▸ hv,rfl⟩⟩))
      (fun total u hv hr => .throw (.inr ⟨_,rfl,hall,.inr ⟨total,hf ▸ hv,hr,rfl⟩⟩))
        fun total capacity hv hr => .pure ?_
    have htot := (headerBytes_le_total hv).1
    set u : RecordStream := {t with capacity, record := t.header, total := some total} with hu
    set m := min (total - u.record.length) (bytes.length - n) with hm
    have hulen : u.record.length = headerBytes := hfull
    refine .of_exec (exec_pushBody (s := u) rfl hm) (.inl ⟨n+m,rfl,by omega,by omega,?_⟩)
    have hfirst : (t.header ++ (bytes.drop n).take m).take headerBytes = t.header := by
      rw [take_append_of_le_length hfull.ge,take_of_length_le hfull.le]
    refine ⟨.body rfl hfirst.symm ?_ ?_ hv hr,?_,rfl,rfl,rfl,rfl,rfl,rfl,rfl⟩
    · simp only [length_append,hulen]
      omega
    · simp only [length_append,hulen,length_take,length_drop]
      omega
    · rw [take_add,hh]
      simp [held,u,t,n]

theorem pushOpen_outcome (h : Assembling alloc start s) (hr : s.ready = false) (hb : bytes ≠ []) :
    PushOutcome alloc start s bytes (exec (pushOpen alloc bytes) s) := by
  cases h with
  | header hn hrec hlen hc => exact pushOpen_header hn hrec hlen hc hb
  | body ht hh hlen hle hv hc => exact pushOpen_body ht hh hlen hle hv hc hr hb

end Push

/-! A failed or closed stream. -/

inductive Op
  | push (bytes : List Byte) (now : ℕ)
  | frame (now : ℕ)
  | consume (now : ℕ)
  | tick (now : ℕ)
  | finish (now : ℕ)
  | close
  deriving DecidableEq, Repr

inductive Answer
  | taken (n : ℕ)
  | frame (f : Option (List Byte))
  | done
  deriving DecidableEq, Repr

def answer {α : Type} (f : α → Answer) (m : Call α) (s : RecordStream) :
    Except StreamError Answer × RecordStream := ((exec m s).1.map f,(exec m s).2)

def step (alloc : Allocator) (s : RecordStream) : Op → Except StreamError Answer × RecordStream
  | .push bytes now => answer .taken (Framing.push alloc bytes now) s
  | .frame now => answer .frame (Framing.frame now) s
  | .consume now => answer (fun _ => .done) (Framing.consume now) s
  | .tick now => answer (fun _ => .done) (Framing.tick now) s
  | .finish now => answer (fun _ => .done) (Framing.finish now) s
  | .close => (.ok .done,s.close)

theorem dead_step (alloc : Allocator) (h : Dead s) (op : Op) :
    Dead (step alloc s op).2 ∧ ∀ f, (step alloc s op).1 ≠ .ok (.frame (some f)) := by
  have refused {α : Type} (g : α → Answer) {m : Call α}
    (hm : Ensures m s fun r t => t = s ∧ ∃ e, r = .error e) :
      Dead (answer g m s).2 ∧ ∀ f, (answer g m s).1 ≠ .ok (.frame (some f)) := by
    obtain ⟨ht,e,he⟩ := hm
    rw [answer,he,ht]
    exact ⟨h,fun f hf => nomatch hf⟩
  have late {now} : ¬OnTime s now := fun ho => by simp [Dead,ho.sound,ho.opened] at h
  cases op with
  | push bytes now | frame now | consume now | finish now =>
    exact refused _ (tick_bind (fun e _ _ _ ht => ⟨ht h,e,rfl⟩) fun ho => absurd ho late)
  | tick now => exact refused _ (tick_ensures (fun e _ _ _ ht => ⟨ht h,e,rfl⟩)
    fun ho => absurd ho late)
  | close => exact ⟨.inr rfl,fun f hf => nomatch hf⟩

/-! Every error of these calls is latched by the stream. -/

section Latched

variable {α : Type} {err : StreamError}

theorem fail_dead (e : StreamError) : Raises err Dead (fail e : Call α) :=
  fun _ => .modify_bind (.throw fun _ => .inl rfl)

theorem tick_dead (now : ℕ) : Raises err Dead (tick now) :=
  fun _ => tick_ensures (fun _ _ _ hd _ _ => hd) fun _ h => by cases h

theorem startDeadline_dead (now : ℕ) : Raises err Dead (startDeadline now) := by
  refine Raises.get.bind fun s => .ite ?_ (.pure _)
  cases checkedAdd now s.lifetime with
  | none => exact fail_dead _
  | some u => exact .modify _

theorem acceptHeader_dead (alloc : Allocator) : Raises err Dead (acceptHeader alloc) := by
  refine Raises.get.bind fun s => ?_
  cases validateHeader s.binding s.maximum s.header with
  | error w => exact fail_dead _
  | ok total =>
    dsimp only
    cases reserve alloc s.maximum s.capacity (s.record.length+total) with
    | none => exact fail_dead _
    | some capacity => exact .modify _

theorem pushHeader_dead (alloc : Allocator) (bytes : List Byte) :
    Raises err Dead (pushHeader alloc bytes) :=
  Raises.get.bind fun _ => .ite
    ((Raises.modify _).bind fun _ => .ite (.pure _) ((acceptHeader_dead alloc).bind
      fun _ => .pure _)) (.pure _)

theorem push_dead (alloc : Allocator) (bytes : List Byte) (now : ℕ) :
    Raises err Dead (push alloc bytes now) :=
  (tick_dead now).bind fun _ => Raises.get.bind fun _ => .ite (.pure _)
    ((startDeadline_dead now).bind fun _ => (pushHeader_dead alloc bytes).bind fun _ =>
      .ite (Raises.get.bind fun _ => (Raises.modify _).bind fun _ => .pure _) (.pure _))

theorem finish_dead (now : ℕ) (s : RecordStream) : Ensures (finish now) s fun _ t => Dead t :=
  tick_bind (fun _ _ _ hd _ => hd)
    fun _ => .get_bind (.ite (fun _ => .modify_bind (.throw (.inl rfl)))
    fun _ => .of_exec (exec_modify _ _) (.inr rfl))

end Latched

/-! Reading a whole byte string in arbitrary pieces. -/

/-- One read: how many bytes of the unconsumed suffix are offered, and the clock
samples of the push, of the look for a frame and of its consumption. -/
structure Offer where
  size : ℕ
  pushAt : ℕ
  frameAt : ℕ
  consumeAt : ℕ
  deriving DecidableEq, Repr

/-- What one read did: it failed, with the bytes of the current record at that time, or
the reader goes on. -/
inductive Turn
  | failed (frames : List (List Byte)) (e : StreamError) (held rest : List Byte)
      (s : RecordStream)
  | next (frames : List (List Byte)) (s : RecordStream) (rest : List Byte)

def turn (alloc : Allocator) (s : RecordStream) (rest : List Byte) (o : Offer) : Turn :=
  match exec (push alloc (rest.take o.size) o.pushAt) s with
  | (.error e,t) => .failed [] e s.held rest t
  | (.ok n,t) =>
    match exec (frame o.frameAt) t with
    | (.error e,u) => .failed [] e t.held (rest.drop n) u
    | (.ok none,u) => .next [] u (rest.drop n)
    | (.ok (some f),u) =>
      match exec (consume o.consumeAt) u with
      | (.error e,v) => .failed [f] e [] (rest.drop n) v
      | (.ok _,v) => .next [f] v (rest.drop n)

structure Reading where
  frames : List (List Byte)
  failure : Option StreamError
  held : List Byte
  rest : List Byte
  stream : RecordStream
  deriving DecidableEq, Repr

/-- Offer the unconsumed suffix again and again, consuming each frame when it is ready,
until the reads end or one fails. -/
def drive (alloc : Allocator) : RecordStream → List Byte → List Offer → Reading
  | s, rest, [] => ⟨[],none,s.held,rest,s⟩
  | s, rest, o::os =>
    match turn alloc s rest o with
    | .failed frames e held rest' t => ⟨frames,some e,held,rest',t⟩
    | .next frames t rest' =>
      let r := drive alloc t rest' os
      {r with frames := frames++r.frames}

/-- Samples of one read in order, within the deadline of the record it extends. -/
structure Prompt (s : RecordStream) (o : Offer) : Prop where
  after : ∀ x, s.lastNow = some x → x ≤ o.pushAt
  looked : o.pushAt ≤ o.frameAt
  consumed : o.frameAt ≤ o.consumeAt
  early : o.consumeAt < deadline s o.pushAt
  representable : deadline s o.pushAt < 2^64

/-- Every read offers something and is prompt. -/
def Punctual (alloc : Allocator) : RecordStream → List Byte → List Offer → Prop
  | _, _, [] => True
  | s, rest, o::os => rest ≠ [] ∧ 0 < o.size ∧ Prompt s o ∧ match turn alloc s rest o with
    | .failed _ _ _ _ _ => True
    | .next _ t rest' => Punctual alloc t rest' os

/-- The whole string was read, or the stream refused it. -/
def Reading.Complete (r : Reading) : Prop := r.rest = [] ∨ r.failure.isSome = true

/-- A frame is its header and the payload it declares, within the limit. -/
def WellFramed (maximum : ℕ) (f : List Byte) : Prop :=
  f.length = headerBytes + word f 12 ∧ f.length ≤ maximum

theorem word_take (f : List Byte) {i} (hi : i+4 ≤ headerBytes) :
    word (f.take headerBytes) i = word f i := by
  unfold word
  rw [drop_take,take_take,min_eq_left (by omega)]

/-- An open stream between two reads. -/
structure Running (alloc : Allocator) (start : ℕ) (s : RecordStream) : Prop where
  assembling : Assembling alloc start s
  unready : s.ready = false
  sound : s.failure = none
  opened : s.closed = false

/-- A complete record and the capacity its buffer leaves to the next. -/
structure Framed (alloc : Allocator) (binding maximum start : ℕ) (f : List Byte) (start' : ℕ) :
    Prop where
  header : headerBytes ≤ f.length
  valid : validateHeader binding maximum (f.take headerBytes) = .ok f.length
  reserved : reserve alloc maximum start f.length = some start'

theorem Framed.wellFramed {start' f} (h : Framed alloc b m start f start') : WellFramed m f := by
  obtain ⟨hlen,hle⟩ := headerBytes_le_total h.valid
  rw [word_take f (by decide)] at hlen
  exact ⟨hlen,hle⟩

theorem Framed.parseAll {start' f} (h : Framed alloc b m start f start') (rest : List Byte) :
    parseAll alloc b m start (f++rest) =
      ⟨f :: (Framing.parseAll alloc b m start' rest).frames,
        (Framing.parseAll alloc b m start' rest).failure⟩ := by
  have htake : (f++rest).take headerBytes = f.take headerBytes :=
    take_append_of_le_length h.header
  have hlen : headerBytes ≤ (f++rest).length := by
    rw [length_append]
    exact h.header.trans (Nat.le_add_right _ _)
  rw [parseAll_accepted hlen (by rw [htake]; exact h.valid) h.reserved,if_neg (by simp)]
  simp

theorem Assembling.ready_framed (h : Assembling alloc start s) (hr : s.ready = true) :
    s.held = s.record ∧ Framed alloc s.binding s.maximum start s.record s.capacity := by
  cases h with
  | header hn => simp [ready,hn] at hr
  | @body total ht hh hlen _ hv hc =>
    have htot : s.record.length = total := by simpa [ready,ht] using hr
    rw [← htot] at hv hc
    exact ⟨by simp [held,ht],hlen,by rw [← hh]; exact hv,hc⟩

/-- Nothing is complete yet in an unready stream. -/
theorem Running.parseAll
    (h : Running alloc start s) : parseAll alloc s.binding s.maximum start s.held = ⟨[],none⟩ := by
  cases h.assembling with
  | header hn _ hlen =>
    have hheld : s.held = s.header := by simp [held,hn]
    rw [hheld]
    exact parseAll_short hlen
  | body ht hh hlen hle hv hc =>
    have hheld : s.held = s.record := by simp [held,ht]
    rw [hheld,parseAll_accepted hlen (by rw [← hh]; exact hv) hc,
      if_pos (not_ready_lt ht hle h.unready)]

theorem exec_frame (h : OnTime s now) :
    exec (frame now) s = (.ok (if s.ready then some s.record else none),
      {s with lastNow := some now}) := by
  rw [frame,exec_tick_bind h]
  rfl

theorem exec_consume (h : OnTime s now) (hr : s.ready = true) :
    exec (consume now) s = (.ok (),{s with
        lastNow := some now
        header := []
        record := []
        total := none
        until_ := none}) := by
  have hr' : {s with lastNow := some now}.ready = true := hr
  rw [consume,exec_tick_bind h]
  simp only [exec_get_bind,exec_refuseIf_bind,hr',not_true_eq_false,if_false,exec_modify]

section Turn

variable {alloc : Allocator} {start : ℕ} {s : RecordStream} {rest : List Byte} {o : Offer}

/-- A prompt read refuses the string's header, extends the current record, or completes
it and hands it out. -/
theorem turn_spec (h : Running alloc start s) (hre : rest ≠ []) (hsi : 0 < o.size)
    (hp : Prompt s o) : (∃ e t, turn alloc s rest o = .failed [] e s.held rest t ∧ Dead t ∧
      Refused alloc s.binding s.maximum start (s.held++rest) e) ∨
    (∃ t rest', turn alloc s rest o = .next [] t rest' ∧ Running alloc start t ∧
      t.held++rest' = s.held++rest ∧ t.maximum = s.maximum ∧ t.binding = s.binding) ∨
    ∃ f t rest' start', turn alloc s rest o = .next [f] t rest' ∧ Running alloc start' t ∧
      t.held = [] ∧ f++rest' = s.held++rest ∧ t.maximum = s.maximum ∧ t.binding = s.binding ∧
      Framed alloc s.binding s.maximum start f start' := by
  have hpush : OnTime s o.pushAt := by
    refine ⟨h.sound,h.opened,hp.after,fun u hu => ?_⟩
    have hd : deadline s o.pushAt = u := by rw [deadline,hu]; rfl
    have := hp.looked
    have := hp.consumed
    have := hp.early
    omega
  have hb : rest.take o.size ≠ [] := by
    simp only [ne_eq,take_eq_nil_iff,not_or]
    exact ⟨by omega,hre⟩
  set s₁ : RecordStream := {s with
    lastNow := some o.pushAt
    until_ := some (deadline s o.pushAt)} with hs₁
  have hx := exec_push alloc hpush hb h.unready hp.representable
  have ho := pushOpen_outcome (s := s₁) (h.assembling.retimed _ _) h.unready hb
  rw [← hx] at ho
  unfold turn
  rcases hres : exec (push alloc (rest.take o.size) o.pushAt) s with ⟨r,t⟩
  rw [hres] at ho
  rcases ho with ⟨k,hk,-,hle,hext⟩|⟨e,he,href⟩
  swap
  · left
    dsimp only at he
    subst he
    have hde := push_dead alloc (rest.take o.size) o.pushAt s (congrArg Prod.fst hres)
    rw [hres] at hde
    refine ⟨e,t,rfl,hde,?_⟩
    have ha := href.append (rest.drop o.size)
    rw [append_assoc,take_append_drop] at ha
    exact ha
  dsimp only at hk
  subst hk
  have htake : (rest.take o.size).take k = rest.take k := by
    rw [take_take,min_eq_left]
    rw [length_take] at hle
    omega
  have hh : t.held++rest.drop k = s.held++rest := by
    rw [hext.held,htake,append_assoc,take_append_drop]
    rfl
  have hlook : OnTime t o.frameAt :=
    .of_sample (hext.failure.trans h.sound) (hext.closed.trans h.opened)
    hext.lastNow hext.until_ hp.looked (hp.consumed.trans_lt hp.early)
  right
  simp only [exec_frame hlook]
  by_cases hr : t.ready = true
  · right
    obtain ⟨heq,hf⟩ := hext.assembling.ready_framed hr
    have hc : OnTime {t with lastNow := some o.frameAt} o.consumeAt :=
      .of_sample hlook.sound hlook.opened rfl hext.until_ hp.consumed hp.early
    simp only [hr,if_true,exec_consume hc hr]
    refine ⟨t.record,_,_,t.capacity,rfl,⟨.header rfl rfl (by simp [headerBytes]) rfl,?_,hlook.sound,
      hlook.opened⟩,?_,by rw [← heq]; exact hh,hext.maximum,hext.binding,?_⟩
    · rfl
    · rfl
    · rw [hext.maximum,hext.binding] at hf
      exact hf
  · left
    have hunready : t.ready = false := by simpa using hr
    simp only [hunready]
    exact ⟨_,_,rfl,⟨hext.assembling.retimed _ _,hunready,hlook.sound,hlook.opened⟩,hh,hext.maximum,
      hext.binding⟩

end Turn

/-- Any prompt reading accounts for every byte, hands out well-formed frames, ends the
stream when it fails and, once complete, agrees with the pure parser. -/
theorem drive_spec {rest os} (h : Running alloc start s) (hp : Punctual alloc s rest os) :
    ((drive alloc s rest os).frames.flatten ++ (drive alloc s rest os).held ++
      (drive alloc s rest os).rest = s.held++rest) ∧
    (∀ f ∈ (drive alloc s rest os).frames, WellFramed s.maximum f) ∧
    ((drive alloc s rest os).failure.isSome = true → Dead (drive alloc s rest os).stream) ∧
    ((drive alloc s rest os).Complete →
      (⟨(drive alloc s rest os).frames,(drive alloc s rest os).failure⟩ : Parsed) =
        parseAll alloc s.binding s.maximum start (s.held++rest)) := by
  induction os generalizing s rest start with
  | nil =>
    refine ⟨by simp [drive],by simp [drive],by simp [drive],?_⟩
    rintro (hc|hc)
    · have hnil : rest = [] := hc
      rw [hnil,append_nil,h.parseAll]
      rfl
    · cases hc
  | cons o os ih =>
    obtain ⟨hre,hsi,hpro,hn⟩ := hp
    rcases turn_spec h hre hsi hpro with
      ⟨e,t,ht,hde,hr⟩|⟨t,rest',ht,hrun,hs,hm,hbind⟩|
      ⟨f,t,rest',start',ht,hrun,hh,hs,hm,hbind,hf⟩
    · simp only [drive,ht]
      exact ⟨by simp,by simp,fun _ => hde,fun _ => (parseAll_refused hr).symm⟩
    · simp only [ht] at hn
      obtain ⟨h1,h2,hd,h3⟩ := ih hrun hn
      simp only [drive,ht,nil_append]
      rw [hs,hm,hbind] at h3
      exact ⟨h1.trans hs,fun g hg => hm ▸ h2 g hg,hd,h3⟩
    · simp only [ht] at hn
      obtain ⟨h1,h2,hd,h3⟩ := ih hrun hn
      simp only [drive,ht,singleton_append]
      rw [hh,nil_append] at h1 h3
      rw [hm,hbind] at h3
      refine ⟨?_,?_,hd,fun hc => ?_⟩
      · rw [← hs]
        simpa [append_assoc] using h1
      · intro g hg
        rcases mem_cons.mp hg with rfl|hg
        · exact hf.wellFramed
        · exact hm ▸ h2 g hg
      · rw [← hs,hf.parseAll,← h3 hc]

abbrev Event := Transition.Event RecordStream Op (Except StreamError Answer)

/-- The step closed the stream or failed it. Asking to consume a record that is not ready
is refused without ending the stream. -/
def Ends (e : Event) : Prop :=
  e.input = .close ∨ (∃ now, e.input = .finish now ∧ e.reply = .ok .done) ∨
    ∃ err, e.reply = .error err ∧
      ¬((∃ now, e.input = .consume now) ∧ e.before.ready = false ∧ err = .wire .truncated)

theorem answer_error {f : α → Answer} {m : Call α} {err : StreamError}
    (h : (answer f m s).1 = .error err) : (exec m s).1 = .error err := by
  unfold answer at h
  cases hr : (exec m s).1 with
  | error e => simpa [hr,Except.map] using h
  | ok a => simp [hr,Except.map] at h

theorem consume_dead {err} : Ensures (consume now) s fun r t => r = .error err →
    ¬(s.ready = false ∧ err = .wire .truncated) → Dead t := by
  refine tick_bind (fun _ _ _ hd _ _ _ => hd)
    fun _ => .get_bind (.refuseIf_bind (fun hr h hne => ?_) fun _ => ?_)
  · cases h
    exact absurd ⟨Bool.eq_false_iff.mpr hr,rfl⟩ hne
  · exact .of_exec (exec_modify _ _) fun h => by cases h

theorem ends_dead {op : Op} (h : Ends ⟨s,op,(step alloc s op).1⟩) : Dead (step alloc s op).2 := by
  rcases h with rfl|⟨now,rfl,-⟩|⟨err,he,hne⟩
  · exact .inr rfl
  · exact finish_dead now s
  · cases op with
    | push bytes now => exact push_dead alloc bytes now s (answer_error he)
    | frame now =>
      exact (tick_dead now).bind (fun _ => Raises.get.bind fun _ => .pure _) s (answer_error he)
    | consume now => exact consume_dead (answer_error he) fun hh => hne ⟨⟨now,rfl⟩,hh⟩
    | tick now => exact tick_dead now s (answer_error he)
    | finish now => exact finish_dead now s
    | close => cases he

theorem dead_trace (h : Dead s) (ops : List Op) :
    ∀ e ∈ trace (step alloc) s ops, ∀ f, e.reply ≠ .ok (.frame (some f)) :=
  trace_invariant (I := Dead) (step alloc) (fun _ op hd => dead_step alloc hd op) ops h

/-- A stream as its two constructors return it. -/
def Opened (s : RecordStream) : Prop :=
  (∃ maximum binding lifetime, new maximum binding lifetime = .ok s) ∨
    ∃ maximum lifetime, negotiation maximum lifetime = .ok s

theorem Opened.running (h : Opened s) (alloc : Allocator) : Running alloc 0 s ∧ s.held = [] := by
  have hi {m b lifetime : ℕ} (hs : newInner m b lifetime = .ok s) :
      Running alloc 0 s ∧ s.held = [] := by
    unfold newInner at hs
    split at hs
    · cases hs
    · cases hs
      exact ⟨⟨.header rfl rfl (by simp [headerBytes]) rfl,rfl,rfl,rfl⟩,rfl⟩
  rcases h with ⟨m,b,lifetime,hs⟩|⟨m,lifetime,hs⟩
  · unfold new at hs
    split at hs
    · cases hs
    · exact hi hs
  · exact hi hs

/-- Frames and the first failure are a function of the byte string alone; no byte is
lost, duplicated or reordered; frames are exactly as declared; and no frame follows
a failure or a close. -/
theorem framing_independent_of_reads (alloc : Allocator) (s : RecordStream) (hs : Opened s)
    (input : List Byte) : (∀ os₁ os₂, Punctual alloc s input os₁ → Punctual alloc s input os₂ →
      (drive alloc s input os₁).Complete → (drive alloc s input os₂).Complete →
      (drive alloc s input os₁).frames = (drive alloc s input os₂).frames ∧
      (drive alloc s input os₁).failure = (drive alloc s input os₂).failure) ∧
      (∀ os, Punctual alloc s input os →
      (drive alloc s input os).frames.flatten ++ (drive alloc s input os).held ++
        (drive alloc s input os).rest = input ∧
        (∀ f ∈ (drive alloc s input os).frames, WellFramed s.maximum f) ∧
      ((drive alloc s input os).failure.isSome = true → Dead (drive alloc s input os).stream)) ∧
    (∀ t ops, Dead t → ∀ e ∈ trace (step alloc) t ops, ∀ f, e.reply ≠ .ok (.frame (some f))) ∧
    ∀ t ops past e later, trace (step alloc) t ops = past ++ e :: later → Ends e →
      ∀ e' ∈ later, ∀ f, e'.reply ≠ .ok (.frame (some f)) := by
  obtain ⟨hrun,hh⟩ := hs.running alloc
  have hall : s.held++input = input := by rw [hh,nil_append]
  refine ⟨fun os₁ os₂ hp₁ hp₂ hc₁ hc₂ => ?_,fun os hp => ?_,fun t ops h => dead_trace h ops,?_⟩
  · obtain ⟨-,-,-,h₁⟩ := drive_spec hrun hp₁
    obtain ⟨-,-,-,h₂⟩ := drive_spec hrun hp₂
    have heq := (h₁ hc₁).trans (h₂ hc₂).symm
    exact ⟨congrArg Parsed.frames heq,congrArg Parsed.failure heq⟩
  · obtain ⟨h1,h2,h3,-⟩ := drive_spec hrun hp
    exact ⟨h1.trans hall,h2,h3⟩
  · intro t ops past e later ht he
    obtain ⟨_,_,ops₂,-,-,rfl,rfl⟩ := trace_split (step alloc) ht
    exact dead_trace (ends_dead he) ops₂

def sampleStream : RecordStream := ⟨64,1000,7,[],[],0,none,none,none,none,false⟩

def sampleRecord : List Byte :=
  magic ++ [0,0,0,0x34,0,0,0,0,0,0,0,2,0,0,0,7,0,0,0,0,0xaa,0xbb]

theorem framing_independent_of_reads_sampleRecord : Opened sampleStream ∧
    (drive (fun _ n => some n) sampleStream sampleRecord [⟨10,1,1,1⟩,⟨16,2,3,4⟩]).frames =
      (drive (fun _ n => some n) sampleStream sampleRecord [⟨26,5,5,5⟩]).frames ∧
    (drive (fun _ n => some n) sampleStream sampleRecord [⟨10,1,1,1⟩,⟨16,2,3,4⟩]).failure =
      (drive (fun _ n => some n) sampleStream sampleRecord [⟨26,5,5,5⟩]).failure := by
  have hs : Opened sampleStream := .inl ⟨64,7,1000,rfl⟩
  refine ⟨hs,(framing_independent_of_reads (fun _ n => some n) sampleStream hs sampleRecord).1
    [⟨10,1,1,1⟩,⟨16,2,3,4⟩] [⟨26,5,5,5⟩] ?_ ?_ (.inl rfl) (.inl rfl)⟩
  · refine ⟨by decide,by decide,⟨by simp [sampleStream],by decide,by decide,by decide,by decide⟩,?_⟩
    refine ⟨by decide,by decide,⟨?_,by decide,by decide,by decide,by decide⟩,trivial⟩
    intro x hx
    cases hx
    decide
  · exact ⟨by decide,by decide,⟨by simp [sampleStream],by decide,by decide,by decide,by
      decide⟩,trivial⟩

end FrankenRemote.Framing
