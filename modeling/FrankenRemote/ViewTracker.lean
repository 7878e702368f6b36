import FrankenRemote.ReceiveFence
import FrankenRemote.WirePresented

/-! One configured stream from decoding over submission to visibility. Only host observations
of the picture on the screen are evidence that what it shows is fresh. -/
namespace FrankenRemote.Freshness

open Wire Bytes Delivery Procedure

structure ViewEvidence where
  serial : ℕ
  frame : ℕ
  epoch : MediaEpoch
  observedAtClient : ℕ
  pixelAgeUpper : ℕ
  sourceAgeUpper : ℕ
  source : SourceObservation
  deriving DecidableEq

/-- A submitted picture that has not become visible yet. -/
structure Candidate where
  descriptor : FrameDescriptor
  displayUntil : ℕ
  deriving DecidableEq

/-- A picture that became visible after its display budget. -/
structure Unqualified where
  until_ : ℕ
  observedAfter : ℕ
  deriving DecidableEq

structure ViewTracker where
  /-- Identity and state of the receiver's fence. -/
  scope : ℕ
  live : Bool
  bindings : MediaBindings
  epoch : MediaEpoch
  clock : ClockCorrelation
  maxSourceAge : ℕ
  lastNow : ℕ
  lastDecoded : Option ℕ
  pending : Option Candidate
  visible : Option FrameDescriptor
  visibleSource : Option (ℕ × SourceObservation)
  unqualified : Option Unqualified
  knownObservation : Option (FrameDescriptor × ℕ)
  progress : Option Progress
  serial : ℕ
  closed : Bool

/-- The source-age bounds that a tracker may enforce. -/
def sourceAgeValid (age : ℕ) : Prop := 1 ≤ age ∧ age ≤ 1500000

instance (age : ℕ) : Decidable (sourceAgeValid age) := inferInstanceAs (Decidable (_ ∧ _))

/-- The pipeline still produces pictures. -/
def Producing (p : Progress) : Prop := p.pipeline = .running ∨ p.pipeline = .idle

instance (p : Progress) : Decidable (Producing p) := inferInstanceAs (Decidable (_ ∨ _))

def Known (p : Progress) : Prop := p.observation ≠ .unknown

instance (p : Progress) : Decidable (Known p) := inferInstanceAs (Decidable (_ ≠ _))

namespace ViewTracker

abbrev Call := Proc ViewTracker FreshnessError

def new (receiver : ReceivePipeline) (clock : ClockCorrelation) (maxSourceAge now : ℕ) :
    Except FreshnessError ViewTracker :=
  if ¬sourceAgeValid maxSourceAge then .error .invalidProgress
  else if ¬receiver.live then .error .staleBinding
  else do
    let _ ← clock.ageUpper clock.sample.hostSample now
    .ok ⟨receiver.scope,true,receiver.config.bindings,receiver.config.epoch,clock,maxSourceAge,now,
      none,none,none,none,none,none,none,0,false⟩

def hide (v : ViewTracker) : ViewTracker :=
  {v with pending := none, visible := none, visibleSource := none, unqualified := none}

def close (v : ViewTracker) : ViewTracker :=
  {v.hide with progress := none, knownObservation := none, closed := true}

def fail {α : Type} (error : FreshnessError) : Call α := do
  modify close
  throw error

def tick (now : ℕ) : Call Unit := do
  let v ← get
  refuseIf v.closed .closed
  if ¬v.live then fail .staleBinding
  else if now < v.lastNow then fail .clockRegression
  else modify ({· with lastNow := now})

def bump : Call Unit := do
  match checkedAdd (← get).serial 1 with
  | none => fail .clockOverflow
  | some next => modify ({· with serial := next})

def setMaxSourceAge (age : ℕ) : Call Unit := do
  refuseIf (¬sourceAgeValid age) .invalidProgress
  modify ({· with maxSourceAge := age})

def checkReceiver (v : ViewTracker) (receiver : ReceivePipeline) : Except FreshnessError Unit :=
  if receiver.scope ≠ v.scope ∨ receiver.config.bindings ≠ v.bindings ∨
      receiver.config.epoch ≠ v.epoch then
    .error .staleBinding
  else .ok ()

def synchronize (clock : ClockCorrelation) (now : ℕ) : Call Unit := do
  refuseIf (clock.hostBoot ≠ (← get).clock.hostBoot) .staleBinding
  tick now
  refuseIf (clock.receivedAt ≤ (← get).clock.receivedAt) .obsolete
  let _ ← ofResult (clock.ageUpper clock.sample.hostSample now)
  modify ({· with clock})
  bump

/-- An announcement against the one before it. A picture never changes its descriptor. -/
def checkOrder (p : Progress) : Call Unit := do
  match (← get).progress with
  | none => pure ()
  | some old =>
    refuseIf (p.descriptor.frame < old.descriptor.frame) .obsolete
    if p.descriptor.frame = old.descriptor.frame then
      if p.descriptor ≠ old.descriptor then fail .invalidProgress
      else
        refuseIf (Known p ∧ Known old ∧ p.observedMicros < old.observedMicros) .obsolete
        refuseIf (p = old) .obsolete
    else pure ()

/-- A known observation against its capture, the last known one and the clock. -/
def checkKnown (p : Progress) (now : ℕ) : Call Unit := do
  if ¬Known p then pure ()
  else if p.observedMicros < p.descriptor.captureMicros ∨
      (p.observation = .captured ∧ p.observedMicros ≠ p.descriptor.captureMicros) then
        fail .invalidProgress
  else
    refuseIf (∃ k ∈ (← get).knownObservation, k.1 = p.descriptor ∧ p.observedMicros < k.2) .obsolete
    let _ ← ofResult ((← get).clock.ageUpper p.observedMicros now)
    pure ()

/-- Another descriptor under the frame number of a retained picture. -/
def Conflicts (v : ViewTracker) (d : FrameDescriptor) : Prop :=
  (∃ shown ∈ v.visible, shown.frame = d.frame ∧ shown ≠ d) ∨
    ∃ c ∈ v.pending, c.descriptor.frame = d.frame ∧ c.descriptor ≠ d

instance (v : ViewTracker) (d : FrameDescriptor) : Decidable (v.Conflicts d) :=
  inferInstanceAs (Decidable ((∃ shown ∈ v.visible, _) ∨ ∃ c ∈ v.pending, _))

/-- A late picture needs a strictly newer observation; any other takes what there is. -/
def Qualifies (v : ViewTracker) (p : Progress) : Prop :=
  ∀ late ∈ v.unqualified, Known p ∧ Producing p ∧ late.observedAfter < p.observedMicros

instance (v : ViewTracker) (p : Progress) : Decidable (v.Qualifies p) :=
  inferInstanceAs (Decidable (∀ late ∈ v.unqualified, _))

def qualify (v : ViewTracker) (p : Progress) : ViewTracker :=
  if v.visible = some p.descriptor ∧ v.Qualifies p then
    {v with visibleSource := some (p.observedMicros,p.observation), unqualified := none}
  else v

/-- What an accepted announcement leaves behind. -/
def take (v : ViewTracker) (p : Progress) : ViewTracker :=
  {v.qualify p with
    knownObservation := if Known p then some (p.descriptor,p.observedMicros) else v.knownObservation
    progress := some p}

/-- The end of `observe`. -/
def takeAgreeing (p : Progress) : Call Unit := do
  if (← get).Conflicts p.descriptor then fail .invalidProgress
  else
    modify (·.take p)
    bump

def observe (p : Progress) (now : ℕ) : Call Unit := do
  tick now
  if p.pipeline = .failed then fail .sourceUnknown
  else
    checkOrder p
    checkKnown p now
    takeAgreeing p

/-- The record of an announcement on this tracker's own channel. -/
def decodeOwn (v : ViewTracker) (bytes : List Byte) (limits : MediaLimits) :
    Except FreshnessError Progress := do
  let record ← (Record.decode bytes limits (v.bindings.forChannel .mediaConfig)
    .mediaConfig).mapError fun e => if e = .invalidBinding then .staleBinding else .invalidProgress
  (decodeProgress record limits).mapError fun _ => .invalidProgress

def progressRecord (bytes : List Byte) (limits : MediaLimits) (now : ℕ) : Call Unit := do
  let p ← ofResult ((← get).decodeOwn bytes limits)
  observe p now

def observeReceiver (receiver : ReceivePipeline) (now : ℕ) : Call Unit := do
  ofResult ((← get).checkReceiver receiver)
  tick now
  match receiver.progress with
  | none => pure ()
  | some p => tryCatch (observe p now) fun e => if e = .obsolete then pure () else throw e

def submit (v : ViewTracker) (c : Candidate) (submitted : Bool) : ViewTracker :=
  let v := {v with lastDecoded := some c.descriptor.frame}
  if submitted then {v.hide with pending := some c} else {v with pending := none}

def decoded (frame : DecodedFrame) (submitted : Bool) (now : ℕ) : Call Unit := do
  let v ← get
  refuseIf (frame.scope ≠ v.scope) .staleBinding
  refuseIf (frame.epoch ≠ v.epoch ∨ frame.bindings ≠ v.bindings) .staleBinding
  tick now
  refuseIf (∃ id ∈ (← get).lastDecoded, frame.descriptor.frame ≤ id) .obsolete
  if ∃ p ∈ (← get).progress, p.descriptor.frame = frame.descriptor.frame ∧
      p.descriptor ≠ frame.descriptor then
    fail .invalidProgress
  else modify (·.submit ⟨frame.descriptor,frame.displayUntil⟩ submitted)

def evidence (now : ℕ) : Call ViewEvidence := do
  tick now
  let v ← get
  let shown ← okOr v.visible .notSubmitted
  match v.unqualified with
  | some late => throw (if now < late.until_ then .notSubmitted else .sourceStale)
  | none =>
    let p ← okOr v.progress .sourceUnknown
    refuseIf (¬Producing p ∨ ¬Known p) .sourceUnknown
    let source ← okOr v.visibleSource .sourceUnknown
    refuseIf (source.2 = .unknown) .sourceUnknown
    let pixelAge ← ofResult (v.clock.ageUpper shown.captureMicros now)
    let sourceAge ← ofResult (v.clock.ageUpper source.1 now)
    refuseIf (v.maxSourceAge ≤ sourceAge) .sourceStale
    pure ⟨v.serial,shown.frame,v.epoch,now,pixelAge,sourceAge,source.2⟩

/-- The newest time known of a picture, at least its capture. -/
def knownTime (v : ViewTracker) (d : FrameDescriptor) : ℕ :=
  match v.knownObservation.filter (·.1 = d) with
  | none => d.captureMicros
  | some k => max k.2 d.captureMicros

/-- The source of a picture shown in time. -/
def firstSource (v : ViewTracker) (d : FrameDescriptor) : ℕ × SourceObservation :=
  match v.progress.filter (·.descriptor = d) with
  | none => (d.captureMicros,.captured)
  | some p => (p.observedMicros,p.observation)

/-- The picture is on the screen; nothing is known of its source. -/
def showPicture (v : ViewTracker) (d : FrameDescriptor) : ViewTracker :=
  {v.hide with visible := some d}

/-- The part of `visible` for a picture past its display budget. -/
def showLate (d : FrameDescriptor) (now : ℕ) : Call ViewEvidence := do
  modify (·.showPicture d)
  let until_ ← okOr (checkedAdd now (← get).maxSourceAge) .clockOverflow
  modify fun v => {v with unqualified := some ⟨until_,v.knownTime d⟩}
  bump
  throw .queueExpired

/-- The call `visible`. -/
def confirm (frame now : ℕ) : Call ViewEvidence := do
  tick now
  let c ← okOr (← get).pending .notSubmitted
  refuseIf (c.descriptor.frame ≠ frame) .obsolete
  if c.displayUntil ≤ now then showLate c.descriptor now
  else
    modify fun v => {v.showPicture c.descriptor with
      visibleSource := some (v.firstSource c.descriptor)}
    bump
    evidence now

def presentedSample (now : ℕ) : Call Sample := do
  let e ← evidence now
  let v ← get
  let d ← okOr v.visible .notSubmitted
  let source ← okOr v.visibleSource .sourceUnknown
  pure ⟨⟨d.frame,d.captureMicros,source.1,source.2⟩,e.sourceAgeUpper⟩

/-! Runs. -/

inductive Input
  | setMaxSourceAge (age : ℕ)
  | synchronize (clock : ClockCorrelation) (now : ℕ)
  | progress (bytes : List Byte) (limits : MediaLimits) (now : ℕ)
  | observeReceiver (receiver : ReceivePipeline) (now : ℕ)
  | decoded (frame : DecodedFrame) (submitted : Bool) (now : ℕ)
  | visible (frame now : ℕ)
  | evidence (now : ℕ)
  | presentedSample (now : ℕ)
  | hide
  | close
  /-- The receiver lowers the fence. -/
  | fence

inductive Reply
  | done (result : Except FreshnessError Unit)
  | evidence (result : Except FreshnessError ViewEvidence)
  | sample (result : Except FreshnessError Sample)
  deriving DecidableEq

def step (v : ViewTracker) : Input → Reply × ViewTracker
  | .setMaxSourceAge age =>
    (.done (exec (setMaxSourceAge age) v).1,(exec (setMaxSourceAge age) v).2)
  | .synchronize clock now =>
    (.done (exec (synchronize clock now) v).1,(exec (synchronize clock now) v).2)
  | .progress bytes limits now =>
    (.done (exec (progressRecord bytes limits now) v).1,
      (exec (progressRecord bytes limits now) v).2)
  | .observeReceiver receiver now =>
    (.done (exec (observeReceiver receiver now) v).1,(exec (observeReceiver receiver now) v).2)
  | .decoded frame submitted now =>
    (.done (exec (decoded frame submitted now) v).1,(exec (decoded frame submitted now) v).2)
  | .visible frame now => (.evidence (exec (confirm frame now) v).1,(exec (confirm frame now) v).2)
  | .evidence now => (.evidence (exec (evidence now) v).1,(exec (evidence now) v).2)
  | .presentedSample now =>
    (.sample (exec (presentedSample now) v).1,(exec (presentedSample now) v).2)
  | .hide => (.done (.ok ()),v.hide)
  | .close => (.done (.ok ()),v.close)
  | .fence => (.done (.ok ()),{v with live := false})

abbrev Event := Transition.Event ViewTracker Input Reply

/-- The announcement that a call brings, and its time. -/
def carried (v : ViewTracker) : Input → Option (Progress × ℕ)
  | .progress bytes limits now => (v.decodeOwn bytes limits).toOption.map (·,now)
  | .observeReceiver receiver now =>
    if v.checkReceiver receiver = .ok () then receiver.progress.map (·,now) else none
  | _ => none

/-- The event brought this announcement and it was taken. -/
def Accepted (e : Event) (p : Progress) : Prop :=
  ∃ now, carried e.before e.input = some (p,now) ∧ (exec (observe p now) e.before).1 = .ok ()

/-- The event ends what was submitted before: it hides, closes or submits another picture. -/
def Ends (e : Event) : Prop :=
  e.input = .hide ∨ e.input = .close ∨ ∃ f now, e.input = .decoded f true now ∧
    e.reply = .done (.ok ())

/-! What each call can do. -/

/-- Everything that evidence is derived from is the same, clocks and counters apart. -/
structure Same (v t : ViewTracker) : Prop where
  pending : t.pending = v.pending
  visible : t.visible = v.visible
  visibleSource : t.visibleSource = v.visibleSource
  unqualified : t.unqualified = v.unqualified
  knownObservation : t.knownObservation = v.knownObservation
  progress : t.progress = v.progress
  closed : t.closed = v.closed

theorem Same.refl (v : ViewTracker) : Same v v := ⟨rfl,rfl,rfl,rfl,rfl,rfl,rfl⟩

section Calls

variable {α : Type} {v : ViewTracker} {now : ℕ} {p : Progress}

theorem fail_closed (e : FreshnessError) : exec (fail e : Call α) v = (.error e,v.close) := by
  simp [fail]

theorem exec_tick (ho : v.closed = false) (hl : v.live = true) (hc : v.lastNow ≤ now) :
    exec (tick now) v = (.ok (),{v with lastNow := now}) := by
  simp [tick,ho,hl,Nat.not_lt.mpr hc]

theorem ensures_tick_bind {f : Unit → Call α} {P : Except FreshnessError α → ViewTracker → Prop}
    (hfail : ∀ e t, t.closed = true → P (.error e) t)
    (hok : v.closed = false → v.live = true → v.lastNow ≤ now →
      Ensures (f ()) {v with lastNow := now} P) :
    Ensures (tick now >>= f) v P := by
  refine .of_bind (.get_bind (.refuseIf_bind (fun hcl => .throw (hfail _ _ hcl)) fun hcl => ?_))
  refine .ite (fun _ => .modify_bind (.throw (.throw (hfail _ _ rfl)))) fun hl => ?_
  exact .ite (fun _ => .modify_bind (.throw (.throw (hfail _ _ rfl)))) fun hc =>
    .of_exec (exec_modify _ _) (hok (by simpa using hcl) (not_not.mp hl) (not_lt.mp hc))

theorem ensures_bump {P : Except FreshnessError Unit → ViewTracker → Prop}
    (hfail : ∀ e t, t.closed = true → P (.error e) t)
    (hok : P (.ok ()) {v with serial := v.serial+1}) : Ensures bump v P := by
  refine .get_bind ?_
  cases hn : checkedAdd v.serial 1 with
  | none => exact .modify_bind (.throw (hfail _ _ rfl))
  | some next =>
    obtain ⟨rfl,_⟩ := checkedAdd_eq_some.mp hn
    exact .of_exec (exec_modify _ _) hok

theorem ensures_bump_bind {f : Unit → Call α} {P : Except FreshnessError α → ViewTracker → Prop}
    (hfail : ∀ e t, t.closed = true → P (.error e) t)
    (hok : Ensures (f ()) {v with serial := v.serial+1} P) : Ensures (bump >>= f) v P :=
  .of_bind (ensures_bump (fun e t h => .throw (hfail e t h)) hok)

/-- What was checked of an announcement that was taken. -/
structure Fits (v : ViewTracker) (p : Progress) : Prop where
  opened : v.closed = false
  order : ∀ old, v.progress = some old → old.descriptor.frame ≤ p.descriptor.frame
  same : ∀ old, v.progress = some old → old.descriptor.frame = p.descriptor.frame →
    old.descriptor = p.descriptor
  captured : Known p → p.descriptor.captureMicros ≤ p.observedMicros
  newest : Known p → ∀ t, v.knownObservation = some (p.descriptor,t) → t ≤ p.observedMicros
  agrees : ¬v.Conflicts p.descriptor

inductive Observed (v : ViewTracker) (p : Progress) :
    Except FreshnessError Unit → ViewTracker → Prop
  | kept {e t} (h : Same v t) : Observed v p (.error e) t
  | closed {e t} (h : t.closed = true) : Observed v p (.error e) t
  | taken {t} (hfits : Fits v p) (h : Same (v.take p) t) : Observed v p (.ok ()) t

theorem checkOrder_ok : Ensures (checkOrder p) v fun res t => match res with
    | .ok _ => t = v ∧ ∀ old, v.progress = some old → old.descriptor.frame ≤ p.descriptor.frame ∧
        (old.descriptor.frame = p.descriptor.frame → old.descriptor = p.descriptor)
    | .error _ => t = v ∨ t.closed = true := by
  refine .get_bind ?_
  cases hold : v.progress with
  | none => exact .pure ⟨rfl,by simp⟩
  | some old =>
    refine .refuseIf_bind (fun _ => .inl rfl) fun hf => ?_
    refine .ite (fun hs => ?_) fun hs => .pure ⟨rfl,?_⟩
    · refine .ite (fun _ => .of_exec (fail_closed _) (.inr rfl)) fun hdesc => ?_
      refine .refuseIf_bind (fun _ => .inl rfl) fun _ => ?_
      refine .refuseIf (fun _ => .inl rfl) fun _ => ⟨rfl,?_⟩
      rintro _ ⟨⟩
      exact ⟨by omega,fun _ => (not_not.mp hdesc).symm⟩
    · rintro _ ⟨⟩
      exact ⟨by omega,fun heq => absurd heq.symm hs⟩

theorem checkKnown_ok : Ensures (checkKnown p now) v fun res t => match res with
    | .ok _ => t = v ∧ (Known p → p.descriptor.captureMicros ≤ p.observedMicros ∧
        ∀ s, v.knownObservation = some (p.descriptor,s) → s ≤ p.observedMicros)
    | .error _ => t = v ∨ t.closed = true := by
  refine .ite (fun hu => .pure ⟨rfl,fun h => absurd h hu⟩) fun _ => ?_
  refine .ite (fun _ => .of_exec (fail_closed _) (.inr rfl)) fun hc => .get_bind ?_
  refine .refuseIf_bind (fun _ => .inl rfl) fun hnew => .get_bind ?_
  refine .ofResult_bind (fun _ _ => .inl rfl)
    fun _ _ => .pure ⟨rfl,fun _ => ⟨by omega,fun s hs => ?_⟩⟩
  by_contra hlt
  exact hnew ⟨_,hs,rfl,by omega⟩

@[simp] theorem qualify_pending (v : ViewTracker) (p : Progress) :
    (v.qualify p).pending = v.pending := by
  unfold qualify
  split <;> rfl

@[simp] theorem qualify_visible (v : ViewTracker) (p : Progress) :
    (v.qualify p).visible = v.visible := by
  unfold qualify
  split <;> rfl

@[simp] theorem qualify_closed (v : ViewTracker) (p : Progress) :
    (v.qualify p).closed = v.closed := by
  unfold qualify
  split <;> rfl

/-- The clock has no part in taking an announcement. -/
theorem take_ticked (v : ViewTracker) (p : Progress) (now n : ℕ) :
    Same (v.take p) {({v with lastNow := now} : ViewTracker).take p with serial := n} := by
  have hq : ({v with lastNow := now} : ViewTracker).Qualifies p ↔ v.Qualifies p := Iff.rfl
  constructor <;> simp only [take,qualify,hq] <;> split <;> rfl

theorem observe_observed (p : Progress) (now : ℕ) (v : ViewTracker) :
    Ensures (observe p now) v (Observed v p) := by
  refine ensures_tick_bind (fun _ _ h => .closed h) fun hon _ _ => ?_
  have hr : ∀ e t, t = ({v with lastNow := now} : ViewTracker) ∨ t.closed = true →
      Observed v p (.error e) t := by
    rintro e t (rfl | hc)
    · exact .kept {Same.refl v with}
    · exact .closed hc
  refine .ite (fun _ => .of_exec (fail_closed _) (.closed rfl)) fun _ => ?_
  refine .bind checkOrder_ok ?_ hr
  rintro _ _ ⟨rfl,ho⟩
  refine .bind checkKnown_ok ?_ hr
  rintro _ _ ⟨rfl,hk⟩
  refine .get_bind (.ite (fun _ => .of_exec (fail_closed _) (.closed rfl)) fun ha => ?_)
  refine .modify_bind (ensures_bump (fun _ _ h => .closed h) (.taken ?_ (take_ticked v p now _)))
  exact ⟨hon,fun old h => (ho old h).1,fun old h => (ho old h).2,fun h => (hk h).1,
    fun h => (hk h).2,ha⟩

theorem Same.ticked (v : ViewTracker) (now : ℕ) : Same v {v with lastNow := now} :=
  {Same.refl v with}

/-- What positive evidence rests on. -/
structure Supported (v : ViewTracker) (now : ℕ) (e : ViewEvidence) (d : FrameDescriptor)
    (observed : ℕ) (source : SourceObservation) : Prop where
  visible : v.visible = some d
  qualified : v.unqualified = none
  visibleSource : v.visibleSource = some (observed,source)
  known : source ≠ .unknown
  frame : e.frame = d.frame
  age : v.clock.ageUpper observed now = .ok e.sourceAgeUpper
  age_lt : e.sourceAgeUpper < v.maxSourceAge

theorem evidence_supported (now : ℕ) (v : ViewTracker) : Ensures (evidence now) v fun res t =>
    (t.closed = true ∨ Same v t) ∧
      ∀ e, res = .ok e → v.closed = false ∧ ∃ d observed s, Supported v now e d observed s := by
  refine ensures_tick_bind (fun _ _ h => ⟨.inl h,by simp⟩) fun ho _ _ => ?_
  obtain ⟨w,hw⟩ : ∃ w : ViewTracker, w = {v with lastNow := now} := ⟨_,rfl⟩
  have hs : Same v w := hw ▸ Same.ticked v now
  obtain ⟨hc,hb⟩ : w.clock = v.clock ∧ w.maxSourceAge = v.maxSourceAge := by simp [hw]
  rw [← hw]
  refine .get_bind (.okOr_bind (fun _ => ⟨.inr hs,by simp⟩) fun d hd => ?_)
  rw [hs.visible] at hd
  cases hl : w.unqualified with
  | some late => exact .throw ⟨.inr hs,by simp⟩
  | none =>
    refine .okOr_bind (fun _ => ⟨.inr hs,by simp⟩) fun p _ => ?_
    refine .refuseIf_bind (fun _ => ⟨.inr hs,by simp⟩) fun _ => ?_
    refine .okOr_bind (fun _ => ⟨.inr hs,by simp⟩) fun s hso => ?_
    refine .refuseIf_bind (fun _ => ⟨.inr hs,by simp⟩) fun hk => ?_
    refine .ofResult_bind (fun _ _ => ⟨.inr hs,by simp⟩) fun _ _ => ?_
    refine .ofResult_bind (fun _ _ => ⟨.inr hs,by simp⟩) fun age ha => ?_
    refine .refuseIf_bind (fun _ => ⟨.inr hs,by simp⟩) fun hlt => .pure ⟨.inr hs,?_⟩
    rintro e ⟨⟩
    rw [hc] at ha
    exact ⟨ho,d,s.1,s.2,hd,hs.unqualified ▸ hl,hs.visibleSource ▸ hso,hk,rfl,ha,
      Nat.lt_of_not_le (hb ▸ hlt)⟩

theorem decoded_submits (f : DecodedFrame) (s : Bool) (now : ℕ) (v : ViewTracker) :
    Ensures (decoded f s now) v fun res t => t.closed = true ∨ (Same v t ∧ ∃ e, res = .error e) ∨
      (res = .ok () ∧ Same (v.submit ⟨f.descriptor,f.displayUntil⟩ s) t) := by
  refine .get_bind (.refuseIf_bind (fun _ => .inr (.inl ⟨.refl v,_,rfl⟩)) fun _ => ?_)
  refine .refuseIf_bind (fun _ => .inr (.inl ⟨.refl v,_,rfl⟩)) fun _ => ?_
  refine ensures_tick_bind (fun _ _ h => .inl h) fun _ _ _ => .get_bind ?_
  refine .refuseIf_bind (fun _ => .inr (.inl ⟨.ticked v now,_,rfl⟩)) fun _ => .get_bind ?_
  refine .ite (fun _ => .of_exec (fail_closed _) (.inl rfl)) fun _ => ?_
  refine .of_exec (exec_modify _ _) (.inr (.inr ⟨rfl,?_⟩))
  cases s <;> exact ⟨rfl,rfl,rfl,rfl,rfl,rfl,rfl⟩

/-- What the visibility callback of a pending candidate leaves. -/
inductive Shown (v : ViewTracker) (c : Candidate) (now : ℕ) : ViewTracker → Prop
  | inTime {t} (hlive : now < c.displayUntil)
      (h : Same {v.showPicture c.descriptor with visibleSource := some (v.firstSource c.descriptor)}
        t) :
      Shown v c now t
  | late {t} (hlate : c.displayUntil ≤ now) (until_ : ℕ)
      (h : Same {v.showPicture c.descriptor with
        unqualified := some ⟨until_,v.knownTime c.descriptor⟩} t) :
      Shown v c now t
  /-- The end of the grace period is not representable, and the picture stays without a mark. -/
  | unmarked {t} (hlate : c.displayUntil ≤ now) (hover : 2^64 ≤ now+v.maxSourceAge)
      (h : Same (v.showPicture c.descriptor) t) : Shown v c now t

theorem confirm_shown (frame now : ℕ) (v : ViewTracker) : Ensures (confirm frame now) v fun _ t =>
    t.closed = true ∨ Same v t ∨
      (v.closed = false ∧ ∃ c, v.pending = some c ∧ c.descriptor.frame = frame ∧
          Shown v c now t) := by
  refine ensures_tick_bind (fun _ _ h => .inl h) fun ho _ _ => .get_bind ?_
  have hs := Same.ticked v now
  refine .okOr_bind (fun _ => .inr (.inl hs)) fun c hc => ?_
  refine .refuseIf_bind (fun _ => .inr (.inl hs)) fun hf => ?_
  have hf : c.descriptor.frame = frame := not_not.mp hf
  refine .ite (fun hl => ?_) fun hli => ?_
  · refine .modify_bind (.get_bind ?_)
    refine .okOr_bind (fun hover => ?_) fun u _ => ?_
    · refine .inr (.inr ⟨ho,c,hc,hf,.unmarked hl ?_ ⟨rfl,rfl,rfl,rfl,rfl,rfl,rfl⟩⟩)
      by_contra hlt
      have hsome : checkedAdd now v.maxSourceAge = some (now+v.maxSourceAge) :=
        checkedAdd_eq_some.mpr ⟨rfl,by omega⟩
      rw [show checkedAdd now v.maxSourceAge = none from hover] at hsome
      cases hsome
    · refine .modify_bind (ensures_bump_bind (fun _ _ h => .inl h) (.throw ?_))
      exact .inr (.inr ⟨ho,c,hc,hf,.late hl u ⟨rfl,rfl,rfl,rfl,rfl,rfl,rfl⟩⟩)
  · refine .modify_bind (ensures_bump_bind (fun _ _ h => .inl h) ?_)
    refine .mono (evidence_supported _ _) ?_
    rintro _ t ⟨hcl | hsh,_⟩
    · exact .inl hcl
    · exact .inr (.inr ⟨ho,c,hc,hf,.inTime (by omega) {hsh with}⟩)

theorem synchronize_same {clock : ClockCorrelation} : Ensures (synchronize clock now) v fun _ t =>
    t.closed = true ∨ Same v t := by
  refine .get_bind (.refuseIf_bind (fun _ => .inr (.refl v)) fun _ => ?_)
  refine ensures_tick_bind (fun _ _ h => .inl h) fun _ _ _ => .get_bind ?_
  refine .refuseIf_bind (fun _ => .inr (.ticked v now)) fun _ => ?_
  refine .ofResult_bind (fun _ _ => .inr (.ticked v now)) fun _ _ => .modify_bind ?_
  exact ensures_bump (fun _ _ h => .inl h) (.inr ⟨rfl,rfl,rfl,rfl,rfl,rfl,rfl⟩)

theorem presentedSample_same : Ensures (presentedSample now) v fun _ t => t.closed = true ∨
    Same v t := by
  refine .bind (evidence_supported _ _) (fun _ t h => .get_bind ?_) fun _ _ h => h.1
  refine .okOr_bind (fun _ => h.1) fun _ _ => .okOr_bind (fun _ => h.1) fun _ _ => ?_
  exact .pure h.1

/-! One step. -/

/-- The event of one step. -/
def event (v : ViewTracker) (i : Input) : Event := ⟨v,i,(step v i).1⟩

/-- The event neither ends a submission nor brings an announcement that is taken. -/
def Idle (v : ViewTracker) (i : Input) : Prop := ¬Ends (event v i) ∧ ∀ p, ¬Accepted (event v i) p

inductive Outcome (v : ViewTracker) (i : Input) : ViewTracker → Prop
  | closed {t} (h : t.closed = true) : Outcome v i t
  | same {t} (hidle : Idle v i) (h : Same v t) : Outcome v i t
  | taken {t} (p : Progress) (haccepted : Accepted (event v i) p) (hends : ¬Ends (event v i))
      (hfits : Fits v p) (h : Same (v.take p) t) : Outcome v i t
  | submitted {t f now} (hinput : i = .decoded f true now) (hreply : (step v i).1 = .done (.ok ()))
      (h : Same (v.submit ⟨f.descriptor,f.displayUntil⟩ true) t) : Outcome v i t
  | unsubmitted {t} (hidle : Idle v i) (h : Same {v with pending := none} t) : Outcome v i t
  | shown {t c now} (hinput : i = .visible c.descriptor.frame now) (hopen : v.closed = false)
      (hpending : v.pending = some c) (h : Shown v c now t) : Outcome v i t
  | hidden {t} (hinput : i = .hide) (h : Same v.hide t) : Outcome v i t

theorem Accepted.unique {e p q} (hp : Accepted e p) (hq : Accepted e q) : p = q := by
  obtain ⟨_,hp,_⟩ := hp
  obtain ⟨_,hq,_⟩ := hq
  rw [hp] at hq
  cases hq
  rfl

theorem not_accepted {e : Event} (h : carried e.before e.input = none) (p : Progress) :
    ¬Accepted e p := by
  rintro ⟨_,hc,_⟩
  rw [h] at hc
  cases hc

/-- A call that brings one announcement does what the announcement does. -/
theorem Observed.outcome {i t} (hc : carried v i = some (p,now))
    (hends : ¬Ends (event v i)) (h : Observed v p (exec (observe p now) v).1 t) :
    Outcome v i t := by
  cases hr : (exec (observe p now) v).1 with
  | error e =>
    rw [hr] at h
    cases h with
    | closed hcl => exact .closed hcl
    | kept hs =>
      refine .same ⟨hends,?_⟩ hs
      rintro q ⟨m,hq,hok⟩
      rw [show carried v i = some (q,m) from hq] at hc
      cases hc
      rw [show (exec (observe p now) v).1 = .ok () from hok] at hr
      cases hr
  | ok u =>
    rw [hr] at h
    cases h with
    | taken hf hs => exact .taken p ⟨now,hc,hr⟩ hends hf hs

theorem progressRecord_outcome {b l} :
    Ensures (progressRecord b l now) v fun _ t => Outcome v (.progress b l now) t := by
  have hends : ¬Ends (event v (.progress b l now)) := by simp [Ends,event]
  refine .get_bind (.ofResult_bind (fun e hd => ?_) fun p hd => ?_)
  · exact .same ⟨hends,not_accepted (by simp [event,carried,hd,Except.toOption])⟩ (.refl v)
  · exact (observe_observed p now v).outcome (by simp [carried,hd,Except.toOption]) hends

/-- The clock check of an announcement may come twice. -/
theorem exec_observe_ticked (ho : v.closed = false) (hl : v.live = true) (hc : v.lastNow ≤ now) :
    exec (observe p now) {v with lastNow := now} = exec (observe p now) v := by
  have htwice := exec_tick (v := {v with lastNow := now}) ho hl le_rfl
  rw [observe,exec_bind_ok htwice,exec_bind_ok (exec_tick ho hl hc)]

theorem observeReceiver_outcome {r} :
    Ensures (observeReceiver r now) v fun _ t => Outcome v (.observeReceiver r now) t := by
  have hends : ¬Ends (event v (.observeReceiver r now)) := by simp [Ends,event]
  refine .get_bind (.ofResult_bind (fun e hc => ?_) fun _ hc =>
    ensures_tick_bind (fun _ _ h => .closed h) fun hon hl hck => ?_)
  · exact .same ⟨hends,not_accepted (by simp [event,carried,hc])⟩ (.refl v)
  cases hp : r.progress with
  | none => exact .pure (.same ⟨hends,not_accepted (by simp [event,carried,hp])⟩ (.ticked v now))
  | some p =>
    have ho := (observe_observed p now v).outcome (i :=
      .observeReceiver r now) (by simp [carried,hc,hp]) hends
    rw [← exec_observe_ticked hon hl hck] at ho
    exact .tryCatch (Q := fun _ t => Outcome v (.observeReceiver r now) t) ho (fun _ _ h => h)
      fun _ _ h => .ite (fun _ => .pure h) fun _ => .throw h

theorem step_outcome (v : ViewTracker) (i : Input) : Outcome v i (step v i).2 := by
  have hq : ∀ {t}, Idle v i → t.closed = true ∨ Same v t → Outcome v i t := by
    rintro t hi (hcl | hs)
    · exact .closed hcl
    · exact .same hi hs
  cases i with
  | setMaxSourceAge age =>
    refine .same ⟨by simp [Ends,event],not_accepted rfl⟩ ?_
    by_cases ha : sourceAgeValid age
    · simp only [step,setMaxSourceAge,exec_refuseIf_bind,if_neg (not_not.mpr ha),exec_modify]
      exact {Same.refl v with}
    · simp only [step,setMaxSourceAge,exec_refuseIf_bind,if_pos ha]
      exact .refl v
  | synchronize clock now => exact hq ⟨by simp [Ends,event],not_accepted rfl⟩ synchronize_same
  | progress bytes limits now => exact progressRecord_outcome
  | observeReceiver receiver now => exact observeReceiver_outcome
  | decoded f submitted now =>
    rcases decoded_submits f submitted now v with hcl | ⟨hs,e,her⟩ | ⟨hok,hs⟩
    · exact .closed hcl
    · exact .same ⟨by simp [Ends,event,step,her],not_accepted rfl⟩ hs
    · cases submitted with
      | true => exact .submitted rfl (by simp [step,hok]) hs
      | false =>
        exact .unsubmitted ⟨by simp [Ends,event],not_accepted rfl⟩ {hs with}
  | visible frame now =>
    rcases confirm_shown frame now v with hcl | hs | ⟨ho,c,hc,rfl,hsh⟩
    · exact .closed hcl
    · exact .same ⟨by simp [Ends,event],not_accepted rfl⟩ hs
    · exact .shown rfl ho hc hsh
  | evidence now => exact hq ⟨by simp [Ends,event],not_accepted rfl⟩ (evidence_supported _ _).1
  | presentedSample now => exact hq ⟨by simp [Ends,event],not_accepted rfl⟩ presentedSample_same
  | hide => exact .hidden rfl (.refl _)
  | close => exact .closed rfl
  | fence => exact .same ⟨by simp [Ends,event],not_accepted rfl⟩ {Same.refl v with}

end Calls

end ViewTracker
end FrankenRemote.Freshness
