import FrankenRemote.WirePresented

/-! The host's check of presentation reports against its own captures. A report extends the
view's readiness only by a stamp that the capture owner recorded itself. -/
namespace FrankenRemote.Presented

open Bytes Wire Client Input Procedure Transition

/-- `HISTORY`. -/
def historySize : ℕ := 64

def reportInterval : ℕ := 50000

inductive PresentedError
  | wire (error : WireError)
  | clock
  | overflow
  | unknownSource
  | replay
  | expired
  deriving DecidableEq

inductive Decision
  | ready (until_ : ℕ)
  | unavailable
  | obsolete
  deriving DecidableEq

/-- `tick`: a clock that may stand but not go back. -/
def ticked (last now : ℕ) : Except PresentedError ℕ := if now < last then .error .clock else .ok now

structure Verifier where
  binding : ReportBinding
  limits : ProtocolLimits
  history : ℕ → Option Stamp
  cursor : ℕ
  lastSource : Option Stamp
  lastNow : ℕ
  floor : ℕ
  confirmedUntil : Option ℕ

/-- The stamp of an announced picture. -/
def stampOf (p : Progress) : Stamp :=
  ⟨p.descriptor.frame,p.descriptor.captureMicros,p.observedMicros,p.observation⟩

/-- A stopped pipeline or an unknown observation is no source. -/
def SourceLost (p : Progress) : Prop :=
  ¬(p.pipeline = .running ∨ p.pipeline = .idle) ∨ p.observation = .unknown

instance (p : Progress) : Decidable (SourceLost p) := inferInstanceAs (Decidable (_ ∨ _))

/-- An observation that goes back behind the last source. -/
def Regresses (last : Option Stamp) (s : Stamp) : Prop :=
  ∃ p ∈ last, s.frame < p.frame ∨ s.observed < p.observed

instance (last : Option Stamp) (s : Stamp) : Decidable (Regresses last s) :=
  inferInstanceAs (Decidable (∃ p ∈ last, _))

/-- A source-age bound that a path may have. -/
def boundValid (bound : ℕ) : Prop := 1 ≤ bound ∧ bound ≤ maxSourceAge

instance (bound : ℕ) : Decidable (boundValid bound) := inferInstanceAs (Decidable (_ ∧ _))

namespace Verifier

abbrev Call := Proc Verifier PresentedError

def new (binding : ReportBinding) (limits : ProtocolLimits) (now : ℕ) :
    Except PresentedError Verifier := do
  (reportBindingValid binding).mapError .wire
  .ok ⟨binding,limits,fun _ => none,0,none,now,0,none⟩

def tick (now : ℕ) : Call Unit := do
  let lastNow ← ofResult (ticked (← get).lastNow now)
  modify ({· with lastNow})

def record (v : Verifier) (s : Stamp) : Verifier :=
  {v with
    history := Function.update v.history v.cursor (some s), cursor := (v.cursor+1) % historySize,
          lastSource := some s}

def observe (p : Progress) (now : ℕ) : Call Unit := do
  tick now
  if SourceLost p then modify ({· with history := fun _ => none, lastSource := none})
  else
    ofResult ((Sample.validate ⟨stampOf p,0⟩).mapError .wire)
    refuseIf (now < (stampOf p).observed) .clock
    if (← get).lastSource = some (stampOf p) then pure ()
    else
      refuseIf (Regresses (← get).lastSource (stampOf p)) .clock
      modify (·.record (stampOf p))

/-- The decision on a visible sample whose report has passed the replay floor. -/
def decide_ (sample : Sample) (now bound : ℕ) : Call Decision := do
  let until_ ← okOr (checkedAdd sample.stamp.observed bound) .overflow
  if ∃ old ∈ (← get).confirmedUntil, until_ ≤ old then pure .obsolete
  else if until_ ≤ now then pure .unavailable
  else
    refuseIf (sample.stamp ∉ Ring.recent historySize (← get).history) .unknownSource
    modify ({· with confirmedUntil := some until_})
    pure (.ready until_)

def receiveReport (bytes : List Byte) (now bound : ℕ) : Call (ℕ × Decision) := do
  tick now
  refuseIf (¬boundValid bound) .overflow
  let report ← ofResult
    ((decodePresented bytes (← get).binding (← get).limits .viewerToHost .reliable).mapError .wire)
  -- Above the floor the sequence is not zero, so that check of the source cannot refuse.
  refuseIf (report.sequence ≤ (← get).floor) .replay
  modify ({· with floor := report.sequence})
  match report.visible with
  | none => pure (report.sequence,.unavailable)
  | some sample =>
    let decision ← decide_ sample now bound
    pure (report.sequence,decision)

/-! Runs. -/

inductive Input
  | observe (progress : Progress) (now : ℕ)
  | receive (bytes : List Byte) (now bound : ℕ)

inductive Reply
  | observed (result : Except PresentedError Unit)
  | received (result : Except PresentedError (ℕ × Decision))
  deriving DecidableEq

def step (v : Verifier) : Input → Reply × Verifier
  | .observe p now => ((.observed (exec (observe p now) v).1),(exec (observe p now) v).2)
  | .receive bytes now bound =>
    (.received (exec (receiveReport bytes now bound) v).1,
      (exec (receiveReport bytes now bound) v).2)

abbrev Event := Transition.Event Verifier Input Reply

def recorded (e : Event) : Option Stamp :=
  match e.input,e.reply with
  | .observe p _,.observed (.ok ()) =>
    if SourceLost p ∨ e.before.lastSource = some (stampOf p) then none else some (stampOf p)
  | _,_ => none

/-- An accepted observation that the source is lost. -/
def Clears (e : Event) : Prop :=
  ∃ p now, e.input = .observe p now ∧ e.reply = .observed (.ok ()) ∧ SourceLost p

/-! What each call can do. -/

/-- Only the clock and the replay floor may have moved, and they moved forward. -/
structure Advanced (v t : Verifier) : Prop where
  history : t.history = v.history
  cursor : t.cursor = v.cursor
  confirmedUntil : t.confirmedUntil = v.confirmedUntil
  lastNow : v.lastNow ≤ t.lastNow
  floor : v.floor ≤ t.floor

theorem Advanced.refl (v : Verifier) : Advanced v v := ⟨rfl,rfl,rfl,le_rfl,le_rfl⟩

theorem Advanced.ticked {v : Verifier} {now} (h : v.lastNow ≤ now) :
    Advanced v {v with lastNow := now} :=
  ⟨rfl,rfl,rfl,h,le_rfl⟩

inductive Observed (v : Verifier) (p : Progress) (now : ℕ) :
    Except PresentedError Unit → Verifier → Prop
  | refused {e t} (h : Advanced v t) : Observed v p now (.error e) t
  | lost (hlost : SourceLost p) (hclock : v.lastNow ≤ now) :
      Observed v p now (.ok ())
      {v with lastNow := now, history := fun _ => none, lastSource := none}
  | repeated (hlast : v.lastSource = some (stampOf p)) (hlost : ¬SourceLost p)
      (hclock : v.lastNow ≤ now) : Observed v p now (.ok ()) {v with lastNow := now}
  | recorded (hlost : ¬SourceLost p) (hlast : v.lastSource ≠ some (stampOf p))
      (hclock : v.lastNow ≤ now) (hseen : (stampOf p).observed ≤ now) :
      Observed v p now (.ok ()) ({v with lastNow := now}.record (stampOf p))

theorem tick_bind {α : Type} {v : Verifier} {now : ℕ} {f : Unit → Call α}
    {P : Except PresentedError α → Verifier → Prop} (hback : P (.error .clock) v)
    (hok : v.lastNow ≤ now → Ensures (f ()) {v with lastNow := now} P) :
    Ensures (tick now >>= f) v P := by
  by_cases hc : now < v.lastNow
  · exact .of_exec (exec_bind_error (by simp [tick,ticked,exec_bind,hc])) hback
  · exact .bind_of_exec (by simp [tick,ticked,exec_bind,hc]) (hok (not_lt.mp hc))

theorem observe_observed (p : Progress) (now : ℕ) (v : Verifier) :
    Ensures (observe p now) v (Observed v p now) := by
  refine tick_bind (.refused (.refl v)) fun hmono => ?_
  have ha := Advanced.ticked hmono
  refine .ite (fun hlost => .of_exec (exec_modify _ _) (.lost hlost hmono)) fun hlost => ?_
  refine .ofResult_bind (fun _ _ => .refused ha) fun _ _ => ?_
  refine .refuseIf_bind (fun _ => .refused ha) fun hseen => .get_bind ?_
  refine .ite (fun hl => .pure (.repeated hl hlost hmono)) fun hl => .get_bind ?_
  refine .refuseIf_bind (fun _ => .refused ha) fun _ => ?_
  exact .of_exec (exec_modify _ _) (.recorded hlost hl hmono (by omega))

inductive Received (v : Verifier) (bytes : List Byte) (now bound : ℕ) :
    Except PresentedError (ℕ × Decision) → Verifier → Prop
  | refused {e t} (h : Advanced v t) : Received v bytes now bound (.error e) t
  | kept {n d t} (h : Advanced v t) (hd : ∀ u, d ≠ .ready u) (hn : t.floor = n) :
      Received v bytes now bound (.ok (n,d)) t
  | ready {n sample until_} (hclock : v.lastNow ≤ now) (hfloor : v.floor < n)
      (hdecode : decodePresented bytes v.binding v.limits .viewerToHost .reliable =
        .ok ⟨n,some sample⟩)
      (huntil : sample.stamp.observed+bound = until_)
      (hlater : ∀ old ∈ v.confirmedUntil, old < until_)
      (hnow : now < until_) (hmem : sample.stamp ∈ Ring.recent historySize v.history) :
      Received v bytes now bound (.ok (n,.ready until_))
        {v with lastNow := now, floor := n, confirmedUntil := some until_}

theorem receiveReport_received (b : List Byte) (now bo : ℕ) (v : Verifier) :
    Ensures (receiveReport b now bo) v (Received v b now bo) := by
  refine tick_bind (.refused (.refl v)) fun hmono => ?_
  have ht := Advanced.ticked hmono
  refine .refuseIf_bind (fun _ => .refused ht) fun _ => .get_bind (.get_bind ?_)
  refine .ofResult_bind (fun _ _ => .refused ht) fun report hr => .get_bind ?_
  refine .refuseIf_bind (fun _ => .refused ht) fun hf => .modify_bind ?_
  have hf : v.floor < report.sequence := by simpa using hf
  have hm : Advanced v {v with lastNow := now, floor := report.sequence} :=
    ⟨rfl,rfl,rfl,hmono,hf.le⟩
  have hd := mapError_eq_ok hr
  obtain ⟨n,visible⟩ := report
  cases visible with
  | none => exact .pure (.kept hm (fun _ h => by cases h) rfl)
  | some sample =>
    refine .bind (Q := fun r t => Received v b now bo (r.map (n,·)) t) ?_
      (fun d t h => .pure h) (fun _ _ h => h)
    refine .okOr_bind (fun _ => .refused hm) fun until_ hu => .get_bind ?_
    refine .ite (fun _ => .pure (.kept hm (fun _ h => by cases h) rfl)) fun hl => ?_
    refine .ite (fun _ => .pure (.kept hm (fun _ h => by cases h) rfl)) fun hn => .get_bind ?_
    refine .refuseIf_bind (fun _ => .refused hm) fun hmem => .modify_bind ?_
    refine .pure (.ready hmono hf hd (checkedAdd_eq_some.mp hu).1 ?_ (by omega) ?_)
    · intro old hold
      by_contra hle
      exact hl ⟨old,hold,by omega⟩
    · simpa using hmem

/-! What holds of the whole history. -/

structure Traced (past : List Event) (v : Verifier) : Prop where
  ring : Ring.Traced recorded Clears historySize v.cursor v.history past
  seen : ∀ e ∈ past, ∀ s, recorded e = some s → s.observed ≤ v.lastNow
  confirmed : ∀ e ∈ past, ∀ n u, e.reply = .received (.ok (n,.ready u)) →
    ∃ old ∈ v.confirmedUntil, u ≤ old
  accepted : ∀ e ∈ past, ∀ n d, e.reply = .received (.ok (n,d)) → n ≤ v.floor

variable {past : List Event} {v t : Verifier} {e : Event}

/-- An event that neither records nor clears, nor accepts a report. -/
theorem Traced.advanced (h : Traced past v) (ht : Advanced v t) (hr : recorded e = none)
    (hc : ¬Clears e) (hready : ∀ n u, e.reply ≠ .received (.ok (n,.ready u)))
    (ha : ∀ n d, e.reply = .received (.ok (n,d)) → n ≤ t.floor) : Traced (past++[e]) t := by
  constructor
  · rw [ht.cursor,ht.history]
    exact h.ring.keep hr hc
  · simp only [forall_mem_snoc,hr]
    exact ⟨fun x hx s hs => (h.seen x hx s hs).trans ht.lastNow,by simp⟩
  · rw [ht.confirmedUntil]
    simp only [forall_mem_snoc]
    exact ⟨h.confirmed,fun n u hu => absurd hu (hready n u)⟩
  · simp only [forall_mem_snoc]
    exact ⟨fun x hx n d hd => (h.accepted x hx n d hd).trans ht.floor,ha⟩

theorem Traced.observe (h : Traced past v) (p : Progress) (now : ℕ) :
    Traced (past ++ [⟨v,.observe p now,(step v (.observe p now)).1⟩])
      (step v (.observe p now)).2 := by
  refine (observe_observed p now v).mono (P :=
    fun r t => Traced (past ++ [⟨v,.observe p now,.observed r⟩]) t) fun r t hca => ?_
  -- An observation accepts no report, so only the ring and the clock matter.
  have hold : ∀ x ∈ past ++ [(⟨v,.observe p now,.observed r⟩ : Event)], ∀ res, x.reply =
      .received res → x ∈ past := by
    exact forall_mem_snoc.mpr ⟨fun x hx _ _ => hx,fun _ h => by cases h⟩
  cases hca with
  | refused ha =>
    apply h.advanced ha rfl
    · rintro ⟨_,_,_,hrp,_⟩
      cases hrp
    · simp
    · simp
  | lost hlost hc =>
    have hr : recorded ⟨v,.observe p now,.observed (.ok ())⟩ = none := by simp [recorded,hlost]
    refine ⟨h.ring.clear hr,?_,fun x hx n u hu => h.confirmed x (hold x hx _ hu) n u hu,
      fun x hx n d hd => h.accepted x (hold x hx _ hd) n d hd⟩
    simp only [forall_mem_snoc,hr]
    exact ⟨fun x hx s hs => (h.seen x hx s hs).trans hc,by simp⟩
  | repeated hl hlost hc =>
    apply h.advanced (.ticked hc)
    · simp [recorded,hl]
    · rintro ⟨_,_,hi,_,hlost'⟩
      cases hi
      exact hlost hlost'
    · simp
    · simp
  | recorded hlost hl hc hseen =>
    have hr : Verifier.recorded ⟨v,.observe p now,.observed (.ok ())⟩ = some (stampOf p) := by
      simp [Verifier.recorded,hlost,hl]
    refine ⟨h.ring.push hr ?_ (by decide),?_,fun x hx n u hu =>
      h.confirmed x (hold x hx _ hu) n u hu,
      fun x hx n d hd => h.accepted x (hold x hx _ hd) n d hd⟩
    · rintro ⟨_,_,hi,_,hlost'⟩
      cases hi
      exact hlost hlost'
    simp only [forall_mem_snoc,hr]
    refine ⟨fun x hx s hs => (h.seen x hx s hs).trans hc,?_⟩
    intro s hs
    cases hs
    exact hseen

theorem not_clears_receive {b now bo r} : ¬Clears ⟨v,.receive b now bo,r⟩ := by
  rintro ⟨_,_,hi,_⟩
  cases hi

theorem Traced.receive (h : Traced past v) (b : List Byte) (now bo : ℕ) :
    Traced (past ++ [⟨v,.receive b now bo,(step v (.receive b now bo)).1⟩])
      (step v (.receive b now bo)).2 := by
  refine (receiveReport_received b now bo v).mono
    (P := fun r t => Traced (past ++ [⟨v,.receive b now bo,.received r⟩]) t) fun r t hca => ?_
  cases hca with
  | refused ha =>
    apply h.advanced ha rfl not_clears_receive
    · simp
    · simp
  | kept ha hd hn =>
    apply h.advanced ha rfl not_clears_receive
    · intro n u hr
      cases hr
      exact hd u rfl
    · intro n d hr
      cases hr
      exact hn.ge
  | @ready n _ until_ hc hf _ _ hl _ _ =>
    refine ⟨h.ring.keep rfl not_clears_receive,?_,?_,?_⟩
    · simp only [forall_mem_snoc]
      exact ⟨fun x hx s hs => (h.seen x hx s hs).trans hc,by simp [recorded]⟩
    · simp only [forall_mem_snoc]
      constructor
      · intro x hx m u hu
        obtain ⟨old,hold,hle⟩ := h.confirmed x hx m u hu
        exact ⟨until_,rfl,hle.trans (hl old hold).le⟩
      · simp
    · simp only [forall_mem_snoc]
      exact ⟨fun x hx m d hd => (h.accepted x hx m d hd).trans hf.le,by simp⟩

theorem traced_run {b l start} (hnew : new b l start = .ok v) (inp : List Input) :
    Traced (trace step v inp) (final step v inp) := by
  obtain ⟨_,_,hv⟩ := bind_eq_ok.mp hnew
  cases hv
  apply history_invariant
  · exact ⟨.nil,by simp,by simp,by simp⟩
  · intro past w i h
    cases i with
    | observe p now => exact h.observe p now
    | receive bs now bound => exact h.receive bs now bound

theorem readiness_from_captures {binding : ReportBinding} {limits : ProtocolLimits} {start : ℕ}
    (hnew : new binding limits start = .ok v) (inputs : List Input)
    {past later : List Event} {e : Event}
    (hrun : trace step v inputs = past ++ e :: later) {bytes : List Byte} {now bound : ℕ}
    (hinput : e.input = .receive bytes now bound) :
    (∀ sequence until_, e.reply = .received (.ok (sequence,.ready until_)) →
      (∃ sample earlier x between,
        decodePresented bytes e.before.binding e.before.limits .viewerToHost .reliable =
          .ok ⟨sequence,some sample⟩ ∧ past = earlier ++ x :: between ∧
          recorded x = some sample.stamp ∧
        (between.filterMap recorded).length < historySize ∧ (∀ y ∈ between, ¬Clears y) ∧
        until_ = sample.stamp.observed+bound) ∧ now < until_ ∧ until_ ≤ now+bound ∧
      (∀ x ∈ past, ∀ n u, x.reply = .received (.ok (n,.ready u)) → u < until_) ∧
      ∀ x ∈ past, ∀ n d, x.reply = .received (.ok (n,d)) → n < sequence) ∧
    ((∀ sequence until_, e.reply ≠ .received (.ok (sequence,.ready until_))) →
      (step e.before e.input).2.confirmedUntil = e.before.confirmedUntil) := by
  obtain ⟨before,i,_,_,rfl,he,_⟩ := trace_split step hrun
  have ht := traced_run hnew before
  generalize final step v before = w at he ht
  generalize trace step v before = past at ht
  subst he
  cases hinput
  have hca := receiveReport_received bytes now bound w
  simp only [Ensures] at hca
  simp only [step]
  generalize (exec (receiveReport bytes now bound) w).1 = r at hca
  generalize (exec (receiveReport bytes now bound) w).2 = t at hca
  cases hca with
  | refused ha => exact ⟨by simp,fun _ => ha.confirmedUntil⟩
  | kept ha hd _ =>
    refine ⟨?_,fun _ => ha.confirmedUntil⟩
    intro sequence until_ hr
    cases hr
    exact absurd rfl (hd until_)
  | @ready n sample until_ _ hf hdc hun hl hnow hm =>
    refine ⟨?_,fun hnot => absurd rfl (hnot n until_)⟩
    intro sequence u hr
    cases hr
    obtain ⟨earlier,x,between,hpast,hx,hc,hn⟩ := ht.ring.mem_recent hm
    have hseen : sample.stamp.observed ≤ w.lastNow :=
      ht.seen x (by rw [hpast]; simp) _ hx
    refine ⟨⟨sample,earlier,x,between,hdc,hpast,hx,hc,hn,hun.symm⟩,hnow,by omega,?_,?_⟩
    · intro y hy m u hu
      obtain ⟨old,hold,hle⟩ := ht.confirmed y hy m u hu
      exact hle.trans_lt (hl old hold)
    · intro y hy m d hd
      exact (ht.accepted y hy m d hd).trans_lt hf

/-- A running source at its capture. -/
def sampleProgress : Progress := ⟨⟨5,1000,1000,100,none⟩,100,.captured,.running⟩

/-- The viewer's report that it shows this picture. -/
def sampleReport : List Byte :=
  encodeHeader .presentedState 9 presentedPayload ++ writeReportBinding sampleReportBinding ++
    writeReport ⟨1,some ⟨stampOf sampleProgress,10⟩⟩

def sampleVerifier : Verifier :=
  ⟨sampleReportBinding,sampleProtocolLimits,fun _ => none,0,none,0,0,none⟩

theorem readiness_from_captures_reported :
    new sampleReportBinding sampleProtocolLimits 0 = .ok sampleVerifier ∧
    (step (step sampleVerifier (.observe sampleProgress 120)).2
      (.receive sampleReport 150 250000)).1 =
      .received (.ok (1,.ready 250100)) ∧ 250100 ≤ 150+250000 := by
  have hnew : new sampleReportBinding sampleProtocolLimits 0 = .ok sampleVerifier := rfl
  have hr : (step (step sampleVerifier (.observe sampleProgress 120)).2
      (.receive sampleReport 150 250000)).1 = .received (.ok (1,.ready 250100)) := by decide +kernel
  have hrun : trace step sampleVerifier
      [.observe sampleProgress 120,.receive sampleReport 150 250000] =
        [⟨_,.observe sampleProgress 120,_⟩] ++
      ⟨_,.receive sampleReport 150 250000,_⟩ :: [] := rfl
  have hc := readiness_from_captures hnew _ hrun rfl
  exact ⟨hnew,hr,(hc.1 1 250100 hr).2.2.1⟩

end Verifier
end FrankenRemote.Presented
