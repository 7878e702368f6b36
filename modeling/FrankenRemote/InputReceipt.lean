import FrankenRemote.InputOnce
import FrankenRemote.WireInputResult

/-! Receipts of reliable actions. A receipt counts the confirmed operations of its action, and its
refusal has a category on the wire. -/
namespace FrankenRemote.Input

open Procedure Relation Transition List Input.Frame
open Wire (Reason)

/-- A refusal that the viewer can be told, and that confirms there was no effect. -/
def Refusal.Named (r : Refusal) : Prop :=
  ∃ reason, Reason.ofRefusal r = .ok reason ∧ reason ≠ .unknownEffect

/-- The sink answers within its contract: its own refusals are of the categories of the owner, and
an unknown effect follows a final check that passed. -/
def Explains (trail : List Occurrence) : Prop :=
  ∀ op warranted result, .report op warranted result ∈ trail →
    (∀ refusal, result = .error refusal → refusal.Named) ∧
      (result = .ok .unknown → warranted = true)

/-- Operations of a whole action, on the sinks that there are. -/
def InputEvent.totals : InputEvent → List ℕ
  | key _ .repeat_ => [1,2]
  | key _ _ | pointer _ => [1]
  | button .. => [2]
  | scroll _ _ _ _ .pixels => [2]
  | scroll _ _ x y .lines => 2 :: ((LineScroll.new x y).map LineScroll.nativeOperations).toList
  | text s => [s.length]
  | relative .. => [0,1]
  | mode .. => [0]

/-- An error of an attempt, and whether an operation was on its way. -/
def Blames (e : Stop) (uncertain : Bool) : Prop :=
  ∀ refusal, e = .refused refusal → if uncertain then refusal = .unknownEffect else refusal.Named

/-- Part of an attempt: it ends with one of these numbers of confirmed operations, or fails
before. -/
def Spends {α : Type} (totals : List ℕ) : Except Stop α → World → Prop
  | .ok _,t => ∃ n ∈ totals, t.toAttempt = ⟨n,false⟩
  | .error e,t => Explains t.trail → (∃ n ∈ totals, t.submitted < n) ∧ Blames e t.uncertain

section Counts

variable {α β : Type} {w : World} {k n : ℕ} {cr : InputCredentials}

variable {totals : List ℕ} {op : Operation} {t : World} {req : InputRequest}

theorem Spends.mono {totals' : List ℕ} {r : Except Stop α} (h : Spends totals r w)
    (hs : totals ⊆ totals') : Spends totals' r w := by
  cases r with
  | ok a => exact h.imp fun n hn => ⟨hs hn.1,hn.2⟩
  | error e => exact fun he => (h he).imp_left (·.imp fun n hn => ⟨hs hn.1,hn.2⟩)

theorem Spends.error {e} (ha : t.submitted = k) (hlt : ∃ n ∈ totals, k < n)
    (hb : Explains t.trail → Blames e t.uncertain) : Spends totals (.error e : Except Stop α) t :=
  fun he => ⟨ha ▸ hlt,hb he⟩

theorem named_of_reason {refusal re} (h : Reason.ofRefusal refusal = .ok re)
    (hne : re ≠ .unknownEffect) : refusal.Named := ⟨re,h,hne⟩

theorem named_platform (error : PlatformError) : (Refusal.platform error).Named := by
  cases error <;> exact named_of_reason rfl (by decide)

/-- The final check refuses for reasons that have a category. -/
theorem submissionDeadline_named (s : Authority.SessionAuthority) (le : InputLeaseId)
    (ticket : InputTicketId) (now : HostInstant) {e}
    (h : (exec (Authority.submissionDeadline le ticket now) s).1 = .error e) :
    (Refusal.authority e).Named := by
  by_contra hu
  have hne {e' : Authority.AuthorityError} {reason : Reason}
      (hr : Reason.ofAuthority e' = .ok reason) (hk : reason ≠ .unknownEffect) : e' ≠ e := by
    rintro rfl
    exact hu ⟨reason,hr,hk⟩
  have htime : Raises e (fun _ => False) (Authority.checkTime now) :=
    .bind .get fun s => .ite (.bind (.modify _) fun _ => .throw (hne rfl (by decide))) (.modify _)
  have hl : Raises e (fun _ => False) (Authority.checkObservationLive now) :=
    .bind .get fun s => .bind (.refuseIf (hne rfl (by decide)))
      fun _ => .refuseIf (hne rfl (by decide))
  have hs : Raises e (fun _ => False) (Authority.authorizeSubmission le ticket now) :=
    .bind htime fun _ => .bind .get fun s => .bind (.refuseIf (hne rfl (by decide)))
      fun _ => .bind hl fun _ =>
      .bind (.refuseIf (hne rfl (by decide))) fun _ => .bind (.okOr (hne rfl (by decide))) fun l =>
      .bind (.refuseIf (hne rfl (by decide))) fun _ => .bind (.refuseIf (hne rfl (by decide)))
          fun _ =>
      .bind (.okOr (hne rfl (by decide))) fun _ => .refuseIf (hne rfl (by decide))
  have hd : Raises e (fun _ => False) (Authority.submissionDeadline le ticket now) :=
    .bind hs fun _ => .bind .get fun s => .bind (.okOr (hne rfl (by decide))) fun l =>
      .bind (.okOr (hne rfl (by decide))) fun _ => .bind (.okOr (hne rfl (by decide)))
        fun _ => .pure _
  exact hd s h

theorem check_named (cr : InputCredentials) (now : HostInstant) (w : World) :
    Ensures (check cr now) w fun r _ => ∀ refusal, r = .error (.refused refusal) →
      refusal.Named := by
  refine check_ensures now (fun e _ he _ refusal hr => ?_) fun _ _ _ _ _ _ h => by cases h
  cases hr
  cases he with
  | authority h => exact submissionDeadline_named _ _ _ _ h
  | _ => exact named_of_reason rfl (by decide)

theorem submitted_of_checking (h : ReflTransGen (Checking cr op) w t) :
    t.submitted = w.submitted := by
  induction h with
  | refl => rfl
  | tail _ h ih =>
    refine Eq.trans ?_ ih
    cases h with
    | quiet h => exact congrArg Attempt.submitted (of_quietly h).attempt
    | grant h =>
      cases h
      rfl

theorem attempt_of_grant {a b} (h : ReflTransGen (Checking cr op) w a)
    (g : Grant cr op a b) (q : Quiet b t) : t.toAttempt = ⟨w.submitted,true⟩ := by
  rw [(of_quiet q).attempt,← submitted_of_checking h]
  cases g
  rfl

/-- A submission confirms nothing by itself, and is uncertain once its check has passed. -/
theorem Submits.attempt {r} (h : Submits cr op w r t) (hw : w.toAttempt = ⟨k,false⟩) :
    t.submitted = k ∧ ∀ res, r = .ok res → .report op t.uncertain res ∈ t.trail := by
  have hc : w.submitted = k := congrArg Attempt.submitted hw
  have hm (u : World) (o : Occurrence) : o ∈ (u.note o).trail :=
    mem_concat_self
  cases h with
  | failed h _ => exact ⟨(submitted_of_checking h).trans hc,nofun⟩
  | @unchecked u q res =>
    have ha : u.toAttempt = ⟨k,false⟩ := (of_quiet q).attempt.trans hw
    refine ⟨congrArg Attempt.submitted ha,?_⟩
    rintro _ ⟨⟩
    rw [show (u.note (.report op false res)).uncertain = false from congrArg Attempt.uncertain ha]
    exact hm _ _
  | @uncalled u q => exact ⟨(congrArg Attempt.submitted (of_quiet q).attempt).trans hc,nofun⟩
  | @checked a b u h g q res =>
    have ha := attempt_of_grant h g q
    refine ⟨(congrArg Attempt.submitted ha).trans hc,?_⟩
    rintro _ ⟨⟩
    rw [show (u.note (.report op true res)).uncertain = true from congrArg Attempt.uncertain ha]
    exact hm _ _
  | unwound h g q => exact ⟨(congrArg Attempt.submitted (attempt_of_grant h g q)).trans hc,nofun⟩

variable {r : Except Stop Unit} {ev : InputEvent}

theorem Performs.spends (h : Performs cr op w r t) (hw : w.toAttempt = ⟨k,false⟩) :
    Spends [k+1] r t := by
  have hlt : ∃ n ∈ [k+1], k < n := ⟨_,mem_singleton_self _,k.lt_succ_self⟩
  have hp {a : World} (q : Quiet w a) : (a.note (.prepare op)).toAttempt = ⟨k,false⟩ :=
    (of_quiet q).attempt.trans hw
  cases h with
  | @unprepared a e q he =>
    refine .error (congrArg Attempt.submitted (hp q)) hlt fun _ refusal hr => ?_
    obtain ⟨error,rfl⟩ := he refusal hr
    rw [show (a.note (.prepare op)).uncertain = false from congrArg Attempt.uncertain (hp q)]
    exact named_platform error
  | submitted q h =>
    exact ⟨_,mem_singleton_self _,congrArg (Attempt.mk · false)
      (congrArg (·+1) (h.attempt (hp q)).1)⟩
  | unknown q h =>
    obtain ⟨hc,hreport⟩ := h.attempt (hp q)
    refine .error hc hlt fun hexp refusal hr => ?_
    rw [(hexp _ _ _ (hreport _ rfl)).2 rfl]
    cases hr
    rfl
  | @refused a u result q h hres =>
    -- a refused operation certainly did not happen
    obtain ⟨hc,hreport⟩ := h.attempt (hp q)
    refine .error hc hlt fun hexp refusal hr => ?_
    cases hr
    rcases result with refusal | submission
    · exact (hexp _ _ _ (hreport _ rfl)).1 refusal rfl
    · cases submission with
      | submitted => exact absurd rfl hres.1
      | unknown => exact absurd rfl hres.2
      | notSubmitted error => exact named_platform error
      | expired | fenced => exact named_of_reason rfl (by decide)
  | unwound q h => exact .error (h.attempt (hp q)).1 hlt fun _ _ hr => by cases hr

theorem Performed.spends {ops} (h : Performed cr ops w r t)
    (hw : w.toAttempt = ⟨k,false⟩) : Spends [k+ops.length] r t := by
  induction h generalizing k with
  | nil w => exact ⟨k,mem_singleton_self k,hw⟩
  | next h _ ih =>
    obtain ⟨_,hm,ht⟩ := h.spends hw
    rw [mem_singleton.mp hm] at ht
    rw [length_cons,Nat.add_comm _ 1,← Nat.add_assoc]
    exact ih ht
  | stop h =>
    intro he
    obtain ⟨⟨_,hm,hlt⟩,hb⟩ := h.spends hw he
    rw [mem_singleton.mp hm] at hlt
    exact ⟨⟨_,mem_singleton_self _,hlt.trans_le (by simp)⟩,hb⟩

/-! Actions. -/

theorem length_steps (s : LineScroll) : 1+2*s.steps.length = s.nativeOperations := by
  simp [LineScroll.steps,LineScroll.nativeOperations]

theorem length_pairs (steps : List WheelDirection) :
    (steps.flatMap fun d => [Operation.wheel d true,.wheel d false]).length = 2*steps.length := by
  induction steps with
  | nil => rfl
  | cons d steps ih => simp only [flatMap_cons,length_append,ih,length_cons,length_nil]; omega

theorem InputEvent.Plans.length {ops} (h : ev.Plans w ops) : ops.length ∈ ev.totals := by
  obtain ⟨pairs,-,hp⟩ := h
  cases ev with
  | key k transition => cases transition <;> cases pairs <;> cases hp <;> simp [InputEvent.totals]
  | pointer | button => cases hp; exact mem_singleton_self _
  | scroll position _ x y unit =>
    cases unit with
    | pixels => cases hp; exact mem_singleton_self _
    | lines =>
      cases pairs with
      | false => cases hp; exact mem_cons_self
      | true =>
        obtain ⟨d,hd,rfl⟩ := Option.map_eq_some_iff.mp hp
        rw [InputEvent.totals,hd,length_cons,length_pairs,Nat.add_comm,length_steps]
        exact mem_cons_of_mem _ mem_cons_self
  | text s => cases hp; simp [InputEvent.totals,← map_eq_flatMap,String.length_toList]
  | relative =>
    obtain ⟨x,-,hp⟩ := Option.bind_eq_some_iff.mp hp
    obtain ⟨y,-,rfl⟩ := Option.map_eq_some_iff.mp hp
    split <;> simp [InputEvent.totals]
  | mode => cases hp

/-- Actions that are not empty. -/
def InputEvent.Sendable : InputEvent → Prop
  | key .. | button .. | scroll .. => True
  | text s => 0 < s.length
  | _ => False

theorem InputEvent.Sendable.pos (h : ev.Sendable) : ∃ n ∈ ev.totals, 0 < n := by
  cases ev with
  | key _ transition => cases transition <;> exact ⟨1,mem_cons_self,Nat.one_pos⟩
  | button => exact ⟨2,mem_cons_self,Nat.two_pos⟩
  | scroll _ _ _ _ unit => cases unit <;> exact ⟨2,mem_cons_self,Nat.two_pos⟩
  | text s => exact ⟨_,mem_cons_self,h⟩
  | pointer | relative | mode => cases h

theorem early_named {e : Stop} (h : e.early = true) {refusal} (he : e = .refused refusal) :
    refusal.Named := by
  subst he
  cases refusal with
  | unsupported | modeMismatch | outOfBounds | invalidTransition | relativeOverflow =>
    exact named_of_reason rfl (by decide)
  | _ => cases h

theorem Executed.spends (h : Executed cr ev w r t)
    (hs : ev.Sendable) (hw : w.toAttempt = ⟨0,false⟩) : Spends ev.totals r t := by
  cases h with
  | refused q he =>
    have ha := (of_quiet q).attempt.trans hw
    refine .error (congrArg Attempt.submitted ha) hs.pos fun _ refusal hr => ?_
    rw [show t.uncertain = false from congrArg Attempt.uncertain ha]
    exact early_named he hr
  | @performed _ a u _ q hp h =>
    have ho : (a.opens ev).toAttempt = ⟨0,false⟩ := by
      cases ev <;> exact (of_quiet q).attempt.trans hw
    have hspend : Spends ev.totals r u :=
      (h.spends ho).mono (cons_subset.mpr ⟨by rw [Nat.zero_add]; exact hp.length,nil_subset _⟩)
    cases ev with
    | relative | pointer | mode => cases hs
    | _ => cases r <;> exact hspend
  | switched hev =>
    subst hev
    cases hs

theorem execute_spends (h : req.event.Sendable) (hw : w.toAttempt = ⟨0,false⟩) :
    Ensures (execute req) w (Spends req.event.totals) := by
  have ha {t : World} (q : Quiet w t) : t.toAttempt = ⟨0,false⟩ :=
    (of_quiet q).attempt.trans hw
  have hrf {t : World} {e : Stop} (q : Quiet w t)
      (hn : ∀ refusal, e = .refused refusal → refusal.Named) :
      Spends req.event.totals (.error e : Except Stop Unit) t := by
    refine .error (congrArg Attempt.submitted (ha q)) h.pos fun _ refusal hr => ?_
    rw [show t.uncertain = false from congrArg Attempt.uncertain (ha q)]
    exact hn refusal hr
  refine .of_bind (asked_ensures Answer.clock (fun t q => .throw (hrf q fun _ hr => by cases hr))
    fun a q _ _ => ?_)
  refine (Ensures.and (moves_check _) (check_named _ _ _)).bind (fun _ b hb => ?_) fun e _ he =>
    hrf (q.trans he.1) fun refusal hr => he.2 refusal (by rw [hr])
  exact (executeEvent_ensures _).mono fun _ _ he => he.spends h (ha (q.trans hb.1))

/-- The receipt of an attempt that ended whole, or before one of the totals for a reason that it
names. -/
def Receipt.Conforms (totals : List ℕ) (r : Receipt) : Prop :=
  ∃ a : Attempt, r = a.receipt r.sequence r.refusal ∧
    (r.refusal = none → a.uncertain = false ∧ a.submitted ∈ totals) ∧
    ∀ refusal, r.refusal = some refusal → (∃ n ∈ totals, a.submitted < n) ∧
      if a.uncertain then refusal = .unknownEffect else refusal.Named

theorem Explains.of_append {tr new} (h : Explains (tr ++ new)) : Explains tr :=
  fun op warranted res hm => h op warranted res (mem_append_left _ hm)

theorem recorded_record (w : World) (rc : Receipt) :
    recorded (w.record rc false).trail = recorded w.trail ++ [rc] := by
  obtain ⟨new,_,_,hnew,hr⟩ := record_shape w rc false
  have hn : recorded new = [] := filterMap_eq_nil_iff.mpr fun o ho => by rw [hnew o ho]; rfl
  rw [hr,recorded_append,recorded_append,hn]
  rfl

theorem Spends.conforms {res} (h : Spends totals res t)
    (he : Explains t.trail) (sequence : ℕ) : Receipt.Conforms totals
      (t.receipt sequence (t.ended res)) := by
  refine ⟨t.toAttempt,rfl,fun hnn => ?_,fun refusal hsome => ?_⟩
  · rcases res with (refusal | _) | _
    · cases hnn
    · cases hnn
    · obtain ⟨n,hn,ht⟩ := h
      rw [ht]
      exact ⟨rfl,hn⟩
  · rcases res with (refusal | _) | _
    · cases hsome
      exact (h he).imp_right fun hb => hb refusal rfl
    · cases hsome
      refine ⟨(h he).1,?_⟩
      unfold Attempt.unwindRefusal
      split_ifs
      · rfl
      · exact named_of_reason rfl (by decide)
    · cases hsome

/-- Every way out of an attempt records a receipt that conforms. -/
theorem attempt_conforms (hr : req.event.isPointer = false) :
    Ensures (attempt req) w fun _ t => ∃ rc : Receipt, rc.sequence = req.sequence ∧
      recorded t.trail = recorded w.trail ++ [rc] ∧
      (req.event.Sendable → Explains t.trail → rc.Conforms req.event.totals) := by
  have he : Ensures (execute req) {w with submitted := 0, uncertain := false} fun r t =>
      recorded t.trail = recorded w.trail ∧ (req.event.Sendable → Spends req.event.totals r t) := by
    refine .mono (.and (moves_execute req)
      (Q := fun r t => req.event.Sendable → Spends req.event.totals r t) ?_)
      fun r t ht => ⟨(Untouched.of_steps ht.1).recorded,ht.2⟩
    by_cases hs : req.event.Sendable
    · exact (execute_spends hs rfl).mono fun _ _ h _ => h
    · exact (Ensures.trivial _).mono fun _ _ _ h => absurd h hs
  refine attempt_ensures he fun res t _ ht _ => ⟨t.receipt req.sequence (t.ended res),rfl,?_⟩
  rw [hr,recorded_record,ht.1]
  refine ⟨rfl,fun hs hexp => ?_⟩
  obtain ⟨_,hnew,-⟩ := Silent.record t (t.receipt req.sequence (t.ended res)) false
  rw [hnew] at hexp
  exact (ht.2 hs).conforms hexp.of_append req.sequence

theorem dispatch_conforms (hr : req.event.isPointer = false) :
    Ensures (dispatch req) w fun _ t => recorded t.trail = recorded w.trail ∨
      ∃ rc : Receipt, rc.sequence = req.sequence ∧ recorded t.trail = recorded w.trail ++ [rc] ∧
        (req.event.Sendable → Explains t.trail → rc.Conforms req.event.totals) := by
  refine (dispatch_ensures req w).mono fun r t ht => ?_
  cases ht with
  | idle q => exact .inl (Untouched.of_frame (.of_quiet q)).recorded
  | answered => exact .inl rfl
  | fenced => exact .inl (recorded_revoke _)
  | pointed hp => cases hr.symm.trans hp
  | admitted => exact .inr (attempt_conforms hr)

/-- Every receipt of a run is that of a request of the run. -/
structure Accounted (past : List SessionEvent) (w : World) : Prop where
  books : Books w (recorded w.trail)
  receipts : ∀ receipt ∈ recorded w.trail, ∃ e ∈ past, ∃ request, e.input = .dispatch request ∧
    request.event.isPointer = false ∧ request.sequence = receipt.sequence ∧
    (request.event.Sendable → Explains w.trail → receipt.Conforms request.event.totals)

theorem trail_grows (w : World) (call : SessionCall) :
    ∃ new, (step w call).2.trail = w.trail ++ new := by
  obtain ⟨new,h⟩ := stages_extends (step_stages w call)
  exact ⟨new,h.trail⟩

theorem Accounted.step {past} (h : Accounted past w) (call : SessionCall) :
    Accounted (past ++ [⟨w,call,(step w call).1⟩]) (step w call).2 := by
  refine ⟨(step_advances h.books call).books,fun rc hrt => ?_⟩
  obtain ⟨new,hnew⟩ := trail_grows w call
  have hold (hm : rc ∈ recorded w.trail) :
    ∃ e ∈ past ++ [(⟨w,call,(Input.step w call).1⟩ : SessionEvent)],
      ∃ req, e.input = .dispatch req ∧ req.event.isPointer = false ∧ req.sequence = rc.sequence ∧
        (req.event.Sendable → Explains (Input.step w call).2.trail →
            rc.Conforms req.event.totals) := by
    obtain ⟨e,he,req,hi,hrel,hsq,hc⟩ := h.receipts rc hm
    refine ⟨e,mem_append_left _ he,req,hi,hrel,hsq,fun hs hexp => hc hs ?_⟩
    rw [hnew] at hexp
    exact hexp.of_append
  have ho (hca : call.reliable = false) : rc ∈ recorded w.trail := by
    have hstage := step_stages w call
    rw [hca] at hstage
    rwa [← (h.books.of_stages hstage).2]
  cases call with
  | dispatch req =>
    cases hp : req.event.isPointer with
    | true => exact hold (ho (by simp [SessionCall.reliable,hp]))
    | false =>
      have hc := dispatch_conforms (w := w) hp
      rcases hc with hsm | ⟨new,hsq,hr,hc⟩
      · exact hold (hsm ▸ hrt)
      · change rc ∈ recorded (exec (dispatch req) w).2.trail at hrt
        rw [hr] at hrt
        rcases mem_append.mp hrt with hrt | hrt
        · exact hold hrt
        · cases mem_singleton.mp hrt
          exact ⟨_,mem_concat_self,req,rfl,hp,hsq.symm,hc⟩
  | _ => exact hold (ho rfl)

theorem accounted_run {a} (h : Opens a w) (calls : List SessionCall) :
    Accounted (trace w calls) (final w calls) := by
  refine history_invariant Input.step ⟨h.books,fun rc hr => ?_⟩
    (fun _ _ call h => h.step call) calls
  rw [h.2.2] at hr
  cases hr

theorem final_trail (w : World) (calls : List SessionCall) :
    ∃ new, (final w calls).trail = w.trail ++ new := by
  induction calls generalizing w with
  | nil => exact ⟨[],(append_nil _).symm⟩
  | cons call calls ih =>
    obtain ⟨new,hnew⟩ := trail_grows w call
    obtain ⟨new',hnew'⟩ := ih (Input.step w call).2
    exact ⟨new ++ new',by rw [← append_assoc,← hnew]; exact hnew'⟩

theorem Books.unique (h : Books w (recorded w.trail)) {r r'} (hr : r ∈ recorded w.trail)
    (hr' : r' ∈ recorded w.trail) (hs : r.sequence = r'.sequence) : r = r' := by
  obtain ⟨i,hi⟩ := mem_iff_getElem?.mp hr
  obtain ⟨j,hj⟩ := mem_iff_getElem?.mp hr'
  rw [← h.numbered i r hi] at hi
  rw [← h.numbered j r' hj,← hs] at hj
  exact Option.some.inj (hi.symm.trans hj)

/-- A completed request is answered with its recorded receipt. -/
theorem completed_recorded {rc} (h : Books w (recorded w.trail))
    (hrel : req.event.isPointer = false)
    (hrp : (Input.step w (.dispatch req)).1 = .dispatched (.ok (.completed rc))) :
    rc ∈ recorded (Input.step w (.dispatch req)).2.trail ∧ rc.sequence = req.sequence := by
  by_cases hf : req.credentials.session ≠ w.session ∨ req.credentials.lease ≠ w.lease
  · obtain ⟨_,-,hstep⟩ := dispatch_foreign hf
    rw [hstep] at hrp
    cases hrp
  · push Not at hf
    have hd : Dispatched w (recorded w.trail) req (exec (dispatch req) w).1
        (Input.step w (.dispatch req)).2 := dispatch_books hrel h hf.1 hf.2
    rw [show (exec (dispatch req) w).1 = .ok (.completed rc) from SessionReply.dispatched.inj hrp]
      at hd
    generalize (Input.step w (.dispatch req)).2 = t at hd ⊢
    cases hd with
    | replayed hl => exact ⟨mem_of_getElem? hl,h.numbered _ _ hl⟩
    | attempted _ _ hs _ hr hrp =>
      rcases hrp with hrp | hrp
      · cases hrp
        exact ⟨hr ▸ mem_concat_self,hs⟩
      · cases hrp

end Counts

/-- The host answered a request of this sequence with the receipt. -/
def Answered (events : List SessionEvent) (sequence : ℕ) (receipt : Receipt) : Prop :=
  ∃ e ∈ events, ∃ request, e.input = .dispatch request ∧ request.event.isPointer = false ∧
    request.sequence = sequence ∧ e.reply = .dispatched (.ok (.completed receipt))

section Answers

variable {w : World} {calls : List SessionCall} {sequence : ℕ} {rc : Receipt}
    {a : Authority.SessionAuthority}

theorem Answered.recorded_ (ho : Opens a w) (h : Answered (trace w calls) sequence rc) :
    rc ∈ recorded (final w calls).trail ∧ rc.sequence = sequence := by
  obtain ⟨e,he,req,hi,hrel,hs,hr⟩ := h
  obtain ⟨_,_,ht⟩ := append_of_mem he
  obtain ⟨before,_,rest,hc,rfl,rfl,_⟩ := trace_split Input.step ht
  cases hi
  obtain ⟨hm,hrt⟩ := completed_recorded (runBooks ho before).books hrel hr
  refine ⟨?_,hrt.trans hs⟩
  obtain ⟨_,hnew⟩ := final_trail (Input.step (final w before) (.dispatch req)).2 rest
  have hfin : final w calls = final (Input.step (final w before) (.dispatch req)).2 rest := by
    rw [hc]
    exact final_append Input.step w before _
  rw [hfin,hnew,recorded_append]
  exact mem_append_left _ hm

theorem Answered.unique {rc'} (ho : Opens a w) (h : Answered (trace w calls) sequence rc)
    (h' : Answered (trace w calls) sequence rc') : rc = rc' := by
  obtain ⟨hm,hs⟩ := h.recorded_ ho
  obtain ⟨hm',hs'⟩ := h'.recorded_ ho
  exact (runBooks ho calls).books.unique hm hm' (hs.trans hs'.symm)

/-- It conforms to the action that was sent with that sequence. -/
theorem Answered.conforms {ev} (ho : Opens a w) (h : Answered (trace w calls) sequence rc)
    (hse : ∀ e ∈ trace w calls, ∀ req, e.input = .dispatch req → req.event.isPointer = false →
      req.sequence = sequence → req.event = ev)
    (hs : ev.Sendable) (hexp : Explains (final w calls).trail) : rc.Conforms ev.totals := by
  obtain ⟨hm,hsq⟩ := h.recorded_ ho
  obtain ⟨e,he,req,hi,hrel,hr,hc⟩ := (accounted_run ho calls).receipts rc hm
  have hev := hse e he req hi hrel (hr.trans hsq)
  rw [hev] at hc
  exact hc hs hexp

end Answers

end FrankenRemote.Input
