import FrankenRemote.AuthoritySuspension
import FrankenRemote.InputSubmission

/-! Everything that a call of the owner or its surroundings can do to the world, one indivisible
change at a time. Later invariants are case analyses on these lists. -/
namespace FrankenRemote.Input

open Procedure Relation List

/-- Looking around: the owner keeps what it holds and what it recorded. -/
inductive Quietly : World → World → Prop
  | turn (w : World) : Quietly w w.interleave
  | ask (w : World) : Quietly w {w with answers := w.answers.tail}
  | flag (w : World) : Quietly w w.flag
  | consult (w : World) {op} (h : op.confirms = false) :
      Quietly w (w.consult op)
  | clock (w : World) (now : HostInstant) : Quietly w {w with clock := now}
  | view (w : World) : Quietly w {w with view := w.view.followRecovery w.authority}

abbrev Quiet : World → World → Prop := ReflTransGen Quietly

/-- The check passed on `a`, right before the policy was consulted. -/
structure Passes (credentials : InputCredentials) (a : World) (at_ until_ : HostInstant) :
    Prop where
  active : a.isActive = true
  view : credentials.view = a.view
  lease : a.authority.leaseId = some a.lease
  owner : a.authority.isNativeOwner a.nativeOwner = true
  accepted : (Authority.step a.authority (.submissionDeadline a.lease credentials.ticket at_)).1 =
    .instant (.ok until_)

/-- The operation may follow at once. -/
inductive Grant (credentials : InputCredentials) (op : Operation) : World → World → Prop
  | mk {w at_ until_} (h : Passes credentials w at_ until_) :
      Grant credentials op w
        ((w.consult (.submissionDeadline w.lease credentials.ticket at_)).grant credentials op)

/-- Inside one authorized submission. -/
inductive Checking (credentials : InputCredentials) (op : Operation) : World → World → Prop
  | quiet {w w'} (h : Quietly w w') : Checking credentials op w w'
  | grant {w w'} (h : Grant credentials op w w') : Checking credentials op w w'

/-- Inside one action of the given request, or inside a call without one. The replay record is
untouched. -/
inductive Step (credentials : Option InputCredentials) : World → World → Prop
  | quiet {w w'} (h : Quietly w w') : Step credentials w w'
  | prepare (w : World) (op : Operation) : Step credentials w (w.note (.prepare op))
  | checked {w w' c op} (hc : credentials = some c)
      (h : Grant c op w w') : Step credentials w w'
  | report {w a b c op} (hc : credentials = some c)
      (h : Grant c op w a) (q : ReflTransGen Quietly a b) (result : Except Refusal Submission) :
      Step credentials w (b.note (.report op true result))
  | unwound {w a b c op} (hc : credentials = some c)
      (h : Grant c op w a) (q : ReflTransGen Quietly a b) :
      Step credentials w (b.note (.unwound op true))
  | unchecked (w : World) (op : Operation) (result : Except Refusal Submission) :
      Step credentials w (w.note (.report op false result))
  | uncalled (w : World) (op : Operation) : Step credentials w (w.note (.unwound op false))
  | submit {w op} (hrelease : op.isRelease = true)
      (htracked : w.tracked op = true) (result : Submission) :
      Step credentials w (w.note (.submit op true result))
  /-- Bookkeeping, which never begins to hold anything. -/
  | tidy {w s a}
      (hheld : w.toSyntheticHeld = .none_ → s.toSyntheticHeld = .none_)
      (hrecord : s.toReplayRecord = w.toReplayRecord) (hsession : s.session = w.session)
      (hlease : s.lease = w.lease) (howner : s.nativeOwner = w.nativeOwner) :
      Step credentials w {w with toInputSession := s, toAttempt := a}
  /-- A press that its sink reports without having asked. -/
  | stray {w c op} (hc : credentials = some c)
      (h : .report op false (.ok .submitted) ∈ w.trail) : Step credentials w (w.confirm op)

/-- Inside one call, which may be that of a reliable action. -/
inductive Stage (reliable : Bool) (credentials : Option InputCredentials) : World → World → Prop
  | step {w w'} (h : Step credentials w w') : Stage reliable credentials w w'
  | fence (w : World) : Stage reliable credentials w {w with ledger := w.ledger.fence}
  | retain {w r} (hreliable : reliable = true)
      (h : w.ledger.fenced = true → r.ledger.fenced = true) :
      Stage reliable credentials w {w with toReplayRecord := r}
  | record {w receipt}
      (h : receipt.outcome.succeeded = false → w.isActive = false) :
      Stage reliable credentials w (w.note (.record receipt (!reliable)))
  | confirm {w} (h : w.heldCount = 0) :
      Stage reliable credentials w (w.consult (.confirmSuspensionRelease w.lease))

section Quiet

variable {w : World}

theorem foldl_disturb_session (is : List Interference) (w : World) :
    (is.foldl World.disturb w).toInputSession = w.toInputSession := by
  induction is generalizing w with
  | nil => rfl
  | cons i is ih =>
    rw [foldl_cons,ih]
    cases i <;> rfl

@[simp] theorem interleave_session (w : World) : w.interleave.toInputSession = w.toInputSession :=
  foldl_disturb_session _ _

theorem moves_others : Moves Quietly others w := .modify (.turn w)

variable {α : Type}

theorem others_bind {k : Unit → Owner α} {P : Except Stop α → World → Prop}
    (h : Ensures (k ()) w.interleave P) : Ensures (others >>= k) w P := h

theorem moves_ask : Moves Quietly ask w :=
  .bind moves_others fun _ t => .get_bind (.modify_bind (.ask t) (.pure _))

theorem interleave_answers (w : World) : w.interleave.answers = w.answers := by
  have h (is : List Interference) (w : World) : (is.foldl World.disturb w).answers = w.answers := by
    induction is generalizing w with
    | nil => rfl
    | cons i is ih =>
      rw [foldl_cons,ih]
      cases i <;> rfl
  exact h _ _

theorem ask_bind {f : Answer → Owner α} {P : Except Stop α → World → Prop}
    (h : ∀ a t, Quiet w t → a ∈ w.answers ∨ a = .unwinds → Ensures (f a) t P) :
    Ensures (ask >>= f) w P := by
  refine .of_bind (others_bind
    (.get_bind (.modify_bind (.pure (h _ _ (.tail (.single (.turn w)) (.ask _)) ?_)))))
  rw [interleave_answers]
  cases w.answers with
  | nil => exact .inr rfl
  | cons a rest => exact .inl mem_cons_self

/-- Calls that only look at their answer. -/
theorem asked_ensures {Q : Except Stop α → World → Prop} (f : Answer → α)
    (her : ∀ t, Quiet w t → Q (.error .panicked) t)
    (hok : ∀ t, Quiet w t → ∀ a ∈ w.answers, Q (.ok (f a)) t) :
    Ensures (do
      let a ← ask
      refuseIf (a.panics = true) .panicked
      pure (f a)) w Q := by
  refine ask_bind fun a t q ha => .refuseIf_bind (fun _ => her t q) fun hcalm => .pure ?_
  rcases ha with ha | rfl
  · exact hok t q a ha
  · exact absurd rfl hcalm

theorem moves_asked (f : Answer → α) :
    Moves Quietly (do
      let a ← ask
      refuseIf (a.panics = true) .panicked
      pure (f a) : Owner α) w := asked_ensures f (fun _ q => q) fun _ q _ _ => q

theorem moves_sampleClock : Moves Quietly sampleClock w := moves_asked Answer.clock

theorem moves_checkActive : Moves Quietly checkActive w :=
  .bind moves_others fun _ _ => .get_bind (.refuseIf _ _)

/-- A call on the policy reaches it only for the granted lease of this owner, and not after a
revocation. -/
structure Reaches (w a : World) : Prop where
  quiet : ReflTransGen Quietly w a
  view : a.view = w.view
  opened : a.revoked = false
  lease : a.authority.leaseId = some a.lease
  owner : a.authority.isNativeOwner a.nativeOwner = true

/-- The refusals of a final check. -/
inductive Declined : Stop → Prop
  | revoked : Declined (.refused .revoked)
  | view : Declined (.refused .staleView)
  | lease : Declined (.refused (.authority .staleLease))
  | clock : Declined (.refused (.authority .clockRegression))
  | authority {s lease ticket now e}
      (h : (exec (Authority.submissionDeadline lease ticket now) s).1 = .error e) :
      Declined (.refused (.authority e))

theorem locked_ensures {Q : Except Stop Authority.Reply → World → Prop}
    (op : Authority.SessionAuthority → Authority.Op)
    (her : ∀ e t, Declined e → Quiet w t → Q (.error e) t)
    (hok : ∀ a, Reaches w a → Q (.ok (Authority.step a.authority (op a.authority)).1)
      (a.consult (op a.authority))) :
    Ensures (locked op) w Q := by
  refine others_bind (.get_bind (.refuseIf_bind (fun _ => her _ _ .revoked (.single (.turn w)))
    fun _ => ?_))
  have hq : Quiet w w.interleave.interleave := .tail (.single (.turn w)) (.turn _)
  refine others_bind (.get_bind (.refuseIf_bind (fun _ => her _ _ .revoked hq) fun hon => ?_))
  refine .refuseIf_bind (fun _ => her _ _ .lease hq) fun ho => ?_
  push Not at ho
  exact .modify_bind (.pure (hok _ ⟨hq,by simp,by simpa using hon,ho.1,ho.2⟩))

theorem withTime_ensures {Q} (now : HostInstant) (op : HostInstant → Authority.Op)
    (her : ∀ e t, Declined e → Quiet w t → Q (.error e) t)
    (hok : ∀ a at_, Reaches w a → Q (.ok (Authority.step a.authority (op at_)).1)
      (a.consult (op at_))) :
    Ensures (withTime now op) w Q := by
  refine .get_bind (.ite (fun _ => .modify_bind (.throw (her _ _ .clock (.single (.flag w)))))
    fun _ => .modify_bind ?_)
  have hc : Quiet w {w with clock := now} := .single (.clock w now)
  exact locked_ensures _ (fun e t he q => her e t he (hc.trans q)) fun a ha =>
    hok a _ {ha with quiet := hc.trans ha.quiet}

theorem moves_withTime {now op}
    (h : ∀ at_, (op at_).confirms = false) : Moves Quietly (withTime now op) w :=
  withTime_ensures now op (fun _ _ _ q => q) fun a at_ ha => ha.quiet.tail (.consult a (h at_))

theorem moves_instantOf (r : Authority.Reply) : Moves Quietly (instantOf r) w := by
  cases r <;> first | exact .ofResult _ | exact .throw _

theorem moves_statusOf (r : Authority.Reply) : Moves Quietly (statusOf r) w := by
  cases r <;> first | exact .ofResult _ | exact .throw _

theorem moves_flagOf (e : Authority.AuthorityError) (r : Authority.Reply) :
    Moves Quietly (flagOf e r) w := by
  cases r <;> first | exact .refuseIf _ _ | exact .throw _

end Quiet

/-! What looking around leaves alone. -/

/-- Occurrences that others cause, or that only consult the policy. -/
def Occurrence.aside : Occurrence → Bool
  | authority _ _ | revoke => true
  | _ => false

structure Frame (w w' : World) : Prop where
  held : w'.toSyntheticHeld = w.toSyntheticHeld
  record : w'.toReplayRecord = w.toReplayRecord
  attempt : w'.toAttempt = w.toAttempt
  session : w'.session = w.session
  lease : w'.lease = w.lease
  owner : w'.nativeOwner = w.nativeOwner
  revoked : w.revoked = true → w'.revoked = true
  trail : ∃ new, w'.trail = w.trail ++ new ∧ (∀ o ∈ new, o.aside = true) ∧
    (.revoke ∈ new → w'.revoked = true)

namespace Frame

theorem refl (w : World) : Frame w w := ⟨rfl,rfl,rfl,rfl,rfl,rfl,id,[],by simp,by simp,by simp⟩

theorem trans {w w' w''} (h : Frame w w') (h' : Frame w' w'') : Frame w w'' where
  held := h'.held.trans h.held
  record := h'.record.trans h.record
  attempt := h'.attempt.trans h.attempt
  session := h'.session.trans h.session
  lease := h'.lease.trans h.lease
  owner := h'.owner.trans h.owner
  revoked hw := h'.revoked (h.revoked hw)
  trail := by
    obtain ⟨new,hnew,ha,hr⟩ := h.trail
    obtain ⟨new',hnew',ha',hr'⟩ := h'.trail
    refine ⟨new ++ new',by rw [hnew',hnew,append_assoc],fun o ho => ?_,fun ho => ?_⟩
    · rcases mem_append.mp ho with ho | ho
      · exact ha o ho
      · exact ha' o ho
    · rcases mem_append.mp ho with ho | ho
      · exact h'.revoked (hr ho)
      · exact hr' ho

theorem consult (w : World) (op : Authority.Op) : Frame w (w.consult op) :=
  ⟨rfl,rfl,rfl,rfl,rfl,rfl,id,_,rfl,by simp [Occurrence.aside],by simp⟩

theorem flag (w : World) : Frame w w.flag :=
  ⟨rfl,rfl,rfl,rfl,rfl,rfl,fun _ => rfl,_,rfl,by simp [Occurrence.aside],fun _ => rfl⟩

theorem disturb (w : World) (i : Interference) : Frame w (w.disturb i) := by
  cases i with
  | revoke => exact flag w
  | authority op => exact consult w op

theorem foldl_disturb (w : World) (is : List Interference) :
    Frame w (is.foldl World.disturb w) := by
  induction is generalizing w with
  | nil => exact refl w
  | cons i is ih => exact (disturb w i).trans (ih _)

theorem of_quietly {w w'} (h : Quietly w w') : Frame w w' := by
  have same {w' : World} (hh : w'.toSyntheticHeld = w.toSyntheticHeld)
      (hr : w'.toReplayRecord = w.toReplayRecord) (ha : w'.toAttempt = w.toAttempt)
      (hs : w'.session = w.session) (hl : w'.lease = w.lease)
      (ho : w'.nativeOwner = w.nativeOwner) (hrev : w'.revoked = w.revoked)
      (ht : w'.trail = w.trail) : Frame w w' :=
    ⟨hh,hr,ha,hs,hl,ho,fun hw => hrev.trans hw,[],by simp [ht],by simp,by simp⟩
  cases h with
  | turn =>
    have hst : Frame w {w with schedule := w.schedule.tail} := same rfl rfl rfl rfl rfl rfl rfl rfl
    exact hst.trans (foldl_disturb _ _)
  | ask | clock | view => exact same rfl rfl rfl rfl rfl rfl rfl rfl
  | flag => exact flag w
  | consult => exact consult w _

theorem of_quiet {w w'} (h : Quiet w w') : Frame w w' := by
  induction h with
  | refl => exact refl w
  | tail _ h ih => exact ih.trans (of_quietly h)

end Frame

/-! The final check. -/

section Checks

variable {w : World} {cr : InputCredentials}

theorem checkActive_ensures {Q : Except Stop Unit → World → Prop}
    (her : ∀ t, Quiet w t → t.isActive = false → Q (.error (.refused .revoked)) t)
    (hok : ∀ t, Quiet w t → t.isActive = true → Q (.ok ()) t) : Ensures checkActive w Q :=
  others_bind (.get_bind (.refuseIf (her _ (.single (.turn w))) fun ha =>
    hok _ (.single (.turn w)) (by simpa using ha)))

theorem check_ensures {Q : Except Stop HostInstant → World → Prop} (now : HostInstant)
    (her : ∀ e t, Declined e → Quiet w t → Q (.error e) t)
    (hok : ∀ u a at_, Quiet w a → Passes cr a at_ u →
      Q (.ok u) (a.consult (.submissionDeadline a.lease cr.ticket at_))) :
    Ensures (check cr now) w Q := by
  refine .of_bind (checkActive_ensures (fun _ q _ => .throw (her _ _ .revoked q)) fun b hb ho => ?_)
  have hu : b.ledger.fenced = false := by
    simp only [World.isActive,Bool.and_eq_true,Bool.not_eq_true'] at ho
    exact ho.2
  have hview := (hb.tail (.turn b)).tail (.view _)
  refine others_bind
    (.modify_bind (.get_bind (.refuseIf_bind (fun _ => her _ _ .view hview) fun hs => ?_)))
  refine .of_bind (withTime_ensures _ _ (fun e t he q => .throw (her e t he (hview.trans q)))
    fun a at_ ha => ?_)
  have hq := hview.trans ha.quiet
  have hf : Frame b a := .of_quiet (.head (.turn b) (.head (.view _) ha.quiet))
  have hact : a.isActive = true := by simp [World.isActive,ha.opened,hf.record,hu]
  have hl : a.lease = b.interleave.lease := (Frame.of_quiet ha.quiet).lease
  dsimp only
  rw [← hl]
  change Ensures (instantOf
    (.instant (exec (Authority.submissionDeadline a.lease cr.ticket at_) a.authority).1)) _ _
  cases hr : (exec (Authority.submissionDeadline a.lease cr.ticket at_) a.authority).1 with
  | ok u =>
    exact .pure (hok u a at_ hq
      ⟨hact,(not_not.mp hs).trans ha.view.symm,ha.lease,ha.owner,
        congrArg Authority.Reply.instant hr⟩)
  | error e => exact .throw (her _ _ (.authority hr) (hq.tail (.consult a rfl)))

theorem authorize_ensures {Q op}
    (her : ∀ e t, Quiet w t → Q (.error e) t)
    (hok : ∀ a t, Quiet w a → Grant cr op a t → Q (.ok ()) t) :
    Ensures (authorize cr op) w Q :=
  Ensures.bind moves_sampleClock (fun now _ hb => .of_bind (check_ensures now
    (fun e t _ q => .throw (her e t (hb.trans q)))
    fun _ a _ ha hpass => .of_exec (exec_modify _ _) (hok a _ (hb.trans ha) (.mk hpass))))
      fun e t q => her e t q

end Checks

theorem checking_of_quiet {cr op w t}
    (h : Quiet w t) : ReflTransGen (Checking cr op) w t :=
  ReflTransGen.mono (fun _ _ => .quiet) _ _ h

/-- What the callbacks of one submission did. -/
inductive Calls (credentials : InputCredentials) (op : Operation) (n : ℕ) (w : World) :
    Except Stop Bool → World → Prop
  | refused {t} (q : ReflTransGen Quietly w t) : Calls credentials op n w (.ok false) t
  | granted {a b t} (h : ReflTransGen (Checking credentials op) w a)
      (g : Grant credentials op a b) (q : ReflTransGen Quietly b t) :
      Calls credentials op n w (.ok true) t
  | unwound {t} (hn : 0 < n) (h : ReflTransGen (Checking credentials op) w t)
      (q : n ≤ 1 → ReflTransGen Quietly w t) : Calls credentials op n w (.error .panicked) t

theorem callBack_ensures (cr : InputCredentials) (op : Operation) (n : ℕ) (w : World) :
    Ensures (callBack cr op n) w (Calls cr op n w) := by
  induction n generalizing w with
  | zero => exact .pure (.refused .refl)
  | succ n ih =>
    refine .caught_bind (authorize_ensures (fun e t ht => ?_) fun a t ha hg => ?_) fun _ _ => id
    · cases e with
      | panicked => exact .throw (.unwound (by omega) (checking_of_quiet ht) fun _ => ht)
      | refused refusal =>
        refine (ih t).mono fun r u h => ?_
        cases h with
        | refused q => exact .refused (ht.trans q)
        | granted h g q => exact .granted ((checking_of_quiet ht).trans h) g q
        | unwound hn h q =>
          exact .unwound (by omega) ((checking_of_quiet ht).trans h)
            fun hone => ht.trans (q (by omega))
    · have hc : ReflTransGen (Checking cr op) w t :=
        (checking_of_quiet ha).tail (.grant hg)
      refine (ih t).bind (fun granted u h => .pure ?_) fun e u h => ?_
      · cases h with
        | refused q => exact .granted (checking_of_quiet ha) hg q
        | granted h g q => exact .granted (hc.trans h) g q
      · cases h with
        | unwound hn h q => exact .unwound (by omega) (hc.trans h) fun hone => by omega

inductive Submits (credentials : InputCredentials) (op : Operation) (w : World) :
    Except Stop (Except Refusal Submission) → World → Prop
  | failed {t} (h : ReflTransGen (Checking credentials op) w t)
      (q : (∀ a ∈ w.answers, a.callbacks ≤ 1) → ReflTransGen Quietly w t) :
      Submits credentials op w (.error .panicked) t
  | unchecked {t} (q : ReflTransGen Quietly w t) (result : Except Refusal Submission) :
      Submits credentials op w (.ok result) (t.note (.report op false result))
  | uncalled {t} (q : ReflTransGen Quietly w t) :
      Submits credentials op w (.error .panicked) (t.note (.unwound op false))
  | checked {a b t} (h : ReflTransGen (Checking credentials op) w a)
      (g : Grant credentials op a b) (q : ReflTransGen Quietly b t)
      (result : Except Refusal Submission) :
      Submits credentials op w (.ok result) (t.note (.report op true result))
  | unwound {a b t} (h : ReflTransGen (Checking credentials op) w a)
      (g : Grant credentials op a b) (q : ReflTransGen Quietly b t) :
      Submits credentials op w (.error .panicked) (t.note (.unwound op true))

theorem submitAuthorized_ensures (cr : InputCredentials) (op : Operation) (w : World) :
    Ensures (submitAuthorized cr op) w (Submits cr op w) := by
  refine ask_bind fun a b hb ha => (callBack_ensures cr op a.callbacks b).bind
    (fun granted t h => ?_) fun e t h => ?_
  · have hc : ReflTransGen (Checking cr op) w b := checking_of_quiet hb
    refine others_bind (.ite (fun _ => .modify_bind (.throw ?_)) fun _ => .modify_bind (.pure ?_))
    · cases h with
      | refused q => exact .uncalled ((hb.trans q).tail (.turn t))
      | granted h g q => exact .unwound (hc.trans h) g (q.tail (.turn t))
    · cases h with
      | refused q => exact .unchecked ((hb.trans q).tail (.turn t)) _
      | granted h g q => exact .checked (hc.trans h) g (q.tail (.turn t)) _
  · cases h with
    | unwound _ h q =>
      refine .failed ((checking_of_quiet hb).trans h) fun hcall => hb.trans (q ?_)
      rcases ha with ha | rfl
      · exact hcall a ha
      · simp [Answer.unwinds]

/-! Held state. -/

def Operation.isPress : Operation → Bool
  | key _ .press | button _ true | wheel _ true => true
  | _ => false

namespace SyntheticHeld

variable (h : SyntheticHeld) {op : Operation}

theorem track_before (ho : op.isPress = false) : h.track op true = h := by
  cases op with
  | key k t => cases t <;> first | rfl | cases ho
  | button b p | wheel d p => cases p <;> first | rfl | cases ho
  | _ => rfl

theorem track_press (ho : op.isPress = true) (before : Bool) :
    h.track op before = h.track op true := by
  cases op with
  | key k t => cases t <;> first | rfl | cases ho
  | button b p | wheel d p => cases p <;> first | rfl | cases ho
  | _ => cases ho

theorem tracked_track (ho : op.isPress = true) : (h.track op true).tracked op = true := by
  cases op with
  | key k t => cases t <;> first | (cases ho; done) | simp [track,tracked]
  | button b p | wheel d p => cases p <;> first | (cases ho; done) | simp [track,tracked]
  | _ => cases ho

theorem track_track (before : Bool) : (h.track op true).track op before = h.track op before := by
  cases ho : op.isPress with
  | false => rw [track_before h ho]
  | true =>
    rw [track_press h ho before,track_press _ ho before]
    cases op with
    | key k t => cases t <;> first | (cases ho; done) | simp [track]
    | button b p | wheel d p => cases p <;> first | (cases ho; done) | simp [track]
    | _ => cases ho

theorem restore_self : h.restore h op = h := by
  cases op with
  | key k t => cases t <;> simp [restore]
  | button b p | wheel d p => cases p <;> simp [restore]
  | _ => rfl

theorem restore_track : (h.track op true).restore h op = h := by
  cases op with
  | key k t => cases t <;> simp [restore,track]
  | button b p | wheel d p => cases p <;> simp [restore,track]
  | _ => rfl

theorem tracked_none (op : Operation) : none_.tracked op = false := by
  cases op <;> rfl

theorem track_ne_none (ho : op.isPress = true) (before : Bool) : h.track op before ≠ none_ := by
  intro heq
  have ht := tracked_track h ho
  rw [← track_press h ho before,heq,tracked_none] at ht
  cases ht

theorem none_track (ho : op.isPress = false) : none_.track op false = none_ := by
  cases op with
  | key k t => cases t <;> first | (cases ho; done) | simp [track,none_]
  | button b p | wheel d p => cases p <;> first | (cases ho; done) | simp [track,none_]
  | _ => rfl

theorem mem_keys (k : PhysicalKey) : k ∈ PhysicalKey.all :=
  mem_filterMap.mpr ⟨k.usage,mem_range.mpr k.usage_lt,PhysicalKey.new_eq_some.mpr rfl⟩

theorem mem_buttons (b : PointerButton) : b ∈ PointerButton.all := by cases b <;> decide

theorem heldCount_eq_zero : h.heldCount = 0 ↔ h = none_ := by
  constructor
  · intro hz
    simp only [heldCount,Nat.add_eq_zero_iff,countP_eq_zero] at hz
    obtain ⟨⟨hkeys,hbs⟩,hwh⟩ := hz
    have hk (k : PhysicalKey) : h.keys k = false := by simpa using hkeys k (mem_keys k)
    have hb (b : PointerButton) : h.buttons b = false := by simpa using hbs b (mem_buttons b)
    have hw : h.wheel = none := by
      cases hd : h.wheel with
      | none => rfl
      | some d => simp [hd] at hwh
    cases h
    exact congr (congr (congrArg SyntheticHeld.mk (funext hk)) (funext hb)) hw
  · rintro rfl
    simp [heldCount,none_]

end SyntheticHeld

/-- The held state that an authorized submission leaves behind. -/
theorem Checking.held {cr op w t}
    (h : ReflTransGen (Checking cr op) w t) :
    t.toSyntheticHeld = w.toSyntheticHeld ∨ t.toSyntheticHeld = w.track op true := by
  induction h with
  | refl => exact .inl rfl
  | tail _ h ih =>
    cases h with
    | quiet h => rw [(Frame.of_quietly h).held]; exact ih
    | grant h =>
      cases h with
      | mk h =>
        right
        change SyntheticHeld.track _ op true = _
        rcases ih with ih | ih
        · exact congrArg (·.track op true) ih
        · exact (congrArg (·.track op true) ih).trans (SyntheticHeld.track_track _ true)

/-! Actions as sequences of steps. -/

section Actions

variable {w : World} {c : Option InputCredentials} {cr : InputCredentials} {op : Operation}

variable {t : World} {r : Except Stop (Except Refusal Submission)}

theorem steps_of_quiet (h : Quiet w t) : ReflTransGen (Step c) w t :=
  ReflTransGen.mono (fun _ _ => .quiet) _ _ h

theorem steps_of_checking (h : ReflTransGen (Checking cr op) w t) :
    ReflTransGen (Step (some cr)) w t := by
  refine ReflTransGen.mono (fun _ _ h => ?_) _ _ h
  cases h with
  | quiet h => exact .quiet h
  | grant h => exact .checked rfl h

theorem Submits.steps (h : Submits cr op w r t) : ReflTransGen (Step (some cr)) w t := by
  cases h with
  | failed h => exact steps_of_checking h
  | unchecked q res => exact (steps_of_quiet q).tail (.unchecked _ op res)
  | uncalled q => exact (steps_of_quiet q).tail (.uncalled _ op)
  | checked h g q res => exact (steps_of_checking h).tail (.report rfl g q res)
  | unwound h g q => exact (steps_of_checking h).tail (.unwound rfl g q)

theorem Submits.held (h : Submits cr op w r t) :
    t.toSyntheticHeld = w.toSyntheticHeld ∨ t.toSyntheticHeld = w.track op true := by
  have noted {u : World} (hu : ReflTransGen (Checking cr op) w u) (o : Occurrence) :
      (u.note o).toSyntheticHeld = w.toSyntheticHeld ∨
          (u.note o).toSyntheticHeld = w.track op true :=
    Checking.held (t := u) hu
  cases h with
  | failed h => exact Checking.held h
  | unchecked q | uncalled q => exact noted (checking_of_quiet q) _
  | checked h g q | unwound h g q => exact noted ((h.tail (.grant g)).trans (checking_of_quiet q)) _

/-- The operation is taken back to exactly what was held before it. -/
theorem Submits.restored
    (h : Submits cr op w r t) : t.restore w.toSyntheticHeld op = w.toSyntheticHeld := by
  rcases h.held with hh | hh
  · rw [hh,SyntheticHeld.restore_self]
  · rw [hh,SyntheticHeld.restore_track]

theorem Submits.takeBack_step
    (h : Submits cr op w r t) : Step c t (t.takeBack w.toSyntheticHeld op) := by
  refine .tidy (fun hn => ?_) rfl rfl rfl rfl
  change SyntheticHeld.restore t.toSyntheticHeld w.toSyntheticHeld op = _
  rw [h.restored]
  rcases h.held with hh | hh
  · exact hh.symm.trans hn
  · have ht : w.track op true = .none_ := hh.symm.trans hn
    cases ho : op.isPress with
    | true => exact absurd ht (SyntheticHeld.track_ne_none _ ho true)
    | false => rwa [SyntheticHeld.track_before _ ho] at ht

theorem Grant.held {w'} (h : Grant cr op w w') : w'.toSyntheticHeld = w.track op true := by
  cases h
  rfl

/-- A confirmed operation adds nothing to what its grant already tracked. -/
theorem Submits.confirm_step (h : Submits cr op w (.ok (.ok .submitted)) t) :
    Step (some cr) t (t.confirm op) := by
  cases h with
  | unchecked q =>
    refine .stray rfl ?_
    simp [World.note]
  | @checked a b u h g q =>
    have hh : u.toSyntheticHeld = a.track op true := (Frame.of_quiet q).held.trans g.held
    refine .tidy (fun hn => ?_) rfl rfl rfl rfl
    have hn : a.track op true = .none_ := hh.symm.trans hn
    change SyntheticHeld.track u.toSyntheticHeld op false = _
    rw [hh,hn]
    cases ho : op.isPress with
    | true => exact absurd hn (SyntheticHeld.track_ne_none _ ho true)
    | false => exact SyntheticHeld.none_track ho

/-! One native operation. -/

inductive Performs (credentials : InputCredentials) (op : Operation) (w : World) :
    Except Stop Unit → World → Prop
  | unprepared {a e} (q : ReflTransGen Quietly w a)
      (he : ∀ refusal, e = .refused refusal → ∃ error, refusal = .platform error) :
      Performs credentials op w (.error e) (a.note (.prepare op))
  | submitted {a t} (q : ReflTransGen Quietly w a)
      (h : Submits credentials op (a.note (.prepare op)) (.ok (.ok .submitted)) t) :
      Performs credentials op w (.ok ()) (t.confirm op)
  | unknown {a t} (q : ReflTransGen Quietly w a)
      (h : Submits credentials op (a.note (.prepare op)) (.ok (.ok .unknown)) t) :
      Performs credentials op w (.error (.refused .unknownEffect)) t
  | refused {a t result} (q : ReflTransGen Quietly w a)
      (h : Submits credentials op (a.note (.prepare op)) (.ok result) t)
      (hresult : result ≠ .ok .submitted ∧ result ≠ .ok .unknown) :
      Performs credentials op w (.error (.refused (refusalOf result)))
        (t.takeBack a.toSyntheticHeld op)
  | unwound {a t} (q : ReflTransGen Quietly w a)
      (h : Submits credentials op (a.note (.prepare op)) (.error .panicked) t) :
      Performs credentials op w (.error .panicked) t

theorem prepare_ensures {Q : Except Stop (Except PlatformError Unit) → World → Prop}
    (her : ∀ a, Quiet w a → Q (.error .panicked) (a.note (.prepare op)))
    (hok : ∀ p a, Quiet w a → Q (.ok p) (a.note (.prepare op))) : Ensures (prepare op) w Q :=
  ask_bind fun _ b q _ => .modify_bind (.refuseIf_bind (fun _ => her b q)
    fun _ => .pure (hok _ b q))

theorem one_ensures : Ensures (one cr op) w (Performs cr op w) := by
  refine .of_bind (prepare_ensures (fun a q => .throw (.unprepared q fun _ h => by cases h))
    fun prepared a q => ?_)
  cases prepared with
  | error error => exact .throw (.unprepared q fun _ h => ⟨error,by cases h; rfl⟩)
  | ok _ =>
    refine .get_bind ((submitAuthorized_ensures cr op _).bind (fun res t h => ?_) fun e t h => ?_)
    · rcases res with refusal | submission
      · exact .modify_bind (.throw (.refused (a := a) q h (by simp)))
      · cases submission with
        | submitted => exact .of_exec (exec_modify _ _) (.submitted q h)
        | unknown => exact .throw (.unknown q h)
        | _ => exact .modify_bind (.throw (.refused (a := a) q h (by simp)))
    · cases e with
      | panicked => exact .unwound q h
      | refused => cases h

theorem Performs.steps {r} (h : Performs cr op w r t) :
    ReflTransGen (Step (some cr)) w t := by
  have hp {a : World} (q : Quiet w a) :
      ReflTransGen (Step (some cr)) w (a.note (.prepare op)) :=
        (steps_of_quiet q).tail (.prepare a op)
  cases h with
  | unprepared q => exact hp q
  | submitted q h => exact ((hp q).trans h.steps).tail h.confirm_step
  | unknown q h | unwound q h => exact (hp q).trans h.steps
  | refused q h => exact ((hp q).trans h.steps).tail h.takeBack_step

/-- Native operations in turn, up to the first that does not succeed. -/
inductive Performed (credentials : InputCredentials) : List Operation → World → Except Stop Unit →
    World → Prop
  | nil (w : World) : Performed credentials [] w (.ok ()) w
  | next {op ops w t u r}
      (h : Performs credentials op w (.ok ()) t) (hrest : Performed credentials ops t r u) :
      Performed credentials (op :: ops) w r u
  | stop {op ops w t e}
      (h : Performs credentials op w (.error e) t) : Performed credentials (op :: ops) w
        (.error e) t

section Performed

variable {ops ops' : List Operation} {m : Owner Unit} {k : Unit → Owner Unit}
    {res : Except Stop Unit}

theorem Performed.append (h : Performed cr ops w res t) :
    (res = .ok () → ∀ {r u}, Performed cr ops' t r u → Performed cr (ops ++ ops') w r u) ∧
      ∀ e, res = .error e → Performed cr (ops ++ ops') w res t := by
  induction h with
  | nil => exact ⟨fun _ _ _ h => h,fun e h => by cases h⟩
  | next h _ ih => exact ⟨fun hr _ _ h' => .next h (ih.1 hr h'),fun e he => .next h (ih.2 e he)⟩
  | stop h => exact ⟨(fun hr => by cases hr),fun _ _ => .stop h⟩

theorem one_performed : Ensures (one cr op) w (Performed cr [op] w) :=
  one_ensures.mono fun r t h => by
    cases r with
    | ok => exact .next h (.nil t)
    | error => exact .stop h

theorem performed_bind (hm : Ensures m w (Performed cr ops w))
    (hk : ∀ t, Ensures (k ()) t (Performed cr ops' t)) :
    Ensures (m >>= k) w (Performed cr (ops ++ ops') w) :=
  hm.bind (fun _ t h => (hk t).mono fun _ _ h' => h.append.1 rfl h') fun e _ h => h.append.2 e rfl

theorem two_performed {op'} :
    Ensures (do one cr op; one cr op') w (Performed cr [op,op'] w) :=
  performed_bind one_performed fun _ => one_performed

theorem each_performed {α : Type} {f g}
    (h : ∀ a w, Ensures (f a) w (Performed cr (g a) w)) (l : List α) :
    Ensures (each f l) w (Performed cr (l.flatMap g) w) := by
  induction l generalizing w with
  | nil => exact .pure (.nil w)
  | cons a l ih => exact performed_bind (h a w) fun _ => ih

theorem Performed.steps (h : Performed cr ops w res t) :
    ReflTransGen (Step (some cr)) w t := by
  induction h with
  | nil => exact .refl
  | next h _ ih => exact h.steps.trans ih
  | stop h => exact h.steps

end Performed

/-! One action. -/

/-- The native work of an event, on a sink that may need pairs. -/
def InputEvent.plan (pairs : Bool) (cumulative : Int64 × Int64) :
    InputEvent → Option (List Operation)
  | key k .repeat_ => some (if pairs then [.key k .release,.key k .press] else [.key k .repeat_])
  | key k transition => some [.key k transition]
  | pointer position => some [.absolute position]
  | button b pressed position _ => some [.absolute position,.button b pressed]
  | scroll position _ x y .pixels => some [.absolute position,.scroll x y .pixels]
  | scroll position _ x y .lines =>
    if pairs then (LineScroll.new x y).map fun discrete =>
      .absolute position :: discrete.steps.flatMap fun d => [.wheel d true,.wheel d false]
    else some [.absolute position,.scroll x y .lines]
  | text s => some (s.toList.flatMap fun scalar => [.text scalar])
  | relative _ cumulativeX cumulativeY =>
    (motion cumulativeX cumulative.1).bind fun x => (motion cumulativeY cumulative.2).map fun y =>
      if x ≠ 0 ∨ y ≠ 0 then [.relative x y] else []
  | mode .. => none

/-- What the owner changes by itself before the first operation of an event. -/
def World.opens (w : World) : InputEvent → World
  | .button _ _ _ barrier | .scroll _ barrier _ _ _ => {w with toInputSession := w.barrier barrier}
  | .mode mode epoch => {w with mode, modeEpoch := epoch, cumulative := (0,0)}
  | _ => w

/-- And after the last. -/
def World.closes (w : World) : InputEvent → Except Stop Unit → World
  | .relative _ x y,.ok _ => {w with cumulative := (x,y)}
  | _,_ => w

/-- Refusals of an event, before its first operation. -/
def Stop.early : Stop → Bool
  | .panicked | .refused .unsupported | .refused .modeMismatch | .refused .outOfBounds
  | .refused .invalidTransition | .refused .relativeOverflow => true
  | _ => false

/-- What the sink answers where an event asks for its kind. -/
def InputEvent.Chooses (answers : List Answer) (pairs : Bool) : InputEvent → Prop
  | key _ .repeat_ => ∃ a ∈ answers, a.repeatRequiresPair = pairs
  | scroll _ _ _ _ .lines => ∃ a ∈ answers, a.lineScrollRequiresPairs = pairs
  | _ => True

def InputEvent.Plans (event : InputEvent) (w : World) (ops : List Operation) : Prop :=
  ∃ pairs, event.Chooses w.answers pairs ∧ event.plan pairs w.cumulative = some ops

/-- What the execution of one event did. -/
inductive Executed (credentials : InputCredentials) (event : InputEvent) (w : World) :
    Except Stop Unit → World → Prop
  | refused {e t} (q : ReflTransGen Quietly w t) (he : e.early = true) :
      Executed credentials event w (.error e) t
  | performed {ops a t r} (q : ReflTransGen Quietly w a)
      (hplan : event.Plans w ops) (h : Performed credentials ops (a.opens event) r t) :
      Executed credentials event w r (t.closes event r)
  | switched {mode epoch r t} (hevent : event = .mode mode epoch)
      (hepoch : w.modeEpoch < epoch) (hidle : w.heldCount = 0)
      (q : ReflTransGen Quietly (w.opens event) t)
      (hvacant : r = .ok () → ∀ lease, t.authority.lease = some lease →
        lease.tickets = SlotTable.vacant) :
      Executed credentials event w r t

section Executed

variable {ev : InputEvent} {m : Owner Unit} {k : Unit → Owner Unit}
    {P : Except Stop Unit → World → Prop}

def Inspects (m : Owner Unit) (w : World) : Prop :=
  Ensures m w fun r t => t = w ∧ ∀ e, r = .error e → e.early = true

theorem Inspects.bind (hm : Inspects m w) (hbad : ∀ e, e.early = true → P (.error e) w)
    (h : Ensures (k ()) w P) : Ensures (m >>= k) w P :=
  Ensures.bind hm (fun _ _ ht => by
    rw [ht.1]; exact h) fun e _ ht => by rw [ht.1]; exact hbad e (ht.2 e rfl)

theorem inspects_refuseIf {c : Prop} [Decidable c] {e : Stop} (he : e.early = true) :
    Inspects (refuseIf c e) w :=
  .refuseIf (fun _ => ⟨rfl,fun _ h => by cases h; exact he⟩) fun _ => ⟨rfl,fun _ h => by cases h⟩

theorem inspects_requireCapability (ca : Capability) : Inspects (requireCapability ca) w :=
  Ensures.get_bind (inspects_refuseIf rfl)

theorem inspects_checkPosition (p : DesktopPoint) : Inspects (checkPosition p) w := by
  have hbad (e : Stop) (he : e.early = true) :
      w = w ∧ ∀ e', (.error e : Except Stop Unit) = .error e' → e'.early = true :=
    ⟨rfl,fun _ h => by cases h; exact he⟩
  refine (inspects_requireCapability _).bind hbad (.get_bind ?_)
  exact (inspects_refuseIf rfl).bind hbad (.get_bind (inspects_refuseIf rfl))

theorem executed_key (key : PhysicalKey) (tr : KeyTransition) :
    Ensures (executeEvent cr (.key key tr)) w (Executed cr (.key key tr) w) := by
  have hbad (e : Stop) (he : e.early = true) : Executed cr (.key key tr) w (.error e) w :=
    .refused .refl he
  refine (inspects_requireCapability _).bind hbad (.get_bind ?_)
  cases tr with
  | press | release =>
    exact (inspects_refuseIf rfl).bind hbad (one_performed.mono fun _ _ h =>
      .performed .refl ⟨false,trivial,rfl⟩ h)
  | repeat_ =>
    refine (inspects_requireCapability _).bind hbad ((inspects_refuseIf rfl).bind hbad ?_)
    refine .of_bind (asked_ensures Answer.repeatRequiresPair (fun t q => .throw (.refused q rfl))
      fun t q a ha => ?_)
    cases hpairs : a.repeatRequiresPair with
    | true => exact two_performed.mono fun _ _ h => .performed q ⟨true,⟨a,ha,hpairs⟩,rfl⟩ h
    | false => exact one_performed.mono fun _ _ h => .performed q ⟨false,⟨a,ha,hpairs⟩,rfl⟩ h

theorem discreteScroll_ensures {Q} (p : DesktopPoint) (b : ℕ) {x y unit}
    (her : ∀ e t, e.early = true → Quiet w t → Q (.error e) t)
    (hok : ∀ d t, Quiet w t → (InputEvent.scroll p b x y unit).Plans w (.absolute p ::
      d.elim [.scroll x y unit] fun s => s.steps.flatMap fun d => [.wheel d true,.wheel d false]) →
        Q (.ok d) t) :
    Ensures (discreteScroll x y unit) w Q := by
  cases unit with
  | pixels => exact .pure (hok _ _ .refl ⟨false,trivial,rfl⟩)
  | lines =>
    refine .of_bind (asked_ensures Answer.lineScrollRequiresPairs
      (fun t q => .throw (her _ t rfl q)) fun t q a ha => ?_)
    cases hpairs : a.lineScrollRequiresPairs with
    | false => exact .pure (hok _ t q ⟨false,⟨a,ha,hpairs⟩,rfl⟩)
    | true =>
      refine .okOr_bind (fun _ => her _ t rfl q)
        fun s hs => .pure (hok _ t q ⟨true,⟨a,ha,hpairs⟩,?_⟩)
      rw [InputEvent.plan,if_pos rfl,hs]
      rfl

theorem executed_scroll (p : DesktopPoint) (b : ℕ) (x y : Int32) (unit : ScrollUnit) :
    Ensures (executeEvent cr (.scroll p b x y unit)) w
      (Executed cr (.scroll p b x y unit) w) := by
  have hbad (e : Stop) (he : e.early = true) :
      Executed cr (.scroll p b x y unit) w (.error e) w := .refused .refl he
  refine (inspects_requireCapability _).bind hbad ((inspects_checkPosition _).bind hbad ?_)
  refine .of_bind (discreteScroll_ensures p b (fun e t he q => .throw (.refused q he))
    fun discrete t q hp => .modify_bind ?_)
  cases discrete with
  | none => exact two_performed.mono fun _ _ h => .performed q hp h
  | some s =>
    exact (performed_bind one_performed fun _ => each_performed (fun _ _ => two_performed) _).mono
      fun _ _ h => .performed q hp h

theorem executed_relative (me : ℕ) (cx cy : Int64) :
    Ensures (executeEvent cr (.relative me cx cy)) w
      (Executed cr (.relative me cx cy) w) := by
  have hbad (e : Stop) (he : e.early = true) :
      Executed cr (.relative me cx cy) w (.error e) w := .refused .refl he
  refine (inspects_requireCapability _).bind hbad (.get_bind ((inspects_refuseIf rfl).bind hbad ?_))
  refine .okOr_bind (fun _ => hbad _ rfl) fun x hx => .okOr_bind (fun _ => hbad _ rfl)
    fun y hy => ?_
  have hp : (InputEvent.relative me cx cy).Plans w
      (if x ≠ 0 ∨ y ≠ 0 then [.relative x y] else []) :=
        ⟨false,trivial,by simp [InputEvent.plan,hx,hy]⟩
  have hmove : Ensures (moveBy cr x y) w
      (Performed cr (if x ≠ 0 ∨ y ≠ 0 then [.relative x y] else []) w) := by
    unfold moveBy
    split
    · exact one_performed
    · exact .pure (.nil w)
  exact hmove.bind (fun _ _ h => .of_exec (exec_modify _ _) (.performed .refl hp h)) fun _ _ h =>
    .performed .refl hp h

theorem invalidate_vacates {a : Authority.SessionAuthority} {l} (h : a.leaseId = some l) :
    ∀ lease, (Authority.step a (.invalidateInputTickets l)).2.lease = some lease →
      lease.tickets = SlotTable.vacant := by
  obtain ⟨lease,hl,rfl⟩ := Option.map_eq_some_iff.mp h
  intro lease' h'
  simp only [Authority.step,Authority.answer,Authority.invalidateInputTickets,exec_get_bind,hl,
    exec_okOr_some_bind,exec_refuseIf_bind,exec_modify] at h'
  rw [if_neg (by simp)] at h'
  simp only [Authority.SessionAuthority.dropTickets,hl,Option.map_some] at h'
  cases h'
  rfl

theorem executed_mode (mode : PointerMode) (ep : ℕ) :
    Ensures (executeEvent cr (.mode mode ep)) w (Executed cr (.mode mode ep) w) := by
  have hbad (e : Stop) (he : e.early = true) : Executed cr (.mode mode ep) w (.error e) w :=
    .refused .refl he
  refine (inspects_requireCapability _).bind hbad (.get_bind (.refuseIf_bind (fun _ => hbad _ rfl)
    fun hfree => ?_))
  rw [not_or,not_le,not_not] at hfree
  refine .modify_bind (.of_bind (locked_ensures _
    (fun _ _ _ q => .throw (.switched rfl hfree.1 hfree.2 q fun h => by cases h)) fun a ha => ?_))
  have hl : a.lease = w.lease := (Frame.of_quiet ha.quiet).lease
  have hq := ha.quiet.tail
    (.consult a (show Authority.Op.confirms (.invalidateInputTickets w.lease) = false from rfl))
  have hs (r : Except Stop Unit) : Executed cr (.mode mode ep) w r
      (a.consult (.invalidateInputTickets w.lease)) :=
    .switched rfl hfree.1 hfree.2 hq fun _ => invalidate_vacates (hl ▸ ha.lease)
  dsimp only
  cases (Authority.step a.authority (.invalidateInputTickets w.lease)).1 with
  | done r => cases r <;> exact hs _
  | _ => exact hs _

theorem executeEvent_ensures (ev : InputEvent) :
    Ensures (executeEvent cr ev) w (Executed cr ev w) := by
  have hbad (e : Stop) (he : e.early = true) : Executed cr ev w (.error e) w := .refused .refl he
  cases ev with
  | key => exact executed_key ..
  | pointer =>
    exact (inspects_checkPosition _).bind hbad (one_performed.mono
      fun _ _ h => .performed .refl ⟨false,trivial,rfl⟩ h)
  | button =>
    refine (inspects_requireCapability _).bind hbad
      ((inspects_checkPosition _).bind hbad (.get_bind ?_))
    refine (inspects_refuseIf rfl).bind hbad (.modify_bind (two_performed.mono fun _ _ h => ?_))
    exact .performed .refl ⟨false,trivial,rfl⟩ h
  | scroll => exact executed_scroll ..
  | text =>
    refine (inspects_requireCapability _).bind hbad ((inspects_refuseIf rfl).bind hbad ?_)
    exact (each_performed (fun _ _ => one_performed) _).mono
      fun _ _ h => .performed .refl ⟨false,trivial,rfl⟩ h
  | relative => exact executed_relative ..
  | mode => exact executed_mode ..

theorem step_tidy {s : InputSession} (hh : s.toSyntheticHeld = w.toSyntheticHeld)
    (hr : s.toReplayRecord = w.toReplayRecord) (hs : s.session = w.session)
    (hl : s.lease = w.lease) (ho : s.nativeOwner = w.nativeOwner) :
    Step c w {w with toInputSession := s} := .tidy (fun h => hh.trans h) hr hs hl ho

theorem opens_step (w : World) (ev : InputEvent) : Step c w (w.opens ev) := by
  cases ev <;> exact step_tidy rfl rfl rfl rfl rfl

theorem closes_step (w : World) (ev : InputEvent) (r : Except Stop Unit) :
    Step c w (w.closes ev r) := by
  cases ev <;> cases r <;> exact step_tidy rfl rfl rfl rfl rfl

theorem Executed.steps {r} (h : Executed cr ev w r t) :
    ReflTransGen (Step (some cr)) w t := by
  cases h with
  | refused q => exact steps_of_quiet q
  | performed q _ h =>
    exact (((steps_of_quiet q).tail (opens_step _ _)).trans h.steps).tail (closes_step _ _ _)
  | switched _ _ _ q => exact .head (opens_step _ _) (steps_of_quiet q)

end Executed

theorem moves_check (now : HostInstant) : Moves Quietly (check cr now) w :=
  check_ensures now (fun _ _ _ q => q) fun _ a _ ha _ => ha.tail (.consult a rfl)

/-- What the execution of a request did: its event follows a check that passed. -/
inductive Ran (request : InputRequest) (w : World) : Except Stop Unit → World → Prop
  | refused {e t} (q : ReflTransGen Quietly w t) : Ran request w (.error e) t
  | checked {a t at_ until_ r} (q : ReflTransGen Quietly w a)
      (hpass : Passes request.credentials a at_ until_)
      (h : Executed request.credentials request.event
        (a.consult (.submissionDeadline a.lease request.credentials.ticket at_)) r t) : Ran
          request w r t

theorem execute_ensures (re : InputRequest) (w : World) : Ensures (execute re) w (Ran re w) := by
  refine .bind moves_sampleClock (fun now a ha => .of_bind (check_ensures now
    (fun _ _ _ q => .throw (.refused (ha.trans q))) fun _ b _ hb hpass => ?_))
      fun _ _ h => .refused h
  exact (executeEvent_ensures re.event).mono fun _ _ h => .checked (ha.trans hb) hpass h

theorem Passes.quiet {a at_ u} (_ : Passes cr a at_ u)
    (q : Quiet w a) :
    Quiet w (a.consult (.submissionDeadline a.lease cr.ticket at_)) := q.tail (.consult a rfl)

theorem moves_execute (re : InputRequest) : Moves (Step (some re.credentials)) (execute re) w :=
  (execute_ensures re w).mono fun _ _ h => by
    cases h with
    | refused q => exact steps_of_quiet q
    | checked q hpass h => exact (steps_of_quiet (hpass.quiet q)).trans h.steps

end Actions

end FrankenRemote.Input
