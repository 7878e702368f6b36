import FrankenRemote.InputPointer

/-! What a receipt counts: the operations of its request that were reported as submitted, and
whether one was let through that no report has settled. -/
namespace FrankenRemote.Input

open Procedure Relation List

def Occurrence.submits : Occurrence → Option Operation
  | report op _ (.ok .submitted) => some op
  | _ => none

def submittedOps (trail : List Occurrence) : List Operation := trail.filterMap Occurrence.submits

/-- An operation that its final check let through is open until a report settles it. -/
def Occurrence.leaves (b : Bool) : Occurrence → Bool
  | warrant .. => true
  | report _ _ (.ok .unknown) => b
  | report .. => false
  | _ => b

def unsettled (b : Bool) (trail : List Occurrence) : Bool := trail.foldl Occurrence.leaves b

/-- The attempt counts what its trail shows. -/
structure Tallied (done : List Operation) (w t : World) : Prop where
  trail : ∃ new, t.trail = w.trail ++ new ∧ submittedOps new = done ∧
    unsettled w.uncertain new = t.uncertain
  submitted : t.submitted = w.submitted+done.length

section Tallied

variable {w t : World} {cr : InputCredentials} {op : Operation} {done : List Operation}

namespace Tallied

theorem trans {u done'} (h : Tallied done w t) (h' : Tallied done' t u) :
    Tallied (done++done') w u := by
  obtain ⟨new,hnew,rfl,hu⟩ := h.trail
  obtain ⟨new',hnew',rfl,hu'⟩ := h'.trail
  refine ⟨⟨new++new',by rw [hnew',hnew,append_assoc],filterMap_append,?_⟩,?_⟩
  · rw [← hu',← hu]
    exact foldl_append
  · rw [h'.submitted,h.submitted,length_append,Nat.add_assoc]

theorem idle {new} (ht : t.trail = w.trail ++ new)
    (h : ∀ o ∈ new, o.submits = none ∧ ∀ b, o.leaves b = b) (ha : t.toAttempt = w.toAttempt) :
    Tallied [] w t := by
  have hu (b : Bool) : unsettled b new = b := by
    clear ht
    induction new with
    | nil => rfl
    | cons o new ih =>
      rw [unsettled,foldl_cons,(h o mem_cons_self).2]
      exact ih fun o ho => h o (mem_cons_of_mem _ ho)
  refine ⟨⟨new,ht,filterMap_eq_nil_iff.mpr fun o ho => (h o ho).1,?_⟩,congrArg Attempt.submitted ha⟩
  rw [hu,ha]

theorem same (ht : t.trail = w.trail) (ha : t.toAttempt = w.toAttempt) : Tallied [] w t :=
  idle (ht.trans (append_nil _).symm) (fun _ h => by cases h) ha

theorem aside {new} (ht : t.trail = w.trail ++ new) (has : ∀ o ∈ new, o.aside = true)
    (ha : t.toAttempt = w.toAttempt) : Tallied [] w t := by
  refine idle ht (fun o ho => ?_) ha
  have hs := has o ho
  cases o <;> first | exact ⟨rfl,fun _ => rfl⟩ | cases hs

theorem of_frame (h : Frame w t) : Tallied [] w t :=
  have ⟨_,hnew,ha,_⟩ := h.trail
  aside hnew ha h.attempt

theorem of_quiet (h : Quiet w t) : Tallied [] w t := of_frame (.of_quiet h)

theorem noted {o} (ht : t.trail = w.trail ++ [o]) (hd : submittedOps [o] = done)
    (hu : o.leaves w.uncertain = t.uncertain) (hs : t.submitted = w.submitted+done.length) :
    Tallied done w t :=
  ⟨⟨[o],ht,hd,hu⟩,hs⟩

theorem of_checking (h : ReflTransGen (Checking cr op) w t) : Tallied [] w t := by
  induction h with
  | refl => exact same rfl rfl
  | tail _ h ih =>
    cases h with
    | quiet h => exact ih.trans (of_frame (.of_quietly h))
    | grant h =>
      cases h
      exact (ih.trans (of_frame (.consult _ _))).trans (noted rfl rfl rfl rfl)

end Tallied

/-- Up to its report, if there is one, a submission counts nothing. -/
theorem Submits.tallied {r} (h : Submits cr op w r t) :
    ∃ u b, Tallied [] w u ∧ (∀ res, r = .ok res → t = u.note (.report op b res)) ∧
      (r = .error .panicked → Tallied [] w t) := by
  have hg {a b u : World} (h : ReflTransGen (Checking cr op) w a) (g : Grant cr op a b)
      (q : Quiet b u) : Tallied [] w u :=
        .of_checking ((h.tail (.grant g)).trans (checking_of_quiet q))
  cases h with
  | failed h => exact ⟨w,false,.same rfl rfl,(fun _ h => by cases h),fun _ => .of_checking h⟩
  | unchecked q => exact ⟨_,_,.of_quiet q,(fun _ h => by cases h; rfl),fun h => by cases h⟩
  | uncalled q =>
    exact ⟨w,false,.same rfl rfl,(fun _ h => by cases h),fun _ => (Tallied.of_quiet q).trans
      (.noted rfl rfl rfl rfl)⟩
  | checked h g q => exact ⟨_,_,hg h g q,(fun _ h => by cases h; rfl),fun h => by cases h⟩
  | unwound h g q =>
    exact ⟨w,false,.same rfl rfl,(fun _ h => by cases h),fun _ =>
      (hg h g q).trans (.noted rfl rfl rfl rfl)⟩

variable {r : Except Stop Unit} {ev : InputEvent} {ops : List Operation}

theorem Performs.tallied (h : Performs cr op w r t) :
    (r = .ok () → Tallied [op] w t ∧ t.uncertain = false) ∧ ∀ e, r = .error e → Tallied [] w t := by
  have hp {a : World} (q : Quiet w a) : Tallied [] w (a.note (.prepare op)) :=
    (Tallied.of_quiet q).trans (.noted rfl rfl rfl rfl)
  cases h with
  | unprepared q => exact ⟨(fun h => by cases h),fun _ _ => hp q⟩
  | submitted q h =>
    obtain ⟨u,b,hu,hr,-⟩ := h.tallied
    cases hr _ rfl
    exact ⟨fun _ => ⟨((hp q).trans hu).trans (.noted rfl rfl rfl rfl),rfl⟩,fun _ h => by cases h⟩
  | unknown q h =>
    obtain ⟨u,b,hu,hr,-⟩ := h.tallied
    cases hr _ rfl
    exact ⟨(fun h => by cases h),fun _ _ => ((hp q).trans hu).trans (.noted rfl rfl rfl rfl)⟩
  | @refused _ _ result q h hres =>
    -- what certainly did not happen is settled as well
    obtain ⟨u,b,hu,hr,-⟩ := h.tallied
    cases hr _ rfl
    refine ⟨(fun h => by cases h),fun _ _ => ((hp q).trans hu).trans ?_⟩
    rcases result with _ | s
    · exact .noted rfl rfl rfl rfl
    · cases s with
      | submitted => exact absurd rfl hres.1
      | unknown => exact absurd rfl hres.2
      | _ => exact .noted rfl rfl rfl rfl
  | unwound q h =>
    obtain ⟨_,_,-,-,hu⟩ := h.tallied
    exact ⟨(fun h => by cases h),fun _ _ => (hp q).trans (hu rfl)⟩

/-- The native work of an event; a change of mode has none. -/
def InputEvent.Needs (event : InputEvent) (w : World) (ops : List Operation) : Prop :=
  event.Plans w ops ∨ ops = [] ∧ ∃ mode epoch, event = .mode mode epoch

/-- What was done of the operations that an event needs. -/
structure Follows (event : InputEvent) (w : World) (r : Except Stop Unit) (t : World)
    (ops done : List Operation) : Prop where
  planned : event.Needs w ops
  tallied : Tallied done w t
  begun : done <+: ops
  whole : r = .ok () → done = ops ∧ (w.uncertain = false → t.uncertain = false)
  cut : ops ≠ [] → done = ops → r = .ok ()

theorem Performed.tallied (h : Performed cr ops w r t) : ∃ done, Tallied done w t ∧ done <+: ops ∧
    (r = .ok () → done = ops ∧ (w.uncertain = false → t.uncertain = false)) ∧
    (done = ops → r = .ok ()) := by
  induction h with
  | nil w => exact ⟨[],.same rfl rfl, nil_prefix,fun _ => ⟨rfl,id⟩,fun _ => rfl⟩
  | next h _ ih =>
    obtain ⟨done,hd,hp,hw,hc⟩ := ih
    obtain ⟨ht,hu⟩ := h.tallied.1 rfl
    refine ⟨_ :: done,ht.trans hd,cons_prefix_cons.mpr ⟨rfl,hp⟩,fun hr => ?_,fun he =>
      hc (List.cons.inj he).2⟩
    exact ⟨by rw [(hw hr).1],fun _ => (hw hr).2 hu⟩
  | stop h => exact ⟨[],h.tallied.2 _ rfl, nil_prefix,(fun hr => by cases hr),fun he => by cases he⟩

/-- An event is refused before any native work is chosen, or the work that it needs is done in
order. -/
def Undertakes (event : InputEvent) (w : World) (r : Except Stop Unit) (t : World) : Prop :=
  (∃ e, r = .error e ∧ Quiet w t) ∨ ∃ ops done, Follows event w r t ops done

theorem Executed.undertakes (h : Executed cr ev w r t) : Undertakes ev w r t := by
  have hqu {a b : World} (q : Quiet a b) : b.uncertain = a.uncertain :=
    congrArg Attempt.uncertain (Frame.of_quiet q).attempt
  have ho (a : World) : Tallied [] a (a.opens ev) ∧ (a.opens ev).uncertain = a.uncertain := by
    cases ev <;> exact ⟨.same rfl rfl,rfl⟩
  cases h with
  | refused q => exact .inl ⟨_,rfl,q⟩
  | @performed ops a u _ q hp h =>
    obtain ⟨done,hd,hpre,hw,hc⟩ := h.tallied
    have hcl : Tallied [] u (u.closes ev r) ∧ (u.closes ev r).uncertain = u.uncertain := by
      cases ev <;> cases r <;> exact ⟨.same rfl rfl,rfl⟩
    have hall := (((Tallied.of_quiet q).trans (ho a).1).trans hd).trans hcl.1
    rw [append_nil] at hall
    refine .inr ⟨ops,done,.inl hp,hall,hpre,fun hr => ⟨(hw hr).1,fun h => ?_⟩,fun _ => hc⟩
    exact hcl.2.trans ((hw hr).2 ((ho a).2.trans ((hqu q).trans h)))
  | switched hevent _ _ q =>
    refine .inr ⟨[],[],.inr ⟨rfl,_,_,hevent⟩,(ho w).1.trans (.of_quiet q), nil_prefix,
      fun _ => ⟨rfl,?_⟩,fun hne => absurd rfl hne⟩
    exact ((hqu q).trans (ho w).2).trans

theorem InputEvent.Plans.of_quiet {a} (q : Quiet w a) (h : ev.Plans a ops) :
    ev.Plans w ops := by
  obtain ⟨pairs,hch,hp⟩ := h
  have ha := (Unreported.of_quiet q).answers
  have hc : a.cumulative = w.cumulative := congrArg Steering.cumulative (Steady.of_quiet q).steering
  refine ⟨pairs,?_,hc ▸ hp⟩
  cases ev with
  | key _ transition =>
    cases transition <;> first | trivial | exact hch.imp fun x hx => ⟨ha x hx.1,hx.2⟩
  | scroll _ _ _ _ unit =>
    cases unit <;> first | trivial | exact hch.imp fun x hx => ⟨ha x hx.1,hx.2⟩
  | _ => trivial

theorem InputEvent.Needs.of_quiet {a} (q : Quiet w a) (h : ev.Needs a ops) : ev.Needs w ops :=
  h.imp_left (.of_quiet q)

theorem execute_undertakes (req : InputRequest) (w : World) :
    Ensures (execute req) w (Undertakes req.event w) :=
  (execute_ensures req w).mono fun r t h => by
    cases h with
    | refused q => exact .inl ⟨_,rfl,q⟩
    | checked q hp h =>
      have q := hp.quiet q
      rcases h.undertakes with ⟨e,rfl,q'⟩ | ⟨ops,done,hf⟩
      · exact .inl ⟨e,rfl,q.trans q'⟩
      · refine .inr ⟨ops,done,hf.planned.of_quiet q,(Tallied.of_quiet q).trans hf.tallied,hf.begun,
          fun hr => ?_,hf.cut⟩
        have hu := congrArg Attempt.uncertain (Frame.of_quiet q).attempt
        exact ⟨(hf.whole hr).1,fun hw => (hf.whole hr).2 (hu.trans hw)⟩

/-! Receipts. -/

def InputOutcome.refused : InputOutcome → Bool
  | rejectedBeforeSubmission | expiredBeforeSubmission | cancelledBeforeSubmission => true
  | _ => false

/-- What a receipt says about the trail of its attempt. Without a plan there was no native call. -/
structure Receipt.Counts (receipt : Receipt) (event : InputEvent) (w : World)
    (new : List Occurrence) : Prop where
  submitted : receipt.submittedOperations = (submittedOps new).length
  unknown : receipt.outcome = .effectUnknown ↔ unsettled false new = true
  refused : receipt.outcome.refused = true → submittedOps new = []
  planned : (receipt.outcome.refused = true ∧ ∀ o ∈ new, o.aside = true) ∨
    ∃ ops, event.Needs w ops ∧ submittedOps new <+: ops ∧
      (receipt.outcome = .submittedToOs ↔ submittedOps new = ops ∧ ops ≠ []) ∧
      (receipt.outcome = .appliedLocally ↔ ops = [] ∧ receipt.refusal = none) ∧
      (receipt.outcome = .partiallySubmittedToOs ↔
        submittedOps new ≠ [] ∧ submittedOps new ≠ ops ∧ unsettled false new = false)

theorem Attempt.outcome_spec (a : Attempt) (o : Option Refusal) :
    (a.outcome o = .effectUnknown ↔ a.uncertain = true) ∧
    (a.outcome o = .submittedToOs ↔ a.uncertain = false ∧ o = none ∧ a.submitted ≠ 0) ∧
    (a.outcome o = .appliedLocally ↔ a.uncertain = false ∧ o = none ∧ a.submitted = 0) ∧
    (a.outcome o = .partiallySubmittedToOs ↔ a.uncertain = false ∧ o ≠ none ∧ a.submitted ≠ 0) ∧
    ((a.outcome o).refused = true ↔ a.uncertain = false ∧ o ≠ none ∧ a.submitted = 0) := by
  obtain ⟨n,u⟩ := a
  cases u with
  | true => simp [Attempt.outcome,InputOutcome.refused]
  | false =>
    cases o with
    | none => cases n <;> simp [Attempt.outcome,InputOutcome.refused]
    | some refusal =>
      cases n with
      | succ => simp [Attempt.outcome,InputOutcome.refused]
      | zero =>
        cases refusal with
        | authority e => cases e <;> simp [Attempt.outcome,InputOutcome.refused]
        | _ => simp [Attempt.outcome,InputOutcome.refused]

theorem Follows.counts {new} (h : Follows ev w r t ops done) (hw : w.toAttempt = ⟨0,false⟩)
    (hd : submittedOps new = done) (hun : unsettled false new = t.uncertain) (n : ℕ) {v}
    (hp : ev.Needs v ops) : (t.receipt n (t.ended r)).Counts ev v new := by
  subst hd
  have hs : t.submitted = (submittedOps new).length := by
    rw [h.tallied.submitted,show w.submitted = 0 from congrArg Attempt.submitted hw,Nat.zero_add]
  have hz : t.submitted = 0 ↔ submittedOps new = [] := by rw [hs,length_eq_zero_iff]
  have hr : t.ended r = none ↔ r = .ok () := by
    rcases r with (_ | _) | _ <;> simp [Attempt.ended]
  have hwh (ho : r = .ok ()) := (h.whole ho).imp_right fun hu => hu (congrArg Attempt.uncertain hw)
  obtain ⟨hu,hsub,hl,hpar,hrf⟩ := t.toAttempt.outcome_spec (t.ended r)
  refine ⟨hs,by rw [hun]; exact hu,fun ho => hz.mp (hrf.mp ho).2.2,
    .inr ⟨ops,hp,h.begun,hsub.trans ?_,hl.trans ?_,hpar.trans ?_⟩⟩
  · rw [hr,Ne,hz]
    exact ⟨fun ho => ⟨(hwh ho.2.1).1,(hwh ho.2.1).1 ▸ ho.2.2⟩,fun ho =>
      have hok := h.cut ho.2 ho.1
      ⟨(hwh hok).2,hok,ho.1 ▸ ho.2⟩⟩
  · -- with nothing planned nothing was done
    have hnil (he : ops = []) : submittedOps new = [] := prefix_nil.mp (he ▸ h.begun)
    rw [hz]
    exact ⟨fun ho => ⟨(hwh (hr.mp ho.2.1)).1.symm.trans ho.2.2,ho.2.1⟩,fun ho =>
      ⟨(hwh (hr.mp ho.2)).2,ho.2,hnil ho.1⟩⟩
  · rw [Ne,hr,Ne,hz,hun]
    refine ⟨fun ho => ⟨ho.2.2,fun he => ho.2.1 (h.cut (he ▸ ho.2.2) he),ho.1⟩,fun ho =>
      ⟨ho.2.2,fun hok => ho.2.1 (hwh hok).1,ho.1⟩⟩

/-- A refusal that comes before any native call. -/
theorem counts_refused {new e v} (ha : t.toAttempt = ⟨0,false⟩)
    (has : ∀ o ∈ new, o.aside = true) (n : ℕ) :
    (t.receipt n (t.ended (.error e))).Counts ev v new := by
  obtain ⟨_,rfl,hd,hun⟩ :=
    (Tallied.aside (w := {t with trail := []}) (t := {t with trail := new}) rfl has rfl).trail
  have hu : t.uncertain = false := congrArg Attempt.uncertain ha
  have hs : t.submitted = 0 := congrArg Attempt.submitted ha
  have hr := (t.toAttempt.outcome_spec (t.ended (.error e))).2.2.2.2.mpr
    ⟨hu,by cases e <;> simp [Attempt.ended],hs⟩
  refine ⟨?_,?_,fun _ => hd,.inl ⟨hr,has⟩⟩
  · rw [hd]
    exact hs
  · have hun : unsettled false new = false := hu ▸ hun
    rw [hun,← hu]
    exact (t.toAttempt.outcome_spec _).1

end Tallied

/-- How the ledger takes a request. -/
def World.admission (w : World) (request : InputRequest) :
    Except InputSequenceError InputAdmission :=
  (exec (InputSequenceLedger.admitAction w.lease request.sequence) w.ledger).1

/-- The replies to a request that is not attempted, with their reasons. -/
inductive Unattempted (request : InputRequest) (w : World) : Except Stop Dispatch → World → Prop
  | session (h : request.credentials.session ≠ w.session) :
      Unattempted request w (.error (.refused .staleSession)) w
  | lease (h : request.credentials.lease ≠ w.lease) :
      Unattempted request w (.error (.refused .staleLease)) w
  | obsolete (hpointer : request.event.isPointer = true)
      (h : w.pointerFloor.any (request.sequence ≤ ·) = true) :
      Unattempted request w (.ok .obsoletePointer) w
  | inactive {t} (hpointer : request.event.isPointer = true) (h : t.isActive = false) :
      Unattempted request w (.error (.refused .revoked)) t
  | completed {outcome t} (hreliable : request.event.isPointer = false)
      (h : w.admission request = .ok (.completed outcome)) :
      Unattempted request w
        (.ok ((w.retainedReceipt request.sequence).elim .consumedWithoutReceipt .completed)) t
  | consumed {t} (hreliable : request.event.isPointer = false)
      (h : w.admission request = .ok .consumedWithoutReceipt ∨
        w.admission request = .ok .inFlight) :
      Unattempted request w (.ok .consumedWithoutReceipt) t
  | misplaced {error t} (hreliable : request.event.isPointer = false)
      (h : w.admission request = .error error) :
      Unattempted request w (.error (.refused (.sequence error))) t

/-- A request is attempted and ends with the record of its receipt, or it makes no native call and
is answered without an attempt. -/
def Reported (request : InputRequest) (w : World) (r : Except Stop Dispatch) (t : World) : Prop :=
  ((∃ new, t.trail = w.trail ++ new ∧ ∀ o ∈ new, o.aside = true) ∧ Unattempted request w r t) ∨
  ∃ new receipt, t.trail = w.trail ++ (new ++ [.record receipt request.event.isPointer]) ∧
    receipt.sequence = request.sequence ∧ receipt.Counts request.event w new ∧
    (r = .ok (.completed receipt) ∨ r = .error .panicked)

theorem attempt_reported (req : InputRequest) {w a b : World} (q : Quiet w a)
    (hb : b.trail = a.trail ∧ b.answers = a.answers ∧ b.cumulative = a.cumulative) :
    Ensures (attempt req) b (Reported req w) := by
  refine attempt_ensures (execute_undertakes req _) fun res t reply ht hre => .inr ?_
  obtain ⟨revs,_,_,hr,hrec⟩ :=
    record_shape t (t.receipt req.sequence (t.ended res)) req.event.isPointer
  obtain ⟨pre,hpre,ha,-⟩ := (Frame.of_quiet q).trail
  have hs : b.trail = w.trail ++ pre := hb.1.trans hpre
  have hr (o) (ho : o ∈ revs) : o.aside = true := by rw [hr o ho]; rfl
  have hre := hre.imp_right And.right
  rcases ht with ⟨e,rfl,q'⟩ | ⟨ops,done,hf⟩
  · have hfr := Frame.of_quiet q'
    obtain ⟨mid,hm,ha',-⟩ := hfr.trail
    refine ⟨pre++mid++revs,_,?_,rfl,counts_refused hfr.attempt ?_ _,hre⟩
    · rw [hrec,show t.trail = b.trail ++ mid from hm,hs]
      simp only [append_assoc]
    · simp only [mem_append]
      rintro o ((ho | ho) | ho)
      exacts [ha o ho,ha' o ho,hr o ho]
  · have hs : Tallied [] {w with submitted := 0, uncertain := false}
        {b with submitted := 0, uncertain := false} :=
      .aside hs ha rfl
    have he : Tallied [] t {t with trail := t.trail ++ revs} := .aside rfl hr rfl
    obtain ⟨new,hnew,hd,hu⟩ := ((hs.trans hf.tallied).trans he).trail
    have hp : req.event.Needs a ops := by
      refine hf.planned.imp_left ?_
      rintro ⟨pairs,hc,hpn⟩
      exact ⟨pairs,hb.2.1 ▸ hc,hb.2.2 ▸ hpn⟩
    refine ⟨new,_,?_,rfl,hf.counts rfl (hd.trans (append_nil _)) hu req.sequence
      (hp.of_quiet q),hre⟩
    rw [hrec,← append_assoc,← append_assoc]
    exact congrArg (· ++ _) hnew

theorem dispatch_reported (req : InputRequest) (w : World) :
    Ensures (dispatch req) w (Reported req w) := by
  have hs : ∃ new, w.trail = w.trail ++ new ∧ ∀ o ∈ new, o.aside = true := ⟨[],by simp,by simp⟩
  refine .get_bind (.refuseIf_bind (fun h => .inl ⟨hs,.session h⟩) fun _ =>
    .refuseIf_bind (fun h => .inl ⟨hs,.lease h⟩) fun _ => .ite (fun hp =>
      .ite (fun h => .pure (.inl ⟨hs,.obsolete hp h⟩)) fun _ => ?_) fun hr => .modify_bind ?_)
  · refine .of_bind (checkActive_ensures (fun t q ho => .throw ?_) fun a q _ =>
      .modify_bind (attempt_reported req q ⟨rfl,rfl,rfl⟩))
    obtain ⟨new,hnew,ha,-⟩ := (Frame.of_quiet q).trail
    exact .inl ⟨⟨new,hnew,ha⟩,.inactive hp ho⟩
  · have hr : req.event.isPointer = false := by simpa using hr
    split
    · exact attempt_reported req .refl ⟨rfl,rfl,rfl⟩
    · exact .pure (.inl ⟨hs,.completed hr ‹_›⟩)
    · exact .pure (.inl ⟨hs,.consumed hr (.inl ‹_›)⟩)
    · exact .pure (.inl ⟨hs,.consumed hr (.inr ‹_›)⟩)
    · unfold revokeIf
      split
      · exact .modify_bind
          (.throw (.inl ⟨⟨[.revoke],rfl,by simp [Occurrence.aside]⟩,.misplaced hr ‹_›⟩))
      · exact .throw (.inl ⟨hs,.misplaced hr ‹_›⟩)

/-- Every receipt counts the real effects of its request, against any sink. The native work of a
line scroll is one scroll, or on a sink with discrete wheels one pair for each line, in the
direction of its sign. -/
theorem receipt_counts_effects (request : InputRequest) (w : World) :
    Ensures (dispatch request) w (Reported request w) ∧
    ∀ position barrier (x y : Int32) pairs ops cumulative,
      (InputEvent.scroll position barrier x y .lines).plan pairs cumulative = some ops →
      ops = .absolute position :: if pairs then
        (List.replicate (x.toInt.natAbs/65536)
          (if x.toInt < 0 then WheelDirection.left else .right) ++
          List.replicate (y.toInt.natAbs/65536)
            (if y.toInt < 0 then WheelDirection.up else .down)).flatMap
            fun d => [.wheel d true,.wheel d false]
      else [.scroll x y .lines] := by
  refine ⟨dispatch_reported request w,fun position barrier x y pairs ops cumulative h => ?_⟩
  cases pairs with
  | false => exact (Option.some.inj h).symm
  | true =>
    obtain ⟨d,hd,rfl⟩ := Option.map_eq_some_iff.mp h
    rw [LineScroll.new] at hd
    obtain ⟨-,hd⟩ := Option.ite_none_left_eq_some.mp hd
    obtain ⟨-,hd⟩ := Option.ite_none_left_eq_some.mp hd
    rw [← Option.some.inj hd,LineScroll.steps,Int.natAbs_tdiv,Int.natAbs_tdiv]
    rfl

/-- A sink that reports an unknown effect without ever asking for its final check. -/
theorem stray_unknown_rejected : (exec (dispatch (samplePress 0)) astray).1 =
        .ok (.completed ⟨0,.rejectedBeforeSubmission,0,some .unknownEffect⟩) ∧
      .report (.key sampleKey .press) false (.ok .unknown) ∈
        (exec (dispatch (samplePress 0)) astray).2.trail := by
  refine ⟨rfl,?_⟩
  have ht : ∃ a b, (exec (dispatch (samplePress 0)) astray).2.trail = a ++
      .report (.key sampleKey .press) false (.ok .unknown) :: b := ⟨[_,_],_,rfl⟩
  obtain ⟨a,b,ht⟩ := ht
  rw [ht]
  exact mem_append_right _ mem_cons_self

end FrankenRemote.Input
