import FrankenRemote.InputWarrant

/-! Reliable actions are executed once and in order. The replay record of a run is the list of
the receipts in its trail, and the sequence of the next action is their number. -/
namespace FrankenRemote.Input

open Procedure Relation Transition List

/-- The receipt of a reliable action. -/
def Occurrence.receipt : Occurrence → Option Receipt
  | record receipt false => some receipt
  | _ => none

def Occurrence.isRecord : Occurrence → Bool
  | record _ _ => true
  | _ => false

def recorded (trail : List Occurrence) : List Receipt := trail.filterMap Occurrence.receipt

def Receipt.entry (r : Receipt) : LedgerReceipt := ⟨r.sequence,r.outcome⟩

def Occurrence.sinkCall : Occurrence → Bool
  | prepare _ | report _ _ _ | unwound _ _ | submit _ _ _ => true
  | _ => false

/-- The ring of receipts and the identity of the ledger. -/
structure Shelf (w : World) (log : List Receipt) : Prop where
  lease : w.ledger.lease = w.lease
  capacity : w.ledger.receiptCapacity = maxRetainedInputReceipts
  ring : Ring.Holds maxRetainedInputReceipts w.receiptCursor w.receipts log

/-- The replay record of a log of actions, with none in flight. -/
structure Books (w : World) (log : List Receipt) : Prop extends Shelf w log where
  ledger : Accounts w.ledger (log.map Receipt.entry)

/-- What actions leave alone. -/
structure Untouched (w w' : World) : Prop where
  record : w'.toReplayRecord = w.toReplayRecord
  lease : w'.lease = w.lease
  recorded : recorded w'.trail = recorded w.trail
  records : ∀ r p, .record r p ∈ w'.trail → .record r p ∈ w.trail

section Books

variable {c : Option InputCredentials} {cr : InputCredentials} {op : Operation} {w w' : World}

@[simp] theorem recorded_append (t t' : List Occurrence) :
    recorded (t ++ t') = recorded t ++ recorded t' := filterMap_append

theorem recorded_aside {t} (h : ∀ o ∈ t, o.aside = true) : recorded t = [] := by
  rw [recorded,filterMap_eq_nil_iff]
  intro o ho
  have ha := h o ho
  cases o <;> first | rfl | cases ha

namespace Untouched

theorem trans {w''} (h : Untouched w w') (h' : Untouched w' w'') : Untouched w w'' :=
  ⟨h'.record.trans h.record,h'.lease.trans h.lease,h'.recorded.trans h.recorded,
    fun r p hr => h.records r p (h'.records r p hr)⟩

theorem note {o : Occurrence} (ho : o.isRecord = false) (w : World) : Untouched w (w.note o) := by
  refine ⟨rfl,rfl,?_,fun r p hr => ?_⟩
  · have hrt : o.receipt = none := by
      cases o with
      | record r p => cases ho
      | _ => rfl
    simp [World.note,Input.recorded,hrt]
  · rcases mem_append.mp hr with hr | hr
    · exact hr
    · cases mem_singleton.mp hr
      cases ho

theorem of_frame (h : Frame w w') : Untouched w w' := by
  obtain ⟨_,hnew,ha,-⟩ := h.trail
  refine ⟨h.record,h.lease,by
    rw [hnew,recorded_append,recorded_aside ha,append_nil],fun r p hr => ?_⟩
  rw [hnew] at hr
  rcases mem_append.mp hr with hr | hr
  · exact hr
  · cases ha _ hr

theorem of_grant (h : Grant cr op w w') : Untouched w w' := by
  cases h with
  | @mk at_ _ h =>
    have hnote := note (o := .warrant cr w.view op) rfl
      (w.consult (.submissionDeadline w.lease cr.ticket at_))
    exact (of_frame (.consult w _)).trans ⟨rfl,rfl,hnote.recorded,hnote.records⟩

theorem of_step (h : Step c w w') : Untouched w w' := by
  cases h with
  | quiet h => exact of_frame (.of_quietly h)
  | prepare | unchecked | uncalled | submit => exact note rfl w
  | checked _ h => exact of_grant h
  | report _ h q | unwound _ h q =>
    exact ((of_grant h).trans (of_frame (.of_quiet q))).trans (note rfl _)
  | tidy _ hr _ hl => exact ⟨hr,hl,rfl,fun _ _ h => h⟩
  | stray => exact ⟨rfl,rfl,rfl,fun _ _ h => h⟩

theorem of_steps (h : ReflTransGen (Step c) w w') : Untouched w w' := by
  induction h with
  | refl => exact ⟨rfl,rfl,rfl,fun _ _ h => h⟩
  | tail _ h ih => exact ih.trans (of_step h)

end Untouched

variable {log : List Receipt}

theorem Shelf.of_untouched (h : Shelf w log) (hu : Untouched w w') : Shelf w' log :=
  ⟨by rw [hu.record,hu.lease,h.lease],by rw [hu.record,h.capacity],by rw [hu.record]; exact h.ring⟩

theorem Books.of_untouched (h : Books w log) (hu : Untouched w w') : Books w' log :=
  ⟨h.toShelf.of_untouched hu,by rw [hu.record]; exact h.ledger⟩

theorem Books.fence (h : Books w log) : Books {w with ledger := w.ledger.fence} log :=
  ⟨{h with},{h.ledger with},h.ledger.next,h.ledger.idle⟩

theorem Books.revoke (h : Books w log) : Books w.revoke log :=
  (h.of_untouched (.of_frame (.flag w))).fence

theorem recorded_revoke (w : World) : recorded w.revoke.trail = recorded w.trail :=
  (Untouched.of_frame (.flag w)).recorded

/-- No other call touches the record of reliable actions. -/
theorem Books.of_stage (h : Books w log) (hs : Stage false c w w') :
    Books w' log ∧ recorded w'.trail = recorded w.trail := by
  cases hs with
  | step hs => exact ⟨h.of_untouched (.of_step hs),(Untouched.of_step hs).recorded⟩
  | fence => exact ⟨h.fence,rfl⟩
  | retain hr => cases hr
  | @record _ receipt =>
    exact ⟨⟨{h with},h.ledger⟩,by simp [World.note,recorded,Occurrence.receipt]⟩
  | confirm => exact ⟨h.of_untouched (.of_frame (.consult w _)),
    (Untouched.of_frame (.consult w _)).recorded⟩

theorem Books.of_stages (h : Books w log) (hs : ReflTransGen (Stage false c) w w') :
    Books w' log ∧ recorded w'.trail = recorded w.trail := by
  induction hs with
  | refl => exact ⟨h,rfl⟩
  | tail _ hs ih =>
    obtain ⟨hb,hsm⟩ := ih.1.of_stage hs
    exact ⟨hb,hsm.trans ih.2⟩

/-- The receipt of the action in flight is recorded in both rings. -/
theorem Shelf.record (h : Shelf w log) (hf : InFlight w.ledger (log.map Receipt.entry))
    (r : Receipt) (hs : r.sequence = log.length) : Books (w.record r false) (log ++ [r]) ∧
      recorded (w.record r false).trail = recorded w.trail ++ [r] := by
  obtain ⟨l,hx,hacc,hl,hc,-⟩ := recordOutcome_exec hf r.outcome
  rw [length_map,← hs,h.lease] at hx
  have ha : w.account r = {w with ledger := l} := by
    unfold World.account
    rw [hx]
  have hk : Books ((w.account r).keep r) (log ++ [r]) := by
    rw [ha]
    refine ⟨⟨hl.trans h.lease,hc.trans h.capacity,h.ring.push r⟩,?_⟩
    rw [map_append,map_singleton,Receipt.entry,hs]
    rw [length_map] at hacc
    exact hacc
  have ht : ((w.account r).keep r).trail = w.trail := by
    rw [ha]
    rfl
  have hset (b : Bool) : Books (((w.account r).keep r).revokeUnless b) (log ++ [r]) ∧
      recorded (((w.account r).keep r).revokeUnless b).trail = recorded w.trail := by
    cases b with
    | true => exact ⟨hk,congrArg recorded ht⟩
    | false => exact ⟨hk.revoke,(recorded_revoke _).trans (congrArg recorded ht)⟩
  obtain ⟨hb,hsm⟩ := hset r.outcome.succeeded
  refine ⟨⟨{hb with},hb.ledger⟩,?_⟩
  change recorded (_ ++ [.record r false]) = _
  rw [recorded_append]
  exact congrArg (· ++ [r]) hsm

/-- The attempt at an admitted action records exactly one receipt, however it ends. -/
theorem attempt_books {req : InputRequest} (hrel : req.event.isPointer = false)
    (h : Shelf w log) (hf : InFlight w.ledger (log.map Receipt.entry))
    (hs : req.sequence = log.length) :
    Ensures (attempt req) w fun r t => ∃ rc : Receipt, rc.sequence = req.sequence ∧
      Books t (log ++ [rc]) ∧ recorded t.trail = recorded w.trail ++ [rc] ∧
      (r = .ok (.completed rc) ∨ r = .error .panicked) := by
  have hst : Untouched w {w with submitted := 0, uncertain := false} :=
    ⟨rfl,rfl,rfl,fun _ _ h => h⟩
  refine attempt_ensures (moves_execute req) fun res t reply ht hrp => ?_
  have hu := hst.trans (.of_steps ht)
  have hf' : InFlight t.ledger (log.map Receipt.entry) := by rw [hu.record]; exact hf
  obtain ⟨hb,hr⟩ :=
    (h.of_untouched hu).record hf' (t.receipt req.sequence (t.ended res)) hs
  rw [hu.recorded] at hr
  rw [hrel]
  exact ⟨_,rfl,hb,hr,hrp.imp_right And.right⟩

theorem Books.numbered (h : Books w log) (p : ℕ) (r : Receipt) (hr : log[p]? = some r) :
    r.sequence = p :=
  h.ledger.numbered p r.entry (by rw [List.getElem?_map,hr]; rfl)

theorem Books.retainedReceipt_eq (h : Books w log) (s : ℕ) :
    w.retainedReceipt s = if log.length ≤ s+maxRetainedInputReceipts then log[s]? else none :=
  h.ring.find?_recent (by decide) h.numbered s

/-- Every answer to a reliable request of the owner's own lease. -/
inductive Dispatched (w : World) (log : List Receipt) (request : InputRequest) :
    Except Stop Dispatch → World → Prop
  | replayed {receipt} (hlog : log[request.sequence]? = some receipt)
      (hrecent : log.length ≤ request.sequence+maxRetainedInputReceipts) :
      Dispatched w log request (.ok (.completed receipt)) w
  | forgotten (hold : request.sequence+maxRetainedInputReceipts < log.length ∨
        (2^64 ≤ log.length ∧ log.length ≤ request.sequence)) :
      Dispatched w log request (.ok .consumedWithoutReceipt) w
  | refused {e t} (hnew : log.length ≤ request.sequence)
      (hbooks : Books t log) (htrail : t.trail = w.trail ++ [.revoke])
      (hinactive : t.isActive = false) :
      Dispatched w log request (.error (.refused (.sequence e))) t
  | attempted {r receipt t}
      (hnext : request.sequence = log.length) (hopen : w.ledger.fenced = false)
      (hsequence : receipt.sequence = request.sequence) (hbooks : Books t (log ++ [receipt]))
      (hrecorded : recorded t.trail = recorded w.trail ++ [receipt])
      (hreply : r = .ok (.completed receipt) ∨ r = .error .panicked) : Dispatched w log request r t

theorem refusal_ensures {e fenced} (h : fenced = true) :
    Ensures (do revokeIf fenced; throw (.refused (.sequence e)) : Owner Dispatch) w fun r t =>
      r = .error (.refused (.sequence e)) ∧ t = w.revoke := by
  subst h
  exact .modify_bind (.throw ⟨rfl,rfl⟩)

theorem dispatch_books {req : InputRequest} (hrel : req.event.isPointer = false)
    (h : Books w log) (hses : req.credentials.session = w.session)
    (hl : req.credentials.lease = w.lease) : Ensures (dispatch req) w (Dispatched w log req) := by
  have hled := admitAction_ensures h.ledger req.sequence
  rw [Ensures,h.lease] at hled
  refine .get_bind (.refuseIf_bind (fun hne => absurd hses hne) fun _ =>
    .refuseIf_bind (fun hne => absurd hl hne) fun _ => .ite (fun hp => ?_) fun _ => .modify_bind ?_)
  · rw [hrel] at hp
    cases hp
  · generalize exec (InputSequenceLedger.admitAction w.lease req.sequence) w.ledger =
      admitted at hled ⊢
    obtain ⟨_,l⟩ := admitted
    have hlen : (log.map Receipt.entry).length = log.length := length_map _
    cases hled with
    | @replayed entry hlog hrc =>
      rw [List.getElem?_map] at hlog
      obtain ⟨rc,hrt,-⟩ := Option.map_eq_some_iff.mp hlog
      rw [hlen,h.capacity] at hrc
      have hret := h.retainedReceipt_eq req.sequence
      rw [if_pos hrc,hrt] at hret
      refine .pure ?_
      rw [hret]
      exact .replayed hrt hrc
    | forgotten hold =>
      rw [hlen,h.capacity] at hold
      exact .pure (.forgotten hold)
    | fenced hnew hf =>
      rw [hlen] at hnew
      refine (refusal_ensures hf).mono fun r t ht => ?_
      obtain ⟨rfl,rfl⟩ := ht
      exact .refused hnew h.revoke rfl rfl
    | gap hgap =>
      rw [hlen] at hgap
      refine (refusal_ensures rfl).mono fun r t ht => ?_
      obtain ⟨rfl,rfl⟩ := ht
      exact .refused hgap.le h.fence.revoke rfl rfl
    | admitted hn ho hflight =>
      rw [hlen] at hn
      have hs : Shelf {w with ledger := {w.ledger with
          nextSequence := checkedAdd req.sequence 1, pending := some req.sequence}} log :=
        {h with}
      refine (attempt_books hrel hs hflight hn).mono fun r t ht => ?_
      obtain ⟨rc,hsq,hb,hr,hrp⟩ := ht
      exact .attempted hn ho hsq hb hr hrp

end Books

/-! Calls that do not reach the sink. -/

def Silent (w w' : World) : Prop :=
  ∃ new, w'.trail = w.trail ++ new ∧ ∀ o ∈ new, o.sinkCall = false

section Silent

variable {w w' : World}

namespace Silent

theorem refl (w : World) : Silent w w := ⟨[],by simp,by simp⟩

theorem trans {w''} (h : Silent w w') (h' : Silent w' w'') : Silent w w'' := by
  obtain ⟨new,hnew,hs⟩ := h
  obtain ⟨new',hnew',hs'⟩ := h'
  refine ⟨new ++ new',by rw [hnew',hnew,append_assoc],fun o ho => ?_⟩
  rcases mem_append.mp ho with ho | ho
  · exact hs o ho
  · exact hs' o ho

theorem of_frame (h : Frame w w') : Silent w w' := by
  obtain ⟨new,hnew,ha,-⟩ := h.trail
  refine ⟨new,hnew,fun o ho => ?_⟩
  have ho := ha o ho
  cases o <;> first | rfl | cases ho

theorem note {o : Occurrence} (h : o.sinkCall = false) (w : World) : Silent w (w.note o) :=
  ⟨[o],rfl,by simpa using h⟩

theorem of_trail_eq (h : w'.trail = w.trail) : Silent w w' := ⟨[],by simp [h],by simp⟩

theorem revoke (w : World) : Silent w w.revoke := note rfl _

theorem record (w : World) (r : Receipt) (p : Bool) : Silent w (w.record r p) := by
  obtain ⟨new,_,_,hnew,hr⟩ := record_shape w r p
  refine ⟨new ++ [.record r p],by rw [hr],forall_mem_snoc.mpr ⟨fun o ho => ?_,rfl⟩⟩
  rw [hnew o ho]
  rfl

end Silent

/-- An inactive owner gets no further than the first check of an action. -/
theorem execute_inactive (h : w.isActive = false) (req : InputRequest) :
    Ensures (execute req) w fun _ t => Silent w t :=
  (execute_ensures req w).mono fun _ _ ht => by
    cases ht with
    | refused q => exact .of_frame (.of_quiet q)
    | checked q hpass => cases h.symm.trans ((Frame.of_quiet q).inactive hpass.active)

theorem attempt_inactive (h : w.isActive = false) (req : InputRequest) :
    Ensures (attempt req) w fun _ t => Silent w t := by
  have hs : Silent w {w with submitted := 0, uncertain := false} := .of_trail_eq rfl
  exact attempt_ensures (execute_inactive (w := {w with submitted := 0, uncertain := false}) h req)
    fun _ t _ ht _ => (hs.trans ht).trans (.record t _ _)

theorem interleave_inactive (h : w.isActive = false) : w.interleave.isActive = false := by
  by_contra ha
  rw [(Frame.of_quietly (.turn w)).inactive (by simpa using ha)] at h
  cases h

theorem dispatch_inactive (h : w.isActive = false) (req : InputRequest) :
    Ensures (dispatch req) w fun _ t => Silent w t := by
  have hl : Silent w (w.admits req) := .of_trail_eq rfl
  refine (dispatch_ensures req w).mono fun r t ht => ?_
  cases ht with
  | idle q => exact .of_frame (.of_quiet q)
  | answered => exact hl
  | fenced => exact hl.trans (.revoke _)
  | pointed _ _ q ha => cases h.symm.trans ((Frame.of_quiet q).inactive ha)
  | admitted =>
    have hi : (w.admits req).isActive = false := by
      simp only [World.isActive,World.admits,Bool.and_eq_false_iff,Bool.not_eq_false'] at h ⊢
      exact h.imp id (admitAction_fenced w.lease req.sequence w.ledger)
    exact (attempt_inactive hi req).mono fun _ _ ht => hl.trans ht

theorem reconcileHeld_inactive (h : w.isActive = false) (req : HeldStateRequest) :
    Ensures (reconcileHeld req) w fun _ t => Silent w t :=
  reconcileHeld_ensures req (.of_frame (.of_quietly (.turn w)))
    (fun _ ha => absurd (interleave_inactive h) (by simp [ha]))
    fun _ _ ha => absurd (interleave_inactive h) (by simp [ha])

end Silent

/-! Whole runs. -/

/-- Whether a call of a run reached the sink. -/
def callsSink (e : SessionEvent) : Bool :=
  ((step e.before e.input).2.trail.drop e.before.trail.length).any Occurrence.sinkCall

/-- The sequence of a reliable request that reached the sink. -/
def sinkSequence (e : SessionEvent) : Option ℕ :=
  match e.input with
  | .dispatch request =>
    if request.event.isPointer = false ∧ callsSink e = true then some request.sequence else none
  | _ => none

def SkipsSequence (e : SessionEvent) : Prop :=
  ∃ expected received, e.reply =
    .dispatched (.error (.refused (.sequence (.sequenceGap expected received)))) ∨
    e.reply = .reconciled (.error (.refused (.sequence (.sequenceGap expected received))))

section Runs

variable {w : World}

variable {e : SessionEvent} {req : InputRequest} {a : Authority.SessionAuthority}

theorem Silent.not_callsSink (h : Silent e.before (step e.before e.input).2) :
    callsSink e = false := by
  obtain ⟨_,hnew,hs⟩ := h
  unfold callsSink
  rw [hnew,drop_left,any_eq_false]
  intro o ho
  simp [hs o ho]

/-- A call either leaves the record alone and its reliable request away from the sink, or
executes the next action. -/
inductive Advances (w : World) (e : SessionEvent) : World → Prop
  | idle {t} (hbooks : Books t (recorded w.trail)) (hsame : recorded t.trail = recorded w.trail)
      (haway : sinkSequence e = none) : Advances w e t
  | executed {t receipt} (hbooks : Books t (recorded w.trail ++ [receipt]))
      (hrecorded : recorded t.trail = recorded w.trail ++ [receipt])
      (hsink : ∀ s, sinkSequence e = some s → s = (recorded w.trail).length) : Advances w e t

theorem sinkSequence_eq_some {s} (h : sinkSequence e = some s) :
    ∃ req, e.input = .dispatch req ∧ req.event.isPointer = false ∧ callsSink e = true ∧
      s = req.sequence := by
  unfold sinkSequence at h
  split at h
  · rename_i req hi
    split at h
    · rename_i hcond
      exact ⟨req,hi,hcond.1,hcond.2,(Option.some.inj h).symm⟩
    · cases h
  · cases h

theorem sinkSequence_silent (h : Silent e.before (step e.before e.input).2) :
    sinkSequence e = none := by
  by_contra hsome
  obtain ⟨s,hs⟩ := Option.ne_none_iff_exists'.mp hsome
  obtain ⟨_,-,-,hsink,-⟩ := sinkSequence_eq_some hs
  rw [h.not_callsSink] at hsink
  cases hsink

theorem step_advances_reliable (h : Books w (recorded w.trail))
    (hrel : req.event.isPointer = false) :
    Advances w ⟨w,.dispatch req,(step w (.dispatch req)).1⟩ (step w (.dispatch req)).2 := by
  have hi {t : World} (ht : (step w (.dispatch req)).2 = t) (hb : Books t (recorded w.trail))
      (hsm : recorded t.trail = recorded w.trail) (hsilent : Silent w t) :
      Advances w ⟨w,.dispatch req,(step w (.dispatch req)).1⟩ t :=
    .idle hb hsm (sinkSequence_silent (ht ▸ hsilent))
  by_cases hf : req.credentials.session ≠ w.session ∨ req.credentials.lease ≠ w.lease
  · obtain ⟨_,-,hstep⟩ := dispatch_foreign hf
    have hsm := congrArg Prod.snd hstep
    rw [hsm]
    exact hi hsm h rfl (.refl w)
  · push Not at hf
    have hd : Dispatched w (recorded w.trail) req (exec (dispatch req) w).1
        (step w (.dispatch req)).2 := dispatch_books hrel h hf.1 hf.2
    generalize hr : (exec (dispatch req) w).1 = r at hd
    generalize ht : (step w (.dispatch req)).2 = t at hd ⊢
    cases hd with
    | replayed | forgotten => exact hi ht h rfl (.refl w)
    | refused _ hb htr =>
      refine hi ht hb ?_ ⟨[.revoke],htr,by simp [Occurrence.sinkCall]⟩
      rw [htr,recorded_append]
      exact append_nil _
    | attempted hn _ _ hb hrecord =>
      refine .executed hb hrecord fun s hs => ?_
      obtain ⟨_,hin,-,-,rfl⟩ := sinkSequence_eq_some hs
      cases hin
      exact hn

theorem step_advances (h : Books w (recorded w.trail)) (call : SessionCall) :
    Advances w ⟨w,call,(step w call).1⟩ (step w call).2 := by
  have ho (hc : call.reliable = false) (haway : sinkSequence ⟨w,call,(step w call).1⟩ = none) :
      Advances w ⟨w,call,(step w call).1⟩ (step w call).2 := by
    have hs := step_stages w call
    rw [hc] at hs
    exact .idle (h.of_stages hs).1 (h.of_stages hs).2 haway
  cases call with
  | dispatch req =>
    cases hp : req.event.isPointer with
    | false => exact step_advances_reliable h hp
    | true => exact ho (by simp [SessionCall.reliable,hp]) (by simp [sinkSequence,hp])
  | _ => exact ho rfl rfl

theorem Advances.books {t} (h : Advances w e t) : Books t (recorded t.trail) := by
  cases h with
  | idle hb hs => rwa [hs]
  | executed hb hr => rwa [hr]

theorem Opens.attached (h : Opens a w) : Attached a w.toInputSession w.authority := by
  obtain ⟨⟨cr,bounds,capabilities,now,hx⟩,-⟩ := h
  have ha := fromSharedAuthority_attached cr bounds capabilities now a
  rw [Ensures,hx] at ha
  exact ha _ rfl

theorem Opens.books (h : Opens a w) : Books w (recorded w.trail) := by
  have ha := h.attached
  have ht : recorded w.trail = [] := by rw [h.2.2]; rfl
  rw [ht]
  refine ⟨⟨ha.ledgerLease,ha.capacity,?_⟩,ha.ledger⟩
  rw [ha.receipts,ha.cursor]
  exact .nil

/-- A failed action leaves its owner inactive. -/
def Halts (w : World) : Prop :=
  ∀ r p, .record r p ∈ w.trail → r.outcome.succeeded = false → w.isActive = false

theorem Halts.of_stage {b c w'} (h : Halts w) (hs : Stage b c w w') : Halts w' := by
  intro r p hr hf
  obtain ⟨_,he⟩ := hs.extends_
  have hstate (hw : w.isActive = false) : w'.isActive = false := by
    by_contra ha
    rw [he.active (by simpa using ha)] at hw
    cases hw
  cases hs with
  | step hs => exact hstate (h r p ((Untouched.of_step hs).records r p hr) hf)
  | fence | retain => exact hstate (h r p hr hf)
  | record hrec =>
    rcases mem_append.mp hr with hr | hr
    · exact hstate (h r p hr hf)
    · cases mem_singleton.mp hr
      exact hrec hf
  | confirm => exact hstate (h r p ((Untouched.of_frame (.consult w _)).records r p hr) hf)

theorem Halts.step (h : Halts w) (call : SessionCall) : Halts (step w call).2 := by
  have hstage := step_stages w call
  generalize (Input.step w call).2 = t at hstage ⊢
  induction hstage with
  | refl => exact h
  | tail _ hs ih => exact ih.of_stage hs

theorem attempt_replies (req : InputRequest) :
    Ensures (attempt req) w fun r _ => ∀ e, r ≠ .error (.refused e) :=
  attempt_ensures (.trivial _) fun _ _ _ _ hr e he => by
    subst he
    rcases hr with h | ⟨-,h⟩ <;> cases h

theorem pointer_replies (hp : req.event.isPointer = true) :
    Ensures (dispatch req) w fun r _ => ∀ e, r ≠ .error (.refused (.sequence e)) := by
  refine (dispatch_ensures req w).mono fun r t ht => ?_
  cases ht with
  | idle _ hr => exact hr
  | answered hrel | fenced hrel | admitted hrel => cases hp.symm.trans hrel
  | pointed => exact fun e => attempt_replies req _

/-- A snapshot is refused as a whole only when it skips a sequence, which revokes. -/
theorem reconcileHeld_replies (req : HeldStateRequest) :
    Ensures (reconcileHeld req) w fun r t => ∀ e, r = .error (.refused e) → t.isActive = false :=
  reconcileHeld_ensures req (fun _ h => by cases h) (fun _ _ _ _ => rfl) fun _ _ _ _ h _ e he =>
    absurd he (h e)

/-- A skipped sequence leaves the owner inactive. -/
theorem inactive_of_skip (h : Books w (recorded w.trail)) {call}
    (hskip : SkipsSequence ⟨w,call,(step w call).1⟩) : (step w call).2.isActive = false := by
  obtain ⟨expected,received,hskip⟩ := hskip
  cases call with
  | dispatch req =>
    have hrp : (exec (dispatch req) w).1 =
        .error (.refused (.sequence (.sequenceGap expected received))) := by
      rcases hskip with hskip | hskip
      · exact SessionReply.dispatched.inj hskip
      · cases hskip
    cases hp : req.event.isPointer with
    | true => exact absurd hrp (pointer_replies hp _)
    | false =>
      by_cases hf : req.credentials.session ≠ w.session ∨ req.credentials.lease ≠ w.lease
      · obtain ⟨_,hr,hstep⟩ := dispatch_foreign hf
        have ho := SessionReply.dispatched.inj (congrArg Prod.fst hstep)
        rw [hrp] at ho
        cases ho
        rcases hr with hr | hr <;> cases hr
      · push Not at hf
        have hd := dispatch_books hp h hf.1 hf.2
        rw [Ensures,hrp] at hd
        change Dispatched _ _ _ _ (step w (.dispatch req)).2 at hd
        generalize (step w (.dispatch req)).2 = t at hd ⊢
        cases hd with
        | refused _ _ _ hi => exact hi
        | attempted _ _ _ _ _ hrp' => rcases hrp' with h | h <;> cases h
  | reconcileHeld req =>
    have hrp : (exec (reconcileHeld req) w).1 =
        .error (.refused (.sequence (.sequenceGap expected received))) := by
      rcases hskip with hskip | hskip
      · cases hskip
      · exact SessionReply.reconciled.inj hskip
    exact reconcileHeld_replies req _ hrp
  | _ => rcases hskip with hskip | hskip <;> cases hskip

structure RunBooks (past : List SessionEvent) (w : World) : Prop where
  books : Books w (recorded w.trail)
  halts : Halts w
  skipped : (∃ e ∈ past, SkipsSequence e) → w.isActive = false
  ordered : (past.filterMap sinkSequence).Sublist (List.range (recorded w.trail).length)

theorem RunBooks.step {past} (h : RunBooks past w) (call : SessionCall) :
    RunBooks (past ++ [⟨w,call,(step w call).1⟩]) (step w call).2 where
  books := (step_advances h.books call).books
  halts := h.halts.step call
  skipped := by
    rintro ⟨e,he,hskip⟩
    rcases mem_append.mp he with he | he
    · obtain ⟨_,hext⟩ := stages_extends (step_stages w call)
      by_contra ha
      have hw := h.skipped ⟨e,he,hskip⟩
      rw [hext.active (by simpa using ha)] at hw
      cases hw
    · rw [mem_singleton.mp he] at hskip
      exact inactive_of_skip h.books hskip
  ordered := by
    rw [filterMap_append]
    cases step_advances h.books call with
    | idle hb hsm haway =>
      rw [hsm]
      simpa [haway] using h.ordered
    | executed hb hr hsink =>
      rw [hr,length_append,length_singleton,range_succ]
      refine h.ordered.append ?_
      cases hs : sinkSequence ⟨w,call,(Input.step w call).1⟩ with
      | none => simp [hs]
      | some s => simp [hs,hsink s hs]

theorem runBooks (h : Opens a w) (ca : List SessionCall) : RunBooks (trace w ca) (final w ca) := by
  refine history_invariant step ⟨h.books,?_,by simp,by simp⟩ (fun _ _ call h => h.step call) ca
  intro r p hr
  rw [h.2.2] at hr
  cases hr

theorem Books.sequences {log} (h : Books w log) :
    log.map Receipt.sequence = List.range log.length := by
  apply ext_getElem?
  intro p
  rw [List.getElem?_map]
  by_cases hp : p < log.length
  · rw [List.getElem?_eq_getElem hp,List.getElem?_range hp]
    exact congrArg some (h.numbered p _ (List.getElem?_eq_getElem hp))
  · rw [List.getElem?_eq_none (not_lt.mp hp),List.getElem?_eq_none (by simpa using hp)]
    rfl

theorem consumed_replies (hrel : req.event.isPointer = false)
    {log} (h : Books w log) (hs : req.credentials.session = w.session)
    (hl : req.credentials.lease = w.lease) (hc : req.sequence < log.length) :
    (step w (.dispatch req)).2 = w ∧ (log.length ≤ req.sequence+maxRetainedInputReceipts →
        ∃ rc, log[req.sequence]? = some rc ∧
          (step w (.dispatch req)).1 = .dispatched (.ok (.completed rc))) ∧
      (req.sequence+maxRetainedInputReceipts < log.length →
        (step w (.dispatch req)).1 = .dispatched (.ok .consumedWithoutReceipt)) := by
  have hd : Dispatched w log req (exec (dispatch req) w).1
      (exec (dispatch req) w).2 := dispatch_books hrel h hs hl
  simp only [step,call]
  generalize (exec (dispatch req) w).1 = r at hd ⊢
  generalize (exec (dispatch req) w).2 = t at hd ⊢
  cases hd with
  | replayed hlog hr => exact ⟨rfl,fun _ => ⟨_,hlog,rfl⟩,fun hold => by omega⟩
  | forgotten hold => exact ⟨rfl,fun hr => by omega,fun _ => rfl⟩
  | refused | attempted => omega

/-- In every run, the executed reliable actions are those of the sequences 0, 1, 2 and so on, and
the requests that reach the sink are among them, in that order and once each. A consumed sequence
gets its recorded receipt while that is among the latest 32, and never changes anything. After a
failed action or a skipped sequence, neither requests nor snapshots reach the sink. -/
theorem reliable_actions_once (a : Authority.SessionAuthority) (w : World) (hopens : Opens a w)
    (calls : List SessionCall) :
    (recorded (final w calls).trail).map Receipt.sequence = List.range
      (recorded (final w calls).trail).length ∧
    ((trace w calls).filterMap sinkSequence).Sublist
      (List.range (recorded (final w calls).trail).length) ∧
    (∀ past e later req, trace w calls = past ++ e :: later → e.input = .dispatch req →
      req.event.isPointer = false → req.credentials.session = e.before.session →
      req.credentials.lease = e.before.lease → req.sequence < (recorded e.before.trail).length →
      (step e.before e.input).2 = e.before ∧
        ((recorded e.before.trail).length ≤ req.sequence+maxRetainedInputReceipts →
          ∃ receipt, (recorded e.before.trail)[req.sequence]? = some receipt ∧
            e.reply = .dispatched (.ok (.completed receipt))) ∧
        (req.sequence+maxRetainedInputReceipts < (recorded e.before.trail).length →
          e.reply = .dispatched (.ok .consumedWithoutReceipt))) ∧
    (∀ past e later, trace w calls = past ++ e :: later →
      ((∃ r p, .record r p ∈ e.before.trail ∧ r.outcome.succeeded = false) ∨
        ∃ e' ∈ past, SkipsSequence e') →
      ((∃ req, e.input = .dispatch req) ∨ ∃ req, e.input = .reconcileHeld req) →
      callsSink e = false) := by
  have hrun := runBooks hopens calls
  refine ⟨hrun.books.sequences,hrun.ordered,?_,?_⟩
  · intro past e later req ht hin hrel hs hl hc
    obtain ⟨is₁,call,is₂,-,-,rfl,-⟩ := trace_split step ht
    cases hin
    exact consumed_replies hrel (runBooks hopens is₁).books hs hl hc
  · intro past e later ht hf hca
    obtain ⟨is₁,call,is₂,-,rfl,rfl,-⟩ := trace_split step ht
    have hb := runBooks hopens is₁
    have hi : (final w is₁).isActive = false := by
      rcases hf with ⟨r,p,hr,hr'⟩ | hskip
      · exact hb.halts r p hr hr'
      · exact hb.skipped hskip
    apply Silent.not_callsSink
    rcases hca with ⟨req,rfl⟩ | ⟨req,rfl⟩
    · exact dispatch_inactive hi req
    · exact reconcileHeld_inactive hi req

theorem reliable_actions_once_sample :
    (step (final (sampleWorld [] (List.replicate 8 (sampleAnswer 5))) [.dispatch (samplePress 0)])
      (.dispatch (samplePress 0))).1 = .dispatched (.ok
        (.completed ⟨0,.submittedToOs,1,none⟩)) := by
  have honce := reliable_actions_once sampleAuthority
    (sampleWorld [] (List.replicate 8 (sampleAnswer 5)))
    (sampleWorld_opens _ _) [.dispatch (samplePress 0),.dispatch (samplePress 0)]
  obtain ⟨-,hr,-⟩ :=
    honce.2.2.1 [_] ⟨_,.dispatch (samplePress 0),_⟩ [] (samplePress 0) rfl rfl rfl rfl rfl
    (by decide)
  obtain ⟨receipt,hrt,hrp⟩ := hr (by decide)
  have hf : receipt = ⟨0,.submittedToOs,1,none⟩ := Option.some.inj (hrt.symm.trans rfl)
  rw [← hf]
  exact hrp

end Runs
end FrankenRemote.Input
