import FrankenRemote.InputEffect

/-! Each call of the owner as a sequence of stages. Releases outside an action only ever concern
input that is tracked when they are submitted. -/
namespace FrankenRemote.Input

open Procedure Relation List

/-- A native operation and what was reported of it. -/
abbrev NativeHistory := List (Operation × Submission)

/-- An authorized submission that unwound after its callback has an unknown effect. A returned
error confirms that there was no native operation. -/
def Occurrence.reported : Occurrence → Option (Operation × Submission)
  | .report op _ (.ok s) => some (op,s)
  | .unwound op true => some (op,.unknown)
  | .submit op _ s => some (op,s)
  | _ => none

def nativeHistory (trail : List Occurrence) : NativeHistory := trail.filterMap Occurrence.reported

@[simp] theorem nativeHistory_append (l l' : List Occurrence) :
    nativeHistory (l ++ l') = nativeHistory l ++ nativeHistory l' := filterMap_append

theorem Frame.history {w t} (h : Frame w t) : nativeHistory t.trail = nativeHistory w.trail := by
  obtain ⟨new,hnew,ha,-⟩ := h.trail
  have hn : nativeHistory new = [] := filterMap_eq_nil_iff.mpr fun o ho => by
    have ha := ha o ho
    cases o <;> first | rfl | cases ha
  rw [hnew,nativeHistory_append,hn,append_nil]

/-- Inside a call without a request. -/
inductive Upkeep : World → World → Prop
  | quiet {w t} (h : Quietly w t) : Upkeep w t
  | prepare (w : World) (op : Operation) : Upkeep w (w.note (.prepare op))
  /-- A release that was not confirmed. -/
  | kept {w op} (hrelease : op.isRelease = true) (htracked : w.tracked op = true)
      {s} (hs : s ≠ .submitted) : Upkeep w (w.note (.submit op true s))
  | released {w op} (hrelease : op.isRelease = true) (htracked : w.tracked op = true) :
      Upkeep w {w.note (.submit op true .submitted) with toSyntheticHeld := w.track op false}
  | revoke (w : World) : Upkeep w w.revoke
  | report (w : World) (f : Reconciliation → Reconciliation) : Upkeep w (w.report f)
  | reconcile (w : World) (floor : Option ℕ) (r : Option Reconciliation) :
      Upkeep w {w with reconciliationFloor := floor, reconciliation := r}
  | confirm {w} (h : w.heldCount = 0) : Upkeep w (w.consult (.confirmSuspensionRelease w.lease))

section Releases

variable {w t : World} {op : Operation}

theorem upkeep_of_quiet (h : Quiet w t) : ReflTransGen Upkeep w t :=
  ReflTransGen.mono (fun _ _ => .quiet) _ _ h

theorem upkeep_of_looking {α : Type} {m : Owner α} (h : Moves Quietly m w) : Moves Upkeep m w :=
  h.mono fun _ _ => .quiet

/-- Upkeep that reports nothing and keeps all that is held. -/
structure Holding (w t : World) : Prop where
  upkeep : ReflTransGen Upkeep w t
  held : t.toSyntheticHeld = w.toSyntheticHeld
  history : nativeHistory t.trail = nativeHistory w.trail

theorem Holding.trans {u} (h : Holding w t) (h' : Holding t u) : Holding w u :=
  ⟨h.1.trans h'.1,h'.2.trans h.2,h'.3.trans h.3⟩

theorem Holding.of_quiet (h : Quiet w t) : Holding w t :=
  ⟨upkeep_of_quiet h,(Frame.of_quiet h).held,(Frame.of_quiet h).history⟩

theorem prepare_holding : Ensures (prepare op) w fun _ t => Holding w t := by
  refine .bind moves_ask (fun _ t ht => ?_) fun _ _ h => .of_quiet h
  have hnote : Holding w (t.note (.prepare op)) :=
    (Holding.of_quiet ht).trans
      ⟨.single (.prepare t op),rfl,by simp [World.note,nativeHistory,Occurrence.reported]⟩
  exact .modify_bind (.refuseIf_bind (fun _ => hnote) fun _ => .pure hnote)

/-- A release is confirmed exactly when it is reported as submitted, and only then forgotten. -/
theorem submit_ensures {P} (hr : op.isRelease = true) (htrack : w.tracked op = true)
    (hbad : ∀ e t, ReflTransGen Upkeep w t → P (.error e) t)
    (hkept : ∀ s t, s ≠ .submitted → ReflTransGen Upkeep w t → P (.ok s) t)
    (hok : ∀ t, Holding w t → t.tracked op = true →
      P (.ok .submitted) (t.note (.submit op true .submitted))) :
    Ensures (submit op) w P := by
  refine .bind moves_ask (fun a t ht => ?_) fun _ _ h => hbad _ _ (upkeep_of_quiet h)
  have hh : Holding w t := .of_quiet ht
  have htrack' : t.tracked op = true := by rw [hh.held,htrack]
  refine .modify_bind (.refuseIf_bind (fun hp => ?_) fun hret => .pure ?_)
  · rw [if_pos hp,htrack']
    exact hbad _ _ (hh.upkeep.tail (.kept hr htrack' nofun))
  · rw [if_neg hret,htrack']
    by_cases hs : a.submission = .submitted
    · rw [hs]
      exact hok t hh htrack'
    · exact hkept _ _ hs (hh.upkeep.tail (.kept hr htrack' hs))

theorem not_isPress_of_isRelease (h : op.isRelease = true) : op.isPress = false := by
  cases op with
  | key k t => cases t <;> first | rfl | cases h
  | button b p | wheel d p => cases p <;> first | rfl | cases h
  | _ => cases h

theorem upkeep_tryRelease (hr : op.isRelease = true) (htrack : w.tracked op = true) :
    Moves Upkeep (tryRelease op) w := by
  refine prepare_holding.bind (fun prepared t ht => ?_) fun _ _ h => h.upkeep
  cases prepared with
  | error e => exact .pure ht.upkeep
  | ok _ =>
    refine .of_bind (submit_ensures hr (by rw [ht.held,htrack])
      (fun _ _ h => .throw (ht.upkeep.trans h))
      (fun s u hs h => .ite (fun hs' => absurd hs' hs) fun _ => .pure (ht.upkeep.trans h))
        fun u hu htrack' => ?_)
    exact .ite (fun _ => .modify_bind (.pure ((ht.trans hu).upkeep.tail (.released hr htrack'))))
      fun h => absurd rfl h

theorem upkeep_releaseTracked (ops : List Operation) (hr : ∀ op ∈ ops, op.isRelease = true) :
    Moves Upkeep (releaseTracked ops) w := by
  induction ops generalizing w with
  | nil => exact .pure 0
  | cons op ops ih =>
    have ho : ∀ op ∈ ops, op.isRelease = true := fun op hop => hr op (mem_cons_of_mem _ hop)
    refine .get_bind (.ite (fun ht => ?_) fun _ => ?_)
    · exact .bind (upkeep_tryRelease (hr op mem_cons_self) ht) fun _ _ =>
        .bind (ih ho) fun _ _ => .pure _
    · exact .bind (.pure 0) fun _ _ => .bind (ih ho) fun _ _ => .pure _

theorem isRelease_of_mem_releases (h : op ∈ releases) : op.isRelease = true := by
  simp only [releases,mem_append,mem_map] at h
  rcases h with ⟨k,_,rfl⟩ | ⟨b,_,rfl⟩
  · rfl
  · rfl

theorem upkeep_releaseWheel : Moves Upkeep releaseWheel w := by
  refine .get_bind ?_
  cases hw : w.wheel with
  | none => exact .pure 0
  | some d => exact upkeep_tryRelease rfl (by simp [SyntheticHeld.tracked,hw])

theorem upkeep_releaseHeld : Moves Upkeep releaseHeld w := by
  refine .bind upkeep_releaseWheel fun _ _ => .bind ?_ fun _ _ => .get_bind (.pure _)
  exact upkeep_releaseTracked _ fun _ => isRelease_of_mem_releases

theorem upkeep_cleanup : Moves Upkeep cleanup w := .modify_bind (.revoke w) upkeep_releaseHeld

theorem upkeep_settle : Moves Upkeep settle w :=
  .bind (upkeep_of_looking moves_others) fun _ _ => .get_bind (.ite (fun _ => upkeep_cleanup)
    fun _ => .pure _)

theorem releaseHeld_remaining : Ensures releaseHeld w fun r t =>
    ∀ cleanup, r = .ok cleanup → cleanup.remaining = t.heldCount := by
  refine (Ensures.trivial releaseWheel).bind (fun wheel a _ => ?_) fun _ _ _ _ h => by cases h
  refine (Ensures.trivial (releaseTracked releases)).bind (fun submitted b _ => ?_)
    fun _ _ _ _ h => by cases h
  refine .get_bind (.pure fun cleanup h => ?_)
  cases h
  rfl

theorem upkeep_maintain (now : HostInstant) : Moves Upkeep (maintain now) w := by
  refine .bind (upkeep_of_looking moves_others) fun _ _ => .get_bind (.ite (fun _ => upkeep_settle)
    fun _ => ?_)
  refine .bind (.caught (upkeep_of_looking (.bind (moves_withTime fun _ => rfl)
    fun r _ => moves_statusOf r))) fun status t => ?_
  rcases status with stop | status
  · exact .modify_bind (.revoke t) upkeep_settle
  · cases status with
    | live until_ => exact upkeep_settle
    | suspended until_ released =>
      refine (upkeep_releaseHeld.and releaseHeld_remaining).bind (fun cleanup u hu => ?_)
        fun _ _ h => h.1
      refine .ite (fun hr => .get_bind ?_) fun _ => .pure hu.1
      have hn : u.heldCount = 0 := (hu.2 cleanup rfl).symm.trans hr.1
      refine .caught_bind
        (locked_ensures _ (fun _ v _ hv => .pure (hu.1.trans (upkeep_of_quiet hv))) fun a ha =>
        .pure (hu.1.trans ?_)) fun _ _ => id
      have hf := Frame.of_quiet ha.quiet
      have hz : a.heldCount = 0 := by rw [hf.held,hn]
      refine .tail (upkeep_of_quiet ha.quiet) ?_
      rw [← hf.lease]
      exact .confirm hz

/-! Reconciliation. -/

theorem tracked_track_of_ne {h : SyntheticHeld} {op op'} (ho : op ∈ releases)
    (ho' : op' ∈ releases) (hne : op' ≠ op) : (h.track op false).tracked op' = h.tracked op' := by
  simp only [releases,mem_append,mem_map] at ho ho'
  rcases ho with ⟨k,_,rfl⟩ | ⟨b,_,rfl⟩ <;> rcases ho' with ⟨k',_,rfl⟩ | ⟨b',_,rfl⟩
  · have hk : k' ≠ k := fun h => hne (by rw [h])
    simp [SyntheticHeld.track,SyntheticHeld.tracked,Function.update_of_ne hk]
  · rfl
  · rfl
  · have hb : b' ≠ b := fun h => hne (by rw [h])
    simp [SyntheticHeld.track,SyntheticHeld.tracked,Function.update_of_ne hb]

theorem nodup_releases : releases.Nodup := by
  have hkeys : PhysicalKey.all.Nodup := by
    refine nodup_range.filterMap fun a a' k hk hk' => ?_
    rw [Option.mem_def,PhysicalKey.new_eq_some] at hk hk'
    rw [hk,hk']
  have hbs : PointerButton.all.Nodup := by decide
  refine List.Nodup.append (hkeys.map fun k k' h => by cases h; rfl)
    (hbs.map fun b b' h => by cases h; rfl) ?_
  intro op hkey hbutton
  simp only [mem_map] at hkey hbutton
  obtain ⟨k,_,rfl⟩ := hkey
  obtain ⟨b,_,hb⟩ := hbutton
  cases hb

theorem moves_checkReconciliation (now : HostInstant) : Moves Quietly (checkReconciliation now) w :=
  .bind moves_checkActive fun _ _ => .bind (moves_withTime fun _ => rfl)
    fun reply _ => moves_flagOf _ reply

theorem checkReconciliation_bind {P : Except Stop Unit → World → Prop} {k : Owner Unit}
    (hbad : ∀ e t, ReflTransGen Upkeep w t → P (.error e) t)
    (hok : ∀ t, Holding w t → Ensures k t P) :
    Ensures (do let now ← sampleClock; checkReconciliation now; k) w P :=
  .bind moves_sampleClock (fun now _ ha => .bind (moves_checkReconciliation now)
    (fun _ t ht => hok t (.of_quiet
    (ha.trans ht))) fun _ _ h => hbad _ _ (upkeep_of_quiet (ha.trans h)))
      fun _ _ h => hbad _ _ (upkeep_of_quiet h)

/-- Releases of a snapshot that all succeed clear their own input and no other. -/
structure Released (ops : List Operation) (w t : World) : Prop where
  history : nativeHistory t.trail = nativeHistory w.trail ++ ops.map (·,.submitted)
  held : t.toSyntheticHeld = ops.foldl (·.track · false) w.toSyntheticHeld

theorem Released.after {ops u} (h : Released ops t u) (ht : Holding w t) : Released ops w u :=
  ⟨h.1.trans (by rw [ht.history]),h.2.trans (by rw [ht.held])⟩

theorem reconcileOne_ensures (hr : op.isRelease = true) (ht : w.tracked op = true) :
    Ensures (reconcileOne op) w fun r t => ReflTransGen Upkeep w t ∧
    (r = .ok () → Released [op] w t) := by
  refine prepare_holding.bind (fun prepared a ha => ?_) fun _ _ h => ⟨h.upkeep,nofun⟩
  cases prepared with
  | error e => exact .throw ⟨ha.upkeep,nofun⟩
  | ok _ =>
    refine checkReconciliation_bind (fun _ _ h => ⟨ha.upkeep.trans h,nofun⟩) fun d hd =>
      .modify_bind ?_
    have hd := (ha.trans hd).trans
      ⟨.single (.report d ({· with outcome := .effectUnknown})),rfl,rfl⟩
    refine .of_bind (submit_ensures hr ((congrArg (·.tracked op) hd.held).trans ht)
      (fun _ _ h => .throw ⟨hd.upkeep.trans h,nofun⟩) (fun s t hs h => ?_) fun u hu ht' =>
        .of_exec (exec_modify _ _) ⟨?_,fun _ => .after (t := u) ⟨?_,rfl⟩ (hd.trans hu)⟩)
    · cases s with
      | submitted => exact absurd rfl hs
      | unknown => exact .throw ⟨hd.upkeep.trans h,nofun⟩
      | _ => exact .modify_bind (.throw ⟨(hd.upkeep.trans h).tail (.report _ _),nofun⟩)
    · exact ((hd.trans hu).upkeep.tail (.released hr ht')).tail (.report _ _)
    · exact nativeHistory_append _ _

theorem reconcileOps_ensures (ops : List Operation) (ho : ∀ op ∈ ops, op ∈ releases)
    (hn : ops.Nodup) (htrack : ∀ op ∈ ops, w.tracked op = true) :
    Ensures (each reconcileOne ops) w fun r t => ReflTransGen Upkeep w t ∧
    (r = .ok () → Released ops w t) := by
  induction ops generalizing w with
  | nil => exact .pure ⟨.refl,fun _ => ⟨by simp,rfl⟩⟩
  | cons op ops ih =>
    have hop := ho op mem_cons_self
    have hre : ∀ op ∈ ops, op ∈ releases := fun op hop => ho op (mem_cons_of_mem _ hop)
    obtain ⟨hnew,hn⟩ := nodup_cons.mp hn
    refine (reconcileOne_ensures (isRelease_of_mem_releases hop) (htrack op mem_cons_self)).bind
      (fun _ t ht => ?_) fun _ _ h => ⟨h.1,nofun⟩
    obtain ⟨hhist,hh⟩ := ht.2 rfl
    refine (ih hre hn fun op' hop' => ?_).mono fun _ u hu => ⟨ht.1.trans hu.1,fun hr => ⟨?_,?_⟩⟩
    · have hne : op' ≠ op := fun h => hnew (h ▸ hop')
      rw [hh,foldl_cons,foldl_nil,tracked_track_of_ne hop (hre op' hop') hne]
      exact htrack op' (mem_cons_of_mem _ hop')
    · rw [(hu.2 hr).history,hhist,append_assoc]
      rfl
    · rw [(hu.2 hr).held,hh]
      rfl

/-- A report says applied only when every release succeeded. -/
theorem reconcileAll_ensures (ops : List Operation) (ho : ∀ op ∈ ops, op ∈ releases)
    (hn : ops.Nodup) (htrack : ∀ op ∈ ops, w.tracked op = true) :
    Ensures (reconcileAll ops) w fun r t => ReflTransGen Upkeep w t ∧
    (∀ e, r ≠ .error (.refused e)) ∧
      ∀ report, r = .ok report → report.outcome = .applied → Released ops w t := by
  refine .caught_bind (Q := fun r t => ReflTransGen Upkeep w t ∧ (r = .ok () → Released ops w t))
    (checkReconciliation_bind (fun _ _ h => ⟨h,nofun⟩) fun t ht =>
    (reconcileOps_ensures ops ho hn fun op hop => by rw [ht.held,htrack op hop]).mono fun _ _ hu =>
      ⟨ht.upkeep.trans hu.1,fun hr => (hu.2 hr).after ht⟩) fun res u hu => ?_
  rcases res with (error | _) | _
  · have hup : ReflTransGen Upkeep w (u.revoke.report (·.refusedBy error)) :=
      (hu.1.tail (.revoke u)).tail (.report _ _)
    refine .modify_bind (.get_bind ?_)
    change Ensures (okOr (u.reconciliation.map (·.refusedBy error)) _) _ _
    cases u.reconciliation with
    | none => exact .throw ⟨hup,nofun,nofun⟩
    | some r =>
      refine .pure ⟨hup,nofun,fun report hreport ha => ?_⟩
      cases hreport
      simp only [Reconciliation.refusedBy] at ha
      split_ifs at ha
  · exact .of_exec rfl ⟨hu.1.tail (.revoke u),nofun,nofun⟩
  · have hup := hu.1.tail (.report u ({· with outcome := .applied}))
    refine .modify_bind (.get_bind ?_)
    change Ensures (okOr (u.reconciliation.map ({· with outcome := .applied})) _) _ _
    cases u.reconciliation with
    | none => exact .throw ⟨hup,nofun,nofun⟩
    | some r => exact .pure ⟨hup,nofun,fun _ _ _ => ⟨(hu.2 rfl).history,(hu.2 rfl).held⟩⟩

theorem reconcileHeld_ensures {P} (q : HeldStateRequest)
    (hold : P (.ok ⟨q.sequence,.ignored,0,0,none⟩) w.interleave)
    (hgap : ∀ e, w.interleave.isActive = true → P (.error (.refused e)) w.interleave.revoke)
    (hdone : ∀ r t, w.interleave.isActive = true → ReflTransGen Upkeep w t →
      (∀ e, r ≠ .error (.refused e)) → (∀ report, r = .ok report → report.outcome = .applied →
        Released (w.missingReleases q.held) w t) →
      P r t) : Ensures (reconcileHeld q) w P := by
  have hq : Holding w w.interleave := .of_quiet (.single (.turn w))
  refine others_bind (.get_bind (.ite (fun _ => .pure hold) fun hc => ?_))
  have ha : w.interleave.isActive =
    true := by simpa using (not_or.mp (not_or.mp (not_or.mp hc).2).2).1
  cases w.interleave.ledger.nextSequence with
  | none => exact .pure hold
  | some expected =>
    refine .ite (fun _ => .pure hold) fun _ => .ite (fun _ => .modify_bind (.throw (hgap _ ha)))
      fun _ => .modify_bind ((reconcileAll_ensures _ (fun op ho => (mem_filter.mp ho).1)
        (nodup_releases.filter _)
        fun op ho => ?_).mono fun r t ht => hdone r t ha ?_ ht.2.1 fun report hr happ => ?_)
    · exact (Bool.and_eq_true_iff.mp (mem_filter.mp ho).2).1
    · exact (hq.upkeep.tail (.reconcile _ _ _)).trans ht.1
    · have hrelease := (ht.2.2 report hr happ).after (w :=
        w) ⟨hq.upkeep.tail (.reconcile _ _ _),hq.held,hq.history⟩
      rwa [interleave_session] at hrelease

theorem upkeep_reconcileHeld (r : HeldStateRequest) : Moves Upkeep (reconcileHeld r) w :=
  reconcileHeld_ensures r (.single (.quiet (.turn w)))
    (fun _ _ => .tail (.single (.quiet (.turn w))) (.revoke _)) fun _ _ _ h _ _ => h

end Releases

/-! Whole calls. -/

section Calls

variable {w : World} {c : Option InputCredentials} {b : Bool}

theorem stages_revoke : ReflTransGen (Stage b c) w w.revoke :=
  .tail (.single (.step (.quiet (.flag w)))) (.fence _)

/-- Nothing that the ledger answers opens it again. -/
theorem recordOutcome_fenced (le : InputLeaseId) (s : ℕ) (o : InputOutcome)
    (l : InputSequenceLedger) (h : l.fenced = true) :
    Ensures (InputSequenceLedger.recordOutcome le s o) l fun _ l' => l'.fenced = true := by
  refine .get_bind (.refuseIf_bind (fun _ => h) fun _ => .refuseIf_bind (fun _ => h) fun _ => ?_)
  refine .of_exec (exec_modify _ _) ?_
  simp [h]

theorem admitAction_fenced (le : InputLeaseId) (s : ℕ) (l : InputSequenceLedger)
    (h : l.fenced = true) :
    Ensures (InputSequenceLedger.admitAction le s) l fun _ l' => l'.fenced = true := by
  refine .get_bind (.refuseIf_bind (fun _ => h) fun _ => .ite (fun _ => .pure h) fun _ => ?_)
  split
  · exact .pure h
  · split
    · exact .pure h
    · refine .ite (fun _ => .pure h) fun _ => .refuseIf_bind (fun _ => h) fun ho => ?_
      exact absurd h ho

theorem stages_account (rc : Receipt) : ReflTransGen (Stage true c) w (w.account rc) := by
  have hf := recordOutcome_fenced w.lease rc.sequence rc.outcome w.ledger
  have hl (l : InputSequenceLedger) (h : w.ledger.fenced = true → l.fenced = true) :
      ReflTransGen (Stage true c) w {w with ledger := l} :=
    .single (.retain (r := {w.toReplayRecord with ledger := l}) rfl h)
  unfold World.account
  split
  · rename_i hx
    exact hl _ fun h => by simpa [Ensures,hx] using hf h
  · rename_i hx
    exact (hl _ fun h => by simpa [Ensures,hx] using hf h).trans stages_revoke

theorem record_shape (w : World) (rc : Receipt) (p : Bool) : ∃ new r b, (∀ o ∈ new, o = .revoke) ∧
    w.record rc p =
      {w with toReplayRecord := r, revoked := b, trail := w.trail ++ (new ++ [.record rc p])} := by
  have hr (t : World) (succeeded : Bool) : ∃ new r b, (∀ o ∈ new, o = .revoke) ∧
      t.revokeUnless succeeded =
          {t with toReplayRecord := r, revoked := b, trail := t.trail ++ new} := by
    cases succeeded with
    | true => exact ⟨[],t.toReplayRecord,t.revoked,by simp,by simp [World.revokeUnless]⟩
    | false => exact ⟨[.revoke],_,_,by simp,rfl⟩
  have hk : ∃ new r b, (∀ o ∈ new, o = .revoke) ∧ (if p then w else (w.account rc).keep rc) =
      {w with toReplayRecord := r, revoked := b, trail := w.trail ++ new} := by
    cases p with
    | true => exact ⟨[],w.toReplayRecord,w.revoked,by simp,by simp⟩
    | false =>
      rw [if_neg (by simp)]
      unfold World.account
      split
      · exact ⟨[],_,w.revoked,by simp,by rw [append_nil]; rfl⟩
      · exact ⟨[.revoke],_,_,by simp,rfl⟩
  obtain ⟨new,r,b,hnew,ht⟩ := hk
  obtain ⟨new',r',b',hnew',ht'⟩ := hr (if p then w else (w.account rc).keep rc)
    rc.outcome.succeeded
  refine ⟨new ++ new',r',b',fun o ho => (mem_append.mp ho).elim (hnew o) (hnew' o),?_⟩
  rw [World.record,ht',ht]
  simp [World.note]

/-- The receipt is noted after everything that it entails. -/
theorem stages_record (r : Receipt) (p : Bool) :
    ReflTransGen (Stage (!p) c) w (w.record r p) := by
  have hk : ReflTransGen (Stage (!p) c) w
      (if p then w else (w.account r).keep r) := by
    cases p with
    | true => exact .refl
    | false => exact (stages_account r).tail (.retain (r := ⟨(w.account r).ledger,_,_⟩) rfl fun h => h)
  have hr (t : World) (succeeded : Bool) :
      ReflTransGen (Stage (!p) c) t (t.revokeUnless succeeded) ∧
        (succeeded = false → (t.revokeUnless succeeded).isActive = false) := by
    cases succeeded with
    | true => exact ⟨.refl,nofun⟩
    | false => exact ⟨stages_revoke,fun _ => rfl⟩
  have hnote {t : World} (h : r.outcome.succeeded = false → t.isActive = false) :
      Stage (!p) c t (t.note (.record r p)) := by
    have hrec : Stage (!p) c t (t.note (.record r (!!p))) := .record h
    rwa [Bool.not_not] at hrec
  exact (hk.trans (hr _ _).1).tail (hnote (hr _ _).2)

/-- The refusal in the receipt of an attempt that ended so. -/
def Attempt.ended (a : Attempt) : Except Stop Unit → Option Refusal
  | .ok _ => none
  | .error (.refused refusal) => some refusal
  | .error .panicked => some a.unwindRefusal

/-- Every way out of an attempt records a receipt. -/
theorem attempt_ensures {r P Q}
    (h : Ensures (execute r) {w with submitted := 0, uncertain := false} P)
    (hQ : ∀ res t reply, P res t → (reply = .ok (.completed (t.receipt r.sequence (t.ended res))) ∨
      (res = .error .panicked ∧ reply = .error .panicked)) →
      Q reply (t.record (t.receipt r.sequence (t.ended res)) r.event.isPointer)) :
    Ensures (attempt r) w Q := by
  refine .modify_bind (.caught_bind h fun res t ht => .get_bind ?_)
  rcases res with (refusal | _) | _
  · have hdone := hQ (.error (.refused refusal)) t _ ht (.inl rfl)
    exact .modify_bind (.pure hdone)
  · have hdone := hQ (.error .panicked) t _ ht (.inr ⟨rfl,rfl⟩)
    exact .modify_bind (.throw hdone)
  · have hdone := hQ (.ok ()) t _ ht (.inl rfl)
    exact .modify_bind (.pure hdone)

/-- The ledger has seen the request. -/
def World.admits (w : World) (request : InputRequest) : World :=
  {w with ledger := (exec (InputSequenceLedger.admitAction w.lease request.sequence) w.ledger).2}

/-- What a request did: at most one attempt, from a world that took note of it. -/
inductive Dispatches (request : InputRequest) (w : World) : Except Stop Dispatch → World → Prop
  | idle {r t} (q : ReflTransGen Quietly w t)
      (hr : ∀ e, r ≠ .error (.refused (.sequence e))) : Dispatches request w r t
  | answered {r} (hreliable : request.event.isPointer = false) :
      Dispatches request w r (w.admits request)
  | fenced {e} (hreliable : request.event.isPointer = false) :
      Dispatches request w (.error e) (w.admits request).revoke
  | pointed {a} (hpointer : request.event.isPointer = true)
      (hnew : ¬w.pointerFloor.any (request.sequence ≤ ·) = true) (q : ReflTransGen Quietly w a)
      (hactive : a.isActive = true) :
      Dispatches request w (exec (attempt request) {a with pointerFloor := some request.sequence}).1
        (exec (attempt request) {a with pointerFloor := some request.sequence}).2
  | admitted (hreliable : request.event.isPointer = false) :
      Dispatches request w (exec (attempt request) (w.admits request)).1
        (exec (attempt request) (w.admits request)).2

theorem dispatch_ensures (r : InputRequest) (w : World) : Ensures (dispatch r) w
    (Dispatches r w) := by
  refine .get_bind (.refuseIf_bind (fun _ => .idle .refl fun _ h => by cases h) fun _ =>
    .refuseIf_bind (fun _ => .idle .refl fun _ h => by cases h) fun _ => .ite (fun hp =>
      .ite (fun _ => .pure (.idle .refl fun _ h => by cases h)) fun hnew => ?_)
        fun hr => .modify_bind ?_)
  · exact .of_bind (checkActive_ensures (fun t q _ => .throw (.idle q fun _ h => by cases h))
      fun a q ho => .modify_bind (Dispatches.pointed hp hnew q ho))
  · have hr : r.event.isPointer = false := by simpa using hr
    split
    · exact Dispatches.admitted hr
    · exact .pure (.answered hr)
    · exact .pure (.answered hr)
    · exact .pure (.answered hr)
    · unfold revokeIf
      split
      · exact .modify_bind (.throw (.fenced hr))
      · exact .throw (.answered hr)

theorem moves_attempt (r : InputRequest) :
    Moves (Stage (!r.event.isPointer) (some r.credentials)) (attempt r) w := by
  have hs : Stage (!r.event.isPointer) (some r.credentials) w
      {w with submitted := 0, uncertain := false} :=
    .step (.tidy (s := w.toInputSession) (a := ⟨0,false⟩) (fun h => h) rfl rfl rfl rfl)
  exact attempt_ensures ((moves_execute r).mono fun _ _ => .step) fun _ _ _ ht _ =>
    (ht.head hs).trans (stages_record _ _)

theorem moves_dispatch (re : InputRequest) :
    Moves (Stage (!re.event.isPointer) (some re.credentials)) (dispatch re) w := by
  have hq {t : World} (q : Quiet w t) :
      ReflTransGen (Stage (!re.event.isPointer) (some re.credentials)) w t :=
    ReflTransGen.mono (fun _ _ h => .step (.quiet h)) _ _ q
  have ha (hr : re.event.isPointer = false) :
      Stage (!re.event.isPointer) (some re.credentials) w (w.admits re) :=
    .retain (r := {w.toReplayRecord with ledger := _}) (by rw [hr]; rfl)
      (admitAction_fenced w.lease re.sequence w.ledger)
  refine (dispatch_ensures re w).mono fun r t h => ?_
  cases h with
  | idle q _ => exact hq q
  | answered hr => exact .single (ha hr)
  | fenced hr => exact .head (ha hr) stages_revoke
  | @pointed a _ _ q _ =>
    have hf : Step (some re.credentials) a {a with pointerFloor := some re.sequence} :=
      step_tidy rfl rfl rfl rfl rfl
    exact ((hq q).tail (.step hf)).trans (moves_attempt re)
  | admitted hr => exact .head (ha hr) (moves_attempt re)

theorem Upkeep.stages {t} (h : Upkeep w t) : ReflTransGen (Stage b c) w t := by
  cases h with
  | quiet h => exact .single (.step (.quiet h))
  | prepare op => exact .single (.step (.prepare w op))
  | kept hr ht => exact .single (.step (.submit hr ht _))
  | @released op hr ht =>
    refine .tail (.single (.step (.submit hr ht .submitted))) (.step ?_)
    refine .tidy (s := {w.toInputSession with toSyntheticHeld := w.track op false})
      (fun hn => ?_) rfl rfl rfl rfl
    change SyntheticHeld.track w.toSyntheticHeld op false = _
    rw [show w.toSyntheticHeld = _ from hn,SyntheticHeld.none_track (not_isPress_of_isRelease hr)]
  | revoke => exact stages_revoke
  | report f =>
    exact .single (.step (.tidy (s :=
      {w.toInputSession with reconciliation := w.reconciliation.map f})
      (fun h => h) rfl rfl rfl rfl))
  | reconcile floor r =>
    exact .single (.step (.tidy (s :=
      {w.toInputSession with reconciliationFloor := floor, reconciliation := r})
      (fun h => h) rfl rfl rfl rfl))
  | confirm h => exact .single (.confirm h)

theorem moves_renewal {op} (h : ∀ at_, (op at_).confirms = false)
    (now : HostInstant) : Moves Quietly (renewal op now) w :=
  .bind moves_checkActive fun _ _ => .bind (moves_withTime h) fun reply _ => moves_instantOf reply

theorem moves_renewControl (nonce : ℕ) (now : HostInstant) :
    Moves Quietly (renewControl nonce now) w :=
  .get_bind (moves_renewal (fun _ => rfl) now)

theorem moves_issueTicketSnapshot (ticket : InputTicketId) (now : HostInstant) (r : Bool) :
    Moves Quietly (issueTicketSnapshot ticket now r) w := by
  refine .bind moves_checkActive fun _ t => .get_bind ?_
  have ho (at_ : HostInstant) : (ticketOp t.lease ticket r at_).confirms = false := by
    cases r <;> rfl
  refine .bind (moves_withTime ho) fun reply u => .modify_bind (.view u) ?_
  exact .bind (moves_instantOf reply) fun _ _ => .get_bind (.bind (.ofResult _) fun _ _ => .pure _)

def SessionCall.credentials : SessionCall → Option InputCredentials
  | .dispatch request => some request.credentials
  | _ => none

def SessionCall.reliable : SessionCall → Bool
  | .dispatch request => !request.event.isPointer
  | _ => false

theorem step_upkeep (w : World) {call : SessionCall} (hc : call.credentials = none) :
    ReflTransGen Upkeep w (step w call).2 := by
  cases call with
  | dispatch q => cases hc
  | reconcileHeld q => exact upkeep_reconcileHeld q
  | maintain now => exact upkeep_maintain now
  | cleanup => exact upkeep_cleanup
  | releaseHeld => exact upkeep_releaseHeld
  | revoke => exact .single (.revoke w)
  | issueObservationChallenge nonce now | renewObservation nonce now
  | issueControlChallenge nonce now =>
    exact upkeep_of_looking (moves_renewal (fun _ => rfl) now)
  | renewControl nonce now => exact upkeep_of_looking (moves_renewControl nonce now)
  | issueTicket ticket now requirePresented =>
    exact upkeep_of_looking (moves_issueTicketSnapshot ticket now requirePresented)

theorem step_stages (w : World) (call : SessionCall) :
    ReflTransGen (Stage call.reliable call.credentials) w (step w call).2 := by
  cases call with
  | dispatch q => exact moves_dispatch q
  | _ => exact reflTransGen_closed (fun _ _ => Upkeep.stages) _ _ (step_upkeep w rfl)

end Calls

/-! The first state. -/

/-- A fresh owner holds nothing and recorded nothing. The policy authorized its ticket and gave
it the claim in two calls. -/
structure Attached (a : Authority.SessionAuthority) (s : InputSession)
    (a' : Authority.SessionAuthority) : Prop where
  held : s.toSyntheticHeld = .none_
  ledger : Accounts s.ledger []
  ledgerLease : s.ledger.lease = s.lease
  capacity : s.ledger.receiptCapacity = maxRetainedInputReceipts
  receipts : s.receipts = fun _ => none
  cursor : s.receiptCursor = 0
  authorized : ∃ ticket now, (Authority.step a (.authorizeSubmission s.lease ticket now)).1.isOk =
    true ∧ a' = (Authority.step (Authority.step a (.authorizeSubmission s.lease ticket now)).2
      (.claimNativeOwner s.lease)).2

theorem fromSharedAuthority_attached (cr : InputCredentials) (bo : InputBounds)
    (ca : Capabilities) (now : HostInstant) (a : Authority.SessionAuthority) :
    Ensures (fromSharedAuthority cr bo ca now) a fun r a' => ∀ s, r = .ok s → Attached a s a' := by
  refine .get_bind (.refuseIf_bind (fun _ _ h => by cases h) fun _ =>
    .adapt_bind (fun _ _ _ _ h => by cases h) fun _ b hb => ?_)
  refine .adapt_bind (fun _ _ _ _ h => by cases h) fun owner d hd =>
    .ofResult_bind (fun _ _ _ h => by cases h) fun ledger hl => .pure fun s hs => ?_
  cases hs
  cases hnew : InputSequenceLedger.new cr.lease maxRetainedInputReceipts with
  | error e =>
    rw [hnew] at hl
    cases hl
  | ok l =>
    have hsm : l = ledger := by
      rw [hnew] at hl
      cases hl
      rfl
    subst hsm
    have hf : l.lease = cr.lease ∧ l.receiptCapacity = maxRetainedInputReceipts := by
      cases hnew
      exact ⟨rfl,rfl⟩
    refine ⟨rfl,accounts_new hnew,hf.1,hf.2,rfl,rfl,cr.ticket,a.serializedTime now,?_,?_⟩
    · simp only [Authority.step,Authority.answer,hb]
      rfl
    · simp only [Authority.step,Authority.answer,hb,hd]

/-! A session for concrete runs. -/

/-- Observation, control and one ticket are granted. -/
def sampleAuthority : Authority.SessionAuthority :=
  Authority.final (Authority.new ⟨1⟩ ⟨1000,100⟩) Authority.controlledRun

def sampleCredentials : InputCredentials := ⟨⟨1⟩,⟨7⟩,⟨9⟩,⟨0,0,0,⟨0⟩⟩⟩

/-- An owner that was attached at time 4. -/
def sampleWorld (schedule : List (List Interference)) (answers : List Answer) : World where
  toSyntheticHeld := .none_
  ledger := ⟨⟨7⟩,some 0,none,fun _ => none,32,0,false⟩
  receipts := fun _ => none
  receiptCursor := 0
  session := ⟨1⟩
  lease := ⟨7⟩
  nativeOwner := 0
  view := ⟨0,0,0,⟨0⟩⟩
  bounds := sampleBounds
  capabilities := ⟨fun _ => true⟩
  pointerFloor := none
  mode := .absolute
  modeEpoch := 0
  cumulative := (0,0)
  reconciliationFloor := none
  reconciliation := none
  clock := 4
  submitted := 0
  uncertain := false
  authority := (exec (fromSharedAuthority sampleCredentials sampleBounds ⟨fun _ => true⟩ 4)
    sampleAuthority).2
  revoked := false
  schedule
  answers
  trail := []

theorem sampleWorld_opens (s : List (List Interference)) (a : List Answer) :
    Opens sampleAuthority (sampleWorld s a) :=
  ⟨⟨sampleCredentials,sampleBounds,⟨fun _ => true⟩,4,rfl⟩,rfl,rfl⟩

def samplePress (sequence : ℕ) : InputRequest := ⟨sampleCredentials,sequence,.key sampleKey .press⟩

/-- A sink that submits everything it is allowed to, at the given time. -/
def sampleAnswer (now : HostInstant) : Answer :=
  ⟨now,.ok (),.submitted,1,.ok .submitted,false,false,false⟩

end FrankenRemote.Input
