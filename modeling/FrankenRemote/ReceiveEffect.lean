import FrankenRemote.Receive
import FrankenRemote.Reassembly

/-! What each receiver procedure can do. A message that is admitted touches one seat of
the slot table; everything else it may do is to report, or to fail the epoch. -/
namespace FrankenRemote.Delivery

open Wire Bytes Procedure SlotTable ReceivePipeline

/-- The errors that disagreement about a picture or a record would give. -/
def DeliveryError.disagreement : DeliveryError → Bool
  | .wire _ | .conflictingPicture | .noncontiguousRecovery | .decodeMismatch => true
  | _ => false

/-- The errors that missing memory or clock range give. -/
def DeliveryError.exhaustion : DeliveryError → Bool
  | .resourceLimit | .referenceCapacityExceeded | .allocationFailed | .clockOverflow => true
  | _ => false

variable {e : DeliveryError} {α : Type} {r : ReceivePipeline} {a : Assembly}

theorem DeliveryError.exhaustion_agrees (h : e.exhaustion = true) :
    e.disagreement = false ∧ e ≠ .wrongState := by
  cases e <;> simp_all [DeliveryError.exhaustion,DeliveryError.disagreement]

/-! Allocation runs out, but never disagrees. -/

abbrev Exhausts (x : Except DeliveryError α) : Prop := Fails (·.exhaustion = true) x

theorem orElse_exhausts {o : Option α} (h : e.exhaustion = true) : Exhausts (orElse o e) := by
  cases o with
  | none => exact .error h
  | some a => exact .ok a

theorem deadline_exhausts (now du : ℕ) : Exhausts (deadline now du) := orElse_exhausts rfl

section Budget

variable (b : MediaBudget) (used : BudgetUsage) (pf : Platform)

theorem grow_exhausts (own ex : ℕ) : Exhausts (b.grow used own ex) := by
  refine .bind (orElse_exhausts rfl) fun _ _ => .ite (.error rfl) ?_
  exact .bind (orElse_exhausts rfl) fun _ _ => .ite (.error rfl) (.ok _)

theorem allocate_exhausts (length m : ℕ) : Exhausts (b.allocate used pf length m) := by
  refine .bind (orElse_exhausts rfl) fun _ _ => .bind (.ite (.error rfl) ?_) fun _ _ => ?_
  · exact .bind (orElse_exhausts rfl) fun _ _ => .ite (.error rfl) (.ok _)
  · exact .bind (orElse_exhausts rfl) fun _ _ => grow_exhausts b _ _ _

theorem checkAllocation_exhausts (length m : ℕ) : Exhausts (b.checkAllocation length m) :=
  .bind (orElse_exhausts rfl) fun _ _ => .ite (.error rfl) (.ok _)

theorem storage_exhausts {d l} (hv : FrameDescriptor.Valid d l) (reliable : Bool) :
    Exhausts (Assembly.storage pf d reliable) := by
  rw [Assembly.storage,fragmentCount_valid hv]
  exact .bind (.ok _) fun _ _ => .bind (orElse_exhausts rfl) fun _ _ => .ok _

theorem new_exhausts {d : FrameDescriptor} {c : ReceiveConfig} (now : ℕ) (ru : Option ℕ)
    (hv : d.Valid c.limits) : Exhausts (Assembly.new pf b used d c now ru) := by
  rw [Assembly.new,FrameDescriptor.validate_eq_ok.mpr hv]
  refine .bind (.ok _) fun _ _ => .bind (storage_exhausts pf hv _) fun (_,_,_) _ => ?_
  refine .bind (allocate_exhausts b _ _ _ _) fun (_,_) _ => .bind (orElse_exhausts rfl)
    fun _ _ => ?_
  refine .bind (.ite (.error rfl) (.ok _)) fun _ _ => .bind (grow_exhausts b _ _ _)
    fun (_,_) _ => ?_
  refine .bind (deadline_exhausts _ _) fun _ _ => .bind ?_ fun _ _ => ?_
  · cases ru with
    | none => exact deadline_exhausts _ _
    | some t => exact .ok t
  · exact .bind (deadline_exhausts _ _) fun _ _ => .bind (deadline_exhausts _ _) fun _ _ => .ok _

end Budget

/-! Time. -/

/-- Nothing is admitted any more, until a replacement. -/
def ReceiveState.dead (s : ReceiveState) : Prop := s = .needsRecovery ∨ s = .closed

/-- The epoch has ended: the pipeline is dead and still of the same epoch. -/
structure Ends (r t : ReceivePipeline) : Prop where
  dead : t.state.dead
  config : t.config = r.config
  scope : t.scope = r.scope

/-- No failure so far was a disagreement. -/
def ReceivePipeline.Agreeing (r : ReceivePipeline) : Prop :=
  ∀ e, r.failure = some e → e.disagreement = false

theorem dead_failed (r : ReceivePipeline) (e : DeliveryError) : (r.failed e).state.dead := by
  unfold ReceivePipeline.failed
  dsimp only
  split
  · exact .inr rfl
  · exact .inl rfl

theorem agreeing_failed (r : ReceivePipeline) (he : e.disagreement = false) :
    (r.failed e).Agreeing := by
  intro e' h
  cases h
  exact he

theorem exec_fail (e : DeliveryError) (r : ReceivePipeline) :
    exec (fail e : Receiver α) r = (.error e,r.failed e) := by
  rw [fail,exec_modify_bind,exec_throw]

/-- A call that reports `e` and ends the epoch, without a disagreement of its own. -/
structure Stops (r : ReceivePipeline) (e : DeliveryError) (t : ReceivePipeline) : Prop where
  ends : Ends r t
  agreeing : r.Agreeing → t.Agreeing ∧ e.disagreement = false
  lowered : (r.state.dead → r.live = false) → t.live = false

/-- The time of the latest call. -/
def ReceivePipeline.at (r : ReceivePipeline) (now : ℕ) : ReceivePipeline :=
  {r with lastNow := some now}

section Clock

variable {f : Unit → Receiver α} {now : ℕ}

/-- The clock moves, or the epoch is over. -/
theorem checkClock_bind {P} (hstop : ∀ e t, Stops r e t → P (.error e) t)
    (hok : Ensures (f ()) (r.at now) P) : Ensures (checkClock now >>= f) r P := by
  refine .of_bind (.get_bind (.ite (fun _ => .modify_bind (.throw (.throw (hstop _ _ ?_))))
    fun _ => hok))
  refine ⟨⟨.inr rfl,rfl,rfl⟩,fun _ => ⟨?_,rfl⟩,fun _ => rfl⟩
  intro e h
  cases h
  rfl

theorem tick_ensures {P} (hstop : ∀ e t, Stops r e t → P (.error e) t)
    (hok : ¬r.state.dead → P (.ok ()) (r.at now)) : Ensures (tick now) r P := by
  refine checkClock_bind hstop ?_
  have hfail : ∀ e : DeliveryError, e.disagreement = false → Ensures (fail e) (r.at now) P := by
    intro e he
    refine .of_exec (exec_fail e _)
      (hstop _ _ ⟨⟨dead_failed _ _,rfl,rfl⟩,fun _ => ⟨?_,he⟩,fun _ => rfl⟩)
    exact agreeing_failed _ he
  refine .get_bind (.ite (fun _ => ?_) fun _ => .ite (fun hd => ?_) fun hd =>
    .ite (fun _ => hfail _ rfl) fun _ => .ite (fun _ => hfail _ rfl) fun _ => .pure (hok hd))
  · exact .modify_bind (.throw (hstop _ _ ⟨⟨.inr rfl,rfl,rfl⟩,fun hr => ⟨hr,rfl⟩,fun _ => rfl⟩))
  · refine .throw (hstop _ _ ⟨⟨hd,rfl,rfl⟩,fun hr => ⟨hr,?_⟩,fun hr => hr hd⟩)
    change (r.failure.getD _).disagreement = false
    cases hf : r.failure with
    | none => simp only [Option.getD_none,DeliveryError.disagreement]
    | some e => simpa only [hf,Option.getD_some] using hr e hf

theorem tick_bind {P} (hstop : ∀ e t, Stops r e t → P (.error e) t)
    (hok : ¬r.state.dead → Ensures (f ()) (r.at now) P) : Ensures (tick now >>= f) r P :=
  .of_bind (tick_ensures (fun e t h => .throw (hstop e t h)) hok)

end Clock

/-! Seats. -/

/-- The picture that slot `i` assembles once `d` has been admitted: the one already
there, or a fresh one of a frame that no slot assembles. -/
inductive Seat (r : ReceivePipeline) (d : FrameDescriptor) (reliable : Bool)
    (i : Fin windowCeiling) (a : Assembly) : Prop
  | held (h : r.slots i = some a) (hd : a.descriptor = d)
      (hr : a.reliableOffset.isSome = reliable)
  | fresh (platform : Platform) (used : BudgetUsage) (now : ℕ) (t : Option ℕ)
      (hvacant : r.slots i = none)
      (hother : ∀ j b, r.slots j = some b → b.descriptor.frame ≠ d.frame)
      (ht : t.isSome = reliable)
      (hnew : Assembly.new platform r.budget used d r.config now t = .ok a)

variable {i : Fin windowCeiling}

theorem Seat.descriptor {d reliable} (h : Seat r d reliable i a) : a.descriptor = d := by
  cases h with
  | held _ hd _ => exact hd
  | fresh _ _ _ _ _ _ _ hnew => exact (Assembly.new_ok hnew).2.1

theorem Seat.reliable {d reliable} (h : Seat r d reliable i a) :
    a.reliableOffset.isSome = reliable := by
  cases h with
  | held _ _ hr => exact hr
  | fresh _ _ _ t _ _ ht hnew =>
    obtain ⟨_,_,_,_,_,ho,_⟩ := Assembly.new_ok hnew
    rw [ho,← ht]
    cases t <;> rfl

/-- Some slot assembles this frame as another picture, or in the other mode. -/
def Mismatch (r : ReceivePipeline) (d : FrameDescriptor) (reliable : Bool) : Prop :=
  ∃ i b, r.slots i = some b ∧ b.descriptor.frame = d.frame ∧
    (b.descriptor ≠ d ∨ b.reliableOffset.isSome ≠ reliable)

/-- A refusal is a disagreement only about a picture that some slot assembles otherwise. -/
def Refusal (r : ReceivePipeline) (d : FrameDescriptor) (reliable : Bool) (e : DeliveryError) :
    Prop :=
  d.Valid r.config.limits → e.exhaustion = true ∨
    (e = .wrongState ∧ reliable = true ∧ r.recoveryUntil = none) ∨ Mismatch r d reliable

def ReceivePipeline.seat (r : ReceivePipeline) (i : Fin windowCeiling) (a : Assembly) :
    ReceivePipeline := {r with slots := store r.slots i a}

theorem located_some {frame}
    (h : r.located frame = some (i,a)) : r.slots i = some a ∧ a.descriptor.frame = frame :=
  ⟨mem_indexed.mp (List.mem_of_find?_eq_some h),by simpa using List.find?_some h⟩

theorem located_none {frame} (h : r.located frame = none) (ha : r.slots i = some a) :
    a.descriptor.frame ≠ frame := by
  have hfind := List.find?_eq_none.mp h (i,a) (mem_indexed.mpr ha)
  simpa using hfind

section Admission

variable {pf : Platform} {d : FrameDescriptor} {now : ℕ}

/-- Admission refuses without a trace or seats the picture. -/
theorem slot_bind {reliable} {f : Fin windowCeiling → Receiver α} {P}
    (hno : ∀ e, Refusal r d reliable e → P (.error e) r)
    (hok : ∀ i a, Seat r d reliable i a → Ensures (f i) (r.seat i a) P) :
    Ensures (slot pf d now reliable >>= f) r P := by
  refine .of_bind (.get_bind ?_)
  rcases hl : r.located d.frame with _ | ⟨i,a⟩
  · have hrun : ∀ e, (d.Valid r.config.limits → e.exhaustion = true) → Ensures (throw e) r P :=
      fun e he => .throw (hno e fun hv => .inl (he hv))
    refine .ofResult_bind (fun e he => hrun e fun hv => storage_exhausts _ hv _ e he) ?_
    rintro ⟨_,_,_⟩ _
    refine .ofResult_bind (fun e he => hrun e fun _ => checkAllocation_exhausts _ _ _ e he)
      fun _ _ => ?_
    refine .okOr_bind (fun _ => hrun _ fun _ => rfl) fun i hi => ?_
    have hvacant : r.slots i = none := by
      have hf := List.find?_some hi
      simp only [decide_eq_true_eq] at hf
      simpa using hf.2
    refine .okOr_bind (fun hn => .throw (hno _ fun _ => .inr (.inl ⟨rfl,?_⟩))) fun t ht => ?_
    · cases reliable with
      | false => cases hn
      | true => exact ⟨rfl,Option.map_eq_none_iff.mp hn⟩
    have hrel : t.isSome = reliable := by
      cases reliable with
      | false =>
        cases ht
        rfl
      | true =>
        obtain ⟨u,_,rfl⟩ := Option.map_eq_some_iff.mp ht
        rfl
    refine .ofResult_bind (fun e he => hrun e fun hv => new_exhausts _ _ _ _ _ hv e he)
      fun a ha => ?_
    exact .modify_bind
      (.pure (hok i a (.fresh pf r.used now t hvacant (fun _ _ h => located_none hl h) hrel ha)))
  · obtain ⟨hs,hfr⟩ := located_some hl
    refine .refuseIf_bind (fun hbad => .throw (hno _ fun _ => .inr (.inr ⟨i,a,hs,hfr,hbad⟩))) ?_
    intro hgood
    rw [not_or,not_not,not_not] at hgood
    have hr := hok i a (.held hs hgood.1 hgood.2)
    rw [ReceivePipeline.seat,store_self hs] at hr
    exact .pure hr

/-- A datagram is seated, refused, or left out without a trace. -/
theorem datagramSlot_bind {f : Option (Fin windowCeiling) → Receiver α} {P}
    (hno : ∀ e, Refusal r d false e → P (.error e) r) (ho : Ensures (f none) r P)
    (hok : ∀ i a, Seat r d false i a → Ensures (f (some i)) (r.seat i a) P) :
    Ensures (datagramSlot pf d now >>= f) r P := by
  have hno' : ∀ e, Refusal r d false e → Ensures (throw e) r P := fun e he => .throw (hno e he)
  refine .of_bind (.get_bind (.ite (fun _ => ?_) fun hea => ?_))
  · exact slot_bind hno' fun i a hs => .pure (hok i a hs)
  refine .ofResult_bind (fun e he => hno' e fun hva => ?_) fun _ _ => ?_
  · rw [FrameDescriptor.validate_eq_ok.mpr hva] at he
    cases he
  refine .ofResult_bind (fun e he => hno' e fun hv => .inl (storage_exhausts _ hv _ e he)) ?_
  rintro ⟨_,_,_⟩ _
  refine .ofResult_bind (fun e he => hno' e fun _ => .inl (checkAllocation_exhausts _ _ _ e he))
    fun _ _ => ?_
  refine .okOr_bind (fun _ => hno' _ fun _ => .inl rfl) fun recoveryBytes _ => ?_
  refine .okOr_bind (fun _ => hno' _ fun _ => .inl rfl) fun required _ => ?_
  refine .ite (fun _ => .pure ho) fun _ => slot_bind hno' fun i a hs => ?_
  refine .get_bind (.ite (fun _ => .pure (hok i a hs)) fun _ => .modify_bind (.pure ?_))
  -- No slot assembled this frame, so the seat given back was a vacant one.
  cases hs with
  | held h hd _ =>
    have hn : r.located d.frame = none := by
      simpa using (not_or.mp (not_or.mp hea).2).2
    exact absurd (congrArg FrameDescriptor.frame hd) (located_none hn h)
  | fresh _ _ _ _ hvacant _ _ _ => simpa only [ReceivePipeline.seat,erase_store hvacant] using ho

end Admission

/-! Messages. -/

theorem onSlot_ensures (m : Proc Assembly DeliveryError α) {P}
    (h : P (exec m a).1 (r.seat i (exec m a).2)) : Ensures (onSlot i m) (r.seat i a) P := by
  have hs : (r.seat i a).slots i = some a := store_apply _ _ _
  refine .get_bind (.okOr_bind (fun hn => ?_) fun b hb => ?_)
  · rw [hs] at hn
    cases hn
  · rw [hs] at hb
    cases hb
    refine .modify_bind (.of_exec (exec_ofResult _ _) ?_)
    simpa only [ReceivePipeline.seat,store_store] using h

/-- The fragment goes to its seat, unless its frame is of no more use. -/
inductive FragmentResult (r : ReceivePipeline) (f : Fragment) (now : ℕ) :
    Except DeliveryError ReceiveUpdate → ReceivePipeline → Prop
  | obsolete : FragmentResult r f now (.ok .obsolete) r
  | refused {e : DeliveryError} (h : Refusal r f.descriptor false e) :
      FragmentResult r f now (.error e) r
  | deferred : FragmentResult r f now (.ok .deferred) r
  | broken {i : Fin windowCeiling} {a b : Assembly} {e : DeliveryError}
      (hseat : Seat r f.descriptor false i a)
      (hexec : exec (Assembly.fragment f now r.config.policy.repairDelayMicros) a = (.error e,b)) :
      FragmentResult r f now (.error e) (r.seat i b)
  | stored {i a b u}
      (huseful : ¬r.obsolete f.descriptor.frame) (hseat : Seat r f.descriptor false i a)
      (hexec : exec (Assembly.fragment f now r.config.policy.repairDelayMicros) a = (.ok u,b)) :
      FragmentResult r f now (.ok u)
        (if u = .pictureComplete then (r.seat i b).discardSuperseded else r.seat i b)

theorem onFragment_ensures (pf : Platform) (f : Fragment) (now : ℕ) (r : ReceivePipeline) :
    Ensures (onFragment pf f now) r (FragmentResult r f now) := by
  refine .get_bind (.ite (fun _ => .pure .obsolete) fun huse => ?_)
  refine datagramSlot_bind (fun e h => .refused h) (.pure .deferred)
    fun i a hst => .of_bind (onSlot_ensures _ ?_)
  rcases hx : exec (Assembly.fragment f now r.config.policy.repairDelayMicros) a with ⟨e | u,b⟩
  · exact .throw (.broken hst hx)
  have hs := FragmentResult.stored huse hst hx
  refine .ite (fun hu => ?_) fun hu => ?_
  · rw [if_pos hu] at hs
    exact .modify_bind (.pure hs)
  · rw [if_neg hu] at hs
    exact .pure hs

/-- The descriptor a recovery chunk declares. -/
def bootstrapDescriptor (limits : MediaLimits) (c : RecoveryChunk) : FrameDescriptor :=
  ⟨c.frame,c.totalBytes,limits.fragmentStride,c.captureMicros,none⟩

/-- The chunk goes to the bootstrap's seat. -/
inductive RecoveryResult (r : ReceivePipeline) (c : RecoveryChunk) :
    Except DeliveryError ReceiveUpdate → ReceivePipeline → Prop
  | late (hstate : r.state ≠ .awaitingRecovery) : RecoveryResult r c (.error .wrongState) r
  | foreign (hstate : r.state = .awaitingRecovery) {frame}
      (hframe : r.recoveryFrame = some frame) (hne : frame ≠ c.frame) :
      RecoveryResult r c (.error .conflictingPicture) r
  | refused {e : DeliveryError} (hstate : r.state = .awaitingRecovery)
      (h : Refusal r (bootstrapDescriptor r.config.limits c) true e) :
      RecoveryResult r c (.error e) r
  | applied {i a b res}
      (hstate : r.state = .awaitingRecovery)
      (hseat : Seat r (bootstrapDescriptor r.config.limits c) true i a)
      (hexec : exec (Assembly.recovery c r.config.limits.maxFragments) a = (res,b)) :
      RecoveryResult r c res {r.seat i b with recoveryFrame := some c.frame}

theorem onRecovery_ensures (pf : Platform) (c : RecoveryChunk) (now : ℕ)
    (r : ReceivePipeline) : Ensures (onRecovery pf c now) r (RecoveryResult r c) := by
  refine .get_bind (.refuseIf_bind (fun hs => .late hs) fun hs => ?_)
  have hs : r.state = .awaitingRecovery := not_not.mp hs
  refine .refuseIf_bind (fun hfo => ?_) fun _ => ?_
  · cases hf : r.recoveryFrame with
    | none => simp [hf] at hfo
    | some frame => exact .foreign hs hf (by simpa [hf] using hfo)
  refine slot_bind (d := bootstrapDescriptor r.config.limits c) (fun e h => .refused hs h)
    fun i a hst => .modify_bind ?_
  refine onSlot_ensures (r := {r with recoveryFrame := some c.frame}) (a := a) _ ?_
  exact .applied hs hst rfl

def Declares (r : ReceivePipeline) (p : Progress) : Prop :=
  r.state = .awaitingRecovery ∧ p.descriptor.reference = none ∧
    r.recoveryFrame.all (· = p.descriptor.frame) = true

/-- The announced picture has a seat, unless its frame is of no more use. -/
inductive ProgressResult (r : ReceivePipeline) (p : Progress) :
    Except DeliveryError ReceiveUpdate → ReceivePipeline → Prop
  | abandoned : ProgressResult r p (.error .referenceExpired) r
  | older (h : r.progress.any (p.descriptor.frame < ·.descriptor.frame) = true) :
      ProgressResult r p (.ok .obsolete) r
  | obsolete (h : r.obsolete p.descriptor.frame) :
      ProgressResult r p (.ok .obsolete) {r with progress := some p}
  | undeclared {e : DeliveryError} (hdeclares : Declares r p) (h : Refusal r p.descriptor true e) :
      ProgressResult r p (.error e) r
  | declared {i : Fin windowCeiling} {a : Assembly} (hdeclares : Declares r p)
      (hseat : Seat r p.descriptor true i a) : ProgressResult r p (.ok .accepted)
        {r.seat i a with recoveryFrame := some p.descriptor.frame, progress := some p}
  | refused {e : DeliveryError} (hdeclares : ¬Declares r p) (h : Refusal r p.descriptor false e) :
      ProgressResult r p (.error e) r
  | announced {i : Fin windowCeiling} {a : Assembly} (hdeclares : ¬Declares r p)
      (huseful : ¬r.obsolete p.descriptor.frame) (hseat : Seat r p.descriptor false i a) :
      ProgressResult r p (.ok .accepted) {r.seat i a with progress := some p}

theorem onProgress_ensures (pf : Platform) (p : Progress) (now : ℕ) (r : ReceivePipeline) :
    Ensures (onProgress pf p now) r (ProgressResult r p) := by
  refine .get_bind (.ite (fun _ => .throw .abandoned) fun _ => .ite (fun h => .pure (.older h))
    fun _ => .ite (fun h => .modify_bind (.pure (.obsolete h))) fun hu =>
      .ite (fun hd => ?_) fun hd => ?_)
  · exact slot_bind (fun e h => .undeclared hd h)
      fun i a hs => .modify_bind (.pure (.declared hd hs))
  · refine datagramSlot_bind (fun e h => .refused hd h) ?_ fun i a hs => ?_
    · exact .refuseIf_bind (fun _ => .refused hd fun _ => .inl rfl) fun h => absurd rfl h
    · refine .refuseIf_bind (fun h => nomatch h) fun _ => ?_
      exact .modify_bind (.pure (.announced hd hu hs))

/-! Records. -/

theorem Assembly.fragment_ne_wrongState (f : Fragment) (now rd : ℕ) (a : Assembly) :
    (exec (Assembly.fragment f now rd) a).1 ≠ .error .wrongState := by
  change Ensures (Assembly.fragment f now rd) a fun res _ => res ≠ .error .wrongState
  refine .get_bind (.refuseIf_bind (fun _ => nofun) fun _ => ?_)
  rcases a.descriptor.fragmentRange f.index with e | ⟨start,stop⟩
  · exact .throw nofun
  · refine .ite (fun _ => .refuseIf_bind (fun _ => nofun) fun _ => .pure nofun) fun _ => ?_
    exact .modify_bind (.refuseIf_bind (fun _ => nofun) fun _ =>
      .modify_bind (.modify_bind (.get_bind (.pure nofun))))

/-- What the handler of a record can change. -/
def Framed (r t : ReceivePipeline) : Prop :=
  t = {r with slots := t.slots, recoveryFrame := t.recoveryFrame, progress := t.progress}

theorem dispatch_framed (pf : Platform) (ch : Channel) (rec : Record) (now : ℕ)
    (r : ReceivePipeline) : Ensures (dispatch pf ch rec now) r fun _ t => Framed r t := by
  refine .get_bind ?_
  cases ch with
  | video =>
    refine .ofResult_bind (fun _ _ => rfl) fun f _ => (onFragment_ensures pf f now r).mono
      fun _ _ h => ?_
    cases h with
    | stored _ _ _ =>
      unfold ReceivePipeline.discardSuperseded
      split
      · split <;> rfl
      · rfl
    | _ => rfl
  | recovery =>
    refine .ofResult_bind (fun _ _ => rfl) fun c _ => (onRecovery_ensures pf c now r).mono
      fun _ _ h => ?_
    cases h <;> rfl
  | mediaConfig =>
    refine .ofResult_bind (fun _ _ => rfl) fun p _ => (onProgress_ensures pf p now r).mono
      fun _ _ h => ?_
    cases h <;> rfl
  | control => exact .throw rfl

def ReceivePipeline.read (r : ReceivePipeline) (channel : Channel) (packet : List Byte) :
    Except WireError Record :=
  Record.decode packet r.config.limits (r.config.bindings.forChannel channel) channel

/-- Everything a received packet can do. -/
theorem receive_ensures {pf ch pa now P Q}
    (hs : r.read ch pa = .error .invalidBinding → P (.error .staleGeneration) r)
    (hg : ∀ e, r.read ch pa = .error e → P (.error (.wire e)) (r.failed (.wire e)))
    (hstop : ∀ e t, Stops r e t → P (.error e) t)
    (hu : ¬r.state.dead → r.state.admits = false → P (.error .wrongState) (r.at now))
    (hdis : ∀ rec, r.read ch pa = .ok rec → r.state.admits = true →
      Ensures (dispatch pf ch rec now) (r.at now) Q)
    (hok : ∀ u t, Q (.ok u) t → P (.ok u) t)
    (hi : ∀ t, Q (.error .wrongState) t → P (.error .wrongState) t)
    (hf : ∀ e e' t, Q (.error e) t → e' = e ∨ e' = .resourceLimit → P (.error e') (t.failed e')) :
    Ensures (receive pf ch pa now) r P := by
  refine .get_bind ?_
  split
  · rename_i hd
    exact .throw (hs hd)
  · rename_i hd
    exact .of_exec (exec_fail _ _) (hg _ hd)
  rename_i rec hd
  refine tick_bind hstop fun hal => ?_
  refine .get_bind (.refuseIf_bind (fun h => hu hal (by simpa [ReceivePipeline.at] using h))
    fun ha => ?_)
  refine .tryCatch (hdis rec hd (by simpa [ReceivePipeline.at] using ha)) hok fun e t h => ?_
  refine .get_bind (.ite (fun he => ?_) fun _ => .ite (fun _ => ?_) fun _ => ?_)
  · subst he
    exact .throw (hi t h)
  · exact .of_exec (exec_fail _ _) (hf _ _ t h (.inr rfl))
  · exact .of_exec (exec_fail _ _) (hf _ _ t h (.inl rfl))

/-! Decoding. -/

theorem selected_some (h : r.selected = some (i,a)) :
    r.slots i = some a ∧ a.complete ∧ r.eligible a = true ∧
      ∀ j b, r.slots j = some b → b.complete → r.eligible b = true →
        a.descriptor.frame ≤ b.descriptor.frame := by
  have hm := List.mem_filter.mp (List.argmin_mem h)
  simp only [mem_indexed,decide_eq_true_eq] at hm
  refine ⟨hm.1,hm.2.1,hm.2.2,fun j b hb hco he => ?_⟩
  have hc : (j,b) ∈ (indexed r.slots).filter fun c => c.2.complete ∧ r.eligible c.2 := by
    simp only [List.mem_filter,mem_indexed,decide_eq_true_eq]
    exact ⟨hb,hco,he⟩
  have hle := List.le_of_mem_argmin (f := fun c : Fin windowCeiling × Assembly =>
    c.2.descriptor.frame) hc h
  exact hle

theorem takeDecodable_ensures {now P} (hs : ∀ e t, Stops r e t → P (.error e) t)
    (hn : P (.ok none) (r.at now))
    (ht : ∀ i a, ¬r.state.dead → r.inFlight = none → (r.at now).selected = some (i,a) →
      P (.ok (some (((r.at now).handedOver i a).picture a now))) ((r.at now).handedOver i a)) :
    Ensures (takeDecodable now) r P := by
  refine tick_bind hs fun ha => .get_bind (.ite (fun _ => .pure hn) fun hi => ?_)
  rcases hsel : (r.at now).selected with _ | ⟨i,a⟩
  · exact .pure hn
  · exact .modify_bind (.get_bind (.pure (ht i a ha (by simpa [ReceivePipeline.at] using hi) hsel)))

/-- The pipeline after the decoder has accepted this frame. -/
def ReceivePipeline.decoded (r : ReceivePipeline) (frame : ℕ) : ReceivePipeline :=
  {r with
    lastDecoded := some frame
    inFlight := none
    recoveryUntil := none
    state := .streaming}

theorem acknowledgeDecode_ensures {p : ReceivedPicture} {success now P}
    (hs : P (.error .staleGeneration) r) (hstop : ∀ e t, Stops r e t → P (.error e) t)
    (hm : ¬r.state.dead → (∀ flight, r.inFlight = some flight → flight.frame ≠ p.descriptor.frame) →
      P (.error .decodeMismatch) (r.at now))
    (hr : P (.error .decodeFailed) ((r.at now).failed .decodeFailed))
    (ha : ∀ flight, success = true → ¬r.state.dead → p.epoch = r.config.epoch →
      r.inFlight = some flight → flight.frame = p.descriptor.frame → P (.ok ())
        ((r.at now).decoded p.descriptor.frame).discardSuperseded) :
    Ensures (acknowledgeDecode p success now) r P := by
  refine .get_bind (.refuseIf_bind (fun _ => hs) fun hfresh => ?_)
  have he : p.epoch = r.config.epoch := by
    simp only [not_or,not_not] at hfresh
    exact hfresh.2.2.1
  refine tick_bind hstop fun hal => .get_bind (.refuseIf_bind (fun hall => ?_) fun hany => ?_)
  · exact hm hal fun flight hf => by simpa [ReceivePipeline.at,hf] using hall
  cases hf : r.inFlight with
  | none => simp [ReceivePipeline.at,hf] at hany
  | some flight =>
    have hfr : flight.frame = p.descriptor.frame := by simpa [ReceivePipeline.at,hf] using hany
    refine .ite (fun hsuccess => ?_) fun _ => .of_exec (exec_fail _ _) hr
    exact .modify_bind (.of_exec (exec_modify _ _) (ha flight hsuccess hal he hf hfr))

/-! Configuration, repair and replacement. -/

theorem decoderConfigured_ensures {now P} (hs : ∀ e t, Stops r e t → P (.error e) t)
    (hr : ∀ e, P (.error e) (r.at now)) (hc : ∀ t, r.state = .awaitingConfiguration →
      P (.ok ()) {r.at now with recoveryUntil := some t, state := .awaitingRecovery}) :
    Ensures (decoderConfigured now) r P := by
  refine checkClock_bind hs (.get_bind (.refuseIf_bind (fun _ => hr _) fun hstate => ?_))
  refine .ofResult_bind (fun _ _ => hr _) fun t _ => ?_
  exact .of_exec (exec_modify _ _) (hc t (not_not.mp hstate))

theorem repairOffer_ensures {room now P} (hs : ∀ e t, Stops r e t → P (.error e) t)
    (hr : ∀ res, P res (r.at now)) (ho : ∀ i a offer next attempts, r.slots i = some a →
      P (.ok (some offer))
        ((r.at now).seat i {a with nextRepair := next, repairAttempts := attempts})) :
    Ensures (repairOffer room now) r P := by
  refine tick_bind hs fun _ => .get_bind ?_
  rcases hsel : (r.at now).repairable now with _ | ⟨i,a⟩
  · exact .pure (hr _)
  have hm := List.mem_filter.mp (List.argmin_mem hsel)
  have hsl : r.slots i = some a := mem_indexed.mp hm.1
  refine .ofResult_bind (fun _ _ => hr _) fun ranges _ => .ofResult_bind (fun _ _ => hr _)
    fun next _ => ?_
  refine .ofResult_bind (fun _ _ => hr _) fun count _ => .ofResult_bind (fun _ _ => hr _)
    fun packet _ => ?_
  exact .modify_bind (.pure (ho i a _ _ _ hsl))

theorem replace_ensures {ep : MediaEpoch} {bi now P}
    (hs : ∀ e t, Stops r e t → P (.error e) t) (hrep : ∀ e, P (.error e) (r.at now))
    (hr : ep.replaces r.config.epoch → P (.ok ()) {(r.at now).clear with
      scope := r.scope+1
      live := true
      config := {r.config with epoch := ep, bindings := bi}
      state := .awaitingConfiguration
      failure := none}) :
    Ensures (replace ep bi now) r P := by
  refine checkClock_bind hs (.get_bind (.refuseIf_bind (fun _ => hrep _) fun _ => ?_))
  refine .refuseIf_bind (fun _ => hrep _) fun hl => ?_
  exact .of_exec (exec_modify _ _) (hr (not_not.mp (not_or.mp hl).1))

end FrankenRemote.Delivery
