import FrankenRemote.InputHeld

/-! Where the pointer stands. Datagrams and ordered actions meet in one floor, which only rises, and
the counters of relative motion add up what the sink has confirmed in the current mode epoch. -/
namespace FrankenRemote.Input

open Procedure Relation Transition List

/-- The part of the owner that steers the pointer. -/
structure Steering where
  floor : Option ℕ
  mode : PointerMode
  modeEpoch : ℕ
  cumulative : Int64 × Int64

def World.steering (w : World) : Steering := ⟨w.pointerFloor,w.mode,w.modeEpoch,w.cumulative⟩

/-- The first sequence of a pointer state that is not obsolete. -/
def Steering.bar (s : Steering) : ℕ := s.floor.elim 0 (·+1)

def Operation.delta : Operation → ℤ × ℤ
  | relative x y => (x.toInt,y.toInt)
  | _ => 0

/-- Relative motion that its sink confirmed. -/
def Occurrence.moved : Occurrence → ℤ × ℤ
  | report op _ (.ok .submitted) => op.delta
  | _ => 0

def moved (trail : List Occurrence) : ℤ × ℤ := (trail.map Occurrence.moved).sum

/-- Calls that leave the pointer where it is. -/
structure Steady (w t : World) : Prop where
  steering : t.steering = w.steering
  moved : moved t.trail = moved w.trail

section Steady

variable {w t : World} {cr : InputCredentials} {op : Operation}

theorem moved_append (a b : List Occurrence) : moved (a++b) = moved a + moved b := by
  simp [moved]

theorem moved_note (w : World) (o : Occurrence) :
    moved (w.note o).trail = moved w.trail + o.moved := by
  simp [World.note,moved]

theorem moved_frame (h : Frame w t) : moved t.trail = moved w.trail := by
  obtain ⟨new,hnew,ha,-⟩ := h.trail
  have hz : Input.moved new = 0 := by
    apply sum_eq_zero
    intro x hx
    obtain ⟨o,ho,rfl⟩ := mem_map.mp hx
    have hdone := ha o ho
    cases o <;> first | rfl | cases hdone
  rw [hnew,moved_append,hz,add_zero]

namespace Steady

theorem refl (w : World) : Steady w w := ⟨rfl,rfl⟩

theorem trans {u} (h : Steady w t) (h' : Steady t u) : Steady w u :=
  ⟨h'.steering.trans h.steering,h'.moved.trans h.moved⟩

theorem note {o : Occurrence} (ho : o.moved = 0) (w : World) : Steady w (w.note o) :=
  ⟨rfl,by rw [moved_note,ho,add_zero]⟩

theorem of_quietly (h : Quietly w t) : Steady w t := by
  refine ⟨?_,moved_frame (.of_quietly h)⟩
  cases h with
  | turn => simp [World.steering]
  | _ => rfl

theorem of_moves (h : ReflTransGen Steady w t) : Steady w t := by
  induction h with
  | refl => exact refl w
  | tail _ h ih => exact ih.trans h

theorem of_quiet (h : Quiet w t) : Steady w t :=
  of_moves (ReflTransGen.mono (fun _ _ => of_quietly) _ _ h)

theorem consult (w : World) (op : Authority.Op) : Steady w (w.consult op) :=
  ⟨rfl,(note (o := .authority w.heldCount ⟨w.authority,op,(Authority.step w.authority op).1⟩)
    rfl w).moved⟩

theorem revoke (w : World) : Steady w w.revoke := ⟨rfl,(note (o := .revoke) rfl w).moved⟩

theorem record (w : World) (rc : Receipt) (p : Bool) : Steady w (w.record rc p) := by
  obtain ⟨new,_,_,hnew,hr⟩ := record_shape w rc p
  rw [hr]
  refine ⟨rfl,?_⟩
  have hz : Input.moved new = 0 := sum_eq_zero fun x hx => by
    obtain ⟨o,ho,rfl⟩ := mem_map.mp hx
    rw [hnew o ho]
    rfl
  rw [moved_append,moved_append,hz]
  simp [Input.moved,Occurrence.moved]

end Steady

/-! One native operation. -/

theorem steady_checking (h : ReflTransGen (Checking cr op) w t) : Steady w t := by
  induction h with
  | refl => exact .refl w
  | tail _ h ih =>
    cases h with
    | quiet h => exact ih.trans (.of_quietly h)
    | grant h =>
      cases h with
      | mk h => exact (ih.trans (.note rfl _)).trans ⟨rfl,(Steady.note (o :=
        .warrant _ _ _) rfl _).moved⟩

/-- The motion of a submission that returned. -/
def gained (op : Operation) : Except Stop (Except Refusal Submission) → ℤ × ℤ
  | .ok (.ok .submitted) => op.delta
  | _ => 0

theorem Submits.gains {r} (h : Submits cr op w r t) :
    t.steering = w.steering ∧ moved t.trail = moved w.trail + gained op r := by
  have hr (res : Except Refusal Submission) (warranted : Bool) :
      (Occurrence.report op warranted res).moved = gained op (.ok res) := by
    rcases res with e | s
    · rfl
    · cases s <;> rfl
  have hnot {u : World} {warranted : Bool} {res : Except Refusal Submission} (hu : Steady w u) :
      (u.note (.report op warranted res)).steering = w.steering ∧
        moved (u.note (.report op warranted res)).trail = moved w.trail + gained op (.ok res) := by
    rw [moved_note,hr,hu.moved]
    exact ⟨hu.steering,rfl⟩
  cases h with
  | failed h => exact ⟨(steady_checking h).steering,by simp [gained,(steady_checking h).moved]⟩
  | unchecked q => exact hnot (.of_quiet q)
  | uncalled q => exact ⟨(Steady.of_quiet q).steering,by
    simp [gained,moved_note,Occurrence.moved,(Steady.of_quiet q).moved]⟩
  | checked h g q => exact hnot ((steady_checking (h.tail (.grant g))).trans (.of_quiet q))
  | unwound h g q =>
    have hu := (steady_checking (h.tail (.grant g))).trans (.of_quiet q)
    exact ⟨hu.steering,by simp [gained,moved_note,Occurrence.moved,hu.moved]⟩

/-- Motion counts when the operation succeeds. -/
theorem Performs.gains {r} (h : Performs cr op w r t) :
    t.steering = w.steering ∧ (r = .ok () → moved t.trail = moved w.trail + op.delta) := by
  have hp {a : World} (q : Quiet w a) : Steady w (a.note (.prepare op)) :=
    (Steady.of_quiet q).trans (.note rfl a)
  cases h with
  | unprepared q => exact ⟨(hp q).steering,fun h => by cases h⟩
  | submitted q h =>
    exact ⟨h.gains.1.trans (hp q).steering,fun _ => h.gains.2.trans (by rw [(hp q).moved]; rfl)⟩
  | unknown q h | unwound q h | refused q h =>
    exact ⟨h.gains.1.trans (hp q).steering,fun h => by cases h⟩

theorem Performed.gains {ops r} (h : Performed cr ops w r t) :
    t.steering = w.steering ∧
    (r = .ok () → moved t.trail = moved w.trail + (ops.map Operation.delta).sum) := by
  induction h with
  | nil => exact ⟨rfl,fun _ => by simp⟩
  | next h _ ih =>
    refine ⟨ih.1.trans h.gains.1,fun hr => ?_⟩
    rw [ih.2 hr,h.gains.2 rfl,map_cons,sum_cons,add_assoc]
  | stop h => exact ⟨h.gains.1,fun h => by cases h⟩

/-! Calls without a request. -/

theorem Upkeep.steady (h : Upkeep w t) : Steady w t := by
  cases h with
  | quiet h => exact .of_quietly h
  | prepare op | kept => exact .note rfl w
  | released => exact ⟨rfl,(Steady.note (o := .submit _ true .submitted) rfl w).moved⟩
  | revoke => exact .revoke w
  | report | reconcile => exact ⟨rfl,rfl⟩
  | confirm => exact .consult w _

end Steady

/-! Actions. -/

def InputEvent.barrier : InputEvent → Option ℕ
  | button _ _ _ barrier | scroll _ barrier _ _ _ => some barrier
  | _ => none

def total (c : Int64 × Int64) : ℤ × ℤ := (c.1.toInt,c.2.toInt)

/-- What a call with this place may do to the pointer. `P` says that its operations all succeeded,
`Q` that it returned so. -/
structure Steers (place : Option ℕ) (w : World) (P Q : Prop) (t : World) : Prop where
  floor : (Silent w t ∧ t.steering.bar = w.steering.bar) ∨
    (w.steering.bar ≤ t.steering.bar ∧ ∀ p, place = some p → p < t.steering.bar)
  epoch : (t.mode = w.mode ∧ t.modeEpoch = w.modeEpoch) ∨
    (w.modeEpoch < t.modeEpoch ∧ w.heldCount = 0 ∧ t.cumulative = (0,0))
  counted : P → t.modeEpoch = w.modeEpoch →
    total t.cumulative = total w.cumulative + (moved t.trail - moved w.trail)
  vacated : Q → w.modeEpoch ≠ t.modeEpoch →
    ∀ lease, t.authority.lease = some lease → lease.tickets = SlotTable.vacant

abbrev Executes (event : InputEvent) (w : World) (r : Except Stop Unit) : World → Prop :=
  Steers event.barrier w (r = .ok ()) (r = .ok ())

section Executes

variable {w t : World} {cr : InputCredentials} {ev : InputEvent} {r : Except Stop Unit}
  {spot : Option ℕ} {P Q : Prop}

theorem mode_eq (h : t.steering = w.steering) : t.mode = w.mode := congrArg Steering.mode h

theorem modeEpoch_eq (h : t.steering = w.steering) : t.modeEpoch = w.modeEpoch :=
  congrArg Steering.modeEpoch h

theorem cumulative_eq (h : t.steering = w.steering) : t.cumulative = w.cumulative :=
  congrArg Steering.cumulative h

theorem Steers.still (h : t.steering = w.steering) (hm : P → moved t.trail = moved w.trail)
    (hf : Silent w t ∨ spot = none) : Steers spot w P Q t where
  floor := by
    rcases hf with hs | hn
    · exact .inl ⟨hs,by rw [h]⟩
    · exact .inr ⟨by rw [h],by simp [hn]⟩
  epoch := .inl ⟨mode_eq h,modeEpoch_eq h⟩
  counted hr _ := by simp [cumulative_eq h,hm hr]
  vacated _ hne := absurd (modeEpoch_eq h).symm hne

theorem Steers.of_steady (h : Steady w t) (hf : Silent w t ∨ spot = none) : Steers spot w P Q t :=
  .still h.steering (fun _ => h.moved) hf

theorem Steers.after {u} (hw : Steady w t) (hsilent : Silent w t)
    (hh : t.toSyntheticHeld = w.toSyntheticHeld) (h : Steers spot t P Q u) :
    Steers spot w P Q u where
  floor := by
    have hbar : t.steering.bar = w.steering.bar := by rw [hw.steering]
    rcases h.floor with ⟨hs,hb⟩ | hb
    · exact .inl ⟨hsilent.trans hs,hb.trans hbar⟩
    · exact .inr (hbar ▸ hb)
  epoch := by
    have hep := h.epoch
    rwa [mode_eq hw.steering,modeEpoch_eq hw.steering,hh] at hep
  counted hr he := by
    rw [h.counted hr (he.trans (modeEpoch_eq hw.steering).symm),cumulative_eq hw.steering,hw.moved]
  vacated hr hne := h.vacated hr (by rwa [modeEpoch_eq hw.steering])

/-- The barrier is raised before the first operation. -/
theorem Steers.of_barrier {barrier} (hbarrier : spot = some barrier)
    (h : t.steering = World.steering {w with toInputSession := w.barrier barrier})
    (hm : P → moved t.trail = moved w.trail) : Steers spot w P Q t where
  floor := by
    right
    have hbar : t.steering.bar = max w.steering.bar (barrier+1) := by
      rw [h]
      cases hf : w.pointerFloor with
      | none | some => simp [World.steering,Steering.bar,InputSession.barrier,hf]
    rw [hbar]
    refine ⟨le_max_left _ _,fun b hb => ?_⟩
    cases hbarrier.symm.trans hb
    exact lt_max_of_lt_right (Nat.lt_succ_self _)
  epoch := .inl ⟨congrArg Steering.mode h,congrArg Steering.modeEpoch h⟩
  counted hr _ := by
    have hc : t.cumulative = w.cumulative := congrArg Steering.cumulative h
    simp [hc,hm hr]
  vacated _ hne := absurd (congrArg Steering.modeEpoch h).symm hne

theorem motion_eq {new old x} (h : motion new old = some x) : x.toInt = new.toInt - old.toInt := by
  simp only [motion] at h
  split at h
  · rename_i hr
    cases h
    exact Int32.toInt_ofInt_of_le hr.1 hr.2
  · cases h

def InputEvent.delta (cumulative : Int64 × Int64) : InputEvent → ℤ × ℤ
  | relative _ x y => total (x,y) - total cumulative
  | _ => 0

theorem InputEvent.Plans.delta {ops} (h : ev.Plans w ops) :
    (ops.map Operation.delta).sum = ev.delta w.cumulative := by
  have hp (steps : List WheelDirection) :
      ((steps.flatMap fun d => [Operation.wheel d true,.wheel d false]).map Operation.delta).sum =
          0 := by
    induction steps with
    | nil => rfl
    | cons d steps ih => simpa [Operation.delta] using ih
  have htext (scalars : List Char) :
      ((scalars.flatMap fun c => [Operation.text c]).map Operation.delta).sum = 0 := by
    induction scalars with
    | nil => rfl
    | cons c scalars ih => simpa [Operation.delta] using ih
  obtain ⟨pairs,-,hpn⟩ := h
  cases ev with
  | key k transition => cases transition <;> cases pairs <;> cases hpn <;> simp [Operation.delta,
    InputEvent.delta]
  | pointer | button => cases hpn; simp [Operation.delta,InputEvent.delta]
  | scroll position _ x y unit =>
    cases unit with
    | pixels => cases hpn; simp [Operation.delta,InputEvent.delta]
    | lines =>
      cases pairs with
      | false => cases hpn; simp [Operation.delta,InputEvent.delta]
      | true =>
        obtain ⟨d,-,rfl⟩ := Option.map_eq_some_iff.mp hpn
        exact (zero_add _).trans (hp d.steps)
  | text s => cases hpn; exact htext _
  | relative _ cumulativeX cumulativeY =>
    obtain ⟨x,hx,hpn⟩ := Option.bind_eq_some_iff.mp hpn
    obtain ⟨y,hy,rfl⟩ := Option.map_eq_some_iff.mp hpn
    have hd : ((if x ≠ 0 ∨ y ≠ 0 then [Operation.relative x y] else []).map Operation.delta).sum =
        (x.toInt,y.toInt) := by
      split
      · simp [Operation.delta]
      · rename_i hs
        obtain ⟨rfl,rfl⟩ : x = 0 ∧ y = 0 := by simpa using hs
        rfl
    rw [hd,motion_eq hx,motion_eq hy]
    simp [InputEvent.delta,total]
  | mode => cases hpn

theorem Executed.steers (h : Executed cr ev w r t) : Executes ev w r t := by
  cases h with
  | refused q => exact .of_steady (.of_quiet q) (.inl (.of_frame (.of_quiet q)))
  | @performed _ a u _ q hpn hp =>
    obtain ⟨hs,hg⟩ := hp.gains
    have hq := Frame.of_quiet q
    rw [hpn.delta] at hg
    refine .after (.of_quiet q) (.of_frame hq) hq.held ?_
    cases ev with
    | key | pointer | text => exact .still hs (fun hr => (hg hr).trans (add_zero _)) (.inr rfl)
    | button _ _ _ b | scroll _ b =>
      exact .of_barrier rfl hs fun hr => (hg hr).trans (add_zero _)
    | relative _ x y =>
      cases r with
      | error e => exact .still hs (fun h => by cases h) (.inr rfl)
      | ok =>
        have hc : w.cumulative = a.cumulative := (cumulative_eq (Steady.of_quiet q).steering).symm
        have hb : u.steering.bar = a.steering.bar := by rw [hs]; rfl
        have hm : u.mode = a.mode := mode_eq hs
        have he : u.modeEpoch = a.modeEpoch := modeEpoch_eq hs
        refine ⟨.inr ⟨hb.ge,by simp [InputEvent.barrier]⟩,.inl ⟨hm,he⟩,fun hr _ => ?_,
          fun _ hne => absurd he.symm hne⟩
        show total (x,y) = total a.cumulative + (moved u.trail - moved a.trail)
        rw [hg hr,InputEvent.delta,hc]
        simp [World.opens]
    | mode => obtain ⟨_,-,hpn⟩ := hpn; cases hpn
  | @switched mode epoch _ _ hev he hi q hv =>
    subst hev
    have hsteady := Steady.of_quiet q
    have hnew : t.modeEpoch = epoch := congrArg Steering.modeEpoch hsteady.steering
    refine ⟨.inr ⟨?_,by simp [InputEvent.barrier]⟩,
      .inr ⟨hnew ▸ he,hi,congrArg Steering.cumulative hsteady.steering⟩,fun _ hsm =>
        ?_,fun hr _ => hv hr⟩
    · rw [hsteady.steering]
      rfl
    · rw [hnew] at hsm
      omega

theorem executes_request (re : InputRequest) : Ensures (execute re) w (Executes re.event w) :=
  (execute_ensures re w).mono fun _ _ h => by
    cases h with
    | refused q => exact .of_steady (.of_quiet q) (.inl (.of_frame (.of_quiet q)))
    | checked q hpass h =>
      have hq := hpass.quiet q
      exact .after (.of_quiet hq) (.of_frame (.of_quiet hq)) (Frame.of_quiet hq).held h.steers

theorem Steers.before {u} (h : Steers spot w P Q t) (ht : Steady t u) (hs : Silent t u)
    (ha : u.authority = t.authority) : Steers spot w P Q u where
  floor := by
    rw [ht.steering]
    exact h.floor.imp_left fun h => ⟨h.1.trans hs,h.2⟩
  epoch := by
    rw [mode_eq ht.steering,modeEpoch_eq ht.steering,cumulative_eq ht.steering]
    exact h.epoch
  counted hr he := by
    rw [cumulative_eq ht.steering,ht.moved]
    exact h.counted hr ((modeEpoch_eq ht.steering).symm.trans he)
  vacated hr hne := by
    rw [ha]
    exact h.vacated hr fun he => hne (he.trans (modeEpoch_eq ht.steering).symm)

theorem record_revoked (w : World) {rc : Receipt} (p : Bool) (h : rc.outcome.succeeded = false) :
    (w.record rc p).revoked = true := by
  simp [World.record,h,World.revokeUnless,World.revoke,World.note,World.flag]

theorem record_authority (w : World) (rc : Receipt) (p : Bool) :
    (w.record rc p).authority = w.authority := by
  obtain ⟨_,_,_,-,hr⟩ := record_shape w rc p
  rw [hr]

/-- An attempt fails or revokes, or else it did what its action may do. -/
theorem attempt_executes (re : InputRequest) :
    Ensures (attempt re) w fun reply t => ∃ r, Executes re.event w r t ∧
    (t.revoked = false → r = .ok ()) ∧
      ∀ rc, reply = .ok (.completed rc) → rc.refusal = none → r = .ok () := by
  refine attempt_ensures (executes_request re) fun res t reply ht hrp => ?_
  have hs : Executes re.event w res t :=
    .after (t := {w with submitted := 0, uncertain := false}) ⟨rfl,rfl⟩ (.of_trail_eq rfl) rfl ht
  refine ⟨res,hs.before (.record t _ _) (.record t _ _) (record_authority t _ _),fun ho => ?_,
    fun rc hr hn => ?_⟩
  · cases res with
    | ok => rfl
    | error e =>
      rw [record_revoked t _ (outcome_ended t.toAttempt e)] at ho
      cases ho
  · rcases hrp with rfl | ⟨-,rfl⟩
    · cases hr
      rcases res with (_ | _) | _
      · cases hn
      · cases hn
      · rfl
    · cases hr

/-! Whole calls. -/

/-- The place that a request takes among the pointer states: its own, or the barrier of an
ordered action. -/
def InputRequest.place (request : InputRequest) : Option ℕ :=
  if request.event.isPointer then some request.sequence else request.event.barrier

theorem obsolete_iff (w : World) (s : ℕ) :
    w.pointerFloor.any (s ≤ ·) = true ↔ s < w.steering.bar := by
  cases hf : w.pointerFloor with
  | none | some => simp [World.steering,Steering.bar,hf]

/-- The reply to an action all of which succeeded. -/
def Succeeds (reply : SessionReply) : Prop :=
  ∃ receipt, reply = .dispatched (.ok (.completed receipt)) ∧ receipt.refusal = none

theorem dispatch_steers (re : InputRequest) : Ensures (dispatch re) w fun reply t =>
    Steers re.place w (t.revoked = false) (Succeeds (.dispatched reply)) t := by
  have hk {P Q : Prop} {u : World} (h : Steady w u) (hsilent : Silent w u) :
      Steers re.place w P Q u := .of_steady h (.inl hsilent)
  have hatt {u : World} (hep : u.modeEpoch = w.modeEpoch) (hmo : u.mode = w.mode)
      (hcum : u.cumulative = w.cumulative) (hh : u.toSyntheticHeld = w.toSyntheticHeld)
      (hm : moved u.trail = moved w.trail)
      (hf : ∀ r t, Executes re.event u r t → (Silent w t ∧ t.steering.bar = w.steering.bar) ∨
        (w.steering.bar ≤ t.steering.bar ∧ ∀ p, re.place = some p → p < t.steering.bar)) :
      Ensures (attempt re) u fun reply t =>
        Steers re.place w (t.revoked = false) (Succeeds (.dispatched reply)) t := by
    refine (attempt_executes re).mono fun reply t h => ?_
    obtain ⟨r,h,ho,hrp⟩ := h
    refine ⟨hf r t h,?_,fun ht he => ?_,fun ⟨rc,hr,hn⟩ hne => ?_⟩
    · have hc := h.epoch
      rwa [hmo,hep,hh] at hc
    · rw [h.counted (ho ht) (he.trans hep.symm),hcum,hm]
    · cases hr
      exact h.vacated (hrp rc rfl hn) (hep ▸ hne)
  have hsm : Steady w (w.admits re) := ⟨rfl,rfl⟩
  have ha : Silent w (w.admits re) := .of_trail_eq rfl
  refine (dispatch_ensures re w).mono fun r t ht => ?_
  cases ht with
  | idle q => exact hk (.of_quiet q) (.of_frame (.of_quiet q))
  | answered => exact hk hsm ha
  | fenced => exact hk (hsm.trans (.revoke _)) (ha.trans (.revoke _))
  | pointed hptr hnew q _ =>
    have hs := Steady.of_quiet q
    refine hatt (congrArg Steering.modeEpoch hs.steering) (congrArg Steering.mode hs.steering)
      (congrArg Steering.cumulative hs.steering) (Frame.of_quiet q).held hs.moved
        fun r t h => .inr ?_
    -- the state's own place is taken before the attempt
    rw [obsolete_iff,not_lt] at hnew
    have hrise : re.sequence+1 ≤ t.steering.bar := by
      rcases h.floor with ⟨-,hb⟩ | ⟨hb,-⟩
      · exact hb.ge
      · exact hb
    refine ⟨by omega,fun p hp => ?_⟩
    rw [InputRequest.place,if_pos hptr] at hp
    cases hp
    omega
  | admitted hrel =>
    refine hatt rfl rfl rfl rfl rfl fun r t h => ?_
    rw [InputRequest.place,if_neg (by simp [hrel])]
    exact h.floor.imp_left fun h => ⟨ha.trans h.1,h.2⟩

def SessionCall.place : SessionCall → Option ℕ
  | .dispatch request => request.place
  | _ => none

theorem step_steers (w : World) (call : SessionCall) :
    Steers call.place w ((step w call).2.revoked = false)
    (Succeeds (step w call).1) (step w call).2 := by
  cases call with
  | dispatch q => exact dispatch_steers q
  | _ =>
    refine .of_steady (.of_moves ?_) (.inr rfl)
    exact ReflTransGen.mono (fun _ _ => Upkeep.steady) _ _ (step_upkeep w rfl)

end Executes

/-! Datagrams and ordered actions. -/

/-- The call takes its place at the sink. -/
def Takes (e : SessionEvent) (place : ℕ) : Prop := e.input.place = some place ∧ callsSink e = true

theorem taken_run (w : World) (c : List SessionCall) :
    ∀ e ∈ trace w c, ∀ p, Takes e p → p < (final w c).steering.bar := by
  refine history_invariant step
    (I := fun past w => ∀ e ∈ past, ∀ p, Takes e p → p < w.steering.bar) (by simp)
      (fun past w call h => ?_) c
  have hs := step_steers w call
  simp only [forall_mem_snoc]
  refine ⟨fun e he p hp => ?_,fun p hp => ?_⟩
  · have hb := h e he p hp
    rcases hs.floor with ⟨-,_⟩ | ⟨_,-⟩ <;> omega
  · rcases hs.floor with ⟨hsilent,-⟩ | ⟨-,hplace⟩
    · have hc := hp.2
      rw [Silent.not_callsSink hsilent] at hc
      cases hc
    · exact hplace p hp.1

variable {w : World}

theorem dispatch_obsolete {re : InputRequest} (hp : re.event.isPointer = true)
    (hold : re.sequence < w.steering.bar) :
    (step w (.dispatch re)).2 = w ∧
    ((step w (.dispatch re)).1 = .dispatched (.ok .obsoletePointer) ∨
        (step w (.dispatch re)).1 = .dispatched (.error (.refused .staleSession)) ∨
        (step w (.dispatch re)).1 = .dispatched (.error (.refused .staleLease))) := by
  simp only [step,call,dispatch,exec_get_bind,exec_refuseIf_bind,hp,if_true,
    (obsolete_iff w _).mpr hold]
  split_ifs <;> simp

/-- In every run the pointer states that reach the sink have increasing sequences, each behind
every barrier of an action that reached it before. One that does not is answered without any
change. -/
theorem pointer_never_overtakes (w : World) (calls : List SessionCall)
    (past later : List SessionEvent)
    (e : SessionEvent) (request : InputRequest) (htrace : trace w calls = past ++ e :: later)
    (hinput : e.input = .dispatch request) (hpointer : request.event.isPointer = true) :
    (callsSink e = true → ∀ e' ∈ past, ∀ p, Takes e' p → p < request.sequence) ∧
    ((e.before.pointerFloor.any (request.sequence ≤ ·) = true ∨ ∃ e' ∈ past, ∃ p, Takes e' p ∧
      request.sequence ≤ p) → (step e.before e.input).2 = e.before ∧
        (e.reply = .dispatched (.ok .obsoletePointer) ∨
          e.reply = .dispatched (.error (.refused .staleSession)) ∨
          e.reply = .dispatched (.error (.refused .staleLease)))) := by
  obtain ⟨is₁,_,_,-,rfl,rfl,-⟩ := trace_split step htrace
  cases hinput
  have ht := taken_run w is₁
  constructor
  · intro hc e' he' p hp
    have hb := ht e' he' p hp
    by_contra hle
    have hsm := (dispatch_obsolete (w := final w is₁) hpointer (by omega)).1
    have hs : Silent (final w is₁) (step (final w is₁) (.dispatch request)).2 :=
      .of_trail_eq (by rw [hsm])
    rw [Silent.not_callsSink hs] at hc
    cases hc
  · intro hold
    apply dispatch_obsolete hpointer
    rcases hold with hold | ⟨e',he',p,hp,hle⟩
    · exact (obsolete_iff _ _).mp hold
    · exact hle.trans_lt (ht e' he' p hp)

/-- A pointer state, an older one and a newer one. -/
def samplePointing : List SessionCall :=
  [.dispatch ⟨sampleCredentials,4,.pointer ⟨1,1⟩⟩,.dispatch ⟨sampleCredentials,3,.pointer ⟨2,2⟩⟩,
    .dispatch ⟨sampleCredentials,5,.pointer ⟨3,3⟩⟩]

theorem pointer_never_overtakes_sample :
    (step (final (sampleWorld [] (List.replicate 12 (sampleAnswer 5))) (samplePointing.take 1))
      (.dispatch ⟨sampleCredentials,3,.pointer ⟨2,2⟩⟩)).2 =
    final (sampleWorld [] (List.replicate 12 (sampleAnswer 5))) (samplePointing.take 1) :=
  ((pointer_never_overtakes (sampleWorld [] (List.replicate 12 (sampleAnswer 5))) samplePointing
    [_] [_] ⟨_,_,_⟩ ⟨sampleCredentials,3,.pointer ⟨2,2⟩⟩ rfl rfl rfl).2 (.inl
      (by decide +kernel))).1

/-! Relative motion. -/

/-- The mode epoch that is current in `w` began with `e`, and since then the counters took up all
confirmed motion. -/
def CountsSince (e : SessionEvent) (w : World) : Prop :=
  e.before.modeEpoch < (step e.before e.input).2.modeEpoch ∧
    w.modeEpoch = (step e.before e.input).2.modeEpoch ∧
    ∃ since, w.trail = (step e.before e.input).2.trail ++ since ∧ total w.cumulative = moved since

theorem stage_revoked {b c w t} (h : Stage b c w t) (hw : w.revoked = true) : t.revoked = true := by
  cases h with
  | step h =>
    cases h with
    | quiet h => exact (Frame.of_quietly h).revoked hw
    | checked _ h =>
      cases h
      exact hw
    | report _ h q | unwound _ h q =>
      cases h
      exact (Frame.of_quiet q).revoked hw
    | _ => exact hw
  | _ => exact hw

theorem step_revoked {call} (h : (step w call).2.revoked = false) : w.revoked = false := by
  have hstage := step_stages w call
  generalize (step w call).2 = t at h hstage
  induction hstage with
  | refl => exact h
  | tail _ hs ih =>
    apply ih
    by_contra hr
    rw [stage_revoked hs (by simpa using hr)] at h
    cases h

theorem opens_absolute {a} (h : Opens a w) : w.mode = .absolute := by
  obtain ⟨⟨cr,bounds,capabilities,now,hx⟩,-⟩ := h
  have hm : Ensures (fromSharedAuthority cr bounds capabilities now) a fun r _ =>
      ∀ s, r = .ok s → s.mode = .absolute := by
    refine .get_bind (.refuseIf_bind (fun _ _ h => by cases h)
      fun _ => .adapt_bind (fun _ _ _ _ h => by cases h) fun _ _ _ => ?_)
    refine .adapt_bind (fun _ _ _ _ h => by cases h)
      fun _ _ _ => .ofResult_bind (fun _ _ _ h => by cases h) fun _ _ => .pure fun s hs => ?_
    cases hs
    rfl
  rw [Ensures,hx] at hm
  exact hm _ rfl

theorem counts_run {a} (ho : Opens a w) (c : List SessionCall) :
    (final w c).mode = .relative → (final w c).revoked = false → ∃ e ∈ trace w c, CountsSince e
      (final w c) := by
  refine history_invariant step
    (I := fun past w => w.mode = .relative → w.revoked = false → ∃ e ∈ past, CountsSince e w) ?_
    (fun past w call h hm hon => ?_) c
  · intro hm
    rw [opens_absolute ho] at hm
    cases hm
  · have hs := step_steers w call
    rcases hs.epoch with ⟨hsm,hep⟩ | ⟨hep,-,hz⟩
    · obtain ⟨e,he,hb,hc,since,hsi,ht⟩ := h (hsm ▸ hm) (step_revoked hon)
      obtain ⟨new,hnew⟩ := stages_extends (step_stages w call)
      refine ⟨e,mem_append_left _ he,hb,hep.trans hc,since++new,?_,?_⟩
      · rw [hnew.trail,hsi,append_assoc]
      · rw [hs.counted hon hep,ht,hnew.trail,moved_append,moved_append,add_sub_cancel_left]
    · refine ⟨_,mem_concat_self,hep,rfl,[],by simp,?_⟩
      rw [hz]
      rfl

/-- In every run of a fresh owner, relative counters are the sum of the motion confirmed since their
mode epoch began. Epochs only rise with a change of mode, which needs empty hands and, where it
succeeds, leaves no ticket behind. -/
theorem relative_motion_counted (a : Authority.SessionAuthority) (w : World) (hopens : Opens a w)
    (calls : List SessionCall) :
    ((final w calls).mode = .relative → (final w calls).revoked = false →
      ∃ e ∈ trace w calls, CountsSince e (final w calls)) ∧ ∀ e ∈ trace w calls,
      (((step e.before e.input).2.mode = e.before.mode ∧ (step e.before e.input).2.modeEpoch =
        e.before.modeEpoch) ∨
        (e.before.modeEpoch < (step e.before e.input).2.modeEpoch ∧ e.before.heldCount = 0)) ∧
      ∀ receipt, e.reply = .dispatched (.ok (.completed receipt)) → receipt.refusal = none →
        e.before.modeEpoch ≠ (step e.before e.input).2.modeEpoch →
        ∀ lease, (step e.before e.input).2.authority.lease = some lease →
          lease.tickets = SlotTable.vacant := by
  refine ⟨counts_run hopens calls,trace_invariant (I :=
    fun _ => True) step (fun w call _ => ⟨trivial,?_⟩) calls trivial⟩
  have hs := step_steers w call
  exact ⟨hs.epoch.imp_right fun h => ⟨h.1,h.2.1⟩,fun receipt hr hn => hs.vacated ⟨receipt,hr,hn⟩⟩

/-- A change to relative mode and two motions, the second of which repeats the first. -/
def sampleMotion : List SessionCall :=
  [.dispatch ⟨sampleCredentials,0,.mode .relative 1⟩,.issueTicket ⟨10⟩ 6 false,
    .dispatch ⟨{sampleCredentials with ticket := ⟨10⟩},1,.relative 1 5 (-3)⟩,
    .dispatch ⟨{sampleCredentials with ticket := ⟨10⟩},2,.relative 1 5 (-3)⟩]

theorem relative_motion_counted_sample :
    ∃ e ∈ trace (sampleWorld [] (List.replicate 12 (sampleAnswer 6))) sampleMotion,
      CountsSince e (final (sampleWorld [] (List.replicate 12 (sampleAnswer 6))) sampleMotion) :=
  (relative_motion_counted sampleAuthority _
    (sampleWorld_opens [] (List.replicate 12 (sampleAnswer 6))) sampleMotion).1
    (by decide +kernel) (by decide +kernel)

end FrankenRemote.Input
