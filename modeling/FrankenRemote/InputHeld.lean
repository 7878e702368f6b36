import FrankenRemote.InputOnce

/-! What is tracked as held is what may still be down. The native history of a run decides what
may be down, one key, button or wheel direction at a time. -/
namespace FrankenRemote.Input

open Procedure Relation SyntheticHeld

inductive Item
  | key (key : PhysicalKey)
  | button (button : PointerButton)
  | wheel (direction : WheelDirection)
  deriving DecidableEq

def Operation.presses : Operation → Option Item
  | .key k .press => some (.key k)
  | .button b true => some (.button b)
  | .wheel d true => some (.wheel d)
  | _ => none

def Operation.releases : Operation → Option Item
  | .key k .release => some (.key k)
  | .button b false => some (.button b)
  | .wheel d false => some (.wheel d)
  | _ => none

def SyntheticHeld.holds (h : SyntheticHeld) : Item → Bool
  | .key k => h.keys k
  | .button b => h.buttons b
  | .wheel d => h.wheel = some d

/-- Pressed, perhaps, and not certainly released since. -/
def Down (item : Item) (history : NativeHistory) : Prop :=
  ∃ before op s after, history = before ++ (op,s) :: after ∧ op.presses = some item ∧
    (s = .submitted ∨ s = .unknown) ∧
    ∀ r ∈ after, r.1.releases = some item → r.2 ≠ .submitted

/-! Tracking a history. -/

/-- What one report does to the tracked state. -/
def SyntheticHeld.after (h : SyntheticHeld) (op : Operation) : Submission → SyntheticHeld
  | .submitted => h.track op false
  | .unknown => h.track op true
  | _ => h

/-- Wheels are pressed one at a time and released in turn. -/
def SyntheticHeld.Orderly (h : SyntheticHeld) : Operation → Prop
  | .wheel _ true => h.wheel = none
  | .wheel d false => h.wheel = some d
  | _ => True

inductive Tracks : NativeHistory → SyntheticHeld → Prop
  | nil : Tracks [] .none_
  | snoc {history h} (prior : Tracks history h) {op}
      (orderly : h.Orderly op) (s : Submission) : Tracks (history ++ [(op,s)]) (h.after op s)

section History

variable {history : NativeHistory} {item : Item} {op : Operation} {s : Submission}
    {h : SyntheticHeld}

theorem down_snoc :
    Down item (history ++ [(op,s)]) ↔ (op.presses = some item ∧ (s = .submitted ∨ s = .unknown)) ∨
      (Down item history ∧ ¬(op.releases = some item ∧ s = .submitted)) := by
  constructor
  · rintro ⟨before,op',s',after,hsp,hp,hs,ha⟩
    rcases Transition.snoc_split hsp with ⟨rfl,heq,rfl⟩ | ⟨rest,rfl,rfl⟩
    · cases heq
      exact .inl ⟨hp,hs⟩
    · refine .inr ⟨⟨before,op',s',rest,rfl,hp,hs,fun r hr => ha r (List.mem_append_left _ hr)⟩,?_⟩
      rintro ⟨hrelease,rfl⟩
      exact ha (op,.submitted) (by simp) hrelease rfl
  · rintro (⟨hp,hs⟩ | ⟨⟨before,op',s',after,rfl,hp,hs,ha⟩,hk⟩)
    · exact ⟨history,op,s,[],rfl,hp,hs,by simp⟩
    · refine ⟨before,op',s',after ++ [(op,s)],by simp,hp,hs,?_⟩
      exact forall_mem_snoc.mpr ⟨ha,fun hrelease hs => hk ⟨hrelease,hs⟩⟩

/-- Tracking follows each item by itself. -/
theorem holds_track (ho : h.Orderly op) (before : Bool) : (h.track op before).holds item = true ↔
    op.presses = some item ∨
      (h.holds item = true ∧ ¬(op.releases = some item ∧ before = false)) := by
  unfold track
  cases op with
  | key k t =>
    cases item with
    | key k' =>
      cases t <;> cases before <;>
        simp [holds,Operation.presses,Operation.releases,Function.update_apply,
          @eq_comm _ k k',and_comm]
    | _ => cases t <;> cases before <;> simp [holds,Operation.presses,Operation.releases]
  | button b p =>
    cases item with
    | button b' =>
      cases p <;> cases before <;>
        simp [holds,Operation.presses,Operation.releases,Function.update_apply,
          @eq_comm _ b b',and_comm]
    | _ => cases p <;> cases before <;> simp [holds,Operation.presses,Operation.releases]
  | wheel d p =>
    cases p <;> cases before <;> cases item <;>
      simp_all [SyntheticHeld.Orderly,holds,Operation.presses,Operation.releases]
  | _ => simp [Operation.presses,Operation.releases]

theorem holds_after (ho : h.Orderly op) : (h.after op s).holds item = true ↔
    (op.presses = some item ∧ (s = .submitted ∨ s = .unknown)) ∨
      (h.holds item = true ∧ ¬(op.releases = some item ∧ s = .submitted)) := by
  cases s <;> simp [after,holds_track ho]

theorem Tracks.down (ht : Tracks history h) : h.holds item = true ↔ Down item history := by
  induction ht with
  | nil =>
    constructor
    · intro hh
      cases item <;> cases hh
    · rintro ⟨before,_,_,_,hs,-⟩
      cases before <;> cases hs
  | snoc prior orderly s ih => rw [holds_after orderly,down_snoc,ih]

end History

/-! Keeping the tracked state exact. -/

/-- No sink reports an unknown effect that its callback did not let through. -/
def NoStrayUnknown (trail : List Occurrence) : Prop := ∀ op, .report op false (.ok .unknown) ∉ trail

/-- The owner tracks its native history, for sinks that call back at most once and report an
unknown effect only after a callback that let them submit. -/
structure Exact (w : World) : Prop where
  tracks : NoStrayUnknown w.trail → Tracks (nativeHistory w.trail) w.toSyntheticHeld
  callbacks : ∀ a ∈ w.answers, a.callbacks ≤ 1

section Exact

variable {w t : World} {cr : InputCredentials} {op : Operation}

/-- Changes that report nothing. -/
structure Unreported (w t : World) : Prop where
  history : nativeHistory t.trail = nativeHistory w.trail
  prior : ∀ o ∈ w.trail, o ∈ t.trail
  answers : ∀ a ∈ t.answers, a ∈ w.answers

namespace Unreported

theorem refl (w : World) : Unreported w w := ⟨rfl,fun _ h => h,fun _ h => h⟩

theorem trans {u} (h : Unreported w t) (h' : Unreported t u) : Unreported w u :=
  ⟨h'.history.trans h.history,fun o ho => h'.prior o (h.prior o ho),fun a ha =>
    h.answers a (h'.answers a ha)⟩

theorem of_frame (h : Frame w t) (ha : ∀ a ∈ t.answers, a ∈ w.answers) : Unreported w t := by
  refine ⟨h.history,fun o ho => ?_,ha⟩
  obtain ⟨_,hnew,-⟩ := h.trail
  rw [hnew]
  exact List.mem_append_left _ ho

theorem of_quietly (h : Quietly w t) : Unreported w t := by
  refine of_frame (.of_quietly h) fun a ha => ?_
  cases h with
  | turn => rwa [interleave_answers] at ha
  | ask => exact List.mem_of_mem_tail ha
  | _ => exact ha

theorem of_quiet (h : Quiet w t) : Unreported w t := by
  induction h with
  | refl => exact refl w
  | tail _ h ih => exact ih.trans (of_quietly h)

theorem note {o : Occurrence} (ho : o.reported = none) (w : World) : Unreported w (w.note o) := by
  refine ⟨?_,fun o ho => List.mem_append_left _ ho,fun _ h => h⟩
  simp [World.note,nativeHistory,ho]

theorem of_grant (h : Grant cr op w t) : Unreported w t := by
  cases h with
  | @mk at_ _ h =>
    have hnote := note (o := .warrant cr w.view op) rfl
      (w.consult (.submissionDeadline w.lease cr.ticket at_))
    exact (of_frame (.consult w _) fun _ h => h).trans {hnote with}

theorem of_checking (h : ReflTransGen (Checking cr op) w t) : Unreported w t := by
  induction h with
  | refl => exact refl w
  | tail _ h ih =>
    cases h with
    | quiet h => exact ih.trans (of_quietly h)
    | grant h => exact ih.trans (of_grant h)

end Unreported

theorem Exact.of_unreported (h : Exact w) (hu : Unreported w t)
    (hh : t.toSyntheticHeld = w.toSyntheticHeld) : Exact t := by
  refine ⟨fun hs => ?_,fun a ha => h.callbacks a (hu.answers a ha)⟩
  rw [hu.history,hh]
  exact h.tracks fun op ho => hs op (hu.prior _ ho)

theorem Exact.of_quiet (h : Exact w) (q : Quiet w t) : Exact t :=
  h.of_unreported (.of_quiet q) (Frame.of_quiet q).held

theorem Exact.reported (h : Exact w) {u} (hu : Unreported w u) {o : Occurrence} {s}
    (ho : o.reported = some (op,s)) (hord : w.Orderly op) (ht : t.trail = u.trail ++ [o])
    (hans : t.answers = u.answers)
    (hh : NoStrayUnknown t.trail → t.toSyntheticHeld = w.after op s) : Exact t := by
  refine ⟨fun hs => ?_,fun a ha => h.callbacks a (hu.answers a (hans ▸ ha))⟩
  have hb : NoStrayUnknown w.trail := fun op hop =>
    hs op (by rw [ht]; exact List.mem_append_left _ (hu.prior _ hop))
  have hl : nativeHistory [o] = [(op,s)] := by simp [nativeHistory,ho]
  rw [hh hs,ht,nativeHistory_append,hu.history,hl]
  exact .snoc (h.tracks hb) hord s

/-- A grant ends with the operation tracked as if it had begun, however often it was checked. -/
theorem Grant.held_of_checking {a b} (h : ReflTransGen (Checking cr op) w a)
    (g : Grant cr op a b) : b.toSyntheticHeld = w.track op true := by
  rw [g.held]
  rcases Checking.held h with ha | ha
  · rw [ha]
  · rw [ha,track_track]

theorem submitted_exact (h : Exact w) (ho : w.Orderly op)
    (hs : Submits cr op w (.ok (.ok .submitted)) t) :
    Exact (t.confirm op) ∧ (t.confirm op).toSyntheticHeld = w.track op false := by
  cases hs with
  | @unchecked u q =>
    have hh : ((u.note (.report op false (.ok .submitted))).confirm op).toSyntheticHeld =
        w.track op false :=
      congrArg (·.track op false) (Frame.of_quiet q).held
    exact ⟨h.reported (s := .submitted) (.of_quiet q) rfl ho rfl rfl fun _ => hh,hh⟩
  | @checked a b u hc g q =>
    have hu : u.toSyntheticHeld = w.track op true :=
      (Frame.of_quiet q).held.trans (g.held_of_checking hc)
    have hh : ((u.note (.report op true (.ok .submitted))).confirm op).toSyntheticHeld =
        w.track op false :=
      (congrArg (·.track op false) hu).trans (track_track _ false)
    have hunready := ((Unreported.of_checking hc).trans (.of_grant g)).trans (.of_quiet q)
    exact ⟨h.reported (s := .submitted) hunready rfl ho rfl rfl fun _ => hh,hh⟩

theorem unknown_exact (h : Exact w) (ho : w.Orderly op)
    (hs : Submits cr op w (.ok (.ok .unknown)) t) : Exact t := by
  cases hs with
  | unchecked q =>
    refine h.reported (.of_quiet q) rfl ho rfl rfl fun hstream => absurd ?_ (hstream op)
    simp [World.note]
  | checked hc g q =>
    have hu := ((Unreported.of_checking hc).trans (.of_grant g)).trans (.of_quiet q)
    refine h.reported hu rfl ho rfl rfl fun _ => ?_
    exact (Frame.of_quiet q).held.trans (g.held_of_checking hc)

/-- What certainly did not happen is taken back. -/
theorem refused_exact (h : Exact w) (ho : w.Orderly op) {res}
    (hs : Submits cr op w (.ok res) t)
    (hres : ∀ s, res = .ok s → w.after op s = w.toSyntheticHeld) :
    Exact (t.takeBack w.toSyntheticHeld op) := by
  have hh : (t.takeBack w.toSyntheticHeld op).toSyntheticHeld = w.toSyntheticHeld := hs.restored
  have hr {u : World} (hu : Unreported w u) (b : Bool) (ht : t = u.note (.report op b res)) :
      Exact (t.takeBack w.toSyntheticHeld op) := by
    subst ht
    cases res with
    | ok s => exact h.reported hu rfl ho rfl rfl fun _ => hh.trans (hres s rfl).symm
    | error e =>
      have hnote := hu.trans (.note (o := .report op b (.error e)) rfl u)
      exact h.of_unreported {hnote with} hh
  cases hs with
  | unchecked q => exact hr (.of_quiet q) false rfl
  | checked hc g q =>
    exact hr (((Unreported.of_checking hc).trans (.of_grant g)).trans (.of_quiet q)) true rfl

theorem unwound_exact (h : Exact w) (ho : w.Orderly op)
    (hs : Submits cr op w (.error .panicked) t) : Exact t := by
  cases hs with
  | failed _ q => exact h.of_quiet (q h.callbacks)
  | uncalled q => exact (h.of_quiet q).of_unreported (.note rfl _) rfl
  | unwound hc g q =>
    have hu := ((Unreported.of_checking hc).trans (.of_grant g)).trans (.of_quiet q)
    refine h.reported hu rfl ho rfl rfl fun _ => ?_
    exact (Frame.of_quiet q).held.trans (g.held_of_checking hc)

variable {h : SyntheticHeld} {r : Except Stop Unit} {ops : List Operation}

theorem Performs.exact (h : Exact w) (ho : w.Orderly op)
    (hp : Performs cr op w r t) :
    Exact t ∧ (r = .ok () → t.toSyntheticHeld = w.track op false) := by
  have hpr {a : World} (q : Quiet w a) : Exact (a.note (.prepare op)) ∧ a.Orderly op := by
    refine ⟨(h.of_quiet q).of_unreported (.note rfl a) rfl,?_⟩
    rw [(Frame.of_quiet q).held]
    exact ho
  cases hp with
  | unprepared q => exact ⟨(hpr q).1,fun h => by cases h⟩
  | submitted q hs =>
    obtain ⟨he,hh⟩ := submitted_exact (hpr q).1 (hpr q).2 hs
    exact ⟨he,fun _ => hh.trans (congrArg (·.track op false) (Frame.of_quiet q).held)⟩
  | unknown q hs => exact ⟨unknown_exact (hpr q).1 (hpr q).2 hs,fun h => by cases h⟩
  | @refused a _ _ q hs hr =>
    refine ⟨refused_exact (w := a.note (.prepare op)) (hpr q).1 (hpr q).2 hs fun s hs => ?_,
      fun h => by cases h⟩
    subst hs
    cases s with
    | submitted => exact absurd rfl hr.1
    | unknown => exact absurd rfl hr.2
    | _ => rfl
  | unwound q hs => exact ⟨unwound_exact (hpr q).1 (hpr q).2 hs,fun h => by cases h⟩

/-! Whole calls. -/

/-- Wheels go down one at a time, and up before the end. -/
def SyntheticHeld.Neat : SyntheticHeld → List Operation → Prop
  | h,[] => h.wheel = none
  | h,op :: ops => h.Orderly op ∧ SyntheticHeld.Neat (h.track op false) ops

/-- Operations that leave the wheel alone. -/
def Operation.isWheel : Operation → Bool
  | wheel _ _ => true
  | _ => false

theorem wheel_track (h : SyntheticHeld) (ho : op.isWheel = false) (before : Bool) :
    (h.track op before).wheel = h.wheel := by
  cases op with
  | key k t => cases t <;> cases before <;> rfl
  | button b p => cases p <;> cases before <;> rfl
  | wheel d p => cases ho
  | _ => rfl

theorem neat_still (ho : ∀ op ∈ ops, op.isWheel = false) (hw : h.wheel = none) : h.Neat ops := by
  induction ops generalizing h with
  | nil => exact hw
  | cons op ops ih =>
    have hop := ho op List.mem_cons_self
    have hord : h.Orderly op := by
      cases op with
      | wheel => cases hop
      | _ => trivial
    refine ⟨hord,ih (fun op hop => ho op (List.mem_cons_of_mem _ hop)) ?_⟩
    rw [wheel_track h hop false,hw]

theorem neat_steps (steps : List WheelDirection) (hw : h.wheel = none) :
    h.Neat (steps.flatMap fun d => [.wheel d true,.wheel d false]) := by
  induction steps generalizing h with
  | nil => exact hw
  | cons d steps ih => exact ⟨hw,rfl,ih rfl⟩

theorem InputEvent.Plans.neat {e : InputEvent} (hp : e.Plans w ops) (hw : h.wheel = none) :
    h.Neat ops := by
  obtain ⟨pairs,-,hp⟩ := hp
  cases e with
  | key k transition =>
    cases transition <;> cases pairs <;> cases hp <;>
    exact neat_still (by simp [Operation.isWheel]) hw
  | pointer | button => cases hp; exact neat_still (by simp [Operation.isWheel]) hw
  | scroll position _ x y unit =>
    cases unit with
    | pixels => cases hp; exact neat_still (by simp [Operation.isWheel]) hw
    | lines =>
      cases pairs with
      | false => cases hp; exact neat_still (by simp [Operation.isWheel]) hw
      | true =>
        obtain ⟨d,-,rfl⟩ := Option.map_eq_some_iff.mp hp
        exact ⟨trivial,neat_steps d.steps hw⟩
  | text s =>
    cases hp
    refine neat_still (fun op ho => ?_) hw
    obtain ⟨_,-,ho⟩ := List.mem_flatMap.mp ho
    cases List.mem_singleton.mp ho
    rfl
  | relative _ cumulativeX cumulativeY =>
    obtain ⟨x,-,hp⟩ := Option.bind_eq_some_iff.mp hp
    obtain ⟨y,-,rfl⟩ := Option.map_eq_some_iff.mp hp
    refine neat_still (fun op ho => ?_) hw
    split at ho
    · cases List.mem_singleton.mp ho
      rfl
    · cases ho
  | mode => cases hp

theorem Performed.exact (hp : Performed cr ops w r t)
    (h : Exact w) (hneat : w.Neat ops) : Exact t ∧ (r = .ok () → t.wheel = none) := by
  induction hp with
  | nil => exact ⟨h,fun _ => hneat⟩
  | next hp _ ih =>
    obtain ⟨he,hh⟩ := hp.exact h hneat.1
    exact ih he (by rw [hh rfl]; exact hneat.2)
  | stop hp => exact ⟨(hp.exact h hneat.1).1,fun h => by cases h⟩

/-- Exactness is kept, and a wheel is released or left alone. -/
def Settles (w t : World) : Prop := (Exact w → Exact t) ∧ (t.wheel = w.wheel ∨ t.wheel = none)

namespace Settles

theorem trans {u} (h : Settles w t) (h' : Settles t u) : Settles w u := by
  refine ⟨fun hw => h'.1 (h.1 hw),?_⟩
  rcases h'.2 with hu | hu
  · rw [hu]
    exact h.2
  · exact .inr hu

theorem of_unreported (h : Unreported w t) (hh : t.toSyntheticHeld = w.toSyntheticHeld) :
    Settles w t :=
  ⟨fun hw => hw.of_unreported h hh,.inl (congrArg wheel hh)⟩

theorem of_quiet (h : Quiet w t) : Settles w t :=
  of_unreported (.of_quiet h) (Frame.of_quiet h).held

theorem same (ht : t.trail = w.trail) (ha : t.answers = w.answers)
    (hh : t.toSyntheticHeld = w.toSyntheticHeld) : Settles w t := by
  refine of_unreported ⟨by rw [ht],fun _ h => ?_,fun _ h => ?_⟩ hh
  · rwa [ht]
  · rwa [ha] at h

theorem wheel (h : Settles w t) (hw : w.wheel = none) : t.wheel = none := h.2.elim (·.trans hw) id

theorem opens (w : World) (e : InputEvent) : Settles w (w.opens e) := by
  cases e <;> exact same rfl rfl rfl

theorem closes (w : World) (e : InputEvent) (r : Except Stop Unit) : Settles w (w.closes e r) := by
  cases e <;> cases r <;> exact same rfl rfl rfl

end Settles

theorem Executed.exact {e} (he : Executed cr e w r t)
    (h : Exact w) (hw : w.wheel = none) : Exact t ∧ (r = .ok () → t.wheel = none) := by
  cases he with
  | refused q => exact ⟨h.of_quiet q,fun h => by cases h⟩
  | @performed _ a u _ q hpn hp =>
    have ho : Settles w (a.opens e) := (Settles.of_quiet q).trans (.opens a e)
    obtain ⟨hexact,hu⟩ := hp.exact (ho.1 h) (hpn.neat (ho.wheel hw))
    exact ⟨(Settles.closes u e r).1 hexact,fun hr => (Settles.closes u e r).wheel (hu hr)⟩
  | switched _ _ _ q =>
    have hs : Settles w t := (Settles.opens w e).trans (.of_quiet q)
    exact ⟨hs.1 h,fun _ => hs.wheel hw⟩

theorem execute_exact (h : Exact w) (hi : w.isActive = true → w.wheel = none) (re : InputRequest) :
    Ensures (execute re) w fun r t => Exact t ∧ (r = .ok () → t.wheel = none) :=
  (execute_ensures re w).mono fun _ _ ht => by
    cases ht with
    | refused q => exact ⟨h.of_quiet q,fun h => by cases h⟩
    | checked q hpass ht =>
      have hq := hpass.quiet q
      refine ht.exact (h.of_quiet hq) ((Settles.of_quiet hq).wheel (hi ?_))
      exact (Frame.of_quiet q).inactive hpass.active

theorem unreported_revoke (w : World) : Unreported w w.revoke := by
  have hnote := Unreported.note (o := .revoke) rfl {w with revoked := true}
  exact {hnote with}

theorem unreported_record (w : World) (rc : Receipt) (p : Bool) :
    Unreported w (w.record rc p) ∧ (w.record rc p).toSyntheticHeld = w.toSyntheticHeld := by
  obtain ⟨new,_,_,hnew,hr⟩ := record_shape w rc p
  have hn : nativeHistory (new ++ [.record rc p]) = [] := by
    refine List.filterMap_eq_nil_iff.mpr (forall_mem_snoc.mpr ⟨fun o ho => ?_,rfl⟩)
    rw [hnew o ho]
    rfl
  rw [hr]
  refine ⟨⟨?_,fun o ho => List.mem_append_left _ ho,fun _ h => h⟩,rfl⟩
  rw [nativeHistory_append,hn,List.append_nil]

/-- Only a refused attempt can leave a wheel down, and it revokes. -/
theorem outcome_refused (a : Attempt) (refusal : Refusal) :
    (a.outcome (some refusal)).succeeded = false := by
  unfold Attempt.outcome
  split
  · rfl
  · dsimp only
    split
    · rfl
    · cases refusal with
      | authority e => cases e <;> rfl
      | _ => rfl

theorem record_inactive (w : World) {rc : Receipt} (p : Bool) (h : rc.outcome.succeeded = false) :
    (w.record rc p).isActive = false := by
  unfold World.record
  rw [h]
  rfl

/-- Between calls, only a revoked owner can have left a wheel down. -/
def Tidy (w : World) : Prop := Exact w ∧ (w.isActive = true → w.wheel = none)

theorem Tidy.settles (h : Tidy w) (hs : Settles w t) (ha : t.isActive = true → w.isActive = true) :
    Tidy t :=
  ⟨hs.1 h.1,fun ht => hs.wheel (h.2 (ha ht))⟩

theorem outcome_ended (a : Attempt) (e : Stop) :
    (a.outcome (a.ended (.error e))).succeeded = false := by
  cases e <;> exact outcome_refused _ _

theorem attempt_exact (h : Tidy w) (re : InputRequest) :
    Ensures (attempt re) w fun _ t => Tidy t := by
  have hst : Settles w {w with submitted := 0, uncertain := false} := .same rfl rfl rfl
  refine attempt_ensures (execute_exact (hst.1 h.1) h.2 re) fun res t _ ht _ => ?_
  obtain ⟨hr,hh⟩ := unreported_record t (t.receipt re.sequence (t.ended res)) re.event.isPointer
  have hs := Settles.of_unreported hr hh
  refine ⟨hs.1 ht.1,fun ha => hs.wheel ?_⟩
  cases res with
  | ok => exact ht.2 rfl
  | error e =>
    rw [record_inactive t _ (outcome_ended t.toAttempt e)] at ha
    cases ha

theorem dispatch_exact (h : Tidy w) (re : InputRequest) :
    Ensures (dispatch re) w fun _ t => Tidy t := by
  have hq {t : World} (q : Quiet w t) : Tidy t :=
    h.settles (.of_quiet q) (Frame.of_quiet q).inactive
  have hadm : Tidy (w.admits re) := by
    refine h.settles (.same rfl rfl rfl) fun ha => ?_
    have hf := admitAction_fenced w.lease re.sequence w.ledger
    simp only [World.isActive,Bool.and_eq_true,Bool.not_eq_true'] at ha ⊢
    refine ⟨ha.1,Bool.eq_false_iff.mpr fun hw => ?_⟩
    rw [World.admits,hf hw] at ha
    simp at ha
  refine (dispatch_ensures re w).mono fun r t ht => ?_
  cases ht with
  | idle q => exact hq q
  | answered => exact hadm
  | fenced => exact hadm.settles (.of_unreported (unreported_revoke _) rfl) fun h => by cases h
  | @pointed a _ _ q =>
    have hfloor : Settles a {a with pointerFloor := some re.sequence} := .same rfl rfl rfl
    exact attempt_exact ((hq q).settles hfloor id) re
  | admitted => exact attempt_exact hadm re

/-! Releases outside an action. -/

theorem wheel_release (hr : op.isRelease = true) (h : SyntheticHeld) :
    (h.track op false).wheel = h.wheel ∨ (h.track op false).wheel = none := by
  cases op with
  | wheel d p => cases p <;> first | (cases hr; done) | exact .inr rfl
  | _ => exact .inl (wheel_track h rfl false)

theorem orderly_of_tracked (hr : op.isRelease = true) (ht : h.tracked op = true) :
    h.Orderly op := by
  cases op with
  | wheel d p =>
    have hw : h.wheel = some d := of_decide_eq_true ht
    cases p <;> first | (cases hr; done) | exact hw
  | _ => trivial

theorem Upkeep.settles (h : Upkeep w t) : Settles w t := by
  cases h with
  | quiet h => exact .of_unreported (.of_quietly h) (Frame.of_quietly h).held
  | prepare op => exact .of_unreported (.note rfl w) rfl
  | @kept op hr ht s hs =>
    have ha : w.after op s = w.toSyntheticHeld := by
      cases s with
      | submitted => exact absurd rfl hs
      | unknown => exact track_before _ (not_isPress_of_isRelease hr)
      | _ => rfl
    refine ⟨fun hw => hw.reported (.refl w) rfl (orderly_of_tracked hr ht) rfl rfl
      fun _ => ?_,.inl rfl⟩
    exact ha.symm
  | released hr ht =>
    refine ⟨fun hw => ?_,wheel_release hr _⟩
    exact hw.reported (s := .submitted) (.refl w) rfl (orderly_of_tracked hr ht) rfl rfl
      fun _ => rfl
  | revoke => exact .of_unreported (unreported_revoke w) rfl
  | report | reconcile => exact .of_unreported ⟨rfl,fun _ h => h,fun _ h => h⟩ rfl
  | confirm => exact .of_unreported (.of_frame (.consult w _) fun _ h => h) (Frame.consult w _).held

theorem settles_of_upkeep (h : ReflTransGen Upkeep w t) : Settles w t := by
  induction h with
  | refl => exact ⟨id,.inl rfl⟩
  | tail _ h ih => exact ih.trans h.settles

/-! Whole runs. -/

theorem Tidy.step (h : Tidy w) (call : SessionCall) : Tidy (step w call).2 := by
  cases hc : call.credentials with
  | some cr =>
    cases call with
    | dispatch q => exact dispatch_exact h q
    | _ => cases hc
  | none =>
    obtain ⟨_,hnew⟩ := stages_extends (step_stages w call)
    obtain ⟨he,hw⟩ := settles_of_upkeep (step_upkeep w hc)
    refine ⟨he h.1,fun ha => ?_⟩
    rcases hw with hw | hw
    · rw [hw]
      exact h.2 (hnew.active ha)
    · exact hw

theorem Tidy.of_opens {a} (h : Opens a w) (ha : ∀ a ∈ w.answers, a.callbacks ≤ 1) : Tidy w := by
  have ht := h.2.2
  have hh := h.attached.held
  refine ⟨⟨fun _ => ?_,ha⟩,fun _ => ?_⟩
  · rw [ht,hh]
    exact .nil
  · rw [hh]
    rfl

/-- After every run, for a sink that calls back at most once and reports an unknown effect only
after its callback let it submit: a key, button or wheel direction is tracked as held exactly when
its native history has a press that was or may have been submitted, with no confirmed release
after it. -/
theorem held_tracks_history (a : Authority.SessionAuthority) (w : World) (hopens : Opens a w)
    (hcallbacks : ∀ a ∈ w.answers, a.callbacks ≤ 1) (calls : List SessionCall)
    (hunknown : NoStrayUnknown (final w calls).trail) (item : Item) :
    (final w calls).holds item = true ↔ Down item (nativeHistory (final w calls).trail) := by
  have htidy : Tidy (final w calls) :=
    Transition.final_invariant step (fun _ call h => h.step call) calls
      (.of_opens hopens hcallbacks)
  exact (htidy.1.tracks hunknown).down

/-- A session whose first press is reported as unknown by a sink that never called back. -/
def astray : World :=
  sampleWorld [] [sampleAnswer 5,sampleAnswer 5,
    ⟨5,.ok (),.unknown,0,.ok .unknown,false,false,false⟩]

/-- Such a press may be down, and is not tracked. -/
theorem stray_unknown_untracked :
    Opens sampleAuthority astray ∧ (∀ a ∈ astray.answers, a.callbacks ≤ 1) ∧
      Down (.key sampleKey) (nativeHistory (final astray [.dispatch (samplePress 0)]).trail) ∧
      (final astray [.dispatch (samplePress 0)]).holds (.key sampleKey) = false := by
  refine ⟨sampleWorld_opens _
    _,by decide,⟨[],.key sampleKey .press,.unknown,[],rfl,rfl,.inr rfl,?_⟩,rfl⟩
  simp

/-- A session whose first press passes its final check and is then reported as unknown. -/
def unsure : World :=
  sampleWorld [] [sampleAnswer 5,sampleAnswer 5,⟨5,.ok (),.unknown,1,.ok .unknown,false,false,
    false⟩,sampleAnswer 5]

theorem held_tracks_history_press :
    .report (.key sampleKey .press) true (.ok .unknown) ∈
      (final unsure [.dispatch (samplePress 0)]).trail ∧
      Down (.key sampleKey) (nativeHistory (final unsure [.dispatch (samplePress 0)]).trail) := by
  have ht : ∃ a₁ a₂ r, (final unsure [.dispatch (samplePress 0)]).trail =
      [.authority 0 a₁,.prepare (.key sampleKey .press),.authority 0 a₂,
        .warrant sampleCredentials sampleCredentials.view (.key sampleKey .press),
        .report (.key sampleKey .press) true (.ok .unknown),.revoke,.record r false] := ⟨_,_,_,rfl⟩
  obtain ⟨_,_,_,ht⟩ := ht
  refine ⟨by rw [ht]; simp,
    (held_tracks_history sampleAuthority unsure (sampleWorld_opens _ _) (by decide) _
      (fun op ho => ?_) _).mp rfl⟩
  rw [ht] at ho
  simp at ho

end Exact
end FrankenRemote.Input
