import FrankenRemote.InputOnce

/-! The native side of a suspension. The policy learns of a release only when nothing is held, and
nothing is pressed again before the view is revived. -/
namespace FrankenRemote.Input

open Procedure Relation Authority List Transition

def Interference.confirms : Interference → Bool
  | .authority op => op.confirms
  | .revoke => false

def Occurrence.policy : Occurrence → Option Authority.Event
  | .authority _ e => some e
  | _ => none

/-- The calls on the shared policy, whoever made them. -/
def policyEvents (trail : List Occurrence) : List Authority.Event :=
  trail.filterMap Occurrence.policy

/-- The present suspension is not marked as released. -/
def World.Unreleased (w : World) : Prop := ∀ x, w.authority.suspension = some x → x.released = false

/-- A release is confirmed, and so a revival possible, only while nothing is held. The policy was
in the state `a` at the beginning of the trail. -/
structure Guarded (a : Authority.SessionAuthority) (w : World) : Prop where
  schedule : ∀ turn ∈ w.schedule, ∀ i ∈ turn, i.confirms = false
  run : ∃ ops, policyEvents w.trail = Authority.trace a ops ∧ w.authority = Authority.final a ops
  suspendable : w.authority.Suspendable
  released : ∀ x, w.authority.suspension = some x → x.released = true → w.heldCount = 0
  revivals : ∀ held e x now, .authority held e ∈ w.trail → Authority.Revives x now e → held = 0

section Guarded

variable {a : Authority.SessionAuthority} {w t : World} {op : Authority.Op}
    {c : Option InputCredentials}

@[simp] theorem policyEvents_append (l l' : List Occurrence) :
    policyEvents (l ++ l') = policyEvents l ++ policyEvents l' := filterMap_append

structure Private (w t : World) : Prop where
  authority : t.authority = w.authority
  schedule : ∀ turn ∈ t.schedule, turn ∈ w.schedule
  trail : ∃ new, t.trail = w.trail ++ new ∧ ∀ o ∈ new, o.policy = none

namespace Private

theorem same (ha : t.authority = w.authority) (hs : t.schedule = w.schedule)
    (ht : t.trail = w.trail) : Private w t :=
  ⟨ha,fun _ h => hs ▸ h,[],by simp [ht],by simp⟩

theorem note {o : Occurrence} (ho : o.policy = none) (w : World) : Private w (w.note o) :=
  ⟨rfl,fun _ h => h,[o],rfl,by simpa using ho⟩

theorem unreleased (h : Private w t) (hw : w.Unreleased) : t.Unreleased := by
  intro x hx
  rw [h.authority] at hx
  exact hw x hx

end Private

theorem Guarded.privately (h : Guarded a w) (hp : Private w t)
    (hh : w.Unreleased ∨ (w.heldCount = 0 → t.heldCount = 0)) : Guarded a t := by
  obtain ⟨new,htr,hnew⟩ := hp.trail
  have hpo : policyEvents new = [] := filterMap_eq_nil_iff.mpr hnew
  refine ⟨fun turn ht => h.schedule turn (hp.schedule turn ht),?_,?_,fun x hx hr => ?_,?_⟩
  · rw [htr,policyEvents_append,hpo,append_nil,hp.authority]
    exact h.run
  · rw [hp.authority]
    exact h.suspendable
  · rw [hp.authority] at hx
    rcases hh with hu | hk
    · rw [hu x hx] at hr
      cases hr
    · exact hk (h.released x hx hr)
  · intro held e x now hm hrev
    rw [htr] at hm
    rcases mem_append.mp hm with hm | hm
    · exact h.revivals held e x now hm hrev
    · cases hnew _ hm

/-- One call on the policy. A confirmation needs empty hands, and a revival a confirmation. -/
theorem Guarded.consult (h : Guarded a w) (ho : op.confirms = false ∨ w.heldCount = 0) :
    Guarded a (w.consult op) := by
  refine ⟨h.schedule,?_,effect_suspendable (step_effect _ _) h.suspendable,
    fun x hx hr => ?_,?_⟩
  · obtain ⟨ops,he,ha⟩ := h.run
    refine ⟨ops ++ [op],?_,?_⟩
    · have hnew : policyEvents (w.consult op).trail = policyEvents w.trail ++
          Authority.trace w.authority [op] := by
        simp [World.consult,World.note,policyEvents,Occurrence.policy,Authority.trace,
          Transition.trace]
      rw [hnew,he,ha,Authority.trace,Authority.final,trace_append]
    · have hl : (w.consult op).authority = Authority.final w.authority [op] := rfl
      rw [hl,ha,Authority.final,final_append]
  · rcases ho with ho | hz
    · exact h.released x (released_origin ho hx hr) hr
    · exact hz
  · intro held e x now hm hrev
    rcases mem_append.mp hm with hm | hm
    · exact h.revivals held e x now hm hrev
    · cases mem_singleton.mp hm
      exact h.released x hrev.suspended (revives_ok hrev).2

theorem unreleased_consult (h : w.Unreleased) (ho : op.confirms = false) :
    (w.consult op).Unreleased := by
  intro x hx
  by_contra hr
  have hr : x.released = true := by simpa using hr
  have hb := h x (released_origin ho hx hr)
  rw [hb] at hr
  cases hr

/-- Guarded, and without a confirmed release for as long as there was none. -/
def Guards (a : Authority.SessionAuthority) (w t : World) : Prop :=
  Guarded a w → Guarded a t ∧ (w.Unreleased → t.Unreleased)

namespace Guards

theorem trans {u} (h : Guards a w t) (h' : Guards a t u) : Guards a w u := fun hw =>
  have ht := h hw
  have hu := h' ht.1
  ⟨hu.1,fun hunready => hu.2 (ht.2 hunready)⟩

theorem refl : Guards a w w := fun hw => ⟨hw,id⟩

theorem privately (h : Private w t) (hh : w.heldCount = 0 → t.heldCount = 0) : Guards a w t :=
  fun hw => ⟨hw.privately h (.inr hh),h.unreleased⟩

theorem consult (ho : op.confirms = false) : Guards a w (w.consult op) :=
  fun hw => ⟨hw.consult (.inl ho),fun h => unreleased_consult h ho⟩

theorem foldl_disturb (is : List Interference) (his : ∀ i ∈ is, i.confirms = false) :
    Guards a w (is.foldl World.disturb w) := by
  induction is generalizing w with
  | nil => exact refl
  | cons i is ih =>
    have hi := his i mem_cons_self
    have hr := ih (w := w.disturb i) fun i hi => his i (mem_cons_of_mem _ hi)
    refine trans ?_ hr
    cases i with
    | revoke => exact privately ⟨rfl,fun _ h => h,[.revoke],rfl,by simp [Occurrence.policy]⟩ id
    | authority op => exact consult hi

theorem interleave : Guards a w w.interleave := by
  intro hw
  have ht : ∀ i ∈ w.schedule.headD [], i.confirms = false := by
    cases hs : w.schedule with
    | nil => simp
    | cons turn rest =>
      rw [headD_cons]
      exact hw.schedule turn (by rw [hs]; exact mem_cons_self)
  have hr : Private w {w with schedule := w.schedule.tail} :=
    ⟨rfl,fun _ h => mem_of_mem_tail h,[],by simp,by simp⟩
  exact trans (privately hr id) (foldl_disturb _ ht) hw

theorem quietly (h : Quietly w t) : Guards a w t := by
  cases h with
  | turn => exact interleave
  | ask | clock | view => exact privately (.same rfl rfl rfl) id
  | flag => exact privately ⟨rfl,fun _ h => h,[.revoke],rfl,by simp [Occurrence.policy]⟩ id
  | consult ho => exact consult ho

theorem quiet (h : Quiet w t) : Guards a w t := by
  induction h with
  | refl => exact refl
  | tail _ h ih => exact ih.trans (quietly h)

end Guards

/-- Without an action, nothing begins to be held. -/
theorem Guards.step (h : Step none w t) : Guards a w t := by
  cases h with
  | quiet h => exact .quietly h
  | prepare | unchecked | uncalled | submit => exact .privately (.note rfl _) id
  | checked hc | report hc | unwound hc | stray hc => cases hc
  | tidy hh =>
    refine .privately (.same rfl rfl rfl) fun hz => ?_
    rw [SyntheticHeld.heldCount_eq_zero] at hz ⊢
    exact hh hz

section

variable (h : Guarded a w)

include h

theorem Guarded.stage {b} (hs : Stage b none w t) : Guarded a t := by
  cases hs with
  | step hs => exact (Guards.step hs h).1
  | fence | retain => exact h.privately (.same rfl rfl rfl) (.inr id)
  | record => exact h.privately (.note rfl _) (.inr id)
  | confirm hz => exact h.consult (.inr hz)

theorem Guarded.stages {b} (hs : ReflTransGen (Stage b none) w t) : Guarded a t := by
  induction hs with
  | refl => exact h
  | tail _ hs ih => exact ih.stage hs

/-- Within an action the check has passed, so there is no release to go back on. -/
theorem Guarded.grant {cr op}
    (hw : w.Unreleased) (hg : Grant cr op w t) : Guarded a t ∧ t.Unreleased := by
  cases hg with
  | @mk at_ _ =>
    have hguard : Guards a w (w.consult (.submissionDeadline w.lease cr.ticket at_)) := .consult rfl
    obtain ⟨hg,hu⟩ := hguard h
    have hp : Private (w.consult (.submissionDeadline w.lease cr.ticket at_))
        ((w.consult (.submissionDeadline w.lease cr.ticket at_)).grant cr op) :=
      ⟨rfl,fun _ h => h,[.warrant cr w.view op],rfl,by simp [Occurrence.policy]⟩
    exact ⟨hg.privately hp (.inl (hu hw)),hp.unreleased (hu hw)⟩

theorem Guarded.within (hw : w.Unreleased) (hs : Step c w t) : Guarded a t ∧ t.Unreleased := by
  have hprivate {u v : World} (h : Guarded a u ∧ u.Unreleased) (hp : Private u v) :
      Guarded a v ∧ v.Unreleased :=
    ⟨h.1.privately hp (.inl h.2),hp.unreleased h.2⟩
  cases hs with
  | quiet hq => exact (Guards.quietly hq h).imp id fun k => k hw
  | prepare | unchecked | uncalled | submit => exact hprivate ⟨h,hw⟩ (.note rfl _)
  | checked _ hg => exact h.grant hw hg
  | report _ hg q _ | unwound _ hg q =>
    obtain ⟨hguard,hu⟩ := h.grant hw hg
    obtain ⟨hqt,hk⟩ := Guards.quiet q hguard
    exact hprivate ⟨hqt,hk hu⟩ (.note rfl _)
  | tidy | stray => exact hprivate ⟨h,hw⟩ (.same rfl rfl rfl)

theorem Guarded.steps (hw : w.Unreleased) (hs : ReflTransGen (Step c) w t) : Guarded a t := by
  have hboth : Guarded a t ∧ t.Unreleased := by
    induction hs with
    | refl => exact ⟨h,hw⟩
    | tail _ hs ih => exact ih.1.within ih.2 hs
  exact hboth.1

/-! Whole calls. -/

/-- The check passes only while there is no suspension. -/
theorem Passes.unreleased {cr at_ u} (hp : Passes cr w at_ u) :
    (w.consult (.submissionDeadline w.lease cr.ticket at_)).Unreleased := by
  have hok : (Authority.step w.authority (.submissionDeadline w.lease cr.ticket at_)).1.isOk =
      true := by
    rw [hp.accepted]
    rfl
  intro x hx
  cases (submits_unsuspended h.suspendable rfl hok).1.symm.trans hx

theorem execute_guarded (r : InputRequest) : Ensures (execute r) w fun _ t => Guarded a t :=
  (execute_ensures r w).mono fun _ _ ht => by
    cases ht with
    | refused q => exact (Guards.quiet q h).1
    | checked q hpass ht =>
      have hb := (Guards.quiet q h).1
      exact (hb.consult (.inl rfl)).steps (hpass.unreleased hb) ht.steps

theorem attempt_guarded (r : InputRequest) : Ensures (attempt r) w fun _ t => Guarded a t := by
  have hs : Guarded a {w with submitted := 0, uncertain := false} :=
    h.privately (.same rfl rfl rfl) (.inr id)
  exact attempt_ensures (execute_guarded hs r) fun _ _ _ ht _ => ht.stages (stages_record _ _)

theorem dispatch_guarded (re : InputRequest) : Ensures (dispatch re) w fun _ t => Guarded a t := by
  have ha : Guarded a (w.admits re) := h.privately (.same rfl rfl rfl) (.inr id)
  refine (dispatch_ensures re w).mono fun r t ht => ?_
  cases ht with
  | idle q => exact (Guards.quiet q h).1
  | answered => exact ha
  | fenced => exact ha.stages (b := false) stages_revoke
  | @pointed u _ _ q =>
    have hf : Guarded a {u with pointerFloor := some re.sequence} :=
      (Guards.quiet q h).1.privately (.same rfl rfl rfl) (.inr id)
    exact attempt_guarded hf re
  | admitted => exact attempt_guarded ha re

theorem Guarded.call (call : SessionCall) : Guarded a (step w call).2 := by
  have hs := step_stages w call
  cases call with
  | dispatch q => exact dispatch_guarded h q
  | _ => exact h.stages hs

end

theorem Opens.guarded (h : Opens a w) (ha : a.Suspendable)
    (hs : ∀ turn ∈ w.schedule, ∀ i ∈ turn, i.confirms = false) : Guarded w.authority w ∧
      w.authority.suspension = none ∧ w.authority.clockFaulted = false := by
  obtain ⟨ticket,now,hok,hauth⟩ := h.attached.authorized
  obtain ⟨hsus,hck⟩ := submits_unsuspended ha rfl hok
  have hc := claimNativeOwner_frame
    (Authority.step a (.authorizeSubmission w.lease ticket now)).2 w.lease
  have hn : w.authority.suspension = none := by rw [hauth,hc.1,hsus]
  refine ⟨⟨hs,⟨[],?_,rfl⟩,suspendable_of_none hn,fun x hx => ?_,?_⟩,hn,?_⟩
  · rw [h.2.2]
    rfl
  · cases hn.symm.trans hx
  · rw [h.2.2]
    intro _ _ _ _ hm
    cases hm
  · rw [hauth,hc.2,hck]

end Guarded

/-! Whole runs. -/

/-- Whenever fresh readiness revives a suspended lease, in any interleaving in which nobody else
confirms the release: the owner holds nothing, the time is before the limit counted from the lapse
that began the suspension, and every submission that is ever accepted after that lapse rests on a
ticket that was issued after it. -/
theorem suspension_handshake (session : RemoteSessionId) (policy : Authority.AuthorityPolicy)
    (ops : List Authority.Op) (w : World)
    (hopens : Opens (Authority.final (Authority.new session policy) ops) w)
    (hconfirm : ∀ turn ∈ w.schedule, ∀ i ∈ turn, i.confirms = false) (calls : List SessionCall)
    (before after : List Occurrence) (held : ℕ) (e : Authority.Event) (x : Authority.Suspension)
    (now : HostInstant) (htrail : (final w calls).trail = before ++ .authority held e :: after)
    (hrevives : Authority.Revives x now e) : held = 0 ∧ now < x.since+Authority.maxViewSuspension ∧
    ∃ earlier lapse since, policyEvents before = earlier ++ lapse :: since ∧
    Authority.Suspends x.since lapse ∧
      (∀ e ∈ since, ∃ y, e.before.suspension = some y ∧ y.since = x.since) ∧
      ∀ between sub rest l t at_, since ++ e :: policyEvents after = between ++ sub :: rest →
        sub.input.submits = some (l,t,at_) → sub.reply.isOk = true →
        ∃ issue ∈ between, ∃ expiry, Authority.Issues l t expiry issue := by
  have hsus : (Authority.final (Authority.new session policy) ops).Suspendable :=
    final_invariant Authority.step
      (fun _ _ h => Authority.effect_suspendable (Authority.step_effect _ _) h) ops
      (Authority.suspendable_of_none rfl)
  obtain ⟨hst,hn,hc⟩ := hopens.guarded hsus hconfirm
  have hfin : Guarded w.authority (final w calls) :=
    final_invariant step (fun _ call h => h.call call) calls hst
  have hm : .authority held e ∈ (final w calls).trail := by
    rw [htrail]
    simp
  obtain ⟨ops',he,-⟩ := hfin.run
  have hsp : Authority.trace w.authority ops' = policyEvents before ++ e :: policyEvents after := by
    rw [← he,htrail,policyEvents_append]
    rfl
  have hs : w.authority.clockFaulted = true → w.authority.lease = none := fun h => by
    rw [hc] at h
    cases h
  exact ⟨hfin.revivals held e x now hm hrevives,Authority.revival_run hs hn hsp hrevives⟩

/-- A session that is suspended, confirms its release and is revived. -/
def revived : World :=
  sampleWorld ([[.authority .markViewStale]] ++ List.replicate 6 [] ++
    [[.authority (.markViewReadyUntil 600 6)]]) []

/-- The policy before the revival at time 6. -/
def revivedFrom : Occurrence → Option Authority.SessionAuthority
  | .authority 0 ⟨a,.markViewReadyUntil 600 6,.done (.ok ())⟩ => some a
  | _ => none

theorem revived_trail : ∃ before a after, (final revived [.maintain 5,.maintain 6]).trail =
    before ++ .authority 0 ⟨a,.markViewReadyUntil 600 6,.done (.ok ())⟩ :: after ∧
    a.suspension = some ⟨4,true⟩ := by
  have hs : ((final revived [.maintain 5,.maintain 6]).trail.any fun o =>
      (revivedFrom o).any (·.suspension = some ⟨4,true⟩)) = true := by decide +kernel
  obtain ⟨o,hm,ho⟩ := any_eq_true.mp hs
  obtain ⟨before,after,ht⟩ := append_of_mem hm
  unfold revivedFrom at ho
  split at ho
  · exact ⟨before,_,after,ht,of_decide_eq_true ho⟩
  · cases ho

theorem suspension_handshake_revived : 6 < 4+Authority.maxViewSuspension ∧
      ∃ before e after, (final revived [.maintain 5,.maintain 6]).trail = before ++
        .authority 0 e :: after ∧ Authority.Revives ⟨4,true⟩ 6 e := by
  obtain ⟨before,a,after,ht,hs⟩ := revived_trail
  have hr : Authority.Revives ⟨4,true⟩ 6 ⟨a,.markViewReadyUntil 600 6,.done (.ok ())⟩ :=
    ⟨rfl,rfl,hs⟩
  have hh := suspension_handshake ⟨1⟩ ⟨1000,100⟩ Authority.controlledRun revived
    (sampleWorld_opens _ _) (by decide) [.maintain 5,.maintain 6] before after 0 _ ⟨4,true⟩ 6 ht hr
  exact ⟨hh.2.1,before,_,after,ht,hr⟩

end FrankenRemote.Input
