import FrankenRemote.AuthorityDeadlines

/-! Closing, refusing and a clock regression are terminal: nothing that carries
authority is ever stored again and no call answers as if it were. -/
namespace FrankenRemote.Authority

open Procedure SlotTable SessionAuthority

/-- Nothing that carries authority is stored. -/
structure SessionAuthority.Fenced (s : SessionAuthority) : Prop where
  terminal : s.phase = .refused ∨ s.phase = .closed
  observation : s.observationUntil = none
  lease : s.lease = none
  observationChallenge : s.observationChallenge = none
  controlChallenge : s.controlChallenge = none
  suspension : s.suspension = none
  nativeOwner : s.nativeOwner = none
  view : s.viewUntil = none
  readiness : s.readiness = .unready

/-- Calls that return nothing to their caller, and the recovery bookkeeping: they
may succeed on a fenced session because they grant nothing. -/
def Op.inert : Op → Bool
  | .markViewStale | .advanceRecovery _ | .revokeLease | .invalidateForSuspend | .close
  | .refuse => true
  | _ => false

theorem close_fenced (s : SessionAuthority) : s.close.Fenced :=
  ⟨.inr rfl,rfl,rfl,rfl,rfl,rfl,rfl,rfl,rfl⟩

theorem refuse_fenced (s : SessionAuthority) : s.refuse.Fenced :=
  ⟨.inl rfl,rfl,rfl,rfl,rfl,rfl,rfl,rfl,rfl⟩

theorem fault_fenced (s : SessionAuthority) : s.fault.Fenced := close_fenced _

namespace SessionAuthority.Fenced

variable {s : SessionAuthority} (h : s.Fenced)
include h

theorem not_observationLive (now : HostInstant) : ¬s.ObservationLive now := by
  rintro ⟨-,ho⟩
  simp [h.observation] at ho

theorem lapseView (at_ : HostInstant) : (s.lapseView at_).Fenced := by
  rw [lapseView_eq]
  exact {h with
    lease := by simp [h.lease]
    suspension := by simp [h.lease,h.suspension]
    view := rfl
    readiness := by simp [h.readiness]}

theorem lapseIfDue (now : HostInstant) : s.lapseIfDue now = s := by
  rw [SessionAuthority.lapseIfDue,h.view]

theorem advance_eq (now : HostInstant) : s.advance now = {s with lastChecked := some now} := by
  rw [SessionAuthority.advance,SessionAuthority.lapseIfDue,h.view]

theorem advance (now : HostInstant) : (s.advance now).Fenced := by
  rw [h.advance_eq]
  exact ⟨h.1,h.2,h.3,h.4,h.5,h.6,h.7,h.8,h.9⟩

theorem dropObservation : s.dropObservation.Fenced := by
  unfold SessionAuthority.dropObservation
  rw [if_neg (by rcases h.terminal with hp|hp <;> simp [hp])]
  exact ⟨h.terminal,rfl,rfl,rfl,rfl,rfl,rfl,rfl,rfl⟩

theorem dropElapsed (now : HostInstant) : (dropElapsed now s).Fenced := by
  have ho : expireObservation now s = s := by
    rw [expireObservation,h.observation]
    rfl
  have hl : expireLease now (expireChallenges now s) = expireChallenges now s := by
    rw [expireLease,expireChallenges,h.lease]
    rfl
  rw [Authority.dropElapsed,ho,hl]
  exact {h with
    lease := by simp [expireTickets,expireChallenges,h.lease]
    observationChallenge := by simp [expireTickets,expireChallenges,h.observationChallenge]
    controlChallenge := by simp [expireTickets,expireChallenges,h.controlChallenge]}

end SessionAuthority.Fenced

variable {op : Op}

/-- A fenced session stays fenced, and only inert calls and reads get past their guards. -/
theorem effect_fenced {s s' : SessionAuthority} {r} (h : s.Fenced)
    (he : Effect s op r s') : s'.Fenced ∧ (r.isOk = true → op.inert = true ∨ op.reads = true ∨
      (∃ now, op = .controlStatus now) ∨ ∃ now, op = .applyResumeBoundary now) := by
  have past (now : HostInstant) := h.advance now
  cases he with
  | kept _ hr => exact ⟨h,fun hok => .inr (.inl (hr hok))⟩
  | deaf => exact ⟨h,fun hok => by cases hok⟩
  | faulted _ _ hr => exact ⟨fault_fenced s,fun hok => by cases hr.symm.trans hok⟩
  | gated _ _ hr => exact ⟨past _,fun hok => .inr (.inl (hr hok))⟩
  | unpresented _ _ hr =>
    obtain ⟨h1,h2,h3,h4,h5,h6,h7,h8,h9⟩ := past _
    exact ⟨⟨h1,h2,h3,h4,h5,h6,h7,h8,h9⟩,fun hok => by cases hr.symm.trans hok⟩
  | capabilities hp | approval hp => rcases h.terminal with ht|ht <;> cases hp.symm.trans ht
  | observed _ hp =>
    rcases (past _).terminal with ht|ht <;> rcases hp with hp|hp <;> cases hp.symm.trans ht
  | ready _ hl | evidence _ hl | revived _ _ hl | observationChallenged _ hl
  | observationRenewed _ hl | granted _ hl | controlChallenged _ hl | controlRenewed _ hl
  | issued _ _ hl => exact absurd hl ((past _).not_observationLive _)
  | stale => exact ⟨h.lapseView _,fun _ => .inl rfl⟩
  | recovered =>
    exact ⟨{h with lease := by simp [dropTickets,h.lease]},fun _ => .inl rfl⟩
  | confirmed hl | claimed hl => simp [leaseId,h.lease] at hl
  | monitored =>
    rw [h.lapseIfDue]
    exact ⟨h,fun _ => .inr (.inr (.inl ⟨_,rfl⟩))⟩
  | observationLate =>
    exact ⟨{past _ with observationChallenge := rfl},
      fun hok => by cases hok⟩
  | controlLate =>
    exact ⟨{past _ with controlChallenge := rfl},
      fun hok => by cases hok⟩
  | invalidated hl => cases hl.symm.trans h.lease
  | revoked =>
    exact ⟨⟨h.terminal,h.observation,rfl,h.observationChallenge,rfl,rfl,rfl,h.view,h.readiness⟩,
      fun _ => .inl rfl⟩
  | resumed => exact ⟨(past _).dropElapsed _,fun _ => .inr (.inr (.inr ⟨_,rfl⟩))⟩
  | suspended => exact ⟨h.dropObservation,fun _ => .inl rfl⟩
  | closed => exact ⟨close_fenced s,fun _ => .inl rfl⟩
  | refused => exact ⟨refuse_fenced s,fun _ => .inl rfl⟩

namespace SessionAuthority.Fenced

variable {s : SessionAuthority} (h : s.Fenced)
include h

theorem delivery_refused (now : HostInstant) :
    ∃ e t, exec (Authority.authorizeObservationDelivery now) s = (.error e,t) := by
  rw [exec_authorizeObservationDelivery]
  by_cases hr : s.Regresses now
  · exact ⟨_,_,if_pos hr⟩
  · rw [if_neg hr,if_neg ((h.advance now).not_observationLive now)]
    exact ⟨_,_,rfl⟩

theorem hasLiveControl_false (now : HostInstant) : (Authority.hasLiveControl now s).1 = false := by
  obtain ⟨e,t,he⟩ := h.delivery_refused now
  rw [Authority.hasLiveControl,he]

theorem applyResumeBoundary_false (now : HostInstant) :
    (Authority.applyResumeBoundary now s).1 = false := by
  rw [Authority.applyResumeBoundary,exec_checkTime]
  by_cases hr : s.Regresses now
  · rw [if_pos hr]
  · rw [if_neg hr]
    exact ((h.advance now).dropElapsed now).hasLiveControl_false now

theorem statusAt_refused (now : HostInstant) :
    exec (statusAt now) s = (.error s.observationRefusal,s) := by
  rw [statusAt,exec_checkObservationLive_bind,if_neg (h.not_observationLive now)]

theorem controlStatus_refused (now : HostInstant) :
    ∃ e, (exec (Authority.controlStatus now) s).1 = .error e := by
  rw [exec_controlStatus]
  split
  · exact ⟨_,rfl⟩
  · rw [h.lapseIfDue,h.statusAt_refused]
    exact ⟨_,rfl⟩

theorem leaseDeadline_refused : Authority.leaseDeadline s = .error .viewUnready := by
  simp only [Authority.leaseDeadline]
  rw [if_pos (.inr (by rw [h.readiness]; decide))]
  rfl

theorem reply (hok : (step s op).1.isOk = true) : op.inert = true := by
  rcases (effect_fenced h (step_effect s op)).2 hok with hi|hr|⟨now,rfl⟩|⟨now,rfl⟩
  · exact hi
  · exfalso
    cases op with
    | authorizeObservationDelivery now =>
      obtain ⟨e,t,he⟩ := h.delivery_refused now
      simp [step,answer,he,Reply.isOk,Except.isOk,Except.toBool] at hok
    | observationDeadline now =>
      obtain ⟨e,t,he⟩ := h.delivery_refused now
      simp [step,answer,Authority.observationDeadline,exec_bind_error he,Reply.isOk,Except.isOk,
        Except.toBool] at hok
    | authorizeSubmission l t now | submissionDeadline l t now =>
      obtain ⟨-,-,_,_,hs⟩ := submits_ok rfl hok
      exact (h.advance now).not_observationLive now hs.observed
    | hasLiveControl now =>
      simp [step,h.hasLiveControl_false now,Reply.isOk] at hok
    | controlDeadline =>
      simp [step,Authority.controlDeadline,h.leaseDeadline_refused,Reply.isOk,Except.isOk,
        Except.toBool,bind,Except.bind] at hok
    | leaseDeadline =>
      simp [step,h.leaseDeadline_refused,Reply.isOk,Except.isOk,Except.toBool] at hok
    | _ => cases hr
  · obtain ⟨e,he⟩ := h.controlStatus_refused now
    simp [step,answer,he,Reply.isOk,Except.isOk,Except.toBool] at hok
  · simp [step,h.applyResumeBoundary_false now,Reply.isOk] at hok

end SessionAuthority.Fenced

/-! Whole runs. -/

/-- Some step carried a sample below one that an earlier step had checked. -/
def Regressed (sample : Op → Option HostInstant) (past : List Event) : Prop :=
  ∃ e e' x now, List.Sublist [e,e'] past ∧ e.input.gate = some x ∧
    sample e'.input = some now ∧ now < x

def Ended (sample : Op → Option HostInstant) (past : List Event) : Prop :=
  (∃ e ∈ past, e.input = .close ∨ e.input = .refuse) ∨ Regressed sample past

theorem pair_sublist_snoc {α : Type} {a b z : α} {l : List α} (h : List.Sublist [a,b] (l++[z])) :
    List.Sublist [a,b] l ∨ (a ∈ l ∧ b = z) := by
  obtain ⟨l₁,_,heq,h₁,h₂⟩ := List.sublist_append_iff.mp h
  rcases List.sublist_singleton.mp h₂ with rfl|rfl
  · left
    simpa [heq] using h₁
  · right
    change [a]++[b] = l₁++[z] at heq
    obtain ⟨rfl,hb⟩ := List.append_inj' heq rfl
    exact ⟨by simpa using h₁,by simpa using hb⟩

structure FenceHistory (past : List Event) (s : SessionAuthority) : Prop where
  fenced : Ended Op.gate past → s.Fenced
  checked : ∀ e ∈ past, ∀ x, e.input.gate = some x → s.Fenced ∨ ∃ y, s.lastChecked = some y ∧ x ≤ y

theorem step_lower_sample {s : SessionAuthority} {now y}
    (hg : op.gate = some now) (hy : s.lastChecked = some y) (hlt : now < y) :
    (step s op).2 = s.fault := by
  rcases effect_gate (step_effect s op) hg with ⟨-,h⟩|⟨-,hle⟩
  · exact h
  · exact absurd (hle y hy) (not_le.mpr hlt)

theorem FenceHistory.step {past : List Event} {s : SessionAuthority} (h : FenceHistory past s)
    (op : Op) : FenceHistory (past ++ [⟨s,op,(step s op).1⟩]) (step s op).2 := by
  have keep (hs : s.Fenced) := (effect_fenced hs (step_effect s op)).1
  constructor
  · rintro (⟨e,he,hi⟩|⟨e,e',x,now,hsub,hx,hn,hlt⟩)
    · rcases List.mem_append.mp he with he|he
      · exact keep (h.fenced (.inl ⟨e,he,hi⟩))
      · rw [List.mem_singleton.mp he] at hi
        rcases hi with rfl|rfl
        · exact close_fenced s
        · exact refuse_fenced s
    · rcases pair_sublist_snoc hsub with hsub|⟨hm,rfl⟩
      · exact keep (h.fenced (.inr ⟨e,e',x,now,hsub,hx,hn,hlt⟩))
      · rcases h.checked e hm x hx with hs|⟨y,hy,hle⟩
        · exact keep hs
        · rw [step_lower_sample hn hy (hlt.trans_le hle)]
          exact fault_fenced s
  · refine forall_mem_snoc.mpr ⟨fun e he x hx => ?_,fun x hx => ?_⟩
    · rcases h.checked e he x hx with hs|⟨y,hy,hle⟩
      · exact .inl (keep hs)
      · obtain ⟨z,hz,hyz⟩ := effect_lastChecked_mono (step_effect s op) hy
        exact .inr ⟨z,hz,hle.trans hyz⟩
    · rcases effect_gate (step_effect s op) hx with ⟨-,hf⟩|⟨hc,-⟩
      · rw [hf]
        exact .inl (fault_fenced s)
      · exact .inr ⟨x,hc,le_rfl⟩

theorem fenceHistory_run (se : RemoteSessionId) (p : AuthorityPolicy) (ops : List Op) :
    FenceHistory (trace (new se p) ops) (final (new se p) ops) := by
  apply Transition.history_invariant step (I := FenceHistory)
  · constructor
    · rintro (⟨e,he,-⟩|⟨e,_,x,_,hs,-⟩)
      · cases he
      · cases hs
    · intro e he
      cases he
  · exact fun _ _ op h => h.step op

/-- Once a run contains a close, a refusal or a gated sample below an earlier checked
one, its session is fenced, has no live control, and every call that could grant,
renew, authorize or report a deadline refuses, whatever its clock sample. -/
theorem ended_session_fenced (session : RemoteSessionId) (policy : AuthorityPolicy)
    (ops : List Op) (h : Ended Op.gate (trace (new session policy) ops)) :
    (final (new session policy) ops).Fenced ∧
    (∀ now, (hasLiveControl now (final (new session policy) ops)).1 = false) ∧
    ∀ op, op.inert = false → (step (final (new session policy) ops) op).1.isOk = false := by
  have hf := (fenceHistory_run session policy ops).fenced h
  refine ⟨hf,hf.hasLiveControl_false,fun op hi => ?_⟩
  by_contra hok
  rw [hf.reply (Bool.eq_true_of_not_eq_false hok)] at hi
  cases hi

def regressedRun : List Op := controlledRun ++ [.hasLiveControl 2]

theorem ended_session_fenced_regressedRun : (final (new ⟨1⟩ ⟨1000,100⟩) regressedRun).Fenced ∧
    (∀ now, (hasLiveControl now (final (new ⟨1⟩ ⟨1000,100⟩) regressedRun)).1 = false) ∧
    ∀ op, op.inert = false → (step (final (new ⟨1⟩ ⟨1000,100⟩) regressedRun) op).1.isOk = false :=
  ended_session_fenced ⟨1⟩ ⟨1000,100⟩ regressedRun (.inr ⟨_,_,3,2,
    .cons _ (.cons _ (.cons _ (.cons _ (.cons_cons _ (.cons_cons _ .slnil))))),rfl,rfl,by decide⟩)

/-- The monitor read serializes an overtaken sample instead of ending the session. -/
theorem controlStatus_serializes_lower_sample :
    Regressed Op.sample (trace (new ⟨1⟩ ⟨1000,100⟩) (controlledRun ++ [.controlStatus 2])) ∧
    (final (new ⟨1⟩ ⟨1000,100⟩) (controlledRun ++ [.controlStatus 2])).phase = .viewing ∧
    (final (new ⟨1⟩ ⟨1000,100⟩) (controlledRun ++ [.controlStatus 2])).leaseId = some ⟨7⟩ := by
  exact ⟨⟨_,_,3,2,.cons _ (.cons _ (.cons _ (.cons _ (.cons_cons _ (.cons_cons _ .slnil))))),
    rfl,rfl,by decide⟩,rfl,rfl⟩

end FrankenRemote.Authority
