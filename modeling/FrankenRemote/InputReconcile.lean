import FrankenRemote.InputHeld

/-! Snapshots of what the controller holds. An applied one leaves nothing tracked that it does not
show, by the releases that this takes. One from before an executed press is ignored. -/
namespace FrankenRemote.Input

open Procedure Relation List

section Apply

variable {op : Operation}

/-- Only what was tracked and not released is tracked. -/
theorem tracked_foldl {ops : List Operation} (ho : ∀ op ∈ ops, op ∈ releases) (h : SyntheticHeld)
    (hop : op ∈ releases) : (ops.foldl (·.track · false) h).tracked op = true →
      h.tracked op = true ∧ op ∉ ops := by
  induction ops generalizing h with
  | nil => simp
  | cons first ops ih =>
    intro ht
    have hf := ho first mem_cons_self
    obtain ⟨hleft,hnot⟩ := ih (fun op hop => ho op (mem_cons_of_mem _ hop)) (h.track first false) ht
    by_cases heq : op = first
    · subst heq
      exfalso
      simp only [releases,mem_append,mem_map] at hop
      rcases hop with ⟨k,_,rfl⟩ | ⟨b,_,rfl⟩ <;> simp [SyntheticHeld.track,
        SyntheticHeld.tracked] at hleft
    · rw [tracked_track_of_ne hf hop heq] at hleft
      exact ⟨hleft,by simp [heq,hnot]⟩

end Apply

/-- The answer to a snapshot that is not for now. -/
def ignoredSnapshot (request : HeldStateRequest) : Reconciliation :=
  ⟨request.sequence,.ignored,0,0,none⟩

/-- A snapshot of another session or lease, an old one, or one behind the next action. -/
def Outdated (w : World) (request : HeldStateRequest) : Prop :=
  request.session ≠ w.session ∨ request.lease ≠ w.lease ∨
    w.reconciliationFloor.any (request.sequence ≤ ·) = true ∨
    ∀ expected, w.ledger.nextSequence = some expected → request.nextAction < expected

section Snapshot

variable {w : World} {q : HeldStateRequest}

theorem step_reconcileHeld {r t} (h : Ensures (reconcileHeld q) w fun r' t' => r' = r ∧ t' = t) :
    step w (.reconcileHeld q) = (.reconciled r,t) := by
  have hx : exec (reconcileHeld q) w = (r,t) := Prod.ext h.1 h.2
  simp only [step,call,hx]

theorem step_ignored (h : Outdated w q ∨ w.interleave.isActive = false) :
    step w (.reconcileHeld q) = (.reconciled (.ok (ignoredSnapshot q)),w.interleave) := by
  refine step_reconcileHeld (others_bind (.get_bind (.ite (fun _ => .pure ⟨rfl,rfl⟩) fun hc => ?_)))
  simp only [interleave_session,not_or,not_not] at hc ⊢
  obtain ⟨hs,hls,ha,hf⟩ := hc
  simp only [Outdated,hs,hls,ha,hf,ne_eq,not_true_eq_false,Bool.false_eq_true,
    Bool.true_eq_false,false_or,or_false] at h
  cases hn : w.ledger.nextSequence with
  | none => exact .pure ⟨rfl,rfl⟩
  | some e => exact .ite (fun _ => .pure ⟨rfl,rfl⟩) fun hl => absurd (h e hn) hl

theorem step_gap {e} (hc : ¬Outdated w q) (ha : w.interleave.isActive = true)
    (hn : w.ledger.nextSequence = some e) (hl : e < q.nextAction) : step w (.reconcileHeld q) =
      (.reconciled (.error (.refused (.sequence (.sequenceGap e q.nextAction)))),
        w.interleave.revoke) := by
  obtain ⟨hs,hls,hf,-⟩ : _ ∧ _ ∧ _ ∧ _ := by simpa only [Outdated,not_or] using hc
  refine step_reconcileHeld (others_bind (.get_bind (.ite (fun h => ?_) fun _ => ?_)))
  · simp only [interleave_session,ha,Bool.true_eq_false,false_or] at h
    rcases h with h | h | h
    · exact absurd h hs
    · exact absurd h hls
    · exact absurd h hf
  · simp only [interleave_session,hn]
    refine .ite (fun hb => absurd hb (by omega)) fun _ => .ite (fun _ => ?_) fun h => ?_
    · exact .modify_bind (.throw ⟨rfl,rfl⟩)
    · exact absurd (.inl hl) h

theorem reconcileHeld_released : Ensures (reconcileHeld q) w fun r t => ∀ report, r = .ok report →
    report.outcome = .applied → Released (w.missingReleases q.held) w t :=
  reconcileHeld_ensures q (fun report h ha => by cases h; cases ha) (fun _ _ =>
    nofun) fun _ _ _ _ _ h => h

/-- A snapshot shows all that its releases leave. -/
theorem Released.shown {t : World} (h : Released (w.missingReleases q.held) w t) (op : Operation)
    (ho : op ∈ releases) (ht : t.tracked op = true) : q.held.shows op = true := by
  have hm : ∀ op ∈ w.missingReleases q.held, op ∈ releases := fun _ h => (mem_filter.mp h).1
  rw [h.held] at ht
  obtain ⟨hb,hk⟩ := tracked_foldl hm _ ho ht
  by_contra hs
  exact hk (mem_filter.mpr ⟨ho,by simpa [hb] using hs⟩)

end Snapshot

section Runs

variable {w : World} {a : Authority.SessionAuthority}

/-- After an executed action its position is behind. -/
theorem RunBooks.outdated {past} (h : RunBooks past w) {e} (he : e ∈ past) {s}
    (hs : sinkSequence e = some s) {q : HeldStateRequest} (hr : q.nextAction ≤ s) :
    Outdated w q := by
  have hlt := mem_range.mp (h.ordered.subset (mem_filterMap.mpr ⟨e,he,hs⟩))
  refine .inr (.inr (.inr fun expected hexp => ?_))
  have hn := h.books.ledger.next
  rw [hexp,sequenceAfter,length_map] at hn
  split_ifs at hn
  cases hn
  omega

/-- Snapshots, in any state and in runs from the opening of a session. -/
theorem snapshot_reconciles :
    (∀ w q report t, step w (.reconcileHeld q) = (.reconciled (.ok report),t) →
      report.outcome = .applied → (∀ key, t.keys key = true → q.held.key key = true) ∧
      (∀ button, t.buttons button = true → q.held.button button = true) ∧
      nativeHistory t.trail = nativeHistory w.trail ++ (w.missingReleases q.held).map
      (·,.submitted) ∧ (w.missingReleases q.held).Nodup ∧
      ∀ op ∈ w.missingReleases q.held, op.isRelease = true ∧ w.tracked op = true ∧
        q.held.shows op = false) ∧ (∀ w q, Outdated w q ∨ w.interleave.isActive = false →
      step w (.reconcileHeld q) = (.reconciled (.ok (ignoredSnapshot q)),w.interleave) ∧
      w.interleave.toInputSession = w.toInputSession ∧ Silent w w.interleave) ∧
    (∀ w q expected, ¬Outdated w q → w.interleave.isActive = true →
      w.ledger.nextSequence = some expected → expected < q.nextAction → step w (.reconcileHeld q) =
        (.reconciled (.error (.refused (.sequence (.sequenceGap expected q.nextAction)))),
          w.interleave.revoke) ∧
      w.interleave.revoke.isActive = false ∧ Silent w w.interleave.revoke) ∧
    ∀ a w, Opens a w → ∀ calls past e later q, trace w calls = past ++ e :: later →
      e.input = .reconcileHeld q → ∀ press ∈ past, ∀ sequence, sinkSequence press = some sequence →
      q.nextAction ≤ sequence →
      step e.before e.input = (.reconciled (.ok (ignoredSnapshot q)),e.before.interleave) ∧
      Silent e.before e.before.interleave := by
  have hs (w : World) : Silent w w.interleave := .of_frame (.of_quiet (.single (.turn w)))
  refine ⟨fun w q report t hstep ha => ?_,fun w q h => ⟨step_ignored h,by simp,hs w⟩,
    fun w q expected hc hact hn hl => ⟨step_gap hc hact hn hl,
      by simp [World.isActive,World.revoke,World.flag,World.note],(hs w).trans (.revoke _)⟩,?_⟩
  · have hr := @reconcileHeld_released w q
    simp only [step,call] at hstep
    injection hstep with hrp hfin
    injection hrp with hrp
    rw [Ensures,hrp,hfin] at hr
    have h := hr report rfl ha
    refine ⟨fun key hk => ?_,fun button hb => ?_,h.history,nodup_releases.filter _,fun op hop => ?_⟩
    · exact h.shown (.key key .release) (by simp [releases,SyntheticHeld.mem_keys]) hk
    · exact h.shown (.button button false) (by simp [releases,SyntheticHeld.mem_buttons]) hb
    · obtain ⟨hrelease,hm⟩ := mem_filter.mp hop
      simp only [Bool.and_eq_true,Bool.not_eq_true'] at hm
      exact ⟨isRelease_of_mem_releases hrelease,hm⟩
  · intro a w ho calls past e later q ht hi press hp sequence hsq hbehind
    obtain ⟨is₁,call,_,-,rfl,rfl,-⟩ := Transition.trace_split step ht
    cases hi
    exact ⟨step_ignored (.inl ((runBooks ho is₁).outdated hp hsq hbehind)),hs _⟩

/-- A snapshot from before a press that was executed. -/
def sampleSnapshot : HeldStateRequest :=
  ⟨sampleCredentials.session,sampleCredentials.lease,1,0,List.replicate keyBitmapBytes 0,0,
    rfl,by decide +kernel⟩

theorem snapshot_reconciles_sample :
    (step (final (sampleWorld [] (List.replicate 8 (sampleAnswer 5))) [.dispatch (samplePress 0)])
      (.reconcileHeld sampleSnapshot)).1 = .reconciled (.ok ⟨1,.ignored,0,0,none⟩) := by
  have h := snapshot_reconciles.2.2.2 sampleAuthority
    (sampleWorld [] (List.replicate 8 (sampleAnswer 5)))
    (sampleWorld_opens _ _) [.dispatch (samplePress 0),.reconcileHeld sampleSnapshot] [_]
      ⟨_,_,_⟩ [] sampleSnapshot
    rfl rfl ⟨_,_,_⟩ mem_cons_self 0 rfl (Nat.le_refl 0)
  exact congrArg Prod.fst h.1

end Runs
end FrankenRemote.Input
