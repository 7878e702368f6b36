import FrankenRemote.SendRecovery

/-! The deadline of a failed generation, and what becomes of the packets prepared before it
failed. -/
namespace FrankenRemote.Delivery

open Wire Bytes Procedure SlotTable Transition

/-! Failure. -/

structure Healthy (c : SendCache) : Prop where
  intact : c.needsRecovery = false
  first : c.firstFailureDeadline = none
  request : c.recoveryRequest = none

structure Failed (d : ℕ) (c : SendCache) : Prop where
  needs : c.needsRecovery = true
  deadline : c.recoveryDeadline = some d

/-- A cache is closed, healthy or failed with a deadline. -/
def Failing (c : SendCache) : Prop := c.closed = true ∨ Healthy c ∨ ∃ d, Failed d c

/-- The deadline of the failure, were it to happen now. -/
def Due (now d : ℕ) (c : SendCache) : Prop :=
  (Healthy c ∧ now + c.policy.recoveryHorizonMicros = d) ∨ Failed d c

section Failure

variable {c s t u : SendCache} {now d : ℕ} {e : SendEvent}

theorem Healthy.recoveryDeadline_eq (h : Healthy c) : c.recoveryDeadline = none := by
  simp [SendCache.recoveryDeadline,h.first,h.request]

theorem Failing.due (h : Failing c) (now : ℕ) : c.closed = true ∨ ∃ d, Due now d c := by
  rcases h with hc | hh | ⟨d,hf⟩
  · exact .inl hc
  · exact .inr ⟨_,.inl ⟨hh,rfl⟩⟩
  · exact .inr ⟨d,.inr hf⟩

/-- A failure now has the deadline that is due, and an earlier one keeps its own. -/
theorem Due.lapses (h : Due now d c) (hl : Lapses now c t) : t.closed = true ∨ Due now d t := by
  refine hl.invariant (I := fun s => s.closed = true ∨ Due now d s) ?_ (.inr h)
  rintro s t hlapse (hc | hs)
  · exact .inl (hlapse.fixed.closed hc)
  cases hlapse with
  | sampled | expired => exact .inr (hs.imp (fun h => ⟨{h.1 with},h.2⟩) fun h => {h with})
  | closed => exact .inl rfl
  | failed ha hd =>
    rcases hs with ⟨_,rfl⟩ | hf
    · refine .inr (.inr ⟨rfl,?_⟩)
      rw [← (deadline_eq_ok hd).1]
      rfl
    · exact absurd (.inr hf.needs) ha

/-- Where a call leaves a cache: closed, in a new generation, or with the same deadline due. -/
inductive Settled (e : SendEvent) (now d : ℕ) (t : SendCache) : Prop
  | closed (hclosed : t.closed = true)
  | renewed (hhealthy : Healthy t) (hnewer : t.epoch.replaces e.before.epoch)
  | due (hdue : Due now d t) (hepoch : t.epoch = e.before.epoch)

theorem Due.effect (h : Due now d e.before) (he : SendEffect e now t) : Settled e now d t := by
  have hr : ∀ s, Lapses now e.before s → Ready now s → Due now d s := by
    intro s hl hs
    exact (h.lapses hl).resolve_left fun hc => hs.alive (.inl hc)
  cases he with
  | lapsed hl _ =>
    rcases h.lapses hl with hc | hdue
    · exact .closed hc
    · exact .due hdue hl.fixed.epoch
  | inserted hl hs _ _ _ _ _ _ ht | original hl hs _ _ _ ht | observation hl hs _ ht
  | repaired hl hs _ _ _ _ ht | queued hl hs _ _ _ _ ht | observed hl hs _ ht =>
    subst ht
    exact .due ((hr _ hl hs).imp (fun h => ⟨{h.1 with},h.2⟩) fun h => {h with}) hl.fixed.epoch
  | @awaited s u d' hl ho hnd hn hf hch _ ht =>
    subst ht
    rcases (h.lapses hl).resolve_left ho with ⟨hh,_⟩ | hfl
    · simp [hh.intact] at hnd
    · have hd : d' = d := by
        have hdl := hfl.deadline
        simpa [SendCache.recoveryDeadline,hf,hn] using hdl
      rw [hch.frame]
      refine .due (.inr ⟨hnd,?_⟩) hl.fixed.epoch
      simp [SendCache.recoveryDeadline,hf,hd]
  | @demanded s u _ _ d' hl ho _ hdl hch _ ht =>
    subst ht
    have hd : d' = d := by
      rcases (h.lapses hl).resolve_left ho with ⟨hh,hd⟩ | hfl
      · rcases hdl with hdl | ⟨_,hdl⟩
        · simp [hh.recoveryDeadline_eq] at hdl
        · exact (deadline_eq_ok hdl).1.symm.trans hd
      · rcases hdl with hdl | ⟨hn,_⟩
        · exact Option.some_inj.mp (hdl.symm.trans hfl.deadline)
        · simp [hfl.deadline] at hn
    rw [hch.frame,hd]
    exact .due (.inr ⟨rfl,rfl⟩) hl.fixed.epoch
  | renewed hl _ hnw _ _ _ _ ht =>
    subst ht
    rw [hl.fixed.epoch] at hnw
    exact .renewed ⟨rfl,rfl,rfl⟩ hnw
  | overran _ _ _ ht =>
    subst ht
    exact .closed rfl

theorem failing_new {o l b ep p} (h : SendCache.new o l b ep p = .ok c) :
    Failing c ∧ c.policy = p := by
  obtain ⟨_,_,h⟩ := bind_eq_ok.mp h
  cases h
  exact ⟨.inr (.inl ⟨rfl,rfl,rfl⟩),rfl⟩

theorem failing_step (h : Failing c) (op : SendOp) : Failing (sendStep c op).2 := by
  rcases h.due (op.time.getD 0) with hc | ⟨d,hd⟩
  · exact .inl (sendStep_closed hc op).1
  · have hd : Due (op.time.getD 0) d (⟨c,op,(sendStep c op).1⟩ : SendEvent).before := hd
    cases hd.effect (sendStep_effect c op) with
    | closed hc => exact .inl hc
    | renewed hh _ => exact .inr (.inl hh)
    | due hd _ =>
      rcases hd with ⟨hh,_⟩ | hf
      · exact .inr (.inl hh)
      · exact .inr (.inr ⟨d,hf⟩)

end Failure

/-! Whole runs. -/

/-- What a run can do to a generation: keep it, where death is final, or replace it. -/
def Succeeds (c s : SendCache) : Prop :=
  Since c.epoch s.epoch ∧ (s.epoch = c.epoch → c.dead → s.dead)

theorem Since.antisymm {g h} (hgh : Since g h) (hhg : Since h g) : g = h := by
  rcases hgh with rfl | hr
  · rfl
  · exact absurd (hhg.replaced hr) (MediaEpoch.replaces_irrefl _)

theorem succeeds_final (c : SendCache) (ops : List SendOp) : Succeeds c (final sendStep c ops) := by
  refine final_invariant sendStep (I := Succeeds c) (fun s op h => ?_) ops ⟨.inl rfl,fun _ => id⟩
  cases (sendStep_effect s op).generation with
  | same he _ hd =>
    refine ⟨?_,fun hs hc => hd (h.2 ?_ hc)⟩
    · rw [he]
      exact h.1
    · rw [← hs,he]
  | next hn _ _ =>
    have hr := h.1.replaced hn
    refine ⟨.inr hr,fun hs => ?_⟩
    rw [hs] at hr
    exact absurd hr (MediaEpoch.replaces_irrefl _)

/-- A failed generation keeps its deadline for as long as it lasts. -/
def DeadlineHeld (g : MediaEpoch) (d : ℕ) (s : SendCache) : Prop :=
  s.closed = true ∨ (Failed d s ∧ s.epoch = g) ∨ s.epoch.replaces g

theorem deadlineHeld_step {g d s} (h : DeadlineHeld g d s) (op : SendOp) :
    DeadlineHeld g d (sendStep s op).2 := by
  rcases h with hc | ⟨hf,hep⟩ | hn
  · exact .inl (sendStep_closed hc op).1
  · have hd : Due (op.time.getD 0) d (⟨s,op,(sendStep s op).1⟩ : SendEvent).before := .inr hf
    have he := sendStep_effect s op
    cases hd.effect he with
    | closed hc => exact .inl hc
    | renewed _ hn =>
      rw [← hep]
      exact .inr (.inr hn)
    | due hd hs =>
      rcases hd with ⟨hh,_⟩ | hf'
      · -- Within a generation a failure is final.
        have hl := (succeeds_final s [op]).2 hs (.inr hf.needs)
        rcases hl with hc | hnd
        · exact .inl hc
        · have hi : (sendStep s op).2.needsRecovery = false := hh.intact
          change (sendStep s op).2.needsRecovery = true at hnd
          simp [hi] at hnd
      · exact .inr (.inl ⟨hf',hs.trans hep⟩)
  · cases (sendStep_effect s op).generation with
    | same hs _ _ =>
      rw [← hs] at hn
      exact .inr (.inr hn)
    | next hnx _ _ => exact .inr (.inr (Since.replaced (.inr hn) hnx))

/-- An offer belongs to the cache and the generation that prepared it. -/
theorem SendEffect.offered_epoch {e now t o} (h : SendEffect e now t) (ha : e.act = .offer o) :
    o.owner = e.before.owner ∧ o.epoch = e.before.epoch ∧ t.epoch = e.before.epoch := by
  cases h with
  | original hl _ _ _ ho ht | observation hl _ ho ht | repaired hl _ _ _ _ ho ht =>
    subst ht
    rw [ho] at ha
    cases ha
    exact ⟨hl.fixed.owner,hl.fixed.epoch,hl.fixed.epoch⟩
  | _ => simp_all

/-- A demand names its cache, its generation and the deadline of the failure. -/
theorem SendEffect.demanded_deadline {e now t de} (h : SendEffect e now t)
    (ha : e.act = .demand de) :
    de.owner = e.before.owner ∧ de.epoch = e.before.epoch ∧ Failed de.deadline t := by
  cases h with
  | demanded hl _ _ _ hc hd ht =>
    subst ht
    rw [hd] at ha
    cases ha
    rw [hc.frame]
    exact ⟨hl.fixed.owner,hl.fixed.epoch,rfl,rfl⟩
  | _ => simp_all

/-- In every run a failure sets the deadline of its generation to the recovery horizon from
then, and until the generation is replaced or the cache is closed no call moves it; a demand
carries that deadline. A write is authorized only if the cache has stayed in the offer's
generation, without a failure, ever since it prepared the offer. -/
theorem recovery_deadline_fixed {owner : ℕ} {limits : MediaLimits} {bindings : MediaBindings}
    {epoch : MediaEpoch} {policy : SendPolicy} {c s : SendCache} {ops : List SendOp}
    (hnew : SendCache.new owner limits bindings epoch policy = .ok c)
    (hs : final sendStep c ops = s) :
    (∀ op, s.needsRecovery = false → (sendStep s op).2.needsRecovery = true →
      (sendStep s op).2.closed = false →
      (sendStep s op).2.recoveryDeadline = some (op.time.getD 0 + policy.recoveryHorizonMicros)) ∧
    (s.needsRecovery = true → s.closed = false → ∃ d, s.recoveryDeadline = some d ∧
      ∀ more, (final sendStep s more).epoch = s.epoch → (final sendStep s more).closed = true ∨
          ((final sendStep s more).needsRecovery = true ∧
            (final sendStep s more).recoveryDeadline = some d)) ∧
    (∀ op demand, SendEvent.act ⟨s,op,(sendStep s op).1⟩ = .demand demand →
      demand.owner = s.owner ∧ demand.epoch = s.epoch ∧ (sendStep s op).2.needsRecovery = true ∧
        (sendStep s op).2.recoveryDeadline = some demand.deadline) ∧
    ∀ op offer, SendEvent.act ⟨s,op,(sendStep s op).1⟩ = .offer offer →
      ∀ before after now, (exec (SendCache.authorizeWrite offer now)
        (final sendStep (sendStep s op).2 (before ++ after))).1 = .ok () →
        (final sendStep (sendStep s op).2 before).epoch = s.epoch ∧
          ¬(final sendStep (sendStep s op).2 before).dead := by
  have hrun : Failing s ∧ s.policy = policy := by
    rw [← hs]
    refine final_invariant sendStep (I := fun s => Failing s ∧ s.policy = policy) ?_ ops
      (failing_new hnew)
    exact fun s op h => ⟨failing_step h.1 op,(sendStep_effect s op).steady.policy.trans h.2⟩
  obtain ⟨hf,hp⟩ := hrun
  refine ⟨fun op hi hn hon => ?_,fun hn hon => ?_,fun op demand hact => ?_,?_⟩
  · have hhy : Healthy s := by
      rcases hf with hc | hhy | ⟨_,hfl⟩
      · have hl := (sendStep_closed hc op).1
        simp [hon] at hl
      · exact hhy
      · simp [hfl.needs] at hi
    have hd : Due (op.time.getD 0) (op.time.getD 0 + policy.recoveryHorizonMicros)
        (⟨s,op,(sendStep s op).1⟩ : SendEvent).before := .inl ⟨hhy,by rw [← hp]⟩
    cases hd.effect (sendStep_effect s op) with
    | closed hc => simp [hon] at hc
    | renewed hr _ => simp [hr.intact] at hn
    | due hd _ =>
      rcases hd with ⟨hstill,_⟩ | hfl
      · simp [hstill.intact] at hn
      · exact hfl.deadline
  · have hfl : ∃ d, Failed d s := by
      rcases hf with hc | hhy | hfl
      · simp [hon] at hc
      · simp [hhy.intact] at hn
      · exact hfl
    obtain ⟨d,hfl⟩ := hfl
    refine ⟨d,hfl.deadline,fun more he => ?_⟩
    have hh := final_invariant sendStep (I := DeadlineHeld s.epoch d)
      (fun _ op h => deadlineHeld_step h op) more
      (.inr (.inl ⟨hfl,rfl⟩))
    rcases hh with hc | ⟨hl,_⟩ | hnw
    · exact .inl hc
    · exact .inr ⟨hl.needs,hl.deadline⟩
    · rw [he] at hnw
      exact absurd hnw (MediaEpoch.replaces_irrefl _)
  · obtain ⟨ho,he,hfl⟩ := (sendStep_effect s op).demanded_deadline hact
    exact ⟨ho,he,hfl.needs,hfl.deadline⟩
  · intro op offer hact before after now hacc
    obtain ⟨_,hof,hsm⟩ := (sendStep_effect s op).offered_epoch hact
    rw [final_append] at hacc
    generalize hmid : final sendStep (sendStep s op).2 before = mid at hacc
    have ha := SendCache.authorizeWrite_ensures offer now (final sendStep mid after)
    obtain ⟨hready,_,he,_⟩ := ha.2 hacc
    have hfx := ha.1.fixed
    have hfirst := succeeds_final (sendStep s op).2 before
    have hsec := succeeds_final mid after
    rw [hmid] at hfirst
    have hl : (final sendStep mid after).epoch = (sendStep s op).2.epoch := by
      rw [← hfx.epoch,he,hof]
      exact hsm.symm
    have hm : mid.epoch = (sendStep s op).2.epoch := by
      have hback := hsec.1
      rw [hl] at hback
      exact hback.antisymm hfirst.1
    refine ⟨hm.trans hsm,fun hde => ?_⟩
    exact hready.alive (hfx.dead (hsec.2 (hl.trans hm.symm) hde))

theorem recovery_deadline_fixed_sampleLoss : ∃ c s,
    SendCache.new 0 sampleConfig.limits sampleConfig.bindings sampleConfig.epoch sampleSendPolicy =
      .ok c ∧ final sendStep c sampleLoss = s ∧ s.needsRecovery = true ∧ s.closed = false ∧
    s.recoveryDeadline = some 4000000 ∧
    ∀ more, (final sendStep s more).epoch = s.epoch → (final sendStep s more).closed = true ∨
        ((final sendStep s more).needsRecovery = true ∧
          (final sendStep s more).recoveryDeadline = some 4000000) := by
  obtain ⟨c,hc⟩ := exists_sampleCache
  have hfa : (final sendStep c sampleLoss).needsRecovery = true ∧
    (final sendStep c sampleLoss).closed = false ∧
      (final sendStep c sampleLoss).recoveryDeadline = some 4000000 := by
    cases hc
    exact ⟨rfl,rfl,rfl⟩
  obtain ⟨hn,ho,hdl⟩ := hfa
  obtain ⟨_,hf,_⟩ := recovery_deadline_fixed hc rfl
  obtain ⟨d,hd,hl⟩ := hf hn ho
  obtain rfl : 4000000 = d := Option.some_inj.mp (hdl.symm.trans hd)
  exact ⟨c,_,hc,rfl,hn,ho,hdl,hl⟩

end FrankenRemote.Delivery
