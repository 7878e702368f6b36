import FrankenRemote.ViewTracker

/-! Evidence over whole runs. It names the latest submitted picture that is on the screen, and
its age is counted from a time that the host gave for exactly this picture. -/
namespace FrankenRemote.Freshness
namespace ViewTracker

open Wire Bytes Delivery Procedure Transition

/-- The event brought a known observation of this picture, and it was accepted. -/
def Observes (e : Event) (d : FrameDescriptor) (time : ℕ) : Prop :=
  ∃ p, Accepted e p ∧ p.descriptor = d ∧ Known p ∧ p.observedMicros = time

def Submits (e : Event) (c : Candidate) : Prop :=
  ∃ f now, e.input = .decoded f true now ∧ e.reply = .done (.ok ()) ∧
    c = ⟨f.descriptor,f.displayUntil⟩

/-- No accepted observation of the picture is older from now on. -/
def Bounded (v : ViewTracker) (d : FrameDescriptor) (time : ℕ) : Prop :=
  time ≤ d.captureMicros ∨ (∃ s, v.knownObservation = some (d,s) ∧ time ≤ s) ∨
    ∃ p, v.progress = some p ∧ d.frame < p.descriptor.frame

/-- After `before` came an observation that is newer than the capture and all earlier ones. -/
def Exceeded (before later : List Event) (d : FrameDescriptor) : Prop :=
  ∃ between x rest time, later = between ++ x :: rest ∧ Observes x d time ∧ d.captureMicros < time ∧
    ∀ y ∈ before ++ between, ∀ t, Observes y d t → t < time

/-- The late picture still waits for such an observation. -/
def Waiting (past : List Event) (v : ViewTracker) (d : FrameDescriptor) : Prop :=
  ∃ late, v.unqualified = some late ∧ d.captureMicros ≤ late.observedAfter ∧
    ((∀ y ∈ past, ∀ t, Observes y d t → t ≤ late.observedAfter) ∨
      ∃ p, v.progress = some p ∧ d.frame < p.descriptor.frame)

/-- How the picture came to the screen: submitted by `dec` and confirmed by `vis`. -/
structure Path (past earlier mid later : List Event) (dec vis : Event) (c : Candidate)
    (shownAt : ℕ) : Prop where
  split : past = earlier ++ dec :: (mid ++ vis :: later)
  submits : Submits dec c
  confirms : vis.input = .visible c.descriptor.frame shownAt
  pending : vis.before.pending = some c
  between : ∀ x ∈ mid, ¬Ends x
  after : ∀ x ∈ later, ¬Ends x

def ShownBy (past : List Event) (v : ViewTracker) (d : FrameDescriptor) : Prop :=
  ∃ earlier mid later dec vis c shownAt, Path past earlier mid later dec vis c shownAt ∧
    c.descriptor = d ∧ (c.displayUntil ≤ shownAt → shownAt+vis.before.maxSourceAge < 2^64 →
      Exceeded (earlier ++ dec :: (mid ++ [vis])) later d ∨ Waiting past v d)

/-- What a tracker keeps of the announcements that it accepted. -/
structure Recorded (past : List Event) (v : ViewTracker) : Prop where
  known : ∀ d s, v.knownObservation = some (d,s) → ∃ p, v.progress = some p ∧
    d.frame ≤ p.descriptor.frame ∧ (d.frame = p.descriptor.frame → d = p.descriptor)
  latest : ∀ p, v.progress = some p → Known p →
    v.knownObservation = some (p.descriptor,p.observedMicros)
  announced : ∀ p, v.progress = some p → ∃ e ∈ past, Accepted e p
  observed : ∀ e ∈ past, ∀ d t, Observes e d t → Bounded v d t

structure Traced (past : List Event) (v : ViewTracker) : Prop extends Recorded past v where
  exclusive : ∀ c, v.pending = some c → v.visible = none
  source : ∀ d t s, v.visible = some d → v.visibleSource = some (t,s) → s ≠ .unknown →
    Bounded v d t ∧ (t = d.captureMicros ∨ ∃ e ∈ past, Observes e d t)
  waiting : ∀ c, v.pending = some c → ∃ earlier dec mid, past = earlier ++ dec :: mid ∧
    Submits dec c ∧ ∀ x ∈ mid, ¬Ends x
  shown : ∀ d, v.visible = some d → ShownBy past v d

variable {past : List Event} {v t : ViewTracker} {p : Progress} {d : FrameDescriptor}
    {time : ℕ} {e : Event}

theorem Bounded.congr (hk : t.knownObservation = v.knownObservation) (hp : t.progress = v.progress)
    (h : Bounded v d time) : Bounded t d time := by
  rw [Bounded,hk,hp]
  exact h

/-- Taking an announcement keeps every bound. -/
theorem Bounded.take (ht : Traced past v) (hf : Fits v p) (h : Bounded v d time) :
    Bounded (v.take p) d time := by
  rcases h with hc | ⟨s,hs,hle⟩ | ⟨q,hq,hlt⟩
  · exact .inl hc
  · by_cases hk : Known p
    · by_cases hsm : p.descriptor = d
      · subst hsm
        exact .inr (.inl ⟨p.observedMicros,by
          simp [ViewTracker.take,hk],hle.trans (hf.newest hk s hs)⟩)
      · obtain ⟨q,hq,hfr,heq⟩ := ht.known d s hs
        have ho := hf.order q hq
        refine .inr (.inr ⟨p,rfl,lt_of_le_of_ne (hfr.trans ho) fun he => hsm ?_⟩)
        have hqd : d = q.descriptor := heq (by omega)
        rw [hqd,hf.same q hq (by omega)]
    · exact .inr (.inl ⟨s,by simp [ViewTracker.take,hk,hs],hle⟩)
  · exact .inr (.inr ⟨p,rfl,hlt.trans_le (hf.order q hq)⟩)

/-- An announcement of the picture that is taken is not older than any bound. -/
theorem Bounded.le_observed (hf : Fits v p) (hk : Known p) (h : Bounded v p.descriptor time) :
    time ≤ p.observedMicros := by
  rcases h with hc | ⟨s,hs,hle⟩ | ⟨q,hq,hlt⟩
  · exact hc.trans (hf.captured hk)
  · exact hle.trans (hf.newest hk s hs)
  · have ho := hf.order q hq
    omega

theorem observes_iff {q} (h : Accepted e q) :
    Observes e d time ↔ q.descriptor = d ∧ Known q ∧ q.observedMicros = time := by
  constructor
  · rintro ⟨p,hp,hf⟩
    rwa [hp.unique h] at hf
  · intro hf
    exact ⟨q,h,hf⟩

theorem Observes.time_eq {q m} (h : Observes e d time)
    (hc : carried e.before e.input = some (q,m)) : time = q.observedMicros := by
  obtain ⟨p,⟨_,hp,_⟩,_,_,rfl⟩ := h
  rw [hc] at hp
  cases hp
  rfl

theorem not_observes (h : ∀ p, ¬Accepted e p) : ¬Observes e d time := fun ⟨p,hp,_⟩ => h p hp

/-! One more event. -/

variable {s : ℕ}

theorem Path.snoc {earlier mid later dec vis c} (h : Path past earlier mid later dec vis c s)
    (he : ¬Ends e) : Path (past++[e]) earlier mid (later++[e]) dec vis c s := by
  refine {h with split := by simp [h.split],after := ?_}
  simp only [forall_mem_snoc]
  exact ⟨h.after,he⟩

theorem Exceeded.snoc {before later} (h : Exceeded before later d) :
    Exceeded before (later++[e]) d := by
  obtain ⟨between,x,rest,time,rfl,hx⟩ := h
  exact ⟨between,x,rest++[e],time,by simp,hx⟩

theorem ShownBy.snoc (h : ShownBy past v d) (he : ¬Ends e)
    (hw : ∀ before later, past = before ++ later → Waiting past v d →
      Exceeded before (later++[e]) d ∨ Waiting (past++[e]) t d) : ShownBy (past++[e]) t d := by
  obtain ⟨earlier,mid,later,dec,vis,c,shownAt,hpath,hd,hl⟩ := h
  refine ⟨earlier,mid,later++[e],dec,vis,c,shownAt,hpath.snoc he,hd,fun hex hf => ?_⟩
  rcases hl hex hf with hexceeds | hwt
  · exact .inl hexceeds.snoc
  · exact hw _ _ (by simp [hpath.split]) hwt

theorem Waiting.idle (h : Waiting past v d) (hn : ∀ p, ¬Accepted e p) :
    Waiting (past++[e]) v d := by
  obtain ⟨late,hl,hc,hb⟩ := h
  refine ⟨late,hl,hc,hb.imp_left fun hall => ?_⟩
  simp only [forall_mem_snoc]
  exact ⟨hall,fun t ht => absurd ht (not_observes hn)⟩

theorem exists_mem_snoc {P : Event → Prop} (h : ∃ x ∈ past, P x) : ∃ x ∈ past++[e], P x := by
  obtain ⟨x,hx,hP⟩ := h
  exact ⟨x,List.mem_append_left _ hx,hP⟩

theorem origin_snoc (h : time = d.captureMicros ∨ ∃ x ∈ past, Observes x d time) :
    time = d.captureMicros ∨ ∃ x ∈ past++[e], Observes x d time := h.imp_right exists_mem_snoc

theorem Recorded.congr (h : Recorded past v) (hk : t.knownObservation = v.knownObservation)
    (hp : t.progress = v.progress) : Recorded past t := by
  cases t
  subst hk hp
  exact {h with}

theorem Recorded.keep (h : Recorded past v) (hn : ∀ p, ¬Accepted e p) : Recorded (past++[e]) v := by
  refine {h with announced := fun p hp => exists_mem_snoc (h.announced p hp),observed := ?_}
  simp only [forall_mem_snoc]
  exact ⟨h.observed,fun d s hs => absurd hs (not_observes hn)⟩

section Steps

variable (h : Traced past v)

include h

theorem Traced.waiting_snoc (hends : ¬Ends e) (c : Candidate) (hc : v.pending = some c) :
    ∃ earlier dec mid, past++[e] = earlier ++ dec :: mid ∧ Submits dec c ∧ ∀ x ∈ mid, ¬Ends x := by
  obtain ⟨earlier,dec,mid,rfl,hs,hm⟩ := h.waiting c hc
  refine ⟨earlier,dec,mid++[e],by simp,hs,?_⟩
  simp only [forall_mem_snoc]
  exact ⟨hm,hends⟩

theorem Traced.idle (hends : ¬Ends e) (hn : ∀ p, ¬Accepted e p) : Traced (past++[e]) v := by
  refine ⟨h.keep hn,h.exclusive,?_,h.waiting_snoc hends,?_⟩
  · exact fun d s o hd hs ho => (h.source d s o hd hs ho).imp_right origin_snoc
  · exact fun d hd => (h.shown d hd).snoc hends fun _ _ _ hw => .inr (hw.idle hn)

/-- Nothing is pending or visible afterwards, except a picture just submitted. -/
theorem Traced.blank (hn : ∀ p, ¬Accepted e p) (hv : t.visible = none)
    (hp : ∀ c, t.pending = some c → Submits e c) (hk : t.knownObservation = v.knownObservation)
    (hpg : t.progress = v.progress) : Traced (past++[e]) t := by
  refine ⟨(h.keep hn).congr hk hpg,fun _ _ => hv,?_,?_,?_⟩
  · simp [hv]
  · exact fun c hc => ⟨past,e,[],rfl,hp c hc,by simp⟩
  · simp [hv]

end Steps

theorem take_unqualified (hne : v.visible ≠ some p.descriptor ∨ ¬v.Qualifies p) :
    (v.take p).unqualified = v.unqualified := by
  have hnot : ¬(v.visible = some p.descriptor ∧ v.Qualifies p) := by
    rintro ⟨hv,hq⟩
    exact hne.elim (fun h => h hv) fun h => h hq
  simp [take,qualify,hnot]

/-- A late picture is qualified by a strictly newer observation only. -/
theorem Waiting.take (h : Waiting past v d) (hv : v.visible = some d) (hf : Fits v p)
    (ha : Accepted e p) {before later} (hsp : past = before ++ later) :
    Exceeded before (later++[e]) d ∨ Waiting (past++[e]) (v.take p) d := by
  obtain ⟨late,hl,hc,hb⟩ := h
  rcases hb with hall | ⟨q,hq,hlt⟩
  · by_cases hn : p.descriptor = d ∧ Known p ∧ late.observedAfter < p.observedMicros
    · obtain ⟨hd,hk,hlt⟩ := hn
      refine .inl ⟨later,e,[],p.observedMicros,rfl,(observes_iff ha).mpr ⟨hd,hk,rfl⟩,by omega,?_⟩
      rw [← hsp]
      exact fun y hy s hs => (hall y hy s hs).trans_lt hlt
    · have hke : (v.take p).unqualified = v.unqualified := by
        apply take_unqualified
        by_cases hd : p.descriptor = d
        · refine .inr fun hqualified => hn ?_
          obtain ⟨hk,_,hlt⟩ := hqualified late hl
          exact ⟨hd,hk,hlt⟩
        · exact .inl (by simp [hv,Ne.symm hd])
      refine .inr ⟨late,by rw [hke,hl],hc,.inl ?_⟩
      simp only [forall_mem_snoc]
      refine ⟨hall,fun s hs => ?_⟩
      obtain ⟨hd,hk,rfl⟩ := (observes_iff ha).mp hs
      by_contra hlt
      exact hn ⟨hd,hk,by omega⟩
  · have ho := hf.order q hq
    have hne : d ≠ p.descriptor := by
      rintro rfl
      omega
    refine .inr ⟨late,?_,hc,.inr ⟨p,rfl,by omega⟩⟩
    rw [take_unqualified (.inl (by simp [hv,hne])),hl]

/-- The source after an announcement is the one before it or the announced one. -/
theorem take_visibleSource (v : ViewTracker) (p : Progress) :
    (v.take p).visibleSource = v.visibleSource ∨ (v.visible = some p.descriptor ∧
      (v.take p).visibleSource = some (p.observedMicros,p.observation)) := by
  by_cases hq : v.visible = some p.descriptor ∧ v.Qualifies p
  · exact .inr ⟨hq.1,by simp [take,qualify,hq]⟩
  · exact .inl (by simp [take,qualify,hq])

theorem Traced.take (h : Traced past v) (ha : Accepted e p) (hends : ¬Ends e) (hf : Fits v p) :
    Traced (past++[e]) (v.take p) := by
  have hp : (v.take p).pending = v.pending := qualify_pending v p
  have hv : (v.take p).visible = v.visible := qualify_visible v p
  have hnew : Known p → Bounded (v.take p) p.descriptor p.observedMicros :=
    fun hk => .inr (.inl ⟨_,by simp [ViewTracker.take,hk],le_rfl⟩)
  refine ⟨⟨?_,?_,?_,?_⟩,by rw [hp,hv]; exact h.exclusive,?_,?_,?_⟩
  · intro d s hs
    refine ⟨p,rfl,?_⟩
    by_cases hk : Known p
    · simp only [ViewTracker.take,hk,if_true,Option.some.injEq,Prod.mk.injEq] at hs
      rw [hs.1]
      exact ⟨le_rfl,fun _ => rfl⟩
    · simp only [ViewTracker.take,hk,if_false] at hs
      obtain ⟨q,hq,hfr,heq⟩ := h.known d s hs
      have hord := hf.order q hq
      refine ⟨hfr.trans hord,fun he => ?_⟩
      rw [heq (by omega),hf.same q hq (by omega)]
  · rintro q ⟨⟩ hk
    simp [ViewTracker.take,hk]
  · rintro q ⟨⟩
    exact ⟨e,by simp,ha⟩
  · simp only [forall_mem_snoc]
    refine ⟨fun x hx d s hs => (h.observed x hx d s hs).take h hf,fun d s hs => ?_⟩
    obtain ⟨rfl,hk,rfl⟩ := (observes_iff ha).mp hs
    exact hnew hk
  · rw [hv]
    intro d s o hd hs ho
    rcases take_visibleSource v p with hsm | ⟨hsh,hso⟩
    · rw [hsm] at hs
      obtain ⟨hb,horig⟩ := h.source d s o hd hs ho
      exact ⟨hb.take h hf,origin_snoc horig⟩
    · rw [hso] at hs
      cases hs
      rw [hd] at hsh
      cases hsh
      exact ⟨hnew ho,.inr ⟨e,by simp,(observes_iff ha).mpr ⟨rfl,ho,rfl⟩⟩⟩
  · rw [hp]
    exact h.waiting_snoc hends
  · rw [hv]
    exact fun d hd => (h.shown d hd).snoc hends fun _ _ hsp hw => hw.take hd hf ha hsp

/-! The visibility callback. -/

section Callback

variable {c : Candidate} {now : ℕ}

theorem Shown.fields (h : Shown v c now t) : t.pending = none ∧ t.visible = some c.descriptor ∧
    t.knownObservation = v.knownObservation ∧ t.progress = v.progress ∧ t.closed = v.closed := by
  cases h with
  | inTime _ h | late _ _ h | unmarked _ _ h =>
    exact ⟨h.pending,h.visible,h.knownObservation,h.progress,h.closed⟩

theorem Shown.source (h : Shown v c now t) :
    t.visibleSource = none ∨ t.visibleSource = some (v.firstSource c.descriptor) := by
  cases h with
  | inTime _ h => exact .inr h.visibleSource
  | late _ _ h | unmarked _ _ h => exact .inl h.visibleSource

/-- The first source of a picture is its capture or the latest announcement of it. -/
theorem Traced.firstSource (h : Traced past v) {o} (hs : v.firstSource d = (s,o))
    (ho : o ≠ .unknown) : Bounded v d s ∧ (s = d.captureMicros ∨ ∃ x ∈ past, Observes x d s) := by
  unfold ViewTracker.firstSource at hs
  cases hf : v.progress.filter (·.descriptor = d) with
  | none =>
    rw [hf] at hs
    cases hs
    exact ⟨.inl le_rfl,.inl rfl⟩
  | some p =>
    rw [hf] at hs
    cases hs
    obtain ⟨hp,hd⟩ := Option.filter_eq_some_iff.mp hf
    have hd : p.descriptor = d := by simpa using hd
    subst hd
    obtain ⟨x,hx,ha⟩ := h.announced p hp
    exact ⟨.inr (.inl ⟨_,h.latest p hp ho,le_rfl⟩),.inr ⟨x,hx,p,ha,rfl,ho,rfl⟩⟩

theorem capture_le_knownTime (v : ViewTracker) (d : FrameDescriptor) :
    d.captureMicros ≤ v.knownTime d := by
  unfold knownTime
  split
  · exact le_rfl
  · exact le_max_right _ _

theorem le_knownTime (h : v.knownObservation = some (d,s)) : s ≤ v.knownTime d := by
  have hf : v.knownObservation.filter (·.1 = d) = some (d,s) := by simp [h,Option.filter]
  rw [knownTime,hf]
  exact le_max_left _ _

theorem Traced.waiting_late (h : Traced past v) (hnn : ∀ p, ¬Accepted e p) {u}
    (hl : t.unqualified = some ⟨u,v.knownTime d⟩) (hp : t.progress = v.progress) :
    Waiting (past++[e]) t d := by
  refine ⟨_,hl,capture_le_knownTime v d,?_⟩
  rw [hp]
  by_cases hn : ∃ p, v.progress = some p ∧ d.frame < p.descriptor.frame
  · exact .inr hn
  · left
    simp only [forall_mem_snoc]
    refine ⟨fun y hy s hs => ?_,fun s hs => absurd hs (not_observes hnn)⟩
    rcases h.observed y hy d s hs with hc | ⟨known,hk,hle⟩ | hlater
    · exact hc.trans (capture_le_knownTime v d)
    · exact hle.trans (le_knownTime hk)
    · exact absurd hlater hn

theorem Traced.callback (h : Traced past v) (hpd : v.pending = some c) (hsh : Shown v c now t)
    (hb : e.before = v) (hi : e.input = .visible c.descriptor.frame now) :
    Traced (past++[e]) t := by
  have hn : ∀ p, ¬Accepted e p := not_accepted (by rw [hi]; rfl)
  obtain ⟨hgone,hv,hk,hp,_⟩ := hsh.fields
  refine ⟨(h.keep hn).congr hk hp,by simp [hgone],?_,?_,?_⟩
  · rw [hv]
    rintro d s o ⟨⟩ hs ho
    rcases hsh.source with hso | hso
    · simp [hso] at hs
    · rw [hso] at hs
      obtain ⟨hbd,horig⟩ := h.firstSource (Option.some.inj hs) ho
      exact ⟨hbd.congr hk hp,origin_snoc horig⟩
  · simp [hgone]
  · rw [hv]
    rintro d ⟨⟩
    obtain ⟨earlier,dec,mid,rfl,hsub,hm⟩ := h.waiting c hpd
    have hpath : Path (earlier ++ dec :: mid ++ [e]) earlier mid [] dec e c now :=
      ⟨by simp,hsub,hi,by rw [hb,hpd],hm,by simp⟩
    refine ⟨earlier,mid,[],dec,e,c,now,hpath,rfl,fun he hf => .inr ?_⟩
    cases hsh with
    | inTime hl _ => omega
    | late _ until_ hsm => exact h.waiting_late hn hsm.unqualified hp
    | unmarked _ hover _ =>
      rw [hb] at hf
      omega

end Callback

/-! Whole runs. -/

theorem Traced.congr (h : Traced past v) (hs : Same v t) : Traced past t := by
  obtain ⟨hpd,hv,hso,hu,hk,hp,_⟩ := hs
  have hr := h.toRecorded.congr hk hp
  cases t
  subst hpd hv hso hu hk hp
  exact {h with toRecorded := hr}

theorem Traced.step (h : v.closed = false → Traced past v) (i : Input) :
    (ViewTracker.step v i).2.closed = false → Traced (past ++ [event v i])
      (ViewTracker.step v i).2 := by
  have hout := step_outcome v i
  generalize (ViewTracker.step v i).2 = t at hout
  intro hon
  cases hout with
  | closed hcl => simp [hcl] at hon
  | same hid hs =>
    exact ((h (hs.closed ▸ hon)).idle hid.1 hid.2).congr hs
  | taken p ha hends hf hs =>
    exact ((h hf.opened).take ha hends hf).congr hs
  | submitted hin hr hs =>
    refine (h (hs.closed ▸ hon)).blank (not_accepted (by rw [event,hin]; rfl)) hs.visible ?_
      hs.knownObservation hs.progress
    intro c hc
    rw [hs.pending] at hc
    cases hc
    exact ⟨_,_,hin,hr,rfl⟩
  | unsubmitted hid hs =>
    have hi := (h (hs.closed ▸ hon)).idle hid.1 hid.2
    have hd : Traced (past ++ [event v i]) {v with pending := none} :=
      {hi with toRecorded := {hi.toRecorded with},exclusive := by simp,waiting := by simp}
    exact hd.congr hs
  | shown hin ho hp hsh => exact (h ho).callback hp hsh rfl hin
  | hidden hin hs =>
    refine (h (hs.closed ▸ hon)).blank (not_accepted (by rw [event,hin]; rfl)) hs.visible ?_
      hs.knownObservation hs.progress
    simp [hs.pending,hide]

theorem traced_run {r clock age start} (hnew : new r clock age start = .ok v) (inp : List Input)
    (ho : (final step v inp).closed = false) : Traced (trace step v inp) (final step v inp) := by
  have hrun : (final step v inp).closed = false → Traced (trace step v inp) (final step v inp) := by
    apply history_invariant step (I := fun past w => w.closed = false → Traced past w)
    · intro _
      unfold new at hnew
      split_ifs at hnew
      obtain ⟨_,_,hv⟩ := bind_eq_ok.mp hnew
      cases hv
      refine ⟨?_,?_,?_,?_,?_⟩
      · constructor <;> simp
      all_goals simp
    · intro past w i h
      exact Traced.step h i
  exact hrun ho

theorem step_closed (h : v.closed = true) (i : Input) : (step v i).2.closed = true := by
  have ho := step_outcome v i
  generalize (step v i).2 = t at ho
  cases ho with
  | closed hc => exact hc
  | same _ hs | submitted _ _ hs | unsubmitted _ hs | hidden _ hs => exact hs.closed.trans h
  | taken p _ _ hf _ => simp [hf.opened] at h
  | shown _ hon _ _ => simp [hon] at h

theorem final_closed (h : v.closed = true) (inp : List Input) : (final step v inp).closed = true :=
  final_invariant step (I := fun w => w.closed = true) (fun _ i hw => step_closed hw i) inp h

/-- A time that the picture's source never falls below. -/
def Floor (v : ViewTracker) (d : FrameDescriptor) (time : ℕ) : Prop :=
  Bounded v d time ∧ ∀ s o, v.visibleSource = some (s,o) → o ≠ .unknown → time ≤ s

theorem Floor.step (ht : Traced past v) (hv : v.visible = some d) {i}
    (hs : (ViewTracker.step v i).2.visible = some d) (hon : (ViewTracker.step v i).2.closed = false)
    (h : Floor v d time) : Floor (ViewTracker.step v i).2 d time := by
  have hout := step_outcome v i
  generalize (ViewTracker.step v i).2 = t at hout hs hon
  obtain ⟨hb,hso⟩ := h
  cases hout with
  | closed hc => simp [hc] at hon
  | same _ hsm | unsubmitted _ hsm =>
    exact ⟨hb.congr hsm.knownObservation hsm.progress,by rw [hsm.visibleSource]; exact hso⟩
  | taken p _ _ hf hsm =>
    refine ⟨(hb.take ht hf).congr hsm.knownObservation hsm.progress,?_⟩
    rw [hsm.visibleSource]
    rcases take_visibleSource v p with hk | ⟨hsh,hnew⟩
    · rwa [hk]
    · rw [hnew]
      rintro s o ⟨⟩ ho
      rw [hv] at hsh
      cases hsh
      exact hb.le_observed hf ho
  | submitted _ _ hsm | hidden _ hsm =>
    rw [hsm.visible] at hs
    cases hs
  | shown _ _ hp _ =>
    rw [ht.exclusive _ hp] at hv
    cases hv

theorem Floor.run (ht : Traced past v) (after : List Input) (hv : v.visible = some d)
    (hf : ∀ e ∈ trace ViewTracker.step v after, (ViewTracker.step e.before e.input).2.visible =
      some d)
    (ho : (final ViewTracker.step v after).closed = false) (h : Floor v d time) :
    Floor (final ViewTracker.step v after) d time := by
  induction after generalizing v past with
  | nil => exact h
  | cons i after ih =>
    simp only [trace,List.forall_mem_cons] at hf
    have hn : (ViewTracker.step v i).2.closed = false := by
      by_contra hc
      have hfin := final_closed (by simpa using hc) after
      rw [final,hfin] at ho
      cases ho
    exact ih (Traced.step (fun _ => ht) i hn) hf.1 hf.2 ho (h.step ht hv hf.1 hn)

theorem evidence_sound {receiver : ReceivePipeline} {clock : ClockCorrelation} {age start : ℕ}
    {origin : ViewTracker}
    (hnew : new receiver clock age start = .ok origin) {inputs : List Input} {v : ViewTracker}
    (hv : final step origin inputs = v) :
    (∀ now e, (step v (.evidence now)).1 = .evidence (.ok e) →
      ∃ earlier mid later dec vis c shownAt observed,
        Path (trace step origin inputs) earlier mid later dec vis c shownAt ∧
        e.frame = c.descriptor.frame ∧ (observed = c.descriptor.captureMicros ∨
          ∃ x ∈ trace step origin inputs, Observes x c.descriptor observed) ∧
        v.clock.ageUpper observed now = .ok e.sourceAgeUpper ∧ e.sourceAgeUpper < v.maxSourceAge ∧
        (c.displayUntil ≤ shownAt → shownAt+vis.before.maxSourceAge < 2^64 →
          Exceeded (earlier ++ dec :: (mid ++ [vis])) later c.descriptor)) ∧
    ∀ d after, v.visible = some d →
      (∀ e ∈ trace step v after, (step e.before e.input).2.visible = some d) →
      (final step v after).closed = false → ∀ time o, v.visibleSource = some
        (time,o) → o ≠ .unknown →
        ∀ time' o', (final step v after).visibleSource = some (time',o') → o' ≠ .unknown →
          time ≤ time' := by
  have ht := traced_run hnew inputs
  rw [hv] at ht
  constructor
  · intro now e he
    have hsuper := (evidence_supported now v).2 e (Reply.evidence.inj he)
    obtain ⟨hon,d,observed,source,hevidence⟩ := hsuper
    have ht := ht hon
    obtain ⟨_,horig⟩ :=
      ht.source d observed source hevidence.visible hevidence.visibleSource hevidence.known
    obtain ⟨earlier,mid,later,dec,vis,c,shownAt,hpath,rfl,hl⟩ := ht.shown d hevidence.visible
    refine ⟨earlier,mid,later,dec,vis,c,shownAt,observed,hpath,hevidence.frame,horig,hevidence.age,
      hevidence.age_lt,fun hex hfi => ?_⟩
    rcases hl hex hfi with hexceeds | ⟨late,hw,_⟩
    · exact hexceeds
    · rw [hevidence.qualified] at hw
      cases hw
  · intro d after hvis hfx hon time o hso ho time' o' hso' ho'
    have hopen : v.closed = false := by
      by_contra hc
      rw [final_closed (by simpa using hc) after] at hon
      cases hon
    have ht := ht hopen
    have hf : Floor v d time := by
      refine ⟨(ht.source d time o hvis hso ho).1,fun s o'' hs _ => ?_⟩
      rw [hso] at hs
      cases hs
      exact le_rfl
    exact (hf.run ht after hvis hfx hon).2 time' o' hso' ho'

/-! A picture that is shown late. -/

/-- A correlation made at the start of the view. -/
def lateClock (start : ℕ) (h : start+900000 < 2^64) : ClockCorrelation where
  sample := ⟨⟨1⟩,start,1000,start⟩
  policy := ⟨1000000,900000,0⟩
  validUntil := start+900000
  correlates := by constructor <;> simp
  until_eq := rfl
  until_lt := h

def lateTracker (start : ℕ) (h : start+900000 < 2^64) : ViewTracker :=
  ⟨0,true,sampleConfig.bindings,sampleConfig.epoch,lateClock start h,1500000,start,none,none,none,
    none,none,none,none,0,false⟩

def latePicture : FrameDescriptor := ⟨1,3,2,900,none⟩

/-- An announcement of the picture. -/
def lateRecord (observed : ℕ) (observation : SourceObservation) (pipeline : PipelineState) :
    List Byte :=
  (encodeProgress ⟨latePicture,observed,observation,pipeline⟩
    (sampleConfig.bindings.forChannel .mediaConfig) sampleConfig.limits 75).toOption.getD []

/-- The picture is announced at its capture, shown late, and announced again by `record`. -/
def lateRun (start : ℕ) (record : List Byte) : List Input :=
  [.progress (lateRecord 900 .captured .running) sampleConfig.limits start,
    .decoded ⟨0,latePicture,sampleConfig.epoch,sampleConfig.bindings,start+5⟩ true (start+6),
    .visible 1 (start+10),.progress record sampleConfig.limits (start+11)]

/-- One second before the viewer's clock ends. -/
def lateStart : ℕ := 2^64-1000000

/-- The mark of the late picture is lost, and the capture time qualifies it. -/
theorem late_picture_unmarked : ∃ r e, sampleReceiver = .ok r ∧
    new r (lateClock lateStart (by decide)) 1500000 lateStart = .ok
    (lateTracker lateStart (by decide)) ∧ (trace step (lateTracker lateStart (by decide))
      (lateRun lateStart (lateRecord 900 .captured .idle))).map (·.reply) =
      [.done (.ok ()),.done (.ok ()),.evidence (.error .clockOverflow),.done (.ok ())] ∧
    (step (final step (lateTracker lateStart (by decide))
      (lateRun lateStart (lateRecord 900 .captured .idle))) (.evidence
        (lateStart+12))).1 = .evidence (.ok e) ∧
    e.frame = latePicture.frame ∧ ∀ x ∈ trace step (lateTracker lateStart (by decide))
      (lateRun lateStart (lateRecord 900 .captured .idle)), ∀ d t, Observes x d t →
        t = latePicture.captureMicros := by
  refine ⟨_,⟨2,1,⟨1,1⟩,lateStart+12,112,112,.captured⟩,rfl,
    rfl,by decide +kernel,by decide +kernel,rfl,?_⟩
  simp only [lateRun,trace,List.forall_mem_cons]
  refine ⟨fun d t h => ?_,fun d t h => ?_,fun d t h => ?_,fun d t h => ?_,by simp⟩
  · exact h.time_eq (q := ⟨latePicture,900,.captured,.running⟩) (m := lateStart) (by decide +kernel)
  · exact absurd h (not_observes (not_accepted rfl))
  · exact absurd h (not_observes (not_accepted rfl))
  · exact h.time_eq (q := ⟨latePicture,900,.captured,.idle⟩) (m := lateStart+11) (by decide +kernel)

theorem evidence_sound_late : ∃ r e, sampleReceiver = .ok r ∧
    new r (lateClock 0 (by decide)) 1500000 0 = .ok (lateTracker 0 (by decide)) ∧
    (step (final step (lateTracker 0 (by decide))
      (lateRun 0 (lateRecord 950 .qualifiedUnchanged .running))) (.evidence 12)).1 =
        .evidence (.ok e) ∧
    e.sourceAgeUpper < 1500000 := by
  obtain ⟨r,hr⟩ : ∃ r, sampleReceiver = .ok r := ⟨_,rfl⟩
  have hnew : new r (lateClock 0 (by decide)) 1500000 0 = .ok (lateTracker 0 (by decide)) := by
    cases hr
    rfl
  have he : (step (final step (lateTracker 0 (by decide))
      (lateRun 0 (lateRecord 950 .qualifiedUnchanged .running))) (.evidence 12)).1 =
      .evidence (.ok ⟨3,1,⟨1,1⟩,12,112,62,.qualifiedUnchanged⟩) := by decide +kernel
  obtain ⟨_,_,_,_,_,_,_,_,_,_,_,_,ha,_⟩ := (evidence_sound hnew rfl).1 12 _ he
  exact ⟨r,_,hr,hnew,he,ha⟩

end ViewTracker
end FrankenRemote.Freshness
