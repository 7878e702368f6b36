import FrankenRemote.ClientOrder

/-! Resuming after a stale view. Once the view has lapsed, the latch lets input through only after
a loss was reported, a later report was acknowledged, and new evidence was shown. -/
namespace FrankenRemote.Client

open Bytes Procedure Relation SlotTable Wire Input Freshness Transition List Option

def after (e : Event) : InputClient := (step e.before e.input).2

/-- The view that was fresh before the call is so no longer. -/
def GoesStale (e : Event) : Prop :=
  ∃ until_, e.before.viewUntil = some until_ ∧ e.before.clock < until_ ∧
    ((after e).viewUntil = none ∨ until_ ≤ (after e).clock)

/-- A negative report that the transport took. -/
def AdmitsLoss (e : Event) (n : ℕ) : Prop :=
  ∃ receipt now, e.input = .reportAdmitted receipt now ∧ receipt.visible = false ∧
    receipt.sequence = n ∧ e.reply = .ok .done

/-- An accepted ticket, of any profile. -/
def AcceptsTicket (e : Event) (t : Ticket) : Prop :=
  ∃ presented, ticketIn e.before e.input = some (t,presented) ∧ e.reply = .ok .done

/-- An accepted ticket of the current view, that acknowledges a report. -/
def AcceptsReport (e : Event) (n : ℕ) : Prop :=
  ∃ t, ticketIn e.before e.input = some (t,some n) ∧
    t.credentials.view = e.before.credentials.view ∧ e.reply = .ok .done

def InstallsEvidence (e : Event) : Prop :=
  ∃ evidence now until_, e.input = .presented evidence now ∧ e.reply = .ok .done ∧
    (after e).viewUntil = some until_ ∧ (after e).clock < until_

def Sends (e : Event) : Prop := ∃ n, EncodesAction e n ∨ EncodesPointer e n

/-- A loss was reported, and then a newer report acknowledged. -/
def Crossed (h : List Event) : Prop :=
  ∃ loss n past e mid e' later, h = past ++ e :: (mid ++ e' :: later) ∧ AdmitsLoss e loss ∧
    AcceptsReport e' n ∧ loss < n

def admitted (e : Event) : Option ℕ :=
  match e.input,e.reply with
  | .bindReadinessReporter cursor _,.ok _ => some cursor.sequence
  | .reportAdmitted receipt _,.ok _ => some receipt.sequence
  | _,_ => none

def lastAdmitted (generation : RecoveryGeneration) (h : List Event) : Option ℕ :=
  (h.filter fun e => e.before.credentials.view.recovery = generation).reverse.findSome? admitted

/-- Input waits for the loss to be reported, or for a report after it. -/
def Barred (h : List Event) (c : InputClient) (r : ReadinessState) : Prop :=
  c.suspendedSince.isSome = true ∧ c.awaitingTicket = true ∧
    (r.resume = .needLossReport ∨ ∃ n, r.resume = .afterLoss n ∧ ∃ e ∈ h, AdmitsLoss e n)

/-- What holds since a view lapsed. A view that was fresh until `watched` may also be there
still. -/
def Gate (watched : Option ClientInstant) (h : List Event) (c : InputClient) : Prop :=
  c.stopped.isSome = true ∨ ∃ r, c.readiness = some r ∧
    (((Barred h c r ∨ Crossed h) ∧ (c.viewUntil.isSome = true → ∃ e ∈ h, InstallsEvidence e)) ∨
      ∃ until_ ∈ watched, c.viewUntil.isSome = true ∧ c.clock < until_)

section Gates

variable {watched : Option ClientInstant} {h : List Event} {c c' d : InputClient} {e : Event}

theorem Crossed.snoc (hc : Crossed h) (e : Event) : Crossed (h ++ [e]) := by
  obtain ⟨loss,n,past,x,mid,x',later,rfl,hx⟩ := hc
  exact ⟨loss,n,past,x,mid,x',later ++ [e],by simp,hx⟩

variable {n : ℕ} {r : ReadinessState} {until_ now : ClientInstant} {t : Ticket}
    {clock : ClockCorrelation}

theorem Crossed.of_mem {loss x} (hx : x ∈ h) (hl : AdmitsLoss x loss) (he : AcceptsReport e n)
    (hlt : loss < n) : Crossed (h ++ [e]) := by
  obtain ⟨past,mid,rfl⟩ := append_of_mem hx
  exact ⟨loss,n,past,x,mid,e,[],by simp,hl,he,hlt⟩

theorem Barred.snoc (hb : Barred h c r) (e : Event) : Barred (h ++ [e]) c r := by
  obtain ⟨hs,ha,hr⟩ := hb
  refine ⟨hs,ha,hr.imp_right ?_⟩
  rintro ⟨n,hn,x,hx,hl⟩
  exact ⟨n,hn,x,mem_append_left _ hx,hl⟩

theorem Gate.snoc (hg : Gate watched h c) (e : Event) : Gate watched (h ++ [e]) c := by
  refine hg.imp_right ?_
  rintro ⟨r,hr,⟨hb,hs⟩ | hw⟩
  · refine ⟨r,hr,.inl ⟨hb.imp (·.snoc e) (·.snoc e),fun hv => ?_⟩⟩
    obtain ⟨x,hx,hx'⟩ := hs hv
    exact ⟨x,mem_append_left _ hx,hx'⟩
  · exact ⟨r,hr,.inr hw⟩

theorem Gate.same (hg : Gate watched h c) (hs : Same c c') : Gate watched h c' := by
  unfold Gate Barred at *
  rwa [hs.stopped,hs.readiness,hs.suspendedSince,hs.awaitingTicket,hs.viewUntil,hs.clock]

/-- A suspended view is barred, whatever was fresh before. -/
theorem Gate.suspend (hg : Gate watched h c) (now : ClientInstant) :
    Gate watched h (c.suspend now) := by
  by_cases hs : c.stopped = none
  · rcases hg with hg | ⟨r,hr,hg⟩
    · rw [hs] at hg
      cases hg
    have hsi : (c.suspend now).suspendedSince.isSome = true := by
      rw [suspend_suspendedSince]
      cases hc : c.suspendedSince <;> simp [hs]
    have hlapse : c.viewUntil.isSome = true ∨ c.suspendedSince = none →
        Gate watched h (c.suspend now) := fun hl => by
      refine .inr ⟨r.lapse,?_,.inl ⟨.inl ⟨hsi,?_,.inl rfl⟩,fun hv => ?_⟩⟩
      · rw [suspend_readiness,if_pos ⟨hl,hs⟩,hr]
        rfl
      · rw [suspend_awaitingTicket]
        simp only [hs,hr,isSome_some,and_true,true_and,Bool.or_eq_true,decide_eq_true_eq]
        exact .inr hl.symm
      · rw [suspend_viewUntil] at hv
        cases hv
    by_cases hl : c.viewUntil.isSome = true ∨ c.suspendedSince = none
    · exact hlapse hl
    · rcases hg with ⟨hbar,_⟩ | ⟨_,_,hview,_⟩
      · refine .inr ⟨r,?_,.inl ⟨hbar.imp_left fun hb => ⟨hsi,?_,hb.2.2⟩,fun hv => ?_⟩⟩
        · rw [suspend_readiness,if_neg fun h => hl h.1,hr]
        · rw [suspend_awaitingTicket,hb.2.1,Bool.true_or]
        · rw [suspend_viewUntil] at hv
          cases hv
      · exact absurd (.inl hview) hl
  · exact .inl (by rw [suspend_stopped]; exact isSome_iff_ne_none.mpr hs)

theorem Gate.tryResume (hg : Gate watched h c) : Gate watched h c.tryResume := by
  unfold InputClient.tryResume
  split
  · next hres =>
    refine hg.imp_right ?_
    rintro ⟨r,hr,⟨hb | hc,hs⟩ | hw⟩
    · have ha := hb.2.1
      rw [hres.1] at ha
      cases ha
    · exact ⟨r,hr,.inl ⟨.inr hc,hs⟩⟩
    · exact ⟨r,hr,.inr hw⟩
  · exact hg

theorem Gate.settled (hg : Gate watched h c)
    (hs : ∀ until_ ∈ watched, c.viewUntil.isSome = true → until_ ≤ c.clock) : Gate none h c := by
  refine hg.imp_right ?_
  rintro ⟨r,hr,hg | ⟨until_,hu,hview,hc⟩⟩
  · exact ⟨r,hr,.inl hg⟩
  · exact absurd hc (not_lt.mpr (hs until_ hu hview))

theorem Gate.watch (hg : Gate none h c) : Gate watched h c := by
  refine hg.imp_right ?_
  rintro ⟨r,hr,hg | ⟨_,hn,_⟩⟩
  · exact ⟨r,hr,.inl hg⟩
  · cases hn

theorem Serviced.gate (hs : Serviced c c') (hg : Gate none h c) : Gate none h c' := by
  cases hs with
  | clock => exact hg.imp_right fun ⟨r,hr,hg⟩ => ⟨r,hr,.inl (hg.resolve_right nofun)⟩
  | responder => exact hg
  | stop => exact .inl rfl
  | suspend now => exact hg.suspend now

theorem gate_of_serviced (hs : ReflTransGen Serviced c d) (hg : Gate none h c) : Gate none h d := by
  induction hs with
  | refl => exact hg
  | tail _ hs ih => exact hs.gate ih

/-- Servicing keeps a fresh view, or the view has lapsed. -/
theorem watch_of_serviced (hs : ReflTransGen Serviced c d) (hr : c.readiness.isSome = true)
    (hview : c.viewUntil = some until_) :
    Gate none h d ∨ (d.readiness.isSome = true ∧ d.viewUntil = some until_) := by
  induction hs with
  | refl => exact .inr ⟨hr,hview⟩
  | tail _ hs ih =>
    rcases ih with hg | ⟨hr',hview'⟩
    · exact .inl (hs.gate hg)
    cases hs with
    | clock | responder => exact .inr ⟨hr',hview'⟩
    | stop => exact .inl (.inl rfl)
    | suspend now =>
      rename_i b _
      obtain ⟨r,hr'⟩ := isSome_iff_exists.mp hr'
      have hg : Gate (some (b.clock+1)) h b :=
        .inr ⟨r,hr',.inr ⟨_,rfl,by rw [hview']; rfl,Nat.lt_succ_self _⟩⟩
      refine .inl ((hg.suspend now).settled fun _ _ hv => ?_)
      rw [suspend_viewUntil] at hv
      cases hv

theorem Ticked.watch (hd : Ticked c d now) (hr : c.readiness.isSome = true)
    (hview : c.viewUntil = some until_) : Gate (some until_) h d := by
  rcases watch_of_serviced hd.serviced hr hview with hg | ⟨hr',hview'⟩
  · exact hg.watch
  · obtain ⟨r,hr'⟩ := isSome_iff_exists.mp hr'
    refine .inr ⟨r,hr',.inr ⟨until_,rfl,by rw [hview']; rfl,?_⟩⟩
    rw [hd.live.clock]
    exact hd.live.view until_ hview'

/-! What a call does to the gate, from what servicing left. -/

theorem Gate.shown (hg : Gate watched h d) (he : InstallsEvidence e) :
    Gate watched (h ++ [e]) {d with viewUntil := some until_} := by
  refine (hg.snoc e).imp_right ?_
  rintro ⟨r,hr,⟨hb,_⟩ | ⟨u,hu,_,hc⟩⟩
  · exact ⟨r,hr,.inl ⟨hb,fun _ => ⟨e,by simp,he⟩⟩⟩
  · exact ⟨r,hr,.inr ⟨u,hu,rfl,hc⟩⟩

theorem Gate.update (hg : Gate watched h d) (hr : d.readiness = some r) (r' : ReadinessState)
    (hresume : r'.resume = r.resume) : Gate watched h {d with readiness := some r'} := by
  refine hg.imp_right ?_
  rintro ⟨_,hr₀,hg⟩
  cases hr.symm.trans hr₀
  refine ⟨r',rfl,hg.imp_left fun ⟨hb,hs⟩ => ⟨hb.imp_left ?_,hs⟩⟩
  rintro ⟨hsi,ha,hr⟩
  exact ⟨hsi,ha,by rwa [hresume]⟩

theorem Gate.lapse (hg : Gate watched h d) (now : ClientInstant) :
    Gate watched h (d.lapse.suspend now) := by
  by_cases hs : d.stopped = none
  · rcases hg with hg | ⟨r,hr,hg⟩
    · rw [hs] at hg
      cases hg
    have hl : d.lapse = {d with readiness := some r.lapse, awaitingTicket := true} := by
      unfold InputClient.lapse
      rw [hr]
    refine .inr ⟨r.lapse,?_,.inl ⟨.inl ⟨?_,?_,.inl rfl⟩,fun hv => ?_⟩⟩
    · rw [suspend_readiness,hl]
      split <;> rfl
    · rw [suspend_suspendedSince,hl]
      cases d.suspendedSince <;> simp [hs]
    · rw [suspend_awaitingTicket,hl]
      rfl
    · rw [suspend_viewUntil] at hv
      cases hv
  · refine .inl ?_
    rw [suspend_stopped]
    unfold InputClient.lapse
    split <;> exact isSome_iff_ne_none.mpr hs

theorem Gate.markLoss (hg : Gate watched h c) (he : e ∈ h) (hl : AdmitsLoss e n) :
    Gate watched h (c.markLoss n) := by
  unfold InputClient.markLoss
  rcases hg with hs | ⟨r,hr,hg⟩
  · refine .inl ?_
    split <;> exact hs
  · rw [hr]
    refine .inr ⟨_,rfl,hg.imp_left fun ⟨hbar,hsh⟩ => ⟨hbar.imp_left fun hb => ?_,hsh⟩⟩
    exact ⟨hb.1,rfl,.inr ⟨n,rfl,e,he,hl⟩⟩

/-- An acknowledgement crosses the barrier only after its loss was reported. -/
theorem Gate.acknowledge (hg : Gate watched h d) (hr : d.readiness = some r)
    (he : AcceptsReport e n) (hc : r.crosses n = true) (a recovery : Bool) :
    Gate watched (h ++ [e]) {d with
      readiness := some {r with acknowledged := n, resume := .clear}
      awaitingTicket := a
      awaitingRecoveryTicket := recovery} := by
  refine hg.imp_right ?_
  rintro ⟨_,hr₀,hg⟩
  cases hr.symm.trans hr₀
  refine ⟨_,rfl,hg.imp_left fun ⟨hb,hs⟩ => ⟨.inr ?_,fun hv => ?_⟩⟩
  · rcases hb with ⟨_,_,hresume | ⟨_,hresume,x,hx,hl⟩⟩ | hcross
    · rw [ReadinessState.crosses,hresume] at hc
      cases hc
    · rw [ReadinessState.crosses,hresume] at hc
      exact .of_mem hx hl he (of_decide_eq_true hc)
    · exact hcross.snoc e
  · obtain ⟨x,hx,hx'⟩ := hs hv
    exact ⟨x,mem_append_left _ hx,hx'⟩

theorem Gate.admitTicket_causal (hg : ∀ awaiting recovery,
      Gate watched h {c with awaitingTicket := awaiting, awaitingRecoveryTicket := recovery}) :
    Gate watched h (c.admitTicket t clock now true) := by
  have hself : Gate watched h c := hg c.awaitingTicket c.awaitingRecoveryTicket
  rw [InputClient.admitTicket]
  split_ifs with hr
  · exact (hg _ false).tryResume
  · split
    · rw [if_pos (.inl rfl)]
      exact (hg false c.awaitingRecoveryTicket).tryResume
    · exact hself

theorem Gate.admitTicket_waiting (hg : Gate watched h c)
    (hr : c.readiness.isSome = true) : Gate watched h (c.admitTicket t clock now false) := by
  have hn : c.readiness.isNone = false := by rw [← not_isSome,hr]; rfl
  rw [InputClient.admitTicket]
  split_ifs with hrv
  · rw [hn]
    refine Gate.tryResume (c := {c with
      awaitingRecoveryTicket := false
      awaitingTicket := c.awaitingTicket && !(false || false)}) ?_
    simp only [Bool.or_false,Bool.not_false,Bool.and_true]
    exact hg
  · split
    · rw [if_neg (by rintro (h | ⟨h,_⟩) <;> simp_all)]
      exact hg
    · exact hg

theorem Gate.admitTicket (hg : Gate watched h d) (hr : d.readiness = some r)
    (he : AcceptsReport e n) : Gate watched (h ++ [e]) ({d with readiness := some {r with
      acknowledged := n
      resume := if r.crosses n then .clear else r.resume}}.admitTicket t clock now (r.crosses
          n)) := by
  cases hc : r.crosses n with
  | true => exact .admitTicket_causal (hg.acknowledge hr he hc)
  | false => exact .admitTicket_waiting ((hg.snoc e).update hr _ rfl) rfl

theorem Gate.ticket (hg : Gate watched h c) (credentials : InputCredentials)
    (ticketState : Option TicketState) : Gate watched h {c with credentials, ticketState} := hg

/-- Every call that stays in the generation keeps the gate. -/
theorem Turn.gate {op r} (ht : Turn c op r c') (he : e = ⟨c,op,r⟩)
    (ha : c' = after e) (hc : ∀ d now, c = d ∨ Ticked c d now → Gate watched h d)
    (hg : c'.credentials.view.recovery = c.credentials.view.recovery) :
    Gate watched (h ++ [e]) c' := by
  have hself := hc c 0 (.inl rfl)
  cases ht with
  | halted hstop => exact .inl hstop
  | idle hs => exact (hself.snoc e).same hs
  | serviced hd hs | rebound hd _ _ _ hs => exact ((hc _ _ (.inr hd)).snoc e).same hs
  | suspended hd hs => exact (((hc _ _ hd).snoc e).suspend _).same hs
  | @shown ev d _ now until_ hd hu hs =>
    refine ((hc _ _ (.inr hd)).shown ⟨ev,now,until_,by rw [he],by rw [he],?_,?_⟩).tryResume.same hs
    · rw [← ha,hs.viewUntil]
      unfold InputClient.tryResume
      split <;> rfl
    · rw [← ha,hs.clock]
      unfold InputClient.tryResume
      split <;> exact hd.live.clock.symm ▸ hu
  | recovered hd hn hs =>
    rw [hs.credentials] at hg
    rw [(keeps_of_serviced hd.serviced).1,RecoveryGeneration.supersedes,decide_eq_true_eq] at hn
    exact absurd hn (hg ▸ lt_irrefl _)
  | ticketed hd _ hs | drained hd _ _ _ hs => exact (((hc _ _ (.inr hd)).snoc e).ticket _ _).same hs
  | @enabled d _ _ hd hs =>
    have hd' := (hc _ _ (.inr hd)).snoc e
    cases hr : d.readiness with
    | none =>
      rcases hd' with hstop | ⟨r,hr',_⟩
      · exact .inl (hs.stopped ▸ hstop)
      · cases hr.symm.trans hr'
    | some r => exact (hd'.update hr (d.readiness.getD (.new d.suspendedSince.isSome))
      (by rw [hr]; rfl)).same hs
  | @bound cursor r d _ now hd hr hnn hs =>
    have hb : Gate watched (h ++ [e]) (d.bindReporter r cursor) :=
      ((hc _ _ (.inr hd)).snoc e).update hr
        ({r with ceiling := cursor.sequence, reporter := some cursor}) rfl
    split_ifs at hs with hneg
    · exact (hb.lapse now).same hs
    · exact hb.same hs
  | @reported rc r d e' _ now hd hr _ _ he' hs =>
    have hrep : Gate watched (h ++ [e]) e' := he' ▸
      ((hc _ _ (.inr hd)).snoc e).update hr ({r with ceiling := rc.sequence}) rfl
    have hm : e ∈ h ++ [e] := mem_concat_self
    have hl : rc.visible = false → AdmitsLoss e rc.sequence := fun hneg =>
      ⟨rc,now,by rw [he],hneg,rfl,by rw [he]⟩
    split_ifs at hs with hneg hresume
    · exact (hrep.markLoss hm (hl hneg)).same hs
    · exact ((hrep.suspend now).markLoss hm (hl hneg)).same hs
    · exact hrep.same hs
  | consumed hd _ _ hs =>
    rcases hs with hs | hs
    · exact (((hc _ _ (.inr hd)).snoc e).ticket _ _).same hs
    · exact .inl (hs ▸ stop_isSome ..)
  | @granted _ t d _ clock now until_ boot hd _ _ hnn hs =>
    rcases hc _ _ (.inr hd) with hstop | ⟨r,hr,_⟩
    · rw [hd.live.running] at hstop
      cases hstop
    · cases hnn.symm.trans hr
  | @acknowledged _ t n r d _ clock now until_ boot hd ho hcur hr _ hs =>
    have hd' : Gate watched h
        {d.consume t until_ boot with credentials.ticket := t.credentials.ticket} :=
      hc d now (.inr hd)
    refine (hd'.admitTicket (t := t) hr ⟨t,?_,?_,by rw [he]⟩).same hs
    · rw [he,ho]
    · rw [hcur.view,(keeps_of_serviced hd.serviced).1,he]

end Gates

/-! What the tickets and the reports of a history left in the owner. -/

/-- What the latch keeps of reports and acknowledgements. -/
def InputClient.reports (c : InputClient) : Option (Bool × ℕ × ℕ) :=
  c.readiness.map fun r => (r.reporter.isSome,r.ceiling,r.acknowledged)

/-- The same generation, ticket and reports. -/
structure Kept (c c' : InputClient) : Prop where
  recovery : c'.credentials.view.recovery = c.credentials.view.recovery
  ticketState : c'.ticketState = c.ticketState
  reports : c'.reports = c.reports

/-- No ticket was accepted, and no report admitted. -/
structure Quiet (e : Event) : Prop where
  ticket : ∀ t, ¬AcceptsTicket e t
  report : admitted e = none

structure Filed (h : List Event) (c : InputClient) : Prop where
  generation : ∀ e ∈ h, e.before.credentials.view.recovery.raw ≤ c.credentials.view.recovery.raw
  ticket : ∀ e ∈ h, ∀ t, AcceptsTicket e t → ∃ s, c.ticketState = some s ∧ t.sequence ≤ s.sequence
  ceiling : c.stopped = none → ∀ n m, c.reports = some (true,n,m) →
    lastAdmitted c.credentials.view.recovery h = some n
  acknowledged : c.stopped = none → ∀ e ∈ h, ∀ n, AcceptsReport e n →
    e.before.credentials.view.recovery = c.credentials.view.recovery →
      ∃ b k m, c.reports = some (b,k,m) ∧ n ≤ m

section Files

variable {c c' d : InputClient} {op : Op} {r : Except ClientError Answer}
  {h : List Event} {e : Event} {now : ClientInstant}

theorem Same.kept (hs : Same c c') : Kept c c' :=
  ⟨by rw [hs.credentials],hs.ticketState,by rw [InputClient.reports,hs.readiness]; rfl⟩

theorem reports_suspend (c : InputClient) (now : ClientInstant) :
    (c.suspend now).reports = c.reports := by
  unfold InputClient.reports
  rw [suspend_readiness]
  split <;> cases c.readiness <;> rfl

theorem Serviced.kept (hs : Serviced c c') : Kept c c' := by
  refine ⟨by rw [hs.keeps.1],hs.keeps.2,?_⟩
  cases hs with
  | clock | responder | stop => rfl
  | suspend now => exact reports_suspend c now

theorem kept_of_serviced (hs : ReflTransGen Serviced c c') : Kept c c' := by
  induction hs with
  | refl => exact ⟨rfl,rfl,rfl⟩
  | tail _ hs ih =>
    exact ⟨hs.kept.1.trans ih.1,hs.kept.2.trans ih.2,hs.kept.3.trans ih.3⟩

theorem AcceptsReport.ticket {n} (he : AcceptsReport e n) : ∃ t, AcceptsTicket e t :=
  ⟨he.choose,some n,he.choose_spec.1,he.choose_spec.2.2⟩

theorem Plain.quiet (hp : Plain op r) : Quiet ⟨c,op,r⟩ := by
  constructor
  · rintro t ⟨_,ho,hok⟩
    refine hp ?_ _ hok
    cases op <;> first | rfl | cases ho
  · cases r with
    | error => cases op <;> rfl
    | ok a => cases op <;> first | rfl | exact absurd rfl (hp rfl a)

theorem lastAdmitted_snoc (g : RecoveryGeneration) (h : List Event) (e : Event) :
    lastAdmitted g (h ++ [e]) =
    if e.before.credentials.view.recovery = g then (admitted e).or
      (lastAdmitted g h) else lastAdmitted g h := by
  unfold lastAdmitted
  split_ifs with hg
  · cases ha : admitted e <;> simp [filter_append,hg,ha]
  · simp [filter_append,hg]

theorem Filed.keep (hf : Filed h c) (hk : Kept c c') (hrun : c'.stopped = none → c.stopped = none) :
    Filed h c' := by
  constructor
  · rw [hk.recovery]
    exact hf.generation
  · rw [hk.ticketState]
    exact hf.ticket
  · rw [hk.recovery,hk.reports]
    exact fun hc' => hf.ceiling (hrun hc')
  · rw [hk.recovery,hk.reports]
    exact fun hc' => hf.acknowledged (hrun hc')

theorem Ticked.kept (hd : Ticked c d now) : Kept c d := kept_of_serviced hd.serviced

theorem Ticked.filed (hd : Ticked c d now) (hf : Filed h c) : Filed h d :=
  hf.keep hd.kept fun _ => hd.running

theorem Filed.step (hf : Filed h c)
    (hb : e.before.credentials.view.recovery = c.credentials.view.recovery)
    (hrv : c'.credentials.view.recovery = c.credentials.view.recovery)
    (hrun : c'.stopped = none → c.stopped = none)
    (hl : ∀ s, c.ticketState = some s → ∃ s', c'.ticketState = some s' ∧ s.sequence ≤ s'.sequence)
    (hacc : ∀ t, AcceptsTicket e t → ∃ s', c'.ticketState = some s' ∧ t.sequence ≤ s'.sequence)
    (hceiling : ∀ n m, c'.reports = some (true,n,m) →
      admitted e = some n ∨ (admitted e = none ∧ ∃ m', c.reports = some (true,n,m')))
    (hack : ∀ b k m, c.reports = some (b,k,m) → ∃ b' k' m', c'.reports = some (b',k',m') ∧ m ≤ m')
    (hr : ∀ n, AcceptsReport e n → ∃ b k m, c'.reports = some (b,k,m) ∧ n ≤ m) :
    Filed (h ++ [e]) c' := by
  constructor
  · exact forall_mem_snoc.mpr ⟨hrv ▸ hf.generation,by rw [hb,hrv]⟩
  · refine forall_mem_snoc.mpr ⟨fun x hx t ht => ?_,hacc⟩
    obtain ⟨s,hs,hle⟩ := hf.ticket x hx t ht
    obtain ⟨s',hs',hle'⟩ := hl s hs
    exact ⟨s',hs',hle.trans hle'⟩
  · intro hc' n m hn
    rw [lastAdmitted_snoc,if_pos (hb.trans hrv.symm)]
    rcases hceiling n m hn with ha | ⟨ha,m',hm'⟩
    · rw [ha,some_or]
    · rw [ha,none_or,hrv]
      exact hf.ceiling (hrun hc') n m' hm'
  · refine fun hc' => forall_mem_snoc.mpr ⟨fun x hx n hn hg => ?_,fun n hn _ => hr n hn⟩
    obtain ⟨b,k,m,hm,hle⟩ := hf.acknowledged (hrun hc') x hx n hn (hg.trans hrv)
    obtain ⟨b',k',m',hm',hle'⟩ := hack b k m hm
    exact ⟨b',k',m',hm',hle.trans hle'⟩

theorem Filed.quiet (hf : Filed h c) (hq : Quiet e)
    (hb : e.before.credentials.view.recovery = c.credentials.view.recovery) (hk : Kept c c')
    (hrun : c'.stopped = none → c.stopped = none) : Filed (h ++ [e]) c' := by
  refine hf.step hb hk.recovery hrun ?_ (fun t ht => absurd ht (hq.ticket t)) ?_ ?_ fun n hn => ?_
  · rw [hk.ticketState]
    exact fun s hs => ⟨s,hs,le_refl _⟩
  · rw [hk.reports]
    exact fun n m hm => .inr ⟨hq.report,m,hm⟩
  · rw [hk.reports]
    exact fun b k m hm => ⟨b,k,m,hm,le_refl _⟩
  · obtain ⟨t,ht⟩ := hn.ticket
    exact absurd ht (hq.ticket t)

theorem Filed.ticked (hf : Filed h c) (hd : Ticked c d now) (hq : Quiet ⟨c,op,r⟩) (hk : Kept d c') :
    Filed (h ++ [⟨c,op,r⟩]) c' :=
  (hd.filed hf).quiet hq hd.kept.recovery.symm hk fun _ => hd.live.running

/-- A stopped owner accepts nothing more. -/
theorem Filed.halt (hf : Filed h c) (hq : Quiet e) (hb : e.before = c)
    (hs : c'.stopped.isSome = true)
    (hc : c'.credentials = c.credentials) (htt : c'.ticketState = c.ticketState) :
    Filed (h ++ [e]) c' := by
  have hrun : c'.stopped ≠ none := isSome_iff_ne_none.mp hs
  refine ⟨?_,?_,fun h => absurd h hrun,fun h => absurd h hrun⟩
  · rw [hc]
    exact forall_mem_snoc.mpr ⟨hf.generation,by rw [hb]⟩
  · rw [htt]
    exact forall_mem_snoc.mpr ⟨hf.ticket,fun t ht => absurd ht (hq.ticket t)⟩

/-- The first report of a generation finds no acknowledgement. -/
theorem Filed.recover (hf : Filed h c) (hq : Quiet e)
    (hb : e.before.credentials.view.recovery = c.credentials.view.recovery)
    (hnw : c.credentials.view.recovery.raw < c'.credentials.view.recovery.raw)
    (htt : c'.ticketState = c.ticketState) (hr : ∀ b n m, c'.reports = some (b,n,m) → b = false) :
    Filed (h ++ [e]) c' := by
  have hold : ∀ x ∈ h ++ [e], x.before.credentials.view.recovery.raw ≤
      c.credentials.view.recovery.raw :=
    forall_mem_snoc.mpr ⟨hf.generation,by rw [hb]⟩
  refine ⟨fun x hx => (hold x hx).trans hnw.le,?_,fun _ n m hn => ?_,fun _ x hx n hn hg => ?_⟩
  · rw [htt]
    exact forall_mem_snoc.mpr ⟨hf.ticket,fun t ht => absurd ht (hq.ticket t)⟩
  · cases hr _ _ _ hn
  · exact absurd (hg ▸ hold x hx) (not_le.mpr hnw)

theorem tryResume_eq (c : InputClient) :
    ∃ suspendedSince, c.tryResume = {c with suspendedSince} := by
  unfold InputClient.tryResume
  split_ifs <;> exact ⟨_,rfl⟩

theorem admitTicket_eq (c : InputClient) (t : Ticket) (clock : ClockCorrelation)
    (now : ClientInstant) (causal : Bool) : ∃ awaitingTicket awaitingRecoveryTicket suspendedSince,
      c.admitTicket t clock now causal =
      {c with awaitingTicket, awaitingRecoveryTicket, suspendedSince} := by
  unfold InputClient.admitTicket
  split
  · obtain ⟨_,h⟩ := tryResume_eq {c with
      awaitingRecoveryTicket := false
      awaitingTicket := c.awaitingTicket && !(c.readiness.isNone || causal)}
    exact ⟨_,_,_,h⟩
  · split
    · split
      · obtain ⟨_,h⟩ := tryResume_eq {c with awaitingTicket := false}
        exact ⟨_,_,_,h⟩
      · exact ⟨_,_,_,rfl⟩
    · exact ⟨_,_,_,rfl⟩

theorem Kept.trans {c''} (hk : Kept c c') (hk' : Kept c' c'') : Kept c c'' :=
  ⟨hk'.1.trans hk.1,hk'.2.trans hk.2,hk'.3.trans hk.3⟩

theorem reports_of_readiness {r₀} (hr : c.readiness = some r₀) :
    c.reports = some (r₀.reporter.isSome,r₀.ceiling,r₀.acknowledged) := by
  rw [InputClient.reports,hr]
  rfl

theorem kept_markLoss (c : InputClient) (n : ℕ) : Kept c (c.markLoss n) := by
  unfold InputClient.markLoss
  split
  · next hr => exact ⟨rfl,rfl,(reports_of_readiness hr).symm ▸ rfl⟩
  · exact ⟨rfl,rfl,rfl⟩

theorem kept_lapse (c : InputClient) : Kept c c.lapse := by
  unfold InputClient.lapse
  split
  · next hr => exact ⟨rfl,rfl,(reports_of_readiness hr).symm ▸ rfl⟩
  · exact ⟨rfl,rfl,rfl⟩

theorem admitted_of_ticketIn {x} (ho : ticketIn c op = some x) : admitted ⟨c,op,r⟩ = none := by
  cases op <;> first | rfl | cases ho

variable {t : Ticket} {presented : Option ℕ}

/-- Only the ticket of the call can be accepted by it. -/
theorem acceptsTicket_eq {t'} (ho : ticketIn c op = some (t,presented))
    (he : AcceptsTicket ⟨c,op,r⟩ t') : t' = t := by
  obtain ⟨_,ho',_⟩ := he
  cases ho.symm.trans ho'
  rfl

theorem Filed.filedReport {b k n m} (hf : Filed h c) (hd : Ticked c d now)
    (hr : c'.credentials.view.recovery = d.credentials.view.recovery)
    (htt : c'.ticketState = d.ticketState)
    (hold : d.reports = some (b,k,m)) (hnew : c'.reports = some (true,n,m))
    (ha : admitted ⟨c,op,r⟩ = some n) (hno : ∀ t, ¬AcceptsTicket ⟨c,op,r⟩ t) :
    Filed (h ++ [⟨c,op,r⟩]) c' := by
  refine (hd.filed hf).step hd.kept.recovery.symm hr (fun _ => hd.live.running) ?_
    (fun t ht => absurd ht (hno t)) (fun n' m' hn => ?_) (fun b' k' m' hm => ?_) fun n hn => ?_
  · rw [htt]
    exact fun s hs => ⟨s,hs,le_refl _⟩
  · cases hnew.symm.trans hn
    exact .inl ha
  · cases hold.symm.trans hm
    exact ⟨_,_,_,hnew,le_refl _⟩
  · obtain ⟨t,ht⟩ := hn.ticket
    exact absurd ht (hno t)

theorem Filed.accept {s'} (hf : Filed h c) (hd : Ticked c d now)
    (hrv : c'.credentials.view.recovery = d.credentials.view.recovery)
    (ho : ticketIn c op = some (t,presented))
    (hnw : ∀ s, d.ticketState = some s → s.sequence < t.sequence)
    (htt : c'.ticketState = some s') (hsq : s'.sequence = t.sequence)
    (hnn : d.reports = none → c'.reports = none)
    (hsome : ∀ b k m, d.reports = some (b,k,m) → ∃ m', c'.reports = some (b,k,m') ∧ m ≤ m')
    (hreport : ∀ n, AcceptsReport ⟨c,op,r⟩ n → ∃ b k m, c'.reports = some (b,k,m) ∧ n ≤ m) :
    Filed (h ++ [⟨c,op,r⟩]) c' := by
  refine (hd.filed hf).step hd.kept.recovery.symm hrv (fun _ => hd.live.running) (fun s hs => ?_)
    (fun t' ht => ?_) (fun n m hn => .inr ?_) (fun b k m hm => ?_) hreport
  · exact ⟨s',htt,hsq ▸ (hnw s hs).le⟩
  · exact ⟨s',htt,by rw [hsq,acceptsTicket_eq ho ht]⟩
  · refine ⟨admitted_of_ticketIn ho,?_⟩
    cases hr : d.reports with
    | none => cases (hnn hr).symm.trans hn
    | some x =>
      obtain ⟨b,k,m⟩ := x
      obtain ⟨m',hm',_⟩ := hsome b k m hr
      cases hm'.symm.trans hn
      exact ⟨m,rfl⟩
  · obtain ⟨m',hm',hle⟩ := hsome b k m hm
    exact ⟨b,k,m',hm',hle⟩

section Cases

variable {r₀ : ReadinessState} {clock : ClockCorrelation} {until_ : ClientInstant}
    {boot : HostBootId}

variable (hf : Filed h c) (hd : Ticked c d now)

include hf hd

/-- A ticket that leaves the reports alone. -/
theorem Filed.acceptQuietly {s'} (hr : c'.credentials.view.recovery = d.credentials.view.recovery)
    (ho : ticketIn c op = some (t,presented))
    (hnewer : ∀ s, d.ticketState = some s → s.sequence < t.sequence)
    (hticket : c'.ticketState = some s') (hs : s'.sequence = t.sequence)
    (hrep : c'.reports = d.reports)
    (hno : ∀ n, ¬AcceptsReport ⟨c,op,r⟩ n) : Filed (h ++ [⟨c,op,r⟩]) c' :=
  hf.accept hd hr ho hnewer hticket hs (hrep ▸ id) (hrep ▸ fun _ _ m hm => ⟨m,hm,le_refl _⟩)
    fun n hn => absurd hn (hno n)

theorem Filed.recovered {g : RecoveryGeneration}
    (hnewer : g.supersedes d.credentials.view.recovery = true)
    (hs : Same {d with
      credentials.view.recovery := g
      viewUntil := none
      awaitingRecoveryTicket := true
      readiness := d.readiness.map fun _ => .new false} c') :
    Filed (h ++ [⟨c,.advanceRecovery g now,.ok .done⟩]) c' := by
  refine (hd.filed hf).recover ⟨fun _ ⟨_,h,_⟩ => (by cases h),rfl⟩ hd.kept.recovery.symm ?_
    hs.ticketState ?_
  · rw [hs.credentials]
    exact of_decide_eq_true hnewer
  · intro b n m hn
    rw [InputClient.reports,hs.readiness] at hn
    cases hr : d.readiness with
    | none => simp [hr] at hn
    | some r₀ =>
      simp only [hr,map_some,Option.some.injEq] at hn
      cases hn
      rfl

/-- The first reports of a grant start from nothing. -/
theorem Filed.enabled (hs : Same {d with
      readiness := some (d.readiness.getD (.new d.suspendedSince.isSome))} c') :
    Filed (h ++ [⟨c,.expectReadinessFeedback now,.ok .done⟩]) c' := by
  have hq : Quiet ⟨c,.expectReadinessFeedback now,.ok .done⟩ := (plain_of_not_marks rfl).quiet
  cases hr : d.readiness with
  | none =>
    have hold : d.reports = none := by rw [InputClient.reports,hr]; rfl
    have hrep : c'.reports = some (false,0,0) := hs.kept.3.trans
      (by simp [InputClient.reports,hr,ReadinessState.new])
    refine (hd.filed hf).step hd.kept.recovery.symm hs.kept.1 (fun _ => hd.live.running) ?_
      (fun t ht => absurd ht (hq.ticket t)) (fun n m hn => ?_) (fun b k m hm => ?_) fun n hn => ?_
    · rw [hs.ticketState]
      exact fun s hs => ⟨s,hs,le_refl _⟩
    · cases hrep.symm.trans hn
    · cases hold.symm.trans hm
    · obtain ⟨t,ht⟩ := hn.ticket
      exact absurd ht (hq.ticket t)
  | some r₀ => exact hf.ticked hd hq ⟨hs.kept.1,hs.kept.2,hs.kept.3.trans
    (by simp [InputClient.reports,hr])⟩

theorem Filed.bound {cursor} (hr : d.readiness = some r₀)
    (hs : Same (if cursor.sequence ≠ 0 ∧ cursor.visible = false then
      (d.bindReporter r₀ cursor).lapse.suspend now else d.bindReporter r₀ cursor) c') :
    Filed (h ++ [⟨c,.bindReadinessReporter cursor now,.ok .done⟩]) c' := by
  have hk : Kept (d.bindReporter r₀ cursor) c' := by
    split_ifs at hs
    · exact ((kept_lapse _).trans (Serviced.suspend _ now).kept).trans hs.kept
    · exact hs.kept
  exact hf.filedReport hd hk.1 hk.2 (reports_of_readiness hr) hk.3 rfl fun _ ⟨_,h,_⟩ => by cases h

theorem Filed.reported {rc e'} (hr : d.readiness = some r₀) (hsome : r₀.reporter.isSome = true)
    (he : e' = {d with readiness := some {r₀ with ceiling := rc.sequence}})
    (hs : Same (if rc.visible = false then
        (if r₀.resume = .needLossReport then e' else e'.suspend now).markLoss rc.sequence
      else e') c') :
    Filed (h ++ [⟨c,.reportAdmitted rc now,.ok .done⟩]) c' := by
  have hk : Kept e' c' := by
    split_ifs at hs
    · exact (kept_markLoss e' _).trans hs.kept
    · exact ((Serviced.suspend e' now).kept.trans (kept_markLoss _ _)).trans hs.kept
    · exact hs.kept
  have hrep : e'.reports = some (true,rc.sequence,r₀.acknowledged) := by rw [he,← hsome]; rfl
  rw [he] at hk
  exact hf.filedReport hd hk.1 hk.2 (reports_of_readiness hr) (hk.3.trans (he ▸ hrep)) rfl
    fun _ ⟨_,h,_⟩ => by cases h

theorem Filed.drained (ho : ticketIn c op = some (t,presented))
    (hobsolete : d.Obsolete t.credentials.view)
    (hnewer : ∀ s, d.ticketState = some s → s.sequence < t.sequence) (hs : Same (d.drain t) c') :
    Filed (h ++ [⟨c,op,.ok .done⟩]) c' := by
  obtain ⟨s,hs'⟩ := isSome_iff_exists.mp (isSome_of_any hobsolete.2.2.2)
  have hticket : c'.ticketState = some {s with
      sequence := t.sequence
      issuedAt := t.issuedAt
      recovery := t.credentials.view.recovery} := by
    rw [hs.ticketState,InputClient.drain,hs']
    rfl
  refine hf.acceptQuietly hd hs.kept.1 ho hnewer hticket rfl hs.kept.3 ?_
  rintro n ⟨_,ho',hview,_⟩
  -- an obsolete ticket is of another view
  cases ho.symm.trans ho'
  have hold := of_decide_eq_true hobsolete.2.2.1
  rw [hview,hd.kept.recovery] at hold
  exact absurd hold (lt_irrefl _)

theorem Filed.granted (ho : ticketIn c op = some (t,none)) (hcurrent : Current d t)
    (hs : Same ({d.consume t until_ boot with
      credentials.ticket := t.credentials.ticket}.admitTicket t clock now false) c') :
    Filed (h ++ [⟨c,op,.ok .done⟩]) c' := by
  obtain ⟨_,_,_,hticket⟩ := admitTicket_eq {d.consume t until_ boot with
    credentials.ticket := t.credentials.ticket} t clock now false
  rw [hticket] at hs
  refine hf.acceptQuietly hd hs.kept.1 ho hcurrent.newer hs.kept.2 rfl hs.kept.3 ?_
  rintro n ⟨_,ho',_⟩
  cases ho.symm.trans ho'

theorem Filed.acknowledges {sequence} (ho : ticketIn c op = some (t,some sequence))
    (hcurrent : Current d t) (hr : d.readiness = some r₀) (hreport : r₀.Acknowledges sequence)
    (hs : Same ({d.consume t until_ boot with
        credentials.ticket := t.credentials.ticket
        readiness := some {r₀ with
          acknowledged := sequence
          resume := if r₀.crosses sequence then .clear else r₀.resume}}.admitTicket t clock now
        (r₀.crosses sequence)) c') :
    Filed (h ++ [⟨c,op,.ok .done⟩]) c' := by
  obtain ⟨_,_,_,hticket⟩ := admitTicket_eq {d.consume t until_ boot with
    credentials.ticket := t.credentials.ticket
    readiness := some {r₀ with
      acknowledged := sequence
      resume := if r₀.crosses sequence then .clear else r₀.resume}} t clock now (r₀.crosses
        sequence)
  rw [hticket] at hs
  have hrep : c'.reports = some (r₀.reporter.isSome,r₀.ceiling,sequence) := hs.kept.3
  have hold := reports_of_readiness hr
  refine hf.accept hd hs.kept.1 ho hcurrent.newer hs.kept.2 rfl (fun h => ?_)
    (fun b k m hm => ?_) ?_
  · cases hold.symm.trans h
  · cases hold.symm.trans hm
    exact ⟨sequence,hrep,hreport.2.2.2⟩
  · rintro n ⟨_,ho',_⟩
    cases ho.symm.trans ho'
    exact ⟨_,_,_,hrep,le_refl _⟩

end Cases

theorem Turn.filed (ht : Turn c op r c') (hf : Filed h c) : Filed (h ++ [⟨c,op,r⟩]) c' := by
  cases ht with
  | halted hstop hcred hticket hplain => exact hf.halt hplain.quiet rfl hstop hcred hticket
  | idle hs hplain => exact hf.quiet hplain.quiet rfl hs.kept (hs.stopped ▸ id)
  | serviced hd hs hplain => exact hf.ticked hd hplain.quiet hs.kept
  | @suspended _ _ d _ now hd hs hplain =>
    have hk : Kept d c' := (Serviced.suspend d now).kept.trans hs.kept
    rcases hd with rfl | hd
    · exact hf.quiet hplain.quiet rfl hk fun h => by rwa [hs.stopped,suspend_stopped] at h
    · exact hf.ticked hd hplain.quiet hk
  | @shown _ d _ now until_ hd _ hs =>
    obtain ⟨_,hresume⟩ := tryResume_eq {d with viewUntil := some until_}
    rw [hresume] at hs
    exact hf.ticked hd (plain_of_not_marks rfl).quiet ⟨hs.kept.1,hs.kept.2,hs.kept.3⟩
  | recovered hd hnewer hs => exact hf.recovered hd hnewer hs
  | ticketed hd _ hs => exact hf.ticked hd (plain_of_not_marks rfl).quiet ⟨hs.kept.1,
    hs.kept.2,hs.kept.3⟩
  | enabled hd hs => exact hf.enabled hd hs
  | bound hd hr _ hs => exact hf.bound hd hr hs
  | rebound hd hr hsome hceiling hs =>
    have hrep := reports_of_readiness hr
    exact hf.filedReport hd hs.kept.1 hs.kept.2 hrep (hs.kept.3.trans (hsome ▸ hrep))
      (congrArg some hceiling) fun _ ⟨_,h,_⟩ => by cases h
  | reported hd hr hsome _ he hs => exact hf.reported hd hr hsome he hs
  | drained hd ho hobsolete hnewer hs => exact hf.drained hd ho hobsolete hnewer hs
  | @consumed _ _ t presented d _ now until_ boot hd ho hcurrent hs =>
    have hk : Kept (d.consume t until_ boot) c' := by
      rcases hs with hs | rfl
      · exact hs.kept
      · exact (Serviced.stop _ _).kept
    refine hf.acceptQuietly hd hk.1 ho hcurrent.newer hk.2 rfl hk.3 ?_
    rintro n ⟨_,_,_,h⟩
    cases h
  | granted hd ho hcurrent _ hs => exact hf.granted hd ho hcurrent hs
  | acknowledged hd ho hcurrent hr hreport hs => exact hf.acknowledges hd ho hcurrent hr hreport hs

/-- A ticket of an older generation installs nothing. -/
theorem Turn.superseded (ht : Turn c op r c') (ho : ticketIn c op = some (t,presented))
    (hold : c.credentials.view.recovery.supersedes t.credentials.view.recovery = true) :
    c'.credentials.ticket = c.credentials.ticket ∧
      c'.ticketState.map TicketState.until_ = c.ticketState.map TicketState.until_ := by
  have hcur : ∀ {d : InputClient} {now : ClientInstant}, Ticked c d now → ¬Current d t :=
      fun hd h => by
    have hold := of_decide_eq_true hold
    rw [h.view,(keeps_of_serviced hd.serviced).1] at hold
    exact absurd hold (lt_irrefl _)
  cases ht with
  | halted _ hcr htt => exact ⟨by rw [hcr],by rw [htt]⟩
  | idle hs => exact ⟨by rw [hs.credentials],by rw [hs.ticketState]⟩
  | serviced hd hs =>
    obtain ⟨hcr,htt⟩ := keeps_of_serviced hd.serviced
    exact ⟨by rw [hs.credentials,hcr],by rw [hs.ticketState,htt]⟩
  | @suspended _ _ d _ now hd hs =>
    obtain ⟨hcr,htt⟩ := (Serviced.suspend d now).keeps
    rw [hs.credentials,hs.ticketState,hcr,htt]
    rcases hd with rfl | hd
    · exact ⟨rfl,rfl⟩
    · obtain ⟨hcr',htt'⟩ := keeps_of_serviced hd.serviced
      exact ⟨by rw [hcr'],by rw [htt']⟩
  | @drained _ _ _ d _ now hd ho' _ _ hs =>
    obtain ⟨hcr,htt⟩ := keeps_of_serviced hd.serviced
    rw [hs.credentials,hs.ticketState,InputClient.drain,← hcr,← htt]
    exact ⟨rfl,by cases d.ticketState <;> rfl⟩
  | consumed hd ho' hc | granted hd ho' hc | acknowledged hd ho' hc =>
    cases ho.symm.trans ho'
    exact absurd hc (hcur hd)
  | shown | recovered | ticketed | enabled | bound | rebound | reported => cases ho

end Files

/-! Runs. -/

section Runs

variable {c : InputClient} {h past later : List Event} {e : Event}

theorem filed_of_starts (hc : Starts c) : Filed [] c := by
  obtain ⟨_,_,_,_,_,_,_,hnew⟩ := hc
  unfold InputClient.new at hnew
  split at hnew
  · cases hnew
  · cases hnew
    exact ⟨fun _ h => (by cases h),fun _ h => (by cases h),fun _ _ _ h => (by cases h),fun _ _ h =>
      (by cases h)⟩

theorem filed_run (hf : Filed h c) (ops : List Op) : Filed (h ++ trace c ops) (final c ops) :=
  history_invariant (I := fun past t => Filed (h ++ past) t) step (by rwa [append_nil])
    (fun past t op hf => by rw [← append_assoc]; exact (call_turn t op).filed hf) ops

theorem generation_eq {g g' : RecoveryGeneration} (h : g.raw = g'.raw) : g = g' := by
  cases g
  cases g'
  cases h
  rfl

/-- The states of a run that is still in the generation of `e`. -/
theorem gate_run (hf : Filed (past ++ [e]) c)
    (hc : c.credentials.view.recovery = e.before.credentials.view.recovery →
      Gate none [e] c) (ops : List Op)
    (hsm : (final c ops).credentials.view.recovery = e.before.credentials.view.recovery) :
    Gate none (e :: trace c ops) (final c ops) := by
  have hrun := history_invariant step (s := c) (I := fun h t => Filed (past ++ [e] ++ h) t ∧
    (t.credentials.view.recovery = e.before.credentials.view.recovery → Gate none (e :: h) t))
    ⟨by rwa [append_nil],hc⟩ ?_ ops
  · exact hrun.2 hsm
  · rintro h t op ⟨hf,hg⟩
    have hf' := (call_turn t op).filed hf
    refine ⟨by rw [← append_assoc]; exact hf',fun hs => ?_⟩
    -- the generation only grows, and ends where it began
    have hle := hf'.generation _ mem_concat_self
    have hge := hf.generation e (mem_append_left _ mem_concat_self)
    have hsm : t.credentials.view.recovery = e.before.credentials.view.recovery :=
      generation_eq (le_antisymm (hle.trans (le_of_eq (congrArg RecoveryGeneration.raw hs))) hge)
    rw [← cons_append]
    refine Turn.gate (call_turn t op) rfl rfl (fun d now hd => ?_) (hs.trans hsm.symm)
    rcases hd with rfl | hd
    · exact hg hsm
    · exact gate_of_serviced hd.serviced (hg hsm)

/-- A record leaves only from an owner that is ready after servicing. -/
theorem ready_of_sends (he : Sends e) (hr : e.reply = (step e.before e.input).1) :
    ∃ d now, Ticked e.before d now ∧ Ready d now := by
  have hs : Sequenced e.before e.input e.reply (step e.before e.input).2 :=
    hr ▸ call_sequenced e.before e.input
  obtain ⟨n,⟨a,room,now,rec,hi,hok,_⟩ | ⟨_,room,now,rec,hi,hok,_⟩⟩ := he
  · rw [hi,hok] at hs
    cases hs with
    | frames _ hsilent _ => cases hsilent
    | action hs => exact ⟨_,_,hs.ticked,hs.ready⟩
  · rw [hi,hok] at hs
    cases hs with
    | frames _ hsilent _ => cases hsilent
    | pointer hs => exact ⟨_,_,hs.ticked,hs.ready⟩

/-- After a view lapsed, input of the same generation waits for a reported loss, a newer report that
was acknowledged, and new evidence. -/
theorem resumed_of_sends {mid send} (hc : Starts c) {ops}
    (h : trace c ops = past ++ e :: (mid ++ send :: later)) (hr : e.before.readiness.isSome = true)
    (hstale : GoesStale e) (hsend : Sends send)
    (hsm : send.before.credentials.view.recovery = e.before.credentials.view.recovery) :
    Crossed (e :: mid) ∧ ∃ x ∈ e :: mid, InstallsEvidence x := by
  obtain ⟨before,op,_,_,rfl,rfl,hre⟩ := trace_split step h
  obtain ⟨between,_,_,_,rfl,rfl,_⟩ := trace_split step hre.symm
  obtain ⟨until_,hview,hck,hl⟩ := hstale
  have hfil := filed_run (filed_of_starts hc) before
  rw [nil_append] at hfil
  set t := final c before
  have hgate : (step t op).2.credentials.view.recovery = t.credentials.view.recovery →
      Gate none [⟨t,op,(step t op).1⟩] (step t op).2 := fun hs => by
    have hw : Gate (some until_) ([] ++ [⟨t,op,(step t op).1⟩]) (step t op).2 := by
      refine Turn.gate (call_turn t op) rfl rfl (fun d now hd => ?_) hs
      rcases hd with rfl | hd
      · obtain ⟨r,hr⟩ := isSome_iff_exists.mp hr
        exact .inr ⟨r,hr,.inr ⟨until_,rfl,by rw [hview]; rfl,hck⟩⟩
      · exact hd.watch hr hview
    refine hw.settled ?_
    rintro _ ⟨⟩ hv
    rcases hl with hn | hpast
    · rw [show (step t op).2.viewUntil = none from hn] at hv
      cases hv
    · exact hpast
  have hready := gate_run (Turn.filed (call_turn t op) hfil) hgate between hsm
  obtain ⟨d,now,ht,hready'⟩ := ready_of_sends hsend rfl
  rcases gate_of_serviced ht.serviced hready with hstop | ⟨r,_,⟨hbar,hsh⟩ | ⟨_,hn,_⟩⟩
  · rw [hready'.running] at hstop
    cases hstop
  · refine ⟨hbar.resolve_left fun hb => ?_,hsh hready'.shown⟩
    have hsi := hb.1
    rw [hready'.resumed] at hsi
    cases hsi
  · cases hn

theorem Turn.accepts {op r c' t presented}
    (ht : Turn c op r c') (hop : ticketIn c op = some (t,presented)) (hok : r = .ok .done) :
    ∃ d now, Ticked c d now ∧ (∀ s, d.ticketState = some s → s.sequence < t.sequence) ∧
      ∀ n, presented = some n → t.credentials.view = c.credentials.view →
        ∃ r₀, d.readiness = some r₀ ∧ r₀.Acknowledges n := by
  have hp : ¬Plain op r := fun hp => (Plain.quiet (c := c) hp).ticket t ⟨presented,hop,hok⟩
  cases ht with
  | halted _ _ _ h | idle _ h | serviced _ _ h | suspended _ _ h => exact absurd h hp
  | drained hd hop' ho hnw =>
    cases hop.symm.trans hop'
    refine ⟨_,_,hd,hnw,fun n _ hview => ?_⟩
    have hold := of_decide_eq_true ho.2.2.1
    rw [hview,(keeps_of_serviced hd.serviced).1] at hold
    exact absurd hold (lt_irrefl _)
  | consumed => cases hok
  | granted hd hop' hc =>
    cases hop.symm.trans hop'
    exact ⟨_,_,hd,hc.newer,fun n hn => by cases hn⟩
  | acknowledged hd hop' hc hr hreport =>
    cases hop.symm.trans hop'
    refine ⟨_,_,hd,hc.newer,fun n hn _ => ?_⟩
    cases hn
    exact ⟨_,hr,hreport⟩
  | shown | recovered | ticketed | enabled | bound | rebound | reported => cases hop

theorem event_turn {ops} (hc : Starts c) (h : trace c ops = past ++ e :: later) :
    Filed past e.before ∧ Turn e.before e.input e.reply (after e) := by
  obtain ⟨before,_,_,_,rfl,rfl,_⟩ := trace_split step h
  exact ⟨filed_run (filed_of_starts hc) before,call_turn _ _⟩

/-- Resuming is causal: a record of input after a lapse of the view follows a reported loss, the
acknowledgement of a newer report and new evidence. Tickets are consumed in order, what they
acknowledge only grows up to the last report, and a ticket of a superseded generation installs
nothing. -/
theorem causal_resume {c : InputClient} (hc : Starts c) (ops : List Op) :
    (∀ past e mid send later, trace c ops = past ++ e :: (mid ++ send :: later) →
      e.before.readiness.isSome = true → GoesStale e → Sends send →
        send.before.credentials.view.recovery = e.before.credentials.view.recovery →
        Crossed (e :: mid) ∧ ∃ x ∈ e :: mid, InstallsEvidence x) ∧
    (∀ past e later, trace c ops = past ++ e :: later → ∀ t, AcceptsTicket e t →
      ∀ x ∈ past, ∀ t', AcceptsTicket x t' → t'.sequence < t.sequence) ∧
    (∀ past e later, trace c ops = past ++ e :: later → ∀ n, AcceptsReport e n →
      (∀ x ∈ past, x.before.credentials.view.recovery = e.before.credentials.view.recovery →
        ∀ n', AcceptsReport x n' → n' ≤ n) ∧
      ∃ last, lastAdmitted e.before.credentials.view.recovery past = some last ∧ n ≤ last) ∧
    ∀ e ∈ trace c ops, ∀ t presented, ticketIn e.before e.input = some (t,presented) →
      e.before.credentials.view.recovery.supersedes t.credentials.view.recovery = true →
      (after e).credentials.ticket = e.before.credentials.ticket ∧
        (after e).ticketState.map TicketState.until_ =
          e.before.ticketState.map TicketState.until_ := by
  refine ⟨fun past e mid send later h hr hstale => resumed_of_sends hc h hr hstale,?_,?_,?_⟩
  · rintro past e later h t ⟨presented,ho,hok⟩ x hx t' hx'
    obtain ⟨hfil,ht⟩ := event_turn hc h
    obtain ⟨d,now,hd,hnw,_⟩ := ht.accepts ho hok
    obtain ⟨s,hs,hle⟩ := hfil.ticket x hx t' hx'
    rw [← (keeps_of_serviced hd.serviced).2] at hs
    exact hle.trans_lt (hnw s hs)
  · rintro past e later h n ⟨t,ho,hview,hok⟩
    obtain ⟨hfil,ht⟩ := event_turn hc h
    obtain ⟨d,now,hd,_,hreport⟩ := ht.accepts ho hok
    obtain ⟨r,hr,hrep,_,hceiling,ha⟩ := hreport n rfl hview
    have hreports := (kept_of_serviced hd.serviced).reports.symm.trans (reports_of_readiness hr)
    refine ⟨fun x hx hsm n' hn' => ?_,r.ceiling,?_,hceiling⟩
    · obtain ⟨b,k,m,hm,hle⟩ := hfil.acknowledged hd.running x hx n' hn' hsm
      cases hreports.symm.trans hm
      exact hle.trans ha
    · rw [hrep] at hreports
      exact hfil.ceiling hd.running _ _ hreports
  · intro e he t presented ho hold
    obtain ⟨past,later,h⟩ := append_of_mem he
    exact (event_turn hc h).2.superseded ho hold

end Runs

/-! A view that is suspended and comes back. -/

def resumeTicket (sequence presented : ℕ) : ReadinessTicket :=
  ⟨⟨⟨⟨⟨1⟩,⟨2⟩,⟨3+sequence⟩,⟨0,0,0,⟨0⟩⟩⟩,sequence,sequence,1000000⟩,1000000⟩,presented⟩

def resumeClock : ClockCorrelation :=
  ⟨⟨⟨9⟩,0,0,0⟩,default,10000000,by decide,by decide,by decide⟩

def resumeReport (sequence : ℕ) (visible : Bool) : AdmittedCursor :=
  ⟨⟨⟨0,⟨9⟩,0,⟨1⟩⟩,0,0,0,⟨0⟩,0⟩,sequence,visible,1⟩

def watching : List Op :=
  [.confirmMapping ⟨1⟩ ⟨0,0,0,⟨0⟩⟩ 1,.presented ⟨⟨1⟩,1,⟨0,0,0,⟨0⟩⟩,1,0⟩ 1,
    .acceptTicket ((encodeTicket (resumeTicket 1 0).authority.ticket 4096 sampleProtocolLimits 7
      .hostToViewer .reliable).toOption.getD []) resumeClock 2,
    .expectReadinessFeedback 3,
    .bindReadinessReporter (resumeReport 0 false) 4]

def returning : List Op :=
  [.presented ⟨⟨1⟩,2,⟨0,0,0,⟨0⟩⟩,6,0⟩ 6,.reportAdmitted (resumeReport 1 false) 7,
    .reportAdmitted (resumeReport 2 true) 8,.acceptReadinessTicket
      ((encodeReadiness (resumeTicket 2 2) 4096 sampleProtocolLimits 7 .hostToViewer
      .reliable).toOption.getD []) resumeClock 9]

def pressing : Op := .action (.key sampleKey .press) 4096 10

def lapsing (c : InputClient) : Event := ⟨c,.suspend 5,.ok .done⟩

def resumed (c : InputClient) : Event :=
  ⟨final c returning,pressing,(step (final c returning) pressing).1⟩

theorem sends_of_keep {c a room now r}
    (h : keep [] ⟨c,.action a room now,r⟩ ≠ []) : Sends ⟨c,.action a room now,r⟩ := by
  rcases r with _ | _ | _ | rec
  all_goals first | exact ⟨_,.inl ⟨a,room,now,rec,rfl,rfl,rfl⟩⟩ | exact absurd rfl h

theorem trace_lapsing (c : InputClient) (ops : List Op) :
    trace c (.suspend 5 :: (ops ++ [pressing])) = lapsing c :: (trace (after (lapsing c)) ops ++
      [⟨final (after (lapsing c)) ops,pressing,
        (step (final (after (lapsing c)) ops) pressing).1⟩]) :=
  congrArg (lapsing c :: ·) (trace_append step (after (lapsing c)) ops [pressing])

theorem causal_resume_returned : ∃ c t, typist = .ok c ∧ t = final c watching ∧ GoesStale
    (lapsing t) ∧ Sends (resumed (after (lapsing t))) ∧ Crossed
    (lapsing t :: trace (after (lapsing t)) returning) ∧
    ∃ x ∈ lapsing t :: trace (after (lapsing t)) returning, InstallsEvidence x := by
  have hrun : ∀ c, typist = .ok c → (final c watching).viewUntil = some 250001 ∧
      (final c watching).clock < 250001 ∧ (final c watching).readiness.isSome = true ∧
      (resumed (after (lapsing (final c watching)))).before.credentials.view.recovery =
        (final c watching).credentials.view.recovery ∧
      keep [] (resumed (after (lapsing (final c watching)))) ≠ [] := by
    rintro _ ⟨⟩
    decide +kernel
  obtain ⟨c,hc⟩ : ∃ c, typist = .ok c := ⟨_,rfl⟩
  obtain ⟨hview,hck,hr,hsm,hkeep⟩ := hrun c hc
  have htr : trace c (watching ++ .suspend 5 :: (returning ++ [pressing])) =
      trace c watching ++ trace (final c watching) (.suspend 5 :: (returning ++ [pressing])) :=
    trace_append step c watching _
  generalize ht : final c watching = t at hview hck hr hsm hkeep htr
  rw [trace_lapsing] at htr
  have hs : GoesStale (lapsing t) := ⟨250001,hview,hck,.inl (suspend_viewUntil t 5)⟩
  have hsend : Sends (resumed (after (lapsing t))) := sends_of_keep hkeep
  have hresume := (causal_resume ⟨_,_,_,_,_,_,_,hc⟩ _).1 (trace c watching) (lapsing t)
    (trace (after (lapsing t)) returning) (resumed (after (lapsing t))) [] htr hr hs hsend hsm
  exact ⟨c,t,hc,ht.symm,hs,hsend,hresume⟩

end FrankenRemote.Client
