import FrankenRemote.AuthorityRun

/-! Each public call of the authority does one of the things `Effect` lists. The two
submission checks also get their guards in full, and the resume boundary its second
clock check as a no-op. -/
namespace FrankenRemote.Authority

open Procedure SlotTable SessionAuthority

section Calls

variable {α : Type} {s : SessionAuthority} {op : Op} {now : HostInstant}
    {f : Except AuthorityError α → Reply}
  {m : Call α} {P : Except AuthorityError α → SessionAuthority → Prop}

/-- Replies that carry a `Result` are positive exactly on `Ok`. -/
def Faithful (f : Except AuthorityError α → Reply) : Prop := ∀ r, (f r).isOk = r.isOk

theorem Faithful.error (hf : Faithful f) (e : AuthorityError) : (f (.error e)).isOk = false := hf _

theorem checkTime_bind (hbad : s.Regresses now → P (.error .clockRegression) s.fault)
    (hok : ¬s.Regresses now → Ensures m (s.advance now) P) : Ensures (do checkTime now; m) s P := by
  by_cases hr : s.Regresses now
  · exact .of_exec (by rw [exec_checkTime_bind,if_pos hr]) (hbad hr)
  · rw [Ensures,exec_checkTime_bind,if_neg hr]
    exact hok hr

theorem checkObservationLive_bind
    (hbad : ¬s.ObservationLive now → P (.error s.observationRefusal) s)
    (hok : s.ObservationLive now → Ensures m s P) :
    Ensures (do checkObservationLive now; m) s P := by
  by_cases hl : s.ObservationLive now
  · rw [Ensures,exec_checkObservationLive_bind,if_pos hl]
    exact hok hl
  · exact .of_exec (by rw [exec_checkObservationLive_bind,if_neg hl]) (hbad hl)

theorem deadlineFrom_bind {k} (hbad : P (.error .deadlineOverflow) s)
    (hok : ∀ d, s.freshDeadline now = some d → Ensures (k d) s P) :
    Ensures (deadlineFrom now >>= k) s P := by
  rw [Ensures,exec_deadlineFrom_bind]
  cases hd : s.freshDeadline now with
  | none => exact hbad
  | some d => exact hok d hd

theorem effected (h : Ensures m s fun r t => Effect s op (f r) t) : Effect s op (answer f m s).1
    (answer f m s).2 := h

theorem effect_checkTime_bind (hf : Faithful f) (ho : op.gate = some now)
    (h : ¬s.Regresses now → (∀ e, Effect s op (f (.error e)) (s.advance now)) →
      Ensures m (s.advance now) fun r t => Effect s op (f r) t) :
    Effect s op (answer f (do checkTime now; m) s).1 (answer f (do checkTime now; m) s).2 :=
  effected (checkTime_bind (fun hr => .faulted ho hr (hf.error _)) fun hr => h hr fun e =>
    .gated ho hr (by rw [hf.error]; intro h; cases h))

/-- Most calls pass the clock gate and then require live observation. -/
theorem effect_live_bind {call : Call α} (hf : Faithful f) (ho : op.gate = some now)
    (hc : call = do checkTime now; checkObservationLive now; m)
    (h : ¬s.Regresses now → (s.advance now).ObservationLive now →
      (∀ e, Effect s op (f (.error e)) (s.advance now)) →
      Ensures m (s.advance now) fun r t => Effect s op (f r) t) :
    Effect s op (answer f call s).1 (answer f call s).2 := by
  subst hc
  exact effect_checkTime_bind hf ho fun hr no => checkObservationLive_bind (fun _ => no _)
    fun hl => h hr hl no

end Calls

theorem faithful_done : Faithful Reply.done := fun _ => rfl
theorem faithful_instant : Faithful Reply.instant := fun _ => rfl
theorem faithful_owner : Faithful Reply.owner := fun _ => rfl

variable {s : SessionAuthority} {now : HostInstant}

theorem effect_kept_error {α : Type} {f : Except AuthorityError α → Reply}
    {op : Op} (hf : Faithful f) (ho : op.sample = none) (e : AuthorityError) :
    Effect s op (f (.error e)) s :=
  .kept ho (by rw [hf.error]; intro h; cases h)

abbrev Effected (s : SessionAuthority) (op : Op) : Prop := Effect s op (step s op).1 (step s op).2

variable (s now)

theorem markCapabilitiesChecked_effect : Effected s .markCapabilitiesChecked := by
  refine effected (.get_bind (.refuseIf_bind (fun _ => ?_) fun h => ?_))
  · exact effect_kept_error faithful_done rfl _
  · exact Effect.capabilities (not_not.mp h)

theorem requireApproval_effect : Effected s .requireApproval := by
  refine effected (.get_bind (.refuseIf_bind (fun _ => ?_) fun h => ?_))
  · exact effect_kept_error faithful_done rfl _
  · exact Effect.approval (not_not.mp h)

theorem authorizeObservation_effect : Effected s (.authorizeObservation now) := by
  refine effect_checkTime_bind faithful_done rfl
    fun hr no => .get_bind (.refuseIf_bind (fun _ => no _) fun hp =>
    deadlineFrom_bind (no _) fun d hd => ?_)
  exact Effect.observed hr (not_not.mp hp) hd

theorem authorizeObservationDelivery_effect : Effected s (.authorizeObservationDelivery now) := by
  refine effect_checkTime_bind faithful_done rfl fun hr no => ?_
  rw [Ensures,exec_checkObservationLive]
  split
  · exact .gated rfl hr (fun _ => rfl)
  · exact no _

theorem observationDeadline_effect : Effected s (.observationDeadline now) := by
  refine effect_live_bind
    (m := do let s ← get; okOr s.observationUntil .observationExpired) faithful_instant rfl
    (by simp only [Authority.observationDeadline,authorizeObservationDelivery,bind_assoc])
    fun hr hl no => .get_bind ?_
  obtain ⟨o,ho,_⟩ := hl.deadline
  rw [ho]
  exact Effect.gated rfl hr fun _ => rfl

theorem lapseView_eq (at_ : HostInstant) : s.lapseView at_ = {s with
      viewUntil := none
      presentedSequence := none
      readiness := if s.readiness = .ready then .stale else s.readiness
      suspension :=
        if s.readiness = .ready ∧ s.boundedView ∧ s.lease.isSome ∧ s.suspension.isNone then
          some ⟨at_,false⟩
        else s.suspension
      lease := s.lease.map Lease.withoutTickets} := by
  by_cases h : s.readiness = .ready <;> simp [lapseView,dropTickets,h]

/-- The two readiness setters drop the presented report before the clock gate. -/
theorem advance_unpresented : {s with presentedSequence := none}.advance now =
      {s.advance now with presentedSequence := none} := by
  unfold advance lapseIfDue
  cases s.viewUntil with
  | none => rfl
  | some v =>
    dsimp only
    split
    · rw [lapseView_eq,lapseView_eq]
    · rfl

theorem unpresented_bind {m : Call Unit} {P}
    (hbad : s.Regresses now → P (.error .clockRegression) s.fault)
    (hdead : ¬s.Regresses now → ∀ e, P (.error e) {s.advance now with presentedSequence := none})
    (hok : ¬s.Regresses now → (s.advance now).ObservationLive now →
      Ensures m {s.advance now with presentedSequence := none} P) :
    Ensures (do modify ({· with
      presentedSequence := none}); checkTime now; checkObservationLive now; m) s P := by
  refine .modify_bind (checkTime_bind hbad fun hr => ?_)
  rw [advance_unpresented]
  exact checkObservationLive_bind (fun _ => hdead hr _) (hok hr)

theorem markViewReady_effect : Effected s (.markViewReady now) := by
  refine effected (unpresented_bind s now (fun hr => .faulted rfl hr rfl)
    (fun hr _ => .unpresented rfl hr rfl)
    fun hr hl => .get_bind (.refuseIf_bind (fun _ => .unpresented rfl hr rfl) fun hb => ?_))
  exact Effect.ready hr hl (by simpa using hb)

theorem requireViewEvidence_effect : Effected s (.requireViewEvidence now) := by
  refine effect_live_bind faithful_done rfl rfl
    fun hr hl no => .get_bind (.refuseIf_bind (fun _ => no _) fun _ => ?_)
  exact Effect.evidence hr hl

theorem checkSuspension_ensures (now : HostInstant) (s : SessionAuthority) :
    Ensures (checkSuspension now) s fun r t => t = s ∧ (r = .ok () → s.Revivable now) := by
  unfold Revivable
  refine .get_bind ?_
  cases s.suspension with
  | none => exact .refuseIf (fun _ => ⟨rfl,fun h => by cases h⟩) fun h => ⟨rfl,fun _ => h⟩
  | some suspension =>
    refine .okOr_bind (fun _ => ⟨rfl,fun h => by cases h⟩) fun limit hl =>
      .refuseIf_bind (fun _ => ⟨rfl,fun h => by cases h⟩) fun hn =>
        .refuseIf (fun _ => ⟨rfl,fun h => by cases h⟩) fun hr => ⟨rfl,fun _ => ?_⟩
    obtain ⟨rfl,_⟩ := checkedAdd_eq_some.mp hl
    exact ⟨Nat.lt_of_not_le hn,not_not.mp hr⟩

/-- Readiness with a source deadline: refused without a trace beyond the clock
gate and the dropped report, or installed as a whole. -/
theorem markViewReadyUntil_ensures (u now : HostInstant)
    {P : Except AuthorityError Unit → SessionAuthority → Prop}
    (hbad : s.Regresses now → P (.error .clockRegression) s.fault)
    (hno : ¬s.Regresses now → ∀ e, P (.error e) {s.advance now with presentedSequence := none})
    (hok : ¬s.Regresses now → (s.advance now).ObservationLive now → now < u →
      (s.advance now).Revivable now → P (.ok ()) {s.advance now with
          presentedSequence := none
          suspension := none
          boundedView := true
          viewUntil := some u
          phase := .viewing
          readiness := .ready}) : Ensures (Authority.markViewReadyUntil u now) s P := by
  refine unpresented_bind s now hbad hno fun hr hl => .refuseIf_bind (fun _ => hno hr _) fun hu =>
    Ensures.bind (checkSuspension_ensures now _) ?_ ?_
  · rintro _ t ⟨rfl,hv⟩
    exact .get_bind (.refuseIf_bind (fun _ => hno hr _)
      fun _ => hok hr hl (Nat.lt_of_not_le hu) (hv rfl))
  · rintro e t ⟨rfl,_⟩
    exact hno hr e

theorem markViewReadyUntil_effect (u now : HostInstant) : Effected s (.markViewReadyUntil u now) :=
  effected (markViewReadyUntil_ensures s u now (fun hr => .faulted rfl hr rfl)
    (fun hr _ => .unpresented rfl hr rfl) fun hr hl hu hv => .revived (.inl ⟨rfl,rfl⟩) hr hl hu hv)

theorem markPresentedReadyUntil_effect (se : ℕ+) (u now : HostInstant) :
    Effected s (.markPresentedReadyUntil se u now) :=
  effected (.of_bind (markViewReadyUntil_ensures s u now (fun hr => Effect.faulted rfl hr rfl)
    (fun hr _ => Effect.unpresented rfl hr rfl) fun hr hl hu hv =>
      Effect.revived (.inr ⟨se,rfl,rfl⟩) hr hl hu hv))

theorem advanceRecovery_effect (g : RecoveryGeneration) : Effected s (.advanceRecovery g) := by
  refine effected (.get_bind (.refuseIf_bind (fun _ => ?_) fun h => .refuseIf_bind (fun _ => ?_)
    fun _ => ?_))
  · exact effect_kept_error faithful_done rfl _
  · exact effect_kept_error faithful_done rfl _
  · exact Effect.recovered h

theorem confirmSuspensionRelease_effect (l : InputLeaseId) :
    Effected s (.confirmSuspensionRelease l) := by
  refine effected (.get_bind (.refuseIf_bind (fun _ => ?_) fun h => ?_))
  · exact effect_kept_error faithful_done rfl _
  · exact Effect.confirmed (not_not.mp h)

theorem statusAt_state : Ensures (statusAt now) s fun _ t => t = s := by
  refine checkObservationLive_bind (fun _ => rfl)
    fun _ => .get_bind (.okOr_bind (fun _ => rfl) fun _ _ =>
    .okOr_bind (fun _ => rfl) fun _ _ => .refuseIf_bind (fun _ => rfl) fun _ => .ite (fun _ => rfl)
      fun _ => ?_)
  exact .okOr_bind (fun _ => rfl) fun _ _ => .okOr_bind (fun _ => rfl) fun _ _ =>
    .refuseIf_bind (fun _ => rfl) fun _ => rfl

theorem exec_controlStatus :
    exec (Authority.controlStatus now) s = if s.clockFaulted = true then (.error .clockRegression,s)
      else exec (statusAt (s.serializedTime now)) (s.lapseIfDue (s.serializedTime now)) := by
  simp only [Authority.controlStatus,exec_get_bind,exec_refuseIf_bind,exec_modify_bind]

theorem controlStatus_effect : Effected s (.controlStatus now) := by
  refine effected (.get_bind (.refuseIf_bind .deaf fun h => .modify_bind ?_))
  rw [Ensures,statusAt_state]
  exact .monitored (by simpa using h)

theorem issueObservationChallenge_effect (nonce : ℕ) (now : HostInstant) :
    Effected s (.issueObservationChallenge nonce now) := by
  refine effect_live_bind faithful_instant rfl rfl
    fun hr hl no => .get_bind (.refuseIf_bind (fun _ => no _) fun _ =>
    deadlineFrom_bind (no _) fun d hd => ?_)
  exact Effect.observationChallenged hr hl hd

/-- Consumption of a challenge: untouched on a mismatch, removed on a match. -/
theorem consumeChallenge_bind {α : Type} {k : Challenge → Call α} {P}
    {slot : SessionAuthority → Option Challenge}
    {clear : SessionAuthority → SessionAuthority} {nonce : ℕ} (hno : ∀ e, P (.error e) s)
    (hlate : ∀ e, P (.error e) (clear s))
    (hok : ∀ d, slot s = some ⟨nonce,d⟩ → now < d → Ensures (k ⟨nonce,d⟩) (clear s) P) :
    Ensures (consumeChallenge slot clear nonce now >>= k) s P := by
  refine .of_bind (.get_bind (.okOr_bind (fun _ => hno _)
    fun c hs => .refuseIf_bind (fun _ => hno _) fun hn =>
    .modify_bind (.refuseIf_bind (fun _ => hlate _) fun hd => ?_)))
  obtain rfl := not_not.mp hn
  exact hok c.deadline hs (not_le.mp hd)

theorem respondObservationChallenge_effect (nonce : ℕ) (now : HostInstant) :
    Effected s (.respondObservationChallenge nonce now) :=
  effect_live_bind faithful_instant rfl rfl fun hr hl no => consumeChallenge_bind _ now no
    (fun _ => .observationLate hr) fun _ hc hd => Effect.observationRenewed hr hl hc hd

theorem grantLease_effect (l : InputLeaseId) (now : HostInstant) :
    Effected s (.grantLease l now) := by
  refine effect_live_bind faithful_done rfl rfl
    fun hr hl no => .get_bind (.refuseIf_bind (fun _ => no _) fun hp =>
    .refuseIf_bind (fun _ => no _) fun hv => ?_)
  cases he : (s.advance now).lease with
  | some existing => exact no _
  | none =>
    refine deadlineFrom_bind (no _) fun d hd => ?_
    exact Effect.granted hr hl (not_not.mp hp) (not_not.mp hv) he hd

theorem issueControlChallenge_effect (nonce : ℕ) (now : HostInstant) :
    Effected s (.issueControlChallenge nonce now) := by
  refine effect_live_bind faithful_instant rfl rfl
    fun hr hl no => .get_bind (.okOr_bind (fun _ => no _) fun lease he =>
    .refuseIf_bind (fun _ => no _) fun hu => .refuseIf_bind (fun _ => no _) fun _ =>
      deadlineFrom_bind (no _) fun d hd => ?_)
  exact Effect.controlChallenged hr hl he (not_le.mp hu) hd

theorem respondControlChallenge_effect (l : InputLeaseId) (nonce : ℕ) (now : HostInstant) :
    Effected s (.respondControlChallenge l nonce now) := by
  refine effect_live_bind faithful_instant rfl rfl
    fun hr hl no => .get_bind (.okOr_bind (fun _ => no _) fun lease he =>
    .refuseIf_bind (fun _ => no _) fun hi => .ite (fun _ => Effect.controlLate hr) fun hu =>
      consumeChallenge_bind _ now no (fun _ => .controlLate hr) fun d hc hd => ?_)
  obtain rfl := not_not.mp hi
  exact Effect.controlRenewed hr hl he (not_le.mp hu) hc hd

theorem issueTicketChecked_effect (op : Op) (l : InputLeaseId) (t : InputTicketId)
    (now : HostInstant) (p : Bool) (hop : op.issues = some (l,t,now)) (hg : op.gate = some now) :
    Effect s op (answer .instant (issueTicketChecked l t now p) s).1
      (answer .instant (issueTicketChecked l t now p) s).2 := by
  refine effect_live_bind faithful_instant hg rfl
    fun hr hl no => .get_bind (.refuseIf_bind (fun _ => no _) fun hv =>
    .okOr_bind (fun _ => no _) fun lease he => .refuseIf_bind (fun _ => no _) fun hid =>
      .refuseIf_bind (fun _ => no _) fun hu => .refuseIf_bind (fun _ => no _) fun ht =>
        .okOr_bind (fun _ => no _) fun uncapped hc => .okOr_bind (fun _ => no _) fun o ho =>
          .okOr_bind (fun _ => no _) fun slot _ => ?_)
  obtain rfl := not_not.mp hid
  have hf : ∀ i ticket, lease.tickets i = some ticket → ticket.id ≠ t := by
    intro i ticket hi heq
    apply ht
    right
    exact List.any_eq_true.mpr ⟨ticket,mem_entries.mpr ⟨i,hi⟩,by simpa using heq⟩
  have hcap : now < uncapped := by simpa using (Option.filter_eq_some_iff.mp hc).2
  have hlt : now < o := by simpa [ho] using hl.2
  exact Effect.issued hop hr hl (not_not.mp fun h => hv (.inl h)) he (fun h => ht (.inl h)) hf ho
    (lt_min (lt_min hcap (not_le.mp hu)) hlt) ((min_le_left _ _).trans (min_le_right _ _))
      (min_le_right _ _)

theorem invalidateInputTickets_effect (l : InputLeaseId) :
    Effected s (.invalidateInputTickets l) := by
  refine effected (.get_bind (.okOr_bind (fun _ => ?_) fun lease he => .refuseIf_bind (fun _ => ?_)
    fun hi => ?_))
  · exact effect_kept_error faithful_done rfl _
  · exact effect_kept_error faithful_done rfl _
  · obtain rfl := not_not.mp hi
    exact Effect.invalidated he

theorem exec_authorizeObservationDelivery : exec (Authority.authorizeObservationDelivery now) s =
      if s.Regresses now then (.error .clockRegression,s.fault)
      else if (s.advance now).ObservationLive now then (.ok (),s.advance now)
      else (.error (s.advance now).observationRefusal,s.advance now) := by
  simp only [Authority.authorizeObservationDelivery,exec_checkTime_bind,exec_checkObservationLive]

theorem hasLiveControl_effect : Effected s (.hasLiveControl now) := by
  simp only [Effected,step,Authority.hasLiveControl,exec_authorizeObservationDelivery]
  by_cases hr : s.Regresses now
  · simp only [hr,if_true]
    exact .faulted rfl hr rfl
  by_cases hl : (s.advance now).ObservationLive now
  · simp only [hr,hl,if_true,if_false]
    exact .gated rfl hr fun _ => rfl
  · simp only [hr,hl,if_false]
    exact .gated rfl hr fun _ => rfl

/-- What the final submission check requires of the state behind the clock gate. -/
structure SessionAuthority.Submittable (s : SessionAuthority) (l : InputLeaseId)
    (t : InputTicketId) (now : HostInstant) (lease : Lease) (ticket : Ticket) : Prop where
  viewing : s.phase = .viewing
  observed : s.ObservationLive now
  ready : s.readiness = .ready
  held : s.lease = some lease
  lease_id : lease.id = l
  lease_live : now < lease.authorizedUntil
  stored : (entries lease.tickets).find? (·.id = t) = some ticket
  ticket_live : now < ticket.expiresAt

theorem authorizeSubmission_ensures {l : InputLeaseId} {t : InputTicketId} {P}
    (hbad : s.Regresses now → P (.error .clockRegression) s.fault)
    (hno : ¬s.Regresses now → (∀ lease ticket, ¬(s.advance now).Submittable l t now lease ticket) →
      ∀ e, P (.error e) (s.advance now))
    (hok : ¬s.Regresses now → ∀ lease ticket, (s.advance now).Submittable l t now lease ticket →
      P (.ok ()) (s.advance now)) : Ensures (Authority.authorizeSubmission l t now) s P := by
  refine checkTime_bind hbad fun hr => .get_bind ?_
  have no {q : Prop} (h : ∀ lease ticket, (s.advance now).Submittable l t now lease ticket → ¬q)
      (hq : q) (e) :=
    hno hr (fun lease ticket hs => h lease ticket hs hq) e
  refine .refuseIf_bind (no (fun _ _ hs => not_not.mpr hs.viewing) · _) fun hp =>
    checkObservationLive_bind (no (fun _ _ hs => not_not.mpr hs.observed) · _) fun hl =>
      .refuseIf_bind (no (fun _ _ hs => not_not.mpr hs.ready) · _) fun hv =>
        .okOr_bind (no (fun _ _ hs hm => by cases hm.symm.trans hs.held) · _) fun lease hm => ?_
  have same {q : Prop} (h : ∀ ticket, (s.advance now).Submittable l t now lease ticket → ¬q) :=
    no fun lease' ticket hs => h ticket (by cases hm.symm.trans hs.held; exact hs)
  refine .refuseIf_bind (same (fun _ hs => not_not.mpr hs.lease_id) · _) fun hi =>
    .refuseIf_bind (same (fun _ hs => not_le.mpr hs.lease_live) · _) fun hu =>
      .okOr_bind (same (fun _ hs ht => by cases ht.symm.trans hs.stored) · _) fun ticket ht =>
        .refuseIf (same (fun _ hs hx => ?_) · _) fun hx => hok hr lease ticket ?_
  · cases ht.symm.trans hs.stored
    exact not_le.mpr hs.ticket_live hx
  · exact ⟨not_not.mp hp,hl,not_not.mp hv,hm,not_not.mp hi,not_le.mp hu,ht,not_le.mp hx⟩

/-- The instant before which an accepted submission must reach the OS. -/
def SessionAuthority.submitBy (s : SessionAuthority) (lease : Lease) (ticket : Ticket)
    (observation : HostInstant) : HostInstant :=
  let until_ := min (min ticket.expiresAt lease.authorizedUntil) observation
  s.viewUntil.elim until_ (min until_ ·)

theorem submissionDeadline_ensures {l : InputLeaseId} {t : InputTicketId} {P}
    (hbad : s.Regresses now → P (.error .clockRegression) s.fault)
    (hno : ¬s.Regresses now → ∀ e, P (.error e) (s.advance now))
    (hok : ¬s.Regresses now → ∀ lease ticket o, (s.advance now).Submittable l t now lease ticket →
      (s.advance now).observationUntil = some o → P (.ok ((s.advance now).submitBy lease ticket o))
        (s.advance now)) :
    Ensures (Authority.submissionDeadline l t now) s P := by
  refine .of_bind (authorizeSubmission_ensures s now hbad (fun hr _ => hno hr)
    fun hr lease ticket hs => .get_bind ?_)
  obtain ⟨o,ho,-⟩ := hs.observed.deadline
  rw [hs.held]
  refine .okOr_bind (fun h => by cases h) fun _ h => ?_
  cases h
  rw [hs.stored,ho]
  exact hok hr lease ticket o hs ho

theorem authorizeSubmission_effect (l : InputLeaseId) (t : InputTicketId)
    (now : HostInstant) : Effected s (.authorizeSubmission l t now) :=
  effected (authorizeSubmission_ensures s now (fun hr => .faulted rfl hr rfl)
    (fun hr _ _ => .gated rfl hr fun _ => rfl) fun hr _ _ _ => .gated rfl hr fun _ => rfl)

theorem submissionDeadline_effect (l : InputLeaseId) (t : InputTicketId)
    (now : HostInstant) : Effected s (.submissionDeadline l t now) :=
  effected (submissionDeadline_ensures s now (fun hr => .faulted rfl hr rfl)
    (fun hr _ => .gated rfl hr fun _ => rfl) fun hr _ _ _ _ _ => .gated rfl hr fun _ => rfl)

theorem lapseIfDue_cases : (s.lapseIfDue now = s ∧ ∀ u, s.viewUntil = some u → now < u) ∨
    ∃ u, s.viewUntil = some u ∧ u ≤ now ∧ s.lapseIfDue now = s.lapseView u := by
  unfold lapseIfDue
  cases hv : s.viewUntil with
  | none => exact .inl ⟨rfl,by simp⟩
  | some u =>
    by_cases hu : u ≤ now
    · exact .inr ⟨u,rfl,hu,if_pos hu⟩
    · exact .inl ⟨if_neg hu,by simpa using hu⟩

theorem advance_cases :
    (s.advance now = {s with lastChecked := some now} ∧ ∀ u, s.viewUntil = some u → now < u) ∨
    ∃ u, s.viewUntil = some u ∧ u ≤ now ∧
    s.advance now = {s with lastChecked := some now}.lapseView u :=
  lapseIfDue_cases {s with lastChecked := some now} now

variable {s now}

/-- A sample already checked: no view deadline has passed it. -/
structure SessionAuthority.Settled (s : SessionAuthority) (now : HostInstant) : Prop where
  checked : s.lastChecked = some now
  sound : s.clockFaulted = false
  pending : ∀ u, s.viewUntil = some u → now < u

theorem SessionAuthority.Settled.not_regresses (h : s.Settled now) : ¬s.Regresses now := by
  simp [Regresses,h.checked,h.sound]

theorem SessionAuthority.Settled.advance_eq (h : s.Settled now) : s.advance now = s := by
  have hs : {s with lastChecked := some now} = s := by rw [← h.checked]
  rw [advance,hs,lapseIfDue]
  cases hv : s.viewUntil with
  | none => rfl
  | some u => exact if_neg (not_le.mpr (h.pending u hv))

theorem not_regresses_iff : ¬s.Regresses now ↔ s.clockFaulted = false ∧
    ∀ x, s.lastChecked = some x → x ≤ now := by
  cases h : s.lastChecked <;> simp [Regresses,h]

theorem lapseView_lastChecked (s : SessionAuthority) (at_ : HostInstant) :
    (s.lapseView at_).lastChecked = s.lastChecked := by rw [lapseView_eq]

theorem advance_settled (hr : ¬s.Regresses now) : (s.advance now).Settled now := by
  have hs := (not_regresses_iff.mp hr).1
  rcases advance_cases s now with ⟨h,hu⟩ | ⟨u,-,-,h⟩ <;> rw [h]
  · exact ⟨rfl,hs,hu⟩
  · rw [lapseView_eq]
    exact ⟨rfl,hs,by simp⟩

theorem dropObservation_settled (h : s.Settled now) : s.dropObservation.Settled now := by
  unfold dropObservation
  split <;> exact ⟨h.checked,h.sound,by simp [clearAuthority]⟩

theorem expireObservation_settled (h : s.Settled now) : (expireObservation now s).Settled now := by
  unfold expireObservation
  split
  · exact dropObservation_settled h
  · exact h

theorem expireLease_settled (h : s.Settled now) : (expireLease now s).Settled now := by
  unfold expireLease
  split
  · exact {h with}
  · exact h

theorem dropElapsed_settled (h : s.Settled now) : (dropElapsed now s).Settled now := by
  have ho := expireObservation_settled h
  have hc : (expireChallenges now (expireObservation now s)).Settled now :=
    {ho with}
  have hl := expireLease_settled hc
  exact {hl with}

theorem hasLiveControl_settled (h : s.Settled now) : (hasLiveControl now s).2 = s := by
  simp only [hasLiveControl,exec_authorizeObservationDelivery,if_neg h.not_regresses,h.advance_eq]
  by_cases hl : s.ObservationLive now
  · simp only [hl,if_true]
  · simp only [hl,if_false]

theorem applyResumeBoundary_effect (s : SessionAuthority) (now : HostInstant) :
    Effected s (.applyResumeBoundary now) := by
  simp only [Effected,step,Authority.applyResumeBoundary,exec_checkTime]
  by_cases hr : s.Regresses now
  · simp only [hr,if_true]
    exact .faulted rfl hr rfl
  · simp only [hr,if_false,hasLiveControl_settled (dropElapsed_settled (advance_settled hr))]
    exact .resumed hr

theorem claimNativeOwner_effect (s : SessionAuthority) (l : InputLeaseId) :
    Effected s (.claimNativeOwner l) := by
  refine effected (.get_bind (.refuseIf_bind (fun _ => ?_) fun hl => .refuseIf_bind (fun _ => ?_)
    fun ho => ?_))
  · exact effect_kept_error faithful_owner rfl _
  · exact effect_kept_error faithful_owner rfl _
  · exact Effect.claimed (not_not.mp hl) (by simpa using ho)

/-- The list of effects is complete. -/
theorem step_effect (s : SessionAuthority) (op : Op) : Effect s op (step s op).1 (step s op).2 := by
  cases op with
  | markCapabilitiesChecked => exact markCapabilitiesChecked_effect s
  | requireApproval => exact requireApproval_effect s
  | authorizeObservation now => exact authorizeObservation_effect s now
  | authorizeObservationDelivery now => exact authorizeObservationDelivery_effect s now
  | observationDeadline now => exact observationDeadline_effect s now
  | markViewReady now => exact markViewReady_effect s now
  | requireViewEvidence now => exact requireViewEvidence_effect s now
  | markViewReadyUntil u now => exact markViewReadyUntil_effect s u now
  | markPresentedReadyUntil q u now => exact markPresentedReadyUntil_effect s q u now
  | markViewStale => exact .stale
  | advanceRecovery g => exact advanceRecovery_effect s g
  | confirmSuspensionRelease l => exact confirmSuspensionRelease_effect s l
  | controlStatus now => exact controlStatus_effect s now
  | issueObservationChallenge nonce now => exact issueObservationChallenge_effect s nonce now
  | respondObservationChallenge nonce now => exact respondObservationChallenge_effect s nonce now
  | grantLease l now => exact grantLease_effect s l now
  | issueControlChallenge nonce now => exact issueControlChallenge_effect s nonce now
  | respondControlChallenge l nonce now => exact respondControlChallenge_effect s l nonce now
  | issueInputTicket l t now => exact issueTicketChecked_effect s _ l t now false rfl rfl
  | issuePresentedInputTicket l t now => exact issueTicketChecked_effect s _ l t now true rfl rfl
  | invalidateInputTickets l => exact invalidateInputTickets_effect s l
  | authorizeSubmission l t now => exact authorizeSubmission_effect s l t now
  | submissionDeadline l t now => exact submissionDeadline_effect s l t now
  | revokeLease => exact .revoked
  | hasLiveControl now => exact hasLiveControl_effect s now
  | controlDeadline | leaseDeadline => exact .kept rfl fun _ => rfl
  | applyResumeBoundary now => exact applyResumeBoundary_effect s now
  | invalidateForSuspend => exact .suspended
  | close => exact .closed
  | refuse => exact .refused
  | claimNativeOwner l => exact claimNativeOwner_effect s l

/-- Both submission checks accept exactly behind the same guards, and neither does
anything to the state but the clock gate. -/
theorem submits_ok {op : Op} {l t} (ho : op.submits = some (l,t,now))
    (hok : (step s op).1.isOk = true) : ¬s.Regresses now ∧ (step s op).2 = s.advance now ∧
      ∃ lease ticket, (s.advance now).Submittable l t now lease ticket := by
  cases op <;> cases ho
  case authorizeSubmission =>
    exact authorizeSubmission_ensures s now (P := fun r u => r.isOk = true → _ ∧ u = _ ∧
      _) (fun _ h => by cases h)
      (fun _ _ _ h => by cases h) (fun hr _ _ hs _ => ⟨hr,rfl,_,_,hs⟩) hok
  case submissionDeadline =>
    exact submissionDeadline_ensures s now (P := fun r u => r.isOk = true → _ ∧ u = _ ∧
      _) (fun _ h => by cases h)
      (fun _ _ h => by cases h) (fun hr _ _ _ hs _ _ => ⟨hr,rfl,_,_,hs⟩) hok

/-! What the clock gate and a lapse leave alone. -/

/-- Equality of everything but readiness, its evidence, the suspension, the lease
and the clock high-water mark. -/
structure SessionAuthority.Frame (s t : SessionAuthority) : Prop where
  session : t.session = s.session
  policy : t.policy = s.policy
  phase : t.phase = s.phase
  observationUntil : t.observationUntil = s.observationUntil
  boundedView : t.boundedView = s.boundedView
  recovery : t.recovery = s.recovery
  nativeOwner : t.nativeOwner = s.nativeOwner
  observationChallenge : t.observationChallenge = s.observationChallenge
  controlChallenge : t.controlChallenge = s.controlChallenge
  clockFaulted : t.clockFaulted = s.clockFaulted
  owners : t.owners = s.owners

variable (s now)

theorem lapseView_frame (at_ : HostInstant) : s.Frame (s.lapseView at_) := by
  rw [lapseView_eq]
  constructor <;> rfl

theorem lapseIfDue_frame : s.Frame (s.lapseIfDue now) := by
  rcases lapseIfDue_cases s now with ⟨h,-⟩|⟨u,-,-,h⟩
  · rw [h]
    constructor <;> rfl
  · rw [h]
    exact lapseView_frame s u

theorem advance_frame : s.Frame (s.advance now) := by
  obtain ⟨h1,h2,h3,h4,h5,h6,h7,h8,h9,h10,h11⟩ :=
    lapseIfDue_frame {s with lastChecked := some now} now
  exact ⟨h1,h2,h3,h4,h5,h6,h7,h8,h9,h10,h11⟩

variable {s now}

/-- Readiness behind the clock gate means that the gate lapsed nothing. -/
theorem advance_ready (h : (s.advance now).readiness = .ready) :
    s.advance now = {s with lastChecked := some now} ∧ ∀ u, s.viewUntil = some u → now < u := by
  rcases advance_cases s now with hc|⟨u,-,-,hc⟩
  · exact hc
  · rw [hc,lapseView_eq] at h
    dsimp only at h
    split at h
    · cases h
    · contradiction

/-- A lease that survives keeps its identity and deadline; its tickets survive
only if no view deadline was passed. -/
def SessionAuthority.Retains (s : SessionAuthority) (now : HostInstant) (lease' : Lease) : Prop :=
  ∃ lease, s.lease = some lease ∧ lease'.id = lease.id ∧
    lease'.authorizedUntil = lease.authorizedUntil ∧ ∀ i ticket, lease'.tickets i = some ticket →
      lease.tickets i = some ticket ∧ ∀ u, s.viewUntil = some u → now < u

theorem lapseIfDue_retains {l'} (h : (s.lapseIfDue now).lease = some l') : s.Retains now l' := by
  rcases lapseIfDue_cases s now with ⟨hc,hu⟩|⟨u,-,-,hc⟩
  · rw [hc] at h
    exact ⟨l',h,rfl,rfl,fun _ _ hi => ⟨hi,hu⟩⟩
  · rw [hc,lapseView_eq] at h
    obtain ⟨l,hl,rfl⟩ := Option.map_eq_some_iff.mp h
    exact ⟨l,hl,rfl,rfl,by simp [Lease.withoutTickets]⟩

theorem advance_retains {lease'} (h : (s.advance now).lease = some lease') : s.Retains now lease' :=
  lapseIfDue_retains (s := {s with lastChecked := some now}) h

end FrankenRemote.Authority
