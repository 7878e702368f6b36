import FrankenRemote.AuthorityTickets
import FrankenRemote.Renewal

/-! Deadlines move only as granted. Observation and control are two instances of a
renewable deadline; tickets stay within both. -/
namespace FrankenRemote.Authority

open Procedure SlotTable SessionAuthority Renewal

/-- Successful observation grants and observation challenges, with their times. -/
def observationDate (e : Event) : Option (HostInstant × Option ℕ) :=
  match e.input with
  | .authorizeObservation now => if e.reply.isOk then some (now,none) else none
  | .issueObservationChallenge nonce now => if e.reply.isOk then some (now,some nonce) else none
  | _ => none

/-- Successful lease grants and control challenges, with their times. -/
def controlDate (e : Event) : Option (HostInstant × Option ℕ) :=
  match e.input with
  | .grantLease _ now => if e.reply.isOk then some (now,none) else none
  | .issueControlChallenge nonce now => if e.reply.isOk then some (now,some nonce) else none
  | _ => none

def SessionAuthority.leaseUntil (s : SessionAuthority) : Option HostInstant :=
  s.lease.map Lease.authorizedUntil

def Challenge.pair (c : Challenge) : ℕ × HostInstant := (c.nonce,c.deadline)

def SessionAuthority.observationPending (s : SessionAuthority) : Option (ℕ × HostInstant) :=
  s.observationChallenge.map Challenge.pair

def SessionAuthority.controlPending (s : SessionAuthority) : Option (ℕ × HostInstant) :=
  s.controlChallenge.map Challenge.pair

/-! The clock behind a step. -/

variable {s s' : SessionAuthority} {op : Op} {r : Reply} {now : HostInstant}

theorem effect_gate (h : Effect s op r s') (hg : op.gate = some now) :
    (r.isOk = false ∧ s' = s.fault) ∨
      (s'.lastChecked = some now ∧ ∀ x, s.lastChecked = some x → x ≤ now) := by
  have past (hr : ¬s.Regresses now) : (s.advance now).lastChecked = some now ∧
      ∀ x, s.lastChecked = some x → x ≤ now :=
    ⟨(advance_settled hr).checked,(not_regresses_iff.mp hr).2⟩
  cases h with
  | kept hs => cases hs.symm.trans (gate_sample hg)
  | faulted _ _ hr => exact .inl ⟨hr,rfl⟩
  | gated hg' hr =>
    cases hg'.symm.trans hg
    exact .inr (past hr)
  | unpresented hg' hr =>
    cases hg'.symm.trans hg
    exact .inr (past hr)
  | evidence hr =>
    cases hg
    exact .inr ⟨(lapseView_lastChecked _ _).trans (past hr).1,(past hr).2⟩
  | revived ho hr =>
    rcases ho with ⟨rfl,-⟩|⟨q,rfl,-⟩ <;> cases hg <;> exact .inr (past hr)
  | issued ho hr =>
    cases (issues_gate ho).symm.trans hg
    exact .inr (past hr)
  | resumed hr =>
    cases hg
    exact .inr ⟨(dropElapsed_settled (advance_settled hr)).checked,(past hr).2⟩
  | observed hr | ready hr | observationChallenged hr | observationRenewed hr
  | observationLate hr | granted hr | controlChallenged hr | controlRenewed hr | controlLate hr =>
    cases hg
    exact .inr (past hr)
  | _ => cases hg

theorem effect_ungated (h : Effect s op r s') (hg : op.gate = none) :
    s'.lastChecked = s.lastChecked := by
  cases h with
  | faulted hg' | gated hg' | unpresented hg' => cases hg.symm.trans hg'
  | revived ho => rcases ho with ⟨rfl,-⟩|⟨q,rfl,-⟩ <;> cases hg
  | issued ho => cases hg.symm.trans (issues_gate ho)
  | stale => exact lapseView_lastChecked _ _
  | monitored =>
    rcases lapseIfDue_cases s (s.serializedTime _) with ⟨h,-⟩|⟨u,-,-,h⟩ <;> rw [h]
    exact lapseView_lastChecked _ _
  | suspended =>
    unfold dropObservation
    split <;> rfl
  | _ => first | rfl | cases hg

theorem effect_lastChecked_mono (h : Effect s op r s') {x} (hx : s.lastChecked = some x) :
    ∃ y, s'.lastChecked = some y ∧ x ≤ y := by
  cases hg : op.gate with
  | none => exact ⟨x,(effect_ungated h hg).trans hx,le_rfl⟩
  | some now =>
    rcases effect_gate h hg with ⟨-,rfl⟩|⟨hc,hle⟩
    · exact ⟨x,hx,le_rfl⟩
    · exact ⟨now,hc,hle x hx⟩

theorem effect_paced (h : Effect s op r s') {date : Event → Option (HostInstant × Option ℕ)}
    (hd : ∀ g n, date ⟨s,op,r⟩ = some (g,n) → r.isOk = true ∧ op.gate = some g) :
    Paced s.lastChecked s'.lastChecked (date ⟨s,op,r⟩) where
  mono _ := effect_lastChecked_mono h
  dated g n hg := by
    obtain ⟨hok,hgate⟩ := hd g n hg
    rcases effect_gate h hgate with ⟨hr,-⟩|⟨hc,-⟩
    · cases hr.symm.trans hok
    · exact hc

theorem observationDate_gate {g n} (h : observationDate ⟨s,op,r⟩ = some (g,n)) :
    r.isOk = true ∧ op.gate = some g := by
  cases op <;> simp [observationDate] at h <;> exact ⟨h.1,congrArg some h.2.1⟩

theorem controlDate_gate {g n} (h : controlDate ⟨s,op,r⟩ = some (g,n)) :
    r.isOk = true ∧ op.gate = some g := by
  cases op <;> simp [controlDate] at h <;> exact ⟨h.1,congrArg some h.2.1⟩

/-! The two renewable deadlines. -/

theorem dates_of_reads (h : r.isOk = true → op.reads = true) :
    observationDate ⟨s,op,r⟩ = none ∧ controlDate ⟨s,op,r⟩ = none := by
  cases op <;> simp_all [observationDate,controlDate,Op.reads]

/-- Deadlines and challenges stay, or are dropped. -/
structure Dwindles (s t : SessionAuthority) : Prop where
  policy : t.policy = s.policy := by rfl
  observation : t.observationUntil = s.observationUntil ∨
    t.observationUntil = none := by exact .inl rfl
  renewal : t.observationPending = s.observationPending ∨
    t.observationPending = none := by exact .inl rfl
  lease : t.leaseUntil = s.leaseUntil ∨ t.leaseUntil = none := by exact .inl rfl
  challenge : t.controlPending = s.controlPending ∨ t.controlPending = none := by exact .inl rfl

theorem Dwindles.trans {t u} (h : Dwindles s t) (k : Dwindles t u) : Dwindles s u where
  policy := k.policy.trans h.policy
  observation := k.observation.elim (fun hk => hk ▸ h.observation) .inr
  renewal := k.renewal.elim (fun hk => hk ▸ h.renewal) .inr
  lease := k.lease.elim (fun hk => hk ▸ h.lease) .inr
  challenge := k.challenge.elim (fun hk => hk ▸ h.challenge) .inr

theorem dwindles_dropTickets (s : SessionAuthority) : Dwindles s s.dropTickets := by
  refine {lease := .inl ?_}
  simp only [leaseUntil,dropTickets,Option.map_map]
  rfl

theorem dwindles_dropObservation (s : SessionAuthority) : Dwindles s s.dropObservation := by
  unfold dropObservation
  split <;> exact ⟨rfl,.inr rfl,.inr rfl,.inr rfl,.inr rfl⟩

theorem filter_eq_or {α : Type} (p : α → Bool) (o : Option α) :
    o.filter p = o ∨ o.filter p = none := by
  cases o with
  | none => exact .inl rfl
  | some a => cases h : p a <;> simp [h]

theorem dwindles_dropElapsed (now : HostInstant) (s : SessionAuthority) :
    Dwindles s (dropElapsed now s) := by
  have ho : Dwindles s (expireObservation now s) := by
    unfold expireObservation
    split
    · exact dwindles_dropObservation s
    · exact {}
  have hc (t : SessionAuthority) : Dwindles t (expireChallenges now t) := by
    refine {renewal := ?_, challenge := ?_}
    · exact (filter_eq_or _ t.observationChallenge).imp (congrArg (Option.map _))
        (congrArg (Option.map _))
    · exact (filter_eq_or _ t.controlChallenge).imp (congrArg (Option.map _))
        (congrArg (Option.map _))
  have hl (t : SessionAuthority) : Dwindles t (expireLease now t) := by
    unfold expireLease
    split
    · exact {lease := .inr rfl, challenge := .inr rfl}
    · exact {}
  refine ((ho.trans (hc _)).trans (hl _)).trans {lease := .inl ?_}
  simp only [dropElapsed,expireTickets,leaseUntil,Option.map_map]
  rfl

theorem lapseView_leaseUntil (s : SessionAuthority) (at_ : HostInstant) :
    (s.lapseView at_).leaseUntil = s.leaseUntil := by
  simp only [leaseUntil,lapseView_eq,Option.map_map]
  rfl

theorem lapseIfDue_leaseUntil (s : SessionAuthority) (now : HostInstant) :
    (s.lapseIfDue now).leaseUntil = s.leaseUntil := by
  rcases lapseIfDue_cases s now with ⟨h,-⟩|⟨u,-,-,h⟩ <;> rw [h]
  exact lapseView_leaseUntil s u

theorem advance_leaseUntil (s : SessionAuthority) (now : HostInstant) :
    (s.advance now).leaseUntil = s.leaseUntil :=
  lapseIfDue_leaseUntil {s with lastChecked := some now} now

theorem SessionAuthority.Frame.dwindles {t} (h : s.Frame t) (hl : t.leaseUntil = s.leaseUntil) :
    Dwindles s t :=
  ⟨h.policy,.inl h.observationUntil,.inl (congrArg (Option.map _) h.observationChallenge),.inl hl,
    .inl (congrArg (Option.map _) h.controlChallenge)⟩

/-- What a step does to the deadlines of observation and control, and to their challenges. -/
structure Moves (s : SessionAuthority) (op : Op) (r : Reply) (s' : SessionAuthority) : Prop where
  policy : s'.policy = s.policy
  observation : Move s.policy.authorizationLifetime s.observationUntil s.observationPending
    (observationDate ⟨s,op,r⟩) s'.observationUntil s'.observationPending
  control : Move s.policy.authorizationLifetime s.leaseUntil s.controlPending
    (controlDate ⟨s,op,r⟩) s'.leaseUntil s'.controlPending

theorem Dwindles.moves (h : Dwindles s s')
    (hd : observationDate ⟨s,op,r⟩ = none ∧ controlDate ⟨s,op,r⟩ = none) : Moves s op r s' := by
  refine ⟨h.policy,?_,?_⟩
  · rw [hd.1]
    exact .shrink h.observation h.renewal
  · rw [hd.2]
    exact .shrink h.lease h.challenge

theorem effect_moves (h : Effect s op r s') : Moves s op r s' := by
  have past (now : HostInstant) := advance_frame s now
  have gone (now : HostInstant) := (past now).dwindles (advance_leaseUntil s now)
  cases h with
  | kept _ hr => exact Dwindles.moves {} (dates_of_reads hr)
  | faulted _ _ hr =>
    exact Dwindles.moves ⟨rfl,.inr rfl,.inr rfl,.inr rfl,.inr rfl⟩ (dates_of_reads (by simp [hr]))
  | gated _ _ hr => exact (gone _).moves (dates_of_reads hr)
  | unpresented _ _ hr =>
    exact ((gone _).trans {}).moves (dates_of_reads (by simp [hr]))
  | observed _ _ hd =>
    refine ⟨(past _).policy,?_,.shrink (.inr rfl) (.inr rfl)⟩
    rw [(freshDeadline_eq hd).1,(past _).policy]
    exact .grant _
  | @evidence now =>
    have hb : Dwindles s {s.advance now with boundedView := true} := (gone now).trans {}
    exact (hb.trans ((lapseView_frame _ _).dwindles (lapseView_leaseUntil _ _))).moves ⟨rfl,rfl⟩
  | revived ho =>
    refine ((gone _).trans {}).moves ?_
    rcases ho with ⟨rfl,-⟩|⟨q,rfl,-⟩ <;> exact ⟨rfl,rfl⟩
  | stale => exact ((lapseView_frame _ _).dwindles (lapseView_leaseUntil _ _)).moves ⟨rfl,rfl⟩
  | @recovered generation =>
    have hk : Dwindles s {s with recovery := some generation, presentedSequence := none} := {}
    exact (hk.trans (dwindles_dropTickets _)).moves ⟨rfl,rfl⟩
  | monitored => exact ((lapseIfDue_frame _ _).dwindles (lapseIfDue_leaseUntil _ _)).moves ⟨rfl,rfl⟩
  | observationChallenged _ _ hd =>
    refine ⟨(past _).policy,?_,.shrink (gone _).lease (gone _).challenge⟩
    rw [(freshDeadline_eq hd).1,(past _).policy,(past _).observationUntil]
    exact .issue _ _
  | observationRenewed _ _ hc =>
    rw [(past _).observationChallenge] at hc
    exact ⟨(past _).policy,.renew (by rw [observationPending,hc]; rfl),.shrink (gone _).lease
      (gone _).challenge⟩
  | observationLate => exact ((gone _).trans {renewal := .inr rfl}).moves ⟨rfl,rfl⟩
  | granted _ _ _ _ _ hd =>
    have hu := (freshDeadline_eq hd).1
    rw [(past _).policy] at hu
    subst hu
    exact ⟨(past _).policy,.shrink (gone _).observation (gone _).renewal,.grant _⟩
  | controlChallenged _ _ _ _ hd =>
    refine ⟨(past _).policy,.shrink (gone _).observation (gone _).renewal,?_⟩
    rw [(freshDeadline_eq hd).1,(past _).policy]
    show Move _ _ _ _ (s.advance _).leaseUntil _
    rw [advance_leaseUntil]
    exact .issue _ _
  | controlRenewed _ _ _ _ hc =>
    rw [(past _).controlChallenge] at hc
    exact ⟨(past _).policy,.shrink (gone _).observation (gone _).renewal,
      .renew (by rw [controlPending,hc]; rfl)⟩
  | controlLate => exact ((gone _).trans {challenge := .inr rfl}).moves ⟨rfl,rfl⟩
  | issued ho _ _ _ hm =>
    refine ((gone _).trans {lease := .inl ?_}).moves ?_
    · rw [leaseUntil,leaseUntil,hm]
      rfl
    · cases op <;> cases ho <;> exact ⟨rfl,rfl⟩
  | invalidated => exact (dwindles_dropTickets s).moves ⟨rfl,rfl⟩
  | resumed => exact ((gone _).trans (dwindles_dropElapsed _ _)).moves ⟨rfl,rfl⟩
  | suspended => exact (dwindles_dropObservation s).moves ⟨rfl,rfl⟩
  | closed | refused => exact Dwindles.moves ⟨rfl,.inr rfl,.inr rfl,.inr rfl,.inr rfl⟩ ⟨rfl,rfl⟩
  | revoked => exact Dwindles.moves {lease := .inr rfl, challenge := .inr rfl} ⟨rfl,rfl⟩
  | ready => exact ((gone _).trans {}).moves ⟨rfl,rfl⟩
  | _ => exact Dwindles.moves {} ⟨rfl,rfl⟩

/-! What is stored only under what. -/

/-- Control and the observation challenge live under observation; the control
challenge, the suspension and the native owner live under the lease. -/
structure SessionAuthority.Nested (s : SessionAuthority) : Prop where
  renewable : s.observationUntil = none → s.observationChallenge = none := by exact fun _ => rfl
  observed : s.observationUntil = none → s.lease = none := by exact fun _ => rfl
  challenged : s.lease = none → s.controlChallenge = none := by exact fun _ => rfl
  suspended : s.lease = none → s.suspension = none := by exact fun _ => rfl
  owned : s.lease = none → s.nativeOwner = none := by exact fun _ => rfl

theorem nested_dropObservation (s : SessionAuthority) : s.dropObservation.Nested := by
  unfold dropObservation
  split <;> exact {}

namespace SessionAuthority.Nested

variable {s : SessionAuthority}

theorem map_lease (h : s.Nested) (f : Lease → Lease) : {s with lease := s.lease.map f}.Nested where
  renewable := h.renewable
  observed ho := by simp [h.observed ho]
  challenged hl := h.challenged (Option.map_eq_none_iff.mp hl)
  suspended hl := h.suspended (Option.map_eq_none_iff.mp hl)
  owned hl := h.owned (Option.map_eq_none_iff.mp hl)

theorem lapseView (h : s.Nested) (at_ : HostInstant) : (s.lapseView at_).Nested := by
  rw [lapseView_eq]
  refine {h.map_lease Lease.withoutTickets with suspended := fun hl => ?_}
  have hn := Option.map_eq_none_iff.mp hl
  simp [hn,h.suspended hn]

theorem lapseIfDue (h : s.Nested) (now : HostInstant) : (s.lapseIfDue now).Nested := by
  rcases lapseIfDue_cases s now with ⟨hc,-⟩|⟨u,-,-,hc⟩ <;> rw [hc]
  · exact h
  · exact h.lapseView u

theorem advance (h : s.Nested) (now : HostInstant) : (s.advance now).Nested :=
  lapseIfDue (s := {s with lastChecked := some now})
    {h with} now

theorem dropElapsed (h : s.Nested) (now : HostInstant) : (dropElapsed now s).Nested := by
  have ho : (expireObservation now s).Nested := by
    unfold expireObservation
    split
    · exact nested_dropObservation s
    · exact h
  have hc : (expireChallenges now (expireObservation now s)).Nested :=
    ⟨fun hn => by simp [expireChallenges,ho.renewable hn],ho.observed,
      fun hl => by simp [expireChallenges,ho.challenged hl],ho.suspended,ho.owned⟩
  have hl : (expireLease now (expireChallenges now (expireObservation now s))).Nested := by
    unfold expireLease
    split
    · exact {renewable := hc.renewable}
    · exact hc
  exact hl.map_lease _

end SessionAuthority.Nested

theorem effect_nested (hs : s.Nested) (h : Effect s op r s') : s'.Nested := by
  have past (now : HostInstant) := hs.advance now
  cases h with
  | kept | deaf | capabilities | approval => exact {hs with}
  | faulted | closed | refused => exact {}
  | observed => exact {renewable := by simp}
  | revoked => exact {renewable := hs.renewable}
  | gated | unpresented | ready => exact {past _ with}
  | evidence => exact Nested.lapseView (s := {s.advance _ with boundedView := true}) {past _ with} _
  | revived => exact {past _ with suspended := fun _ => rfl}
  | stale => exact hs.lapseView _
  | recovered => exact {hs.map_lease Lease.withoutTickets with}
  | confirmed => exact {hs with suspended := fun hl => by simp [hs.suspended hl]}
  | monitored => exact hs.lapseIfDue _
  | observationChallenged _ hl =>
    obtain ⟨o,ho,-⟩ := hl.deadline
    exact {past _ with renewable := by simp [ho]}
  | observationRenewed => exact {past _ with renewable := by simp,observed := by simp}
  | observationLate => exact {past _ with renewable := fun _ => rfl}
  | granted _ hl | controlRenewed _ hl | issued _ _ hl =>
    obtain ⟨o,ho,-⟩ := hl.deadline
    exact ⟨by simp [ho],by simp [ho],by simp,by simp,by simp⟩
  | controlChallenged _ hl hm =>
    obtain ⟨o,ho,-⟩ := hl.deadline
    exact ⟨by simp [ho],by simp [ho],by simp [hm],by simp [hm],by simp [hm]⟩
  | controlLate => exact {past _ with challenged := fun _ => rfl}
  | invalidated => exact hs.map_lease _
  | resumed => exact (past _).dropElapsed _
  | suspended => exact nested_dropObservation s
  | claimed hl =>
    have hn : s.lease ≠ none := fun h => by simp [leaseId,h] at hl
    exact {hs with owned := fun h => absurd h hn}

/-! Whole runs. -/

/-- A stored ticket is within both deadlines and the only one with its non-zero id. -/
structure TicketSound (s : SessionAuthority) (lease : Lease) (i : Fin maxLiveInputTickets)
    (ticket : Ticket) : Prop where
  within_lease : ticket.expiresAt ≤ lease.authorizedUntil
  within_observation : ∃ o, s.observationUntil = some o ∧ ticket.expiresAt ≤ o
  nonzero : ticket.id.raw ≠ 0
  distinct : ∀ j other, lease.tickets j = some other → other.id = ticket.id → j = i

structure DeadlineHistory (policy : AuthorityPolicy) (past : List Event) (s : SessionAuthority) :
    Prop where
  policy_eq : s.policy = policy
  faulted : s.clockFaulted = true → s.lease = none
  nested : s.Nested
  observation : Bounded policy.authorizationLifetime s.observationUntil s.observationPending
    s.lastChecked (latest observationDate past)
  control : Bounded policy.authorizationLifetime s.leaseUntil s.controlPending
    s.lastChecked (latest controlDate past)
  tickets : ∀ lease, s.lease = some lease → ∀ i ticket, lease.tickets i = some ticket →
    TicketSound s lease i ticket

namespace DeadlineHistory

variable {p : AuthorityPolicy} {past : List Event} {s : SessionAuthority}

theorem observation_paced (s : SessionAuthority) (op : Op) :
    Paced s.lastChecked (step s op).2.lastChecked (observationDate ⟨s,op,(step s op).1⟩) :=
  effect_paced (step_effect s op) fun _ _ h => observationDate_gate h

theorem control_paced (s : SessionAuthority) (op : Op) :
    Paced s.lastChecked (step s op).2.lastChecked (controlDate ⟨s,op,(step s op).1⟩) :=
  effect_paced (step_effect s op) fun _ _ h => controlDate_gate h

section

variable (h : DeadlineHistory p past s)

include h

/-- While a lease is held, observation is live and its deadline only grows. -/
theorem observation_grows (op : Op) {lease'}
    (hl : (step s op).2.lease = some lease') {o} (ho : s.observationUntil = some o) :
    ∃ o', (step s op).2.observationUntil = some o' ∧ o ≤ o' := by
  have hn := effect_nested h.nested (step_effect s op)
  cases ho' : (step s op).2.observationUntil with
  | none => cases hl.symm.trans (hn.observed ho')
  | some o' =>
    have hm := (effect_moves (step_effect s op)).observation
    rw [h.policy_eq] at hm
    exact ⟨o',rfl,h.observation.move_le hm (observation_paced s op) ho ho'⟩

theorem ticketSound_grows (op : Op) {lease lease' i ticket} (ht : TicketSound s lease i ticket)
    (hl : (step s op).2.lease = some lease') (hu : lease.authorizedUntil ≤ lease'.authorizedUntil)
    (hd : ∀ j other, lease'.tickets j = some other → other.id = ticket.id → j = i) :
    TicketSound (step s op).2 lease' i ticket := by
  obtain ⟨o,ho,hle⟩ := ht.within_observation
  obtain ⟨o',ho',hle'⟩ := h.observation_grows op hl ho
  exact ⟨ht.within_lease.trans hu,⟨o',ho',hle.trans hle'⟩,ht.nonzero,hd⟩

theorem step_tickets (op : Op) {lease'}
    (hl : (step s op).2.lease = some lease') (i : Fin maxLiveInputTickets) (ticket : Ticket)
    (hi : lease'.tickets i = some ticket) : TicketSound (step s op).2 lease' i ticket := by
  cases lease_origin h.faulted hl with
  | granted _ _ _ _ hv =>
    rw [hv] at hi
    cases hi
  | renewed hs _ hc hid ht =>
    have hi' := h.tickets _ hs i ticket (ht i ticket hi).1
    have hle := h.control.le_challenge (by rw [leaseUntil,hs]; rfl) (by rw [controlPending,hc]; rfl)
    exact h.ticketSound_grows op hi' hl hle fun j other hj =>
      hi'.distinct j other (ht j other hj).1
  | issued hs hop hr heq hz hf ho hle hlo _ =>
    subst heq
    rcases store_eq_some.mp hi with ⟨rfl,rfl⟩|⟨-,hold⟩
    · obtain ⟨o',ho',hle'⟩ := h.observation_grows op hl ho
      refine ⟨hle,⟨o',ho',hlo.trans hle'⟩,hz,fun j other hj heq => ?_⟩
      rcases store_eq_some.mp hj with ⟨rfl,-⟩|⟨-,hj⟩
      · rfl
      · exact absurd heq (hf j other hj)
    · have hi' := h.tickets _ hs i ticket hold
      refine h.ticketSound_grows op hi' hl le_rfl fun j other hj heq => ?_
      rcases store_eq_some.mp hj with ⟨rfl,rfl⟩|⟨-,hj⟩
      · exact absurd heq.symm (hf i ticket hold)
      · exact hi'.distinct j other hj heq
  | kept hs hid hu ht =>
    have hi' := h.tickets _ hs i ticket (ht i ticket hi).1
    exact h.ticketSound_grows op hi' hl hu.ge fun j other hj =>
      hi'.distinct j other (ht j other hj).1

theorem step (op : Op) : DeadlineHistory p (past ++ [⟨s,op,(step s op).1⟩]) (step s op).2 where
  policy_eq := (effect_moves (step_effect s op)).policy.trans h.policy_eq
  faulted := step_faulted_lease h.faulted op
  nested := effect_nested h.nested (step_effect s op)
  observation := by
    rw [latest_snoc]
    have hm := (effect_moves (step_effect s op)).observation
    rw [h.policy_eq] at hm
    exact h.observation.move hm (observation_paced s op)
  control := by
    rw [latest_snoc]
    have hm := (effect_moves (step_effect s op)).control
    rw [h.policy_eq] at hm
    exact h.control.move hm (control_paced s op)
  tickets _ hl := h.step_tickets op hl

end

end DeadlineHistory

theorem deadlineHistory_run (se : RemoteSessionId) (p : AuthorityPolicy) (ops : List Op) :
    DeadlineHistory p (trace (new se p) ops) (final (new se p) ops) := by
  apply Transition.history_invariant step (I := DeadlineHistory p)
  · exact ⟨rfl,fun _ => rfl,{},bounded_none _ _,bounded_none _ _,fun _ hl => nomatch hl⟩
  · exact fun _ _ op h => h.step op

/-- An accepted answer to a challenge: the deadline it replaces, the one it installs
and the issuance it answers. -/
structure Renews (lifetime : HostDuration) (date : Event → Option (HostInstant × Option ℕ))
    (past : List Event) (nonce : ℕ) (before after : Option HostInstant) (deadline : HostInstant) :
    Prop where
  lengthens : ∃ old, before = some old ∧ old ≤ deadline
  installed : after = some deadline
  dated : ∃ issue ∈ past, ∃ g, date issue = some (g,some nonce) ∧ deadline = g + lifetime

structure DeadlinesSound (policy : AuthorityPolicy) (past : List Event) (s : SessionAuthority) :
    Prop where
  observation_pending : ∀ c, s.observationChallenge = some c → ∃ o, s.observationUntil = some o ∧
    o ≤ c.deadline
  control_pending : ∀ c, s.controlChallenge = some c →
    ∃ lease, s.lease = some lease ∧ lease.authorizedUntil ≤ c.deadline
  tickets : ∀ lease, s.lease = some lease → ∀ i ticket, lease.tickets i = some ticket →
    TicketSound s lease i ticket
  observation_granted : ∀ o, s.observationUntil = some o →
    ∃ g n, latest observationDate past = some (g,n) ∧ o ≤ g + policy.authorizationLifetime
  control_granted : ∀ lease, s.lease = some lease → ∃ g n, latest controlDate past = some (g,n) ∧
      lease.authorizedUntil ≤ g + policy.authorizationLifetime
  observation_renewed :
    ∀ nonce now d, (step s (.respondObservationChallenge nonce now)).1 = .instant (.ok d) →
    Renews policy.authorizationLifetime observationDate past nonce s.observationUntil
      (step s (.respondObservationChallenge nonce now)).2.observationUntil d
  control_renewed : ∀ l nonce now d, (step s (.respondControlChallenge l nonce now)).1 =
    .instant (.ok d) → Renews policy.authorizationLifetime controlDate past nonce s.leaseUntil
      (step s (.respondControlChallenge l nonce now)).2.leaseUntil d

theorem renews_of_bounded {lifetime date past pending checked nonce d u o}
    (h : Bounded lifetime u pending checked (latest date past)) (ho : u = some o)
    (hp : pending = some (nonce,d)) : Renews lifetime date past nonce u (some d) d := by
  obtain ⟨g,hg,hd⟩ := h.challenged nonce d hp
  obtain ⟨issue,hi,hdate⟩ := latest_mem hg
  exact ⟨⟨o,ho,h.le_challenge ho hp⟩,rfl,issue,hi,g,hdate,hd⟩

theorem DeadlineHistory.observation_renews {p past} (h : DeadlineHistory p past s) {nonce d}
    (hr : (Authority.step s (.respondObservationChallenge nonce now)).1 = .instant (.ok d)) :
    Renews p.authorizationLifetime observationDate past nonce s.observationUntil
      (Authority.step s (.respondObservationChallenge nonce now)).2.observationUntil d := by
  have he := step_effect s (.respondObservationChallenge nonce now)
  rw [hr] at he
  generalize (Authority.step s (.respondObservationChallenge nonce now)).2 = s' at he ⊢
  cases he with
  | kept hs => cases hs
  | faulted _ _ hr | unpresented _ _ hr => cases hr
  | gated _ _ hr => cases hr rfl
  | issued hop => cases hop
  | observationRenewed _ hl hc =>
    obtain ⟨o,ho,-⟩ := hl.deadline
    rw [(advance_frame s now).observationUntil] at ho
    rw [(advance_frame s now).observationChallenge] at hc
    exact renews_of_bounded h.observation ho (by rw [observationPending,hc]; rfl)

theorem DeadlineHistory.control_renews {p past} (h : DeadlineHistory p past s) {l nonce d}
    (hr : (Authority.step s (.respondControlChallenge l nonce now)).1 = .instant (.ok d)) :
    Renews p.authorizationLifetime controlDate past nonce s.leaseUntil
      (Authority.step s (.respondControlChallenge l nonce now)).2.leaseUntil d := by
  have he := step_effect s (.respondControlChallenge l nonce now)
  rw [hr] at he
  generalize (Authority.step s (.respondControlChallenge l nonce now)).2 = s' at he ⊢
  cases he with
  | kept hs => cases hs
  | faulted _ _ hr | unpresented _ _ hr => cases hr
  | gated _ _ hr => cases hr rfl
  | issued ho => cases ho
  | controlRenewed _ _ hm _ hc =>
    have hu := advance_leaseUntil s now
    rw [leaseUntil,hm] at hu
    rw [(advance_frame s now).controlChallenge] at hc
    exact renews_of_bounded h.control hu.symm (by rw [controlPending,hc]; rfl)

/-- In every reachable session deadlines move only as granted. -/
theorem deadlines_sound (session : RemoteSessionId) (p : AuthorityPolicy) (ops : List Op) :
    DeadlinesSound p (trace (new session p) ops) (final (new session p) ops) := by
  have h := deadlineHistory_run session p ops
  generalize trace (new session p) ops = past at h ⊢
  generalize final (new session p) ops = s at h ⊢
  constructor
  · intro c hc
    cases ho : s.observationUntil with
    | none => cases hc.symm.trans (h.nested.renewable ho)
    | some o => exact ⟨o,rfl,h.observation.le_challenge ho (by rw [observationPending,hc]; rfl)⟩
  · intro c hc
    cases hl : s.lease with
    | none => cases hc.symm.trans (h.nested.challenged hl)
    | some lease =>
      exact ⟨lease,rfl,h.control.le_challenge (by rw [leaseUntil,hl]; rfl)
        (by rw [controlPending,hc]; rfl)⟩
  · exact h.tickets
  · exact h.observation.granted
  · exact fun lease hl => h.control.granted _ (by rw [leaseUntil,hl]; rfl)
  · exact fun nonce now d hr => h.observation_renews hr
  · exact fun l nonce now d hr => h.control_renews hr

/-! Deadlines are exact. -/

section Exact

variable {s : SessionAuthority} {l : InputLeaseId} {t : InputTicketId} {now u : HostInstant}
  {lease : Lease} {ticket : Ticket}

variable {o : HostInstant}

theorem lt_submitBy : u < s.submitBy lease ticket o ↔
    u < ticket.expiresAt ∧ u < lease.authorizedUntil ∧ u < o ∧
    ∀ v, s.viewUntil = some v → u < v := by
  cases hv : s.viewUntil <;> simp [submitBy,hv]

/-- Before the deadline nothing that the check reads has changed. -/
theorem SessionAuthority.Submittable.later (h : s.Submittable l t now lease ticket)
    (ho : s.observationUntil = some o)
    (hu : u < s.submitBy lease ticket o) : (s.advance u).Submittable l t u lease ticket := by
  obtain ⟨ht,hl,hobs,hview⟩ := lt_submitBy.mp hu
  have hs : s.advance u = {s with lastChecked := some u} := by
    rcases advance_cases s u with hc | ⟨v,hv,hle,-⟩
    · exact hc.1
    · exact absurd (hview v hv) (not_lt.mpr hle)
  rw [hs]
  exact ⟨h.viewing,⟨h.observed.1,by simp [ho,hobs]⟩,h.ready,h.held,h.lease_id,hl,h.stored,ht⟩

/-- Behind the clock gate the check reads the deadlines that it returned. -/
theorem SessionAuthority.Submittable.before_deadline {lease' ticket'}
    (h : s.Submittable l t now lease ticket) (ho : s.observationUntil = some o)
    (h' : (s.advance u).Submittable l t u lease' ticket') : u < s.submitBy lease ticket o := by
  obtain ⟨hs,hview⟩ := advance_ready h'.ready
  rw [hs] at h'
  cases h.held.symm.trans h'.held
  cases h.stored.symm.trans h'.stored
  obtain ⟨_,ho',hlt⟩ := h'.observed.deadline
  cases ho.symm.trans ho'
  exact lt_submitBy.mpr ⟨h'.ticket_live,h'.lease_live,hlt,hview⟩

/-- The clock gate is the monitor's lapse with a moved high-water mark. -/
theorem advance_eq_lapse (s : SessionAuthority) (now : HostInstant) :
    s.advance now = {s.lapseIfDue now with lastChecked := some now} := by
  rcases lapseIfDue_cases s now with ⟨h,hview⟩ | ⟨v,hv,hle,h⟩
  · rcases advance_cases s now with ⟨h',-⟩ | ⟨v,hv,hle,-⟩
    · rw [h,h']
    · exact absurd (hview v hv) (not_lt.mpr hle)
  · rcases advance_cases s now with ⟨-,hview⟩ | ⟨_,hv',-,h'⟩
    · exact absurd (hview v hv) (not_lt.mpr hle)
    · cases hv.symm.trans hv'
      rw [h,h',lapseView_eq,lapseView_eq]

/-- Live control, as both calls decide it. -/
def SessionAuthority.Controlled (s : SessionAuthority) (now : HostInstant) : Prop :=
  s.ObservationLive now ∧ s.phase = .viewing ∧ s.readiness = .ready ∧
    s.lease.any (now < ·.authorizedUntil) = true

theorem statusAt_live (s : SessionAuthority) (now : HostInstant) :
    (∃ until_, (exec (statusAt now) s).1 = .ok (.live until_)) ↔ s.Controlled now := by
  simp only [statusAt,exec_checkObservationLive_bind,exec_get_bind,Controlled]
  by_cases hl : s.ObservationLive now
  swap
  · simp [hl]
  obtain ⟨o,ho,hlt⟩ := hl.deadline
  simp only [hl,if_true,true_and,ho]
  cases s.lease with
  | none => simp
  | some lease =>
    simp only [exec_okOr_some_bind,exec_refuseIf_bind,exec_ite,exec_pure]
    by_cases hu : lease.authorizedUntil ≤ now
    · simp [hu]
    rw [if_neg (by simp [hlt,hu])]
    by_cases hv : s.phase = .viewing ∧ s.readiness = .ready
    · simp [hv,not_le.mp hu]
    · rw [if_neg hv]
      constructor
      · rintro ⟨until_,h⟩
        exfalso
        cases hsusp : s.suspension with
        | none => simp [hsusp] at h
        | some x =>
          simp only [hsusp,exec_okOr_some_bind] at h
          cases hlm : checkedAdd x.since maxViewSuspension with
          | none => simp [hlm] at h
          | some limit =>
            simp only [hlm,exec_okOr_some_bind,exec_refuseIf_bind,exec_pure] at h
            split at h <;> cases h
      · rintro ⟨hp,hr,-⟩
        exact absurd ⟨hp,hr⟩ hv

theorem hasLiveControl_iff (hr : ¬s.Regresses now) :
    (hasLiveControl now s).1 = true ↔ (s.advance now).Controlled now := by
  simp only [hasLiveControl,exec_authorizeObservationDelivery,if_neg hr,Controlled]
  by_cases hl : (s.advance now).ObservationLive now <;> simp [hl]

theorem serializedTime_eq (h : ∀ x, s.lastChecked = some x → x ≤ now) :
    s.serializedTime now = now := by
  unfold serializedTime
  cases hx : s.lastChecked with
  | none => rfl
  | some x => simpa using h x hx

/-- The deadline of a submission is the first instant at which it is refused, and the two reports
of live control agree. -/
theorem deadlines_exact (s : SessionAuthority) (now : HostInstant)
    (hn : ∀ x, s.lastChecked = some x → x ≤ now) :
    (∀ l t d, (step s (.submissionDeadline l t now)).1 = .instant (.ok d) → (∀ u, now ≤ u → u < d →
        (step (step s (.submissionDeadline l t now)).2 (.authorizeSubmission l t u)).1 = .done
          (.ok ())) ∧
      ∀ u, d ≤ u → ∃ e,
        (step (step s (.submissionDeadline l t now)).2 (.authorizeSubmission l t u)).1 = .done
          (.error e)) ∧
    ((step s (.hasLiveControl now)).1 = .flag true ↔
      ∃ until_, (step s (.controlStatus now)).1 = .status (.ok (.live until_))) := by
  constructor
  · intro l t d hd
    refine submissionDeadline_ensures s now (P := fun r w => r = .ok d → (∀ u, now ≤ u → u < d →
        (step w (.authorizeSubmission l t u)).1 = .done (.ok ())) ∧
      ∀ u, d ≤ u → ∃ e, (step w (.authorizeSubmission l t u)).1 = .done (.error e))
        (fun _ h => by cases h)
      (fun _ _ h => by cases h) ?_ (Reply.instant.inj hd)
    intro hr lease ticket o hs ho h
    cases h
    have hset := advance_settled hr
    constructor
    · intro u hn hu
      have hgate : ¬(s.advance now).Regresses u := by simp [Regresses,hset.sound,hset.checked,hn]
      exact authorizeSubmission_ensures (s.advance now) u (P :=
        fun r _ => Reply.done r = _) (fun h => absurd h hgate)
        (fun _ h => absurd (hs.later ho hu) (h lease ticket)) fun _ _ _ _ => rfl
    · intro u hu
      exact authorizeSubmission_ensures (s.advance now) u (P :=
        fun r _ => ∃ e, Reply.done r = .done (.error e))
        (fun _ => ⟨_,rfl⟩) (fun _ _ _ => ⟨_,rfl⟩) fun _ _ _ hs' =>
          absurd (hs.before_deadline ho hs') (not_lt.mpr hu)
  · simp only [step,answer,exec_controlStatus,serializedTime_eq hn,Reply.flag.injEq,
      Reply.status.injEq]
    by_cases hf : s.clockFaulted = true
    · have hregress : s.Regresses now := .inl hf
      simp [hf,hasLiveControl,exec_authorizeObservationDelivery,hregress]
    · have hr : ¬s.Regresses now := not_regresses_iff.mpr ⟨by simpa using hf,hn⟩
      rw [hasLiveControl_iff hr,if_neg hf,statusAt_live,advance_eq_lapse]
      rfl

theorem deadlines_exact_controlledRun :
    (step (step (final (new ⟨1⟩ ⟨1000,100⟩) controlledRun) (.submissionDeadline ⟨7⟩ ⟨9⟩ 4)).2
      (.authorizeSubmission ⟨7⟩ ⟨9⟩ 102)).1 = .done (.ok ()) :=
  ((deadlines_exact (final (new ⟨1⟩ ⟨1000,100⟩) controlledRun) 4 (by decide)).1 ⟨7⟩
    ⟨9⟩ 103 rfl).1 102 (by decide) (by decide)

end Exact
end FrankenRemote.Authority
