import FrankenRemote.ClientTurn

/-! Whole runs of a grant: its actions are numbered without gap or repeat, each owes a receipt in
time, and coordinate actions have their place among the pointer states. -/
namespace FrankenRemote.Client

open Bytes Procedure Relation SlotTable Wire Input Freshness List Frames

abbrev trace (c : InputClient) (ops : List Op) : List Event := Transition.trace step c ops

abbrev final (c : InputClient) (ops : List Op) : InputClient := Transition.final step c ops

def EncodesAction (e : Event) (n : ℕ) : Prop :=
  ∃ a room now record, e.input = .action a room now ∧ e.reply = .ok (.encoded record) ∧
    record.sequence = n

def EncodesPointer (e : Event) (n : ℕ) : Prop :=
  ∃ position room now record, e.input = .pointer position room now ∧
    e.reply = .ok (.encoded record) ∧ record.sequence = n

/-- One more call, for the actions that were encoded and not taken back. -/
def keep (kept : List ℕ) (e : Event) : List ℕ :=
  match e.input,e.reply with
  | .action ..,.ok (.encoded record) => kept ++ [record.sequence]
  | .abandonUnsent (.action n),.ok _ => kept.erase n
  | _,_ => kept

def keptActions (h : List Event) : List ℕ := h.foldl keep []

/-- The place among the pointer states that the call took. -/
def place (e : Event) : Option ℕ :=
  match e.input,e.reply with
  | .pointer ..,.ok (.encoded record) => some record.sequence
  | .action a ..,.ok (.encoded _) => if a.isCoordinate then e.before.nextPointer else none
  | _,_ => none

/-- The last encoding of a pending action, and the deadline from then on. -/
def Owes (policy : Policy) (h : List Event) (p : Pending) : Prop :=
  ∃ past e later a room now record, h = past ++ e :: later ∧ e.input = .action a room now ∧
    e.reply = .ok (.encoded record) ∧ record.sequence = p.sequence ∧
      p.deadline ≤ now+policy.receiptTimeout ∧
    ∀ e' ∈ later, ¬EncodesAction e' p.sequence

structure Ordered (policy : Policy) (h : List Event) (c : InputClient) : Prop where
  same : c.policy = policy
  kept : ∃ k, k ≤ 2^64 ∧ keptActions h = List.range k ∧
    c.nextAction = (if k < 2^64 then some k else none) ∧
    ∀ i p, c.pending i = some p → p.sequence < k
  distinct : Keyed Pending.sequence c.pending
  owes : ∀ i p, c.pending i = some p → Owes policy h p
  places : (h.filterMap place).Pairwise (· < ·)
  below : ∀ x ∈ h.filterMap place, x < c.nextPointer.getD (2^64)
  pointer : ∀ n, c.nextPointer = some n → n < 2^64

section Step

variable {pol : Policy} {h : List Event} {c c' : InputClient} {e : Event}

/-- A call that takes no identity and gives none back. -/
structure Unsequenced (e : Event) : Prop where
  kept : ∀ ks, keep ks e = ks
  place : place e = none
  actions : ∀ n, ¬EncodesAction e n

variable {p : Pending} {room n : ℕ} {now : ClientInstant} {rec : Encoded} {d : InputClient}

theorem Owes.snoc (howes : Owes pol h p) (hnot : ¬EncodesAction e p.sequence) :
    Owes pol (h ++ [e]) p := by
  obtain ⟨past,e',later,a,room,now,rec,rfl,hi,hr,hs,hd,hl⟩ := howes
  refine ⟨past,e',later ++ [e],a,room,now,rec,by simp,hi,hr,hs,hd,?_⟩
  exact forall_mem_snoc.mpr ⟨hl,hnot⟩

theorem keptActions_snoc (h : List Event) (e : Event) : keptActions (h ++ [e]) = keep
    (keptActions h) e := by
  simp [keptActions]

theorem filterMap_place_snoc (h : List Event) (he : place e = none) :
    (h ++ [e]).filterMap place = h.filterMap place := by
  simp [he]

theorem Ordered.quiet (ho : Ordered pol h c) (hu : Unsequenced e)
    (hn : c'.nextAction = c.nextAction)
    (hptr : c'.nextPointer = c.nextPointer) (hpo : c'.policy = c.policy)
    (hpd : ∀ i p, c'.pending i = some p → c.pending i = some p) : Ordered pol (h ++ [e]) c' := by
  obtain ⟨k,hk,hke,hn',hb⟩ := ho.kept
  have hplaces := filterMap_place_snoc h hu.place
  refine ⟨hpo.trans ho.same,⟨k,hk,?_,hn.trans hn',fun i p hp => hb i p (hpd i p hp)⟩,
    ho.distinct.revise fun i p hp => ⟨p,hpd i p hp,rfl⟩,
    fun i p hp => (ho.owes i p (hpd i p hp)).snoc (hu.actions _),?_,?_,?_⟩
  · rw [keptActions_snoc,hu.kept,hke]
  · rw [hplaces]
    exact ho.places
  · rw [hplaces,hptr]
    exact ho.below
  · rw [hptr]
    exact ho.pointer

theorem Ordered.frames (ho : Ordered pol h c) (hu : Unsequenced e) (hf : Frames c c') :
    Ordered pol (h ++ [e]) c' :=
  ho.quiet hu hf.nextAction hf.nextPointer hf.policy fun i p hp => by rwa [hf.pending] at hp

theorem unsequenced_of_silent {op r} (hr : Silent r)
    (ho : ∀ n, op = .abandonUnsent (.action n) → ∀ a, r ≠ .ok a) : Unsequenced ⟨c,op,r⟩ := by
  refine ⟨fun ks => ?_,?_,?_⟩
  · unfold keep
    split
    · rename_i hrp
      rw [show r = _ from hrp] at hr
      exact hr.elim
    · rename_i hi hrp
      exact absurd hrp (ho _ hi _)
    · rfl
  · unfold place
    split
    · rename_i hrp
      rw [show r = _ from hrp] at hr
      exact hr.elim
    · rename_i hrp
      rw [show r = _ from hrp] at hr
      exact hr.elim
    · rfl
  · rintro n ⟨_,_,_,_,_,hrp,_⟩
    rw [show r = _ from hrp] at hr
    exact hr.elim

theorem checkedAdd_one (n : ℕ) : checkedAdd n 1 = if n+1 < 2^64 then some (n+1) else none := by
  unfold checkedAdd
  split_ifs <;> first | rfl | omega

/-- The counter that a step leaves is above the place that it took. -/
theorem lt_getD_checkedAdd (hn : n < 2^64) : n < (checkedAdd n 1).getD (2^64) := by
  rw [checkedAdd_one]
  split_ifs
  · exact Nat.lt_succ_self n
  · exact hn

theorem Ordered.places_snoc (ho : Ordered pol h c) (hn : c.nextPointer = some n)
    (he : place e = some n) : ((h ++ [e]).filterMap place).Pairwise (· < ·) ∧
      ∀ x ∈ (h ++ [e]).filterMap place, x < (checkedAdd n 1).getD (2^64) := by
  have hp : (h ++ [e]).filterMap place = h.filterMap place ++ [n] := by simp [he]
  have hb : ∀ x ∈ h.filterMap place, x < n := fun x hx => by
    have hlt := ho.below x hx
    rwa [hn] at hlt
  have hl := lt_getD_checkedAdd (ho.pointer n hn)
  rw [hp]
  exact ⟨pairwise_snoc.mpr ⟨ho.places,hb⟩,forall_mem_snoc.mpr ⟨fun x hx => (hb x hx).trans hl,hl⟩⟩

theorem remember_policy (c : InputClient) (ev : InputEvent) :
    (c.remember ev).policy = c.policy := by
  cases ev <;> rfl

variable {slot : Fin maxPendingActions}

/-- A coordinate action takes a place, another action none. -/
theorem Ordered.places_action {a b} (ho : Ordered pol h c)
    (hs : SentAction c d a room now rec slot b c') :
    ((h ++ [(⟨c,.action a room now,.ok (.encoded rec)⟩ : Event)]).filterMap place).Pairwise
      (· < ·) ∧ (∀ x ∈ (h ++ [(⟨c,.action a room now,.ok (.encoded rec)⟩ : Event)]).filterMap place,
        x < c'.nextPointer.getD (2^64)) ∧ ∀ n, c'.nextPointer = some n → n < 2^64 := by
  have hf := of_serviced hs.ticked.serviced
  have hp : place ⟨c,.action a room now,.ok (.encoded rec)⟩ =
      if a.isCoordinate then c.nextPointer else none := rfl
  have hb := hs.place
  unfold Action.barrier at hb
  by_cases hc : a.isCoordinate = true
  · have ha : c'.nextPointer = checkedAdd b 1 := by
      rw [hs.after]
      exact if_pos hc
    rw [if_pos hc,hf.nextPointer] at hb
    rw [if_pos hc,hb] at hp
    obtain ⟨hpair,hlt⟩ := ho.places_snoc hb hp
    rw [ha]
    exact ⟨hpair,hlt,fun n hn => (checkedAdd_eq_some.mp hn).2⟩
  · have ha : c'.nextPointer = c.nextPointer := by
      rw [hs.after,← hf.nextPointer]
      exact if_neg hc
    rw [if_neg hc] at hp
    rw [ha,filterMap_place_snoc h hp]
    exact ⟨ho.places,ho.below,ho.pointer⟩

theorem Ordered.action {a b} (ho : Ordered pol h c)
    (hs : SentAction c d a room now rec slot b c') :
    Ordered pol (h ++ [⟨c,.action a room now,.ok (.encoded rec)⟩]) c' := by
  have hf := of_serviced hs.ticked.serviced
  obtain ⟨k,_,hke,hn,hb⟩ := ho.kept
  have hn' : c.nextAction = some rec.sequence := hf.nextAction ▸ hs.next
  -- The counter was not exhausted, so it is the number of kept actions.
  have hk : rec.sequence = k ∧ k < 2^64 := by
    rw [hn] at hn'
    split_ifs at hn' with hlt
    · cases hn'
      exact ⟨rfl,hlt⟩
  obtain ⟨rfl,hlt⟩ := hk
  have hpd : ∀ i p, c'.pending i = some p →
      (i = slot ∧ p = ⟨rec.sequence,now+pol.receiptTimeout,a.window.1,a.window.2⟩) ∨
        (i ≠ slot ∧ c.pending i = some p) := by
    intro i p hp
    rw [hs.after,hf.pending,hf.policy,ho.same] at hp
    rcases store_eq_some.mp hp with ⟨hi,hp⟩ | hold
    · exact .inl ⟨hi,hp.symm⟩
    · exact .inr hold
  have hplaces := ho.places_action hs
  refine ⟨?_,⟨rec.sequence+1,hlt,?_,?_,?_⟩,?_,?_,hplaces.1,hplaces.2.1,hplaces.2.2⟩
  · rw [hs.after]
    exact (remember_policy d _).trans (hf.policy.trans ho.same)
  · rw [keptActions_snoc,hke,range_succ]
    rfl
  · rw [hs.after,← checkedAdd_one]
  · intro i p hp
    rcases hpd i p hp with ⟨_,rfl⟩ | ⟨_,hold⟩
    · exact Nat.lt_succ_self _
    · exact (hb i p hold).trans (Nat.lt_succ_self _)
  · rw [hs.after,hf.pending]
    exact keyed_store ho.distinct fun j q _ hq => (hb j q hq).ne
  · intro i p hp
    rcases hpd i p hp with ⟨_,rfl⟩ | ⟨_,hold⟩
    · exact ⟨h,⟨c,.action a room now,.ok (.encoded rec)⟩,[],a,room,now,rec,rfl,rfl,rfl,rfl,
        le_rfl,by simp⟩
    · refine (ho.owes i p hold).snoc ?_
      rintro ⟨_,_,_,_,_,hr,hsq⟩
      cases hr
      exact absurd hsq (hb i p hold).ne'

theorem Ordered.pointer_step {po} (ho : Ordered pol h c) (hs : SentPointer c d po room now rec c') :
    Ordered pol (h ++ [⟨c,.pointer po room now,.ok (.encoded rec)⟩]) c' := by
  have hf := of_serviced hs.ticked.serviced
  have hnx : c.nextPointer = some rec.sequence := hf.nextPointer ▸ hs.next
  obtain ⟨hpair,_⟩ := ho.places_snoc (e := ⟨c,.pointer po room now,.ok (.encoded rec)⟩) hnx rfl
  have ha : c'.nextPointer = checkedAdd rec.sequence 1 := by rw [hs.after]
  have hpd : c'.pending = c.pending := by rw [hs.after]; exact hf.pending
  obtain ⟨k,hk,hke,hnx',_⟩ := ho.kept
  have hnn : ∀ n, ¬EncodesAction ⟨c,.pointer po room now,.ok (.encoded rec)⟩ n := by
    rintro n ⟨_,_,_,_,h,_⟩
    cases h
  refine ⟨?_,⟨k,hk,?_,?_,?_⟩,?_,?_,hpair,?_,?_⟩
  · rw [hs.after]
    exact hf.policy.trans ho.same
  · rw [keptActions_snoc,hke]
    rfl
  · rw [hs.after]
    exact hf.nextAction.trans hnx'
  · rwa [hpd]
  · rw [hpd]
    exact ho.distinct
  · rw [hpd]
    exact fun i p hp => (ho.owes i p hp).snoc (hnn _)
  · rwa [ha]
  · rw [ha]
    exact fun n hn => (checkedAdd_eq_some.mp hn).2

/-- An action that was taken back was the last one that was kept. -/
theorem Ordered.last (ho : Ordered pol h c)
    (hn : c.nextAction = checkedAdd n 1) (hpd : c.pending slot = some p) (hp : p.sequence = n) :
    n < 2^64 ∧ keptActions h = List.range (n+1) := by
  obtain ⟨k,_,hk,hn',hb⟩ := ho.kept
  have hlt := hb slot p hpd
  rw [hp] at hlt
  rw [hn,checkedAdd_one] at hn'
  have heq : k = n+1 := by
    split_ifs at hn' with h₁ h₂
    · cases hn'
      rfl
    · omega
  exact ⟨by omega,by rw [hk,heq]⟩

theorem erase_range (n : ℕ) : (List.range (n+1)).erase n = List.range n := by
  rw [range_succ,erase_append_right _ (by simp)]
  simp

theorem Ordered.abandon (ho : Ordered pol h c)
    (hn : c.nextAction = checkedAdd n 1) (hpd : c.pending slot = some p) (hp : p.sequence = n) :
    Ordered pol (h ++ [⟨c,.abandonUnsent (.action n),.ok .done⟩])
      {c with pending := erase c.pending slot, nextAction := some n} := by
  obtain ⟨hlt,hl⟩ := ho.last hn hpd hp
  obtain ⟨k,_,hke,_,hb⟩ := ho.kept
  have hk : k = n+1 := by
    have hlen := congrArg List.length (hke.symm.trans hl)
    simpa using hlen
  have hnn : ∀ m, ¬EncodesAction ⟨c,.abandonUnsent (.action n),.ok .done⟩ m := by
    rintro m ⟨_,_,_,_,h,_⟩
    cases h
  have hplaces := filterMap_place_snoc (e := ⟨c,.abandonUnsent (.action n),.ok .done⟩) h rfl
  refine ⟨ho.same,⟨n,hlt.le,?_,?_,?_⟩,?_,?_,?_,?_,ho.pointer⟩
  · rw [keptActions_snoc,hl]
    exact erase_range n
  · rw [if_pos hlt]
  · intro i q hq
    obtain ⟨hi,hq⟩ := erase_eq_some.mp hq
    have hle := hb i q hq
    have hne : q.sequence ≠ n := fun heq => hi (ho.distinct i slot q p hq hpd (heq.trans hp.symm))
    omega
  · exact ho.distinct.revise fun i q hq => ⟨q,(erase_eq_some.mp hq).2,rfl⟩
  · exact fun i q hq => (ho.owes i q (erase_eq_some.mp hq).2).snoc (hnn _)
  · rw [hplaces]
    exact ho.places
  · rw [hplaces]
    exact ho.below

theorem Ordered.step {op r} (ho : Ordered pol h c)
    (hs : Sequenced c op r c') : Ordered pol (h ++ [⟨c,op,r⟩]) c' := by
  cases hs with
  | frames hf hr hop => exact ho.frames (unsequenced_of_silent hr hop) hf
  | held _ hf => exact ho.frames ⟨fun _ => rfl,rfl,fun n ⟨_,_,_,_,h,_⟩ => by cases h⟩ hf
  | action hs => exact ho.action hs
  | pointer hs => exact ho.pointer_step hs
  | abandon _ hn hpd hp => exact ho.abandon hn hpd hp
  | completed hs =>
    have hf := of_serviced hs.serviced
    refine ho.quiet ⟨fun _ => rfl,rfl,fun n ⟨_,_,_,_,h,_⟩ => by cases h⟩
      (hs.after.nextAction.trans hf.nextAction)
      (hs.after.nextPointer.trans hf.nextPointer) (hs.after.policy.trans hf.policy) fun i p hp => ?_
    rw [hs.after.pending] at hp
    rw [← hf.pending]
    exact (erase_eq_some.mp hp).2

end Step

theorem ordered_of_starts {c} (hc : Starts c) : Ordered c.policy [] c := by
  obtain ⟨_,_,_,_,_,pol,_,hnew⟩ := hc
  unfold InputClient.new at hnew
  split at hnew
  · cases hnew
  · cases hnew
    refine ⟨rfl,⟨0,by decide,rfl,rfl,nofun⟩,nofun,nofun,.nil,nofun,fun n hn => ?_⟩
    cases hn
    decide

theorem ordered_run {c} (hc : Starts c) (ops : List Op) : Ordered c.policy (trace c ops)
    (final c ops) :=
  Transition.history_invariant step (ordered_of_starts hc)
    (fun _ t op ho => ho.step (call_sequenced t op)) ops

/-! What a run shows. -/

section Run

variable {c : InputClient} {ops : List Op} {past later : List Event} {e : Event}

/-- Every event of a run is one call, from a state that is in order with all before it. -/
theorem event_sequenced (hc : Starts c) (h : trace c ops = past ++ e :: later) :
    ∃ c' rest, Ordered c.policy past e.before ∧ Sequenced e.before e.input e.reply c' ∧
    later = trace c' rest := by
  obtain ⟨before,_,rest,_,rfl,rfl,rfl⟩ := Transition.trace_split step h
  exact ⟨_,rest,ordered_run hc before,call_sequenced _ _,rfl⟩

theorem Sequenced.stays_stopped {op r c' re}
    (h : Sequenced c op r c') (hstop : c.stopped = some re) : c'.stopped = some re ∧ Silent r := by
  cases h with
  | frames hf hr _ => exact ⟨hf.stopped re hstop,hr⟩
  | held hrun _ =>
    rw [hstop] at hrun
    cases hrun
  | action hs | pointer hs =>
    have hrun := hs.ticked.running
    rw [hstop] at hrun
    cases hrun
  | abandon => exact ⟨hstop,trivial⟩
  | completed hs =>
    exact ⟨hs.after.stopped re ((of_serviced hs.serviced).stopped re hstop),trivial⟩

theorem silent_of_stopped (ops : List Op) {r} (hs : c.stopped = some r) :
    ∀ e ∈ trace c ops, Silent e.reply := by
  induction ops generalizing c with
  | nil =>
    intro e he
    cases he
  | cons op ops ih =>
    obtain ⟨hs',hsilent⟩ := (call_sequenced c op).stays_stopped hs
    intro e he
    rcases mem_cons.mp he with rfl | he
    · exact hsilent
    · exact ih hs' e he

theorem place_of_encodesPointer {n} (h : EncodesPointer e n) : place e = some n := by
  obtain ⟨_,_,_,_,hi,hr,rfl⟩ := h
  unfold place
  rw [hi,hr]

theorem place_between {b} (hp : ((past ++ e :: later).filterMap place).Pairwise (· < ·))
    (hb : place e = some b) : (∀ e' ∈ past, ∀ n, EncodesPointer e' n → n < b) ∧
      ∀ e' ∈ later, ∀ n, EncodesPointer e' n → b < n := by
  rw [filterMap_append,filterMap_cons_some hb] at hp
  obtain ⟨_,hl,hbefore⟩ := pairwise_append.mp hp
  refine ⟨fun e' he' n hn => ?_,fun e' he' n hn => ?_⟩
  · exact hbefore n (mem_filterMap.mpr ⟨e',he',place_of_encodesPointer hn⟩) b mem_cons_self
  · exact (pairwise_cons.mp hl).1 n (mem_filterMap.mpr ⟨e',he',place_of_encodesPointer hn⟩)

/-- The record of an action carries its number and, for a coordinate action, the place
that it took. -/
theorem bytes_of_action {a room now rec c'}
    (h : Sequenced c (.action a room now) (.ok (.encoded rec)) c') :
    ∃ cr b, encodeInput ⟨cr,rec.sequence,a.event b⟩ room c.limits
        c.binding.channel .viewerToHost .reliable = .ok rec.bytes ∧
      (a.isCoordinate = true → place ⟨c,.action a room now,.ok (.encoded rec)⟩ = some b) := by
  cases h with
  | frames _ hr _ => exact hr.elim
  | action hs =>
    have hf := of_serviced hs.ticked.serviced
    have hb := hs.bytes
    rw [hf.limits,hf.binding] at hb
    refine ⟨_,_,hb,fun ha => (if_pos ha).trans ?_⟩
    have hp := hs.place
    rwa [Action.barrier,if_pos ha,hf.nextPointer] at hp

theorem bytes_of_pointer {position room now rec c'}
    (h : Sequenced c (.pointer position room now) (.ok (.encoded rec)) c') :
    ∃ cr, encodeInput ⟨cr,rec.sequence,.pointer position⟩ room c.limits
      c.binding.channel .viewerToHost .datagram = .ok rec.bytes := by
  cases h with
  | frames _ hr _ => exact hr.elim
  | pointer hs =>
    have hf := of_serviced hs.ticked.serviced
    have hb := hs.bytes
    rw [hf.limits,hf.binding] at hb
    exact ⟨_,hb⟩

end Run

/-- Sequencing of a grant, over all its runs. -/
theorem input_sequencing {c : InputClient} (hc : Starts c) (ops : List Op) :
    (∃ k, keptActions (trace c ops) = List.range k) ∧
    (∀ past e later n a, trace c ops = past ++ e :: later → e.input = .abandonUnsent (.action n) →
      e.reply = .ok a → e.before.suspendedSince.isSome = true ∧
      (keptActions past).getLast? = some n ∧
        ∃ p ∈ entries e.before.pending, p.sequence = n) ∧ (entries
          (final c ops).pending).length ≤ 32 ∧
    (∀ p ∈ entries (final c ops).pending, Owes c.policy (trace c ops) p) ∧
    (∀ past e later a room now rec, trace c ops = past ++ e :: later →
      e.input = .action a room now → e.reply = .ok (.encoded rec) →
      ∃ credentials barrier, encodeInput ⟨credentials,rec.sequence,a.event barrier⟩ room
          e.before.limits e.before.binding.channel .viewerToHost .reliable = .ok rec.bytes ∧
        (a.isCoordinate = true → (∀ e' ∈ past, ∀ n, EncodesPointer e' n → n < barrier) ∧
          ∀ e' ∈ later, ∀ n, EncodesPointer e' n → barrier < n)) ∧
    (∀ e ∈ trace c ops, ∀ position room now rec, e.input = .pointer position room now →
      e.reply = .ok (.encoded rec) →
      ∃ credentials, encodeInput ⟨credentials,rec.sequence,.pointer position⟩ room
        e.before.limits e.before.binding.channel .viewerToHost .datagram = .ok rec.bytes) ∧
    ∀ past e later, trace c ops = past ++ e :: later → e.before.stopped.isSome = true →
      ∀ e' ∈ e :: later, Silent e'.reply := by
  have ho := ordered_run hc ops
  refine ⟨?_,?_,(length_filterMap_le _ _).trans length_finRange.le,?_,?_,?_,?_⟩
  · obtain ⟨k,_,hk,_⟩ := ho.kept
    exact ⟨k,hk⟩
  · rintro past ⟨t,op,r⟩ later n a h hin hrp
    obtain ⟨c',_,hord,hs,_⟩ := event_sequenced hc h
    cases hin
    cases hrp
    cases hs with
    | frames _ _ hop => exact absurd rfl (hop n rfl a)
    | @abandon _ slot p hsus hn hpd hp =>
      obtain ⟨_,hl⟩ := hord.last hn hpd hp
      exact ⟨hsus,by rw [hl,range_succ,List.getLast?_concat],p,mem_entries.mpr ⟨slot,hpd⟩,hp⟩
  · intro p hp
    obtain ⟨i,hi⟩ := mem_entries.mp hp
    exact ho.owes i p hi
  · rintro past ⟨t,op,r⟩ later a room now rec h hin hrp
    obtain ⟨c',_,_,hs,_⟩ := event_sequenced hc h
    cases hin
    cases hrp
    obtain ⟨credentials,barrier,hb,hplace⟩ := bytes_of_action hs
    have hplaces := ho.places
    rw [h] at hplaces
    exact ⟨credentials,barrier,hb,fun ha => place_between hplaces (hplace ha)⟩
  · rintro ⟨t,op,r⟩ he position room now rec hin hrp
    obtain ⟨past,later,h⟩ := append_of_mem he
    obtain ⟨c',_,_,hs,_⟩ := event_sequenced hc h
    cases hin
    cases hrp
    exact bytes_of_pointer hs
  · rintro past ⟨t,op,r⟩ later h hstop e' he'
    obtain ⟨c',rest,_,hs,rfl⟩ := event_sequenced hc h
    obtain ⟨_,hr⟩ := Option.isSome_iff_exists.mp hstop
    obtain ⟨hstop',hsilent⟩ := hs.stays_stopped hr
    rcases mem_cons.mp he' with rfl | he'
    · exact hsilent
    · exact silent_of_stopped rest hstop' e' he'

/-- A grant on one display, with everything that the viewer can send. -/
def typist : Except ClientError InputClient :=
  InputClient.new ⟨⟨1⟩,⟨2⟩,⟨3⟩,⟨0,0,0,⟨0⟩⟩⟩ 7
    sampleBounds ⟨fun _ => true⟩
    sampleProtocolLimits ⟨250000,2000000⟩ 0

/-- A key, a click between two pointer states, and the click taken back. -/
def typed : List Op :=
  [.confirmMapping ⟨1⟩ ⟨0,0,0,⟨0⟩⟩ 1,.presented ⟨⟨1⟩,1,⟨0,0,0,⟨0⟩⟩,1,0⟩ 1,
    .action (.key sampleKey .press) 4096 2,
    .pointer ⟨5,5⟩ 4096 3,
    .action (.button .primary true ⟨5,5⟩) 4096 4,
    .pointer ⟨6,5⟩ 4096 5,
    .suspend 6,
    .abandonUnsent (.action 1)]

theorem input_sequencing_typed : ∃ c, typist = .ok c ∧ keptActions
    (trace c (typed.take 7)) = [0,1] ∧
    keptActions (trace c typed) = [0] ∧ (∃ k, keptActions (trace c typed) = List.range k) ∧
    ∀ p ∈ entries (final c typed).pending, Owes c.policy (trace c typed) p := by
  have hs : ∀ c, typist = .ok c → Starts c := fun c hc => ⟨_,_,_,_,_,_,_,hc⟩
  refine ⟨_,rfl,by decide +kernel,by decide +kernel,?_⟩
  have hrun := input_sequencing (hs _ rfl) typed
  exact ⟨hrun.1,hrun.2.2.2.1⟩

end FrankenRemote.Client
