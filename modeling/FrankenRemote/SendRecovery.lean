import FrankenRemote.SendLanes
import FrankenRemote.SendRun
import FrankenRemote.SlidingWindow

/-! How often a sender may lose its generation. Every failed generation is charged once, in a
window that outlives the generations; one too many closes the cache. -/
namespace FrankenRemote.Delivery

open Wire Bytes Procedure SlotTable Transition SendCache List

/-! Charges. -/

variable {now : ℕ} {c t : SendCache} {pol : SendPolicy}

theorem Lapses.clock_le (h : Lapses now c t) : c.lastNow.getD 0 ≤ t.lastNow.getD 0 := by
  refine h.invariant (I := fun s => c.lastNow.getD 0 ≤ s.lastNow.getD 0)
    (fun s t hl hs => ?_) le_rfl
  cases hl with
  | sampled hc =>
    refine hs.trans ?_
    cases hla : s.lastNow with
    | none => exact Nat.zero_le _
    | some last => exact hc last hla
  | closed | failed | expired => exact hs

/-- What still counts of a cache's earlier failures. -/
theorem recentRecoveries_eq (c : SendCache) (now : ℕ) : c.recentRecoveries now =
    SlidingWindow.recent c.recoveries c.policy.maxRecoveriesPerWindow
      c.policy.recoveryWindowMicros now :=
  rfl

/-- What a call does to the record of failed generations. -/
inductive Ledger (e : SendEvent) (now : ℕ) (t : SendCache) : Prop
  | kept (hclock : e.before.lastNow.getD 0 ≤ t.lastNow.getD 0)
      (hrecoveries : t.recoveries = e.before.recoveries)
      (hmarker : t.recoveryChargedEpoch = e.before.recoveryChargedEpoch)
  | charged {i} (hclock : e.before.lastNow.getD 0 ≤ now) (hnow : t.lastNow = some now)
      (huncharged : e.before.recoveryChargedEpoch ≠ some e.before.epoch)
      (hslot : i.val < e.before.policy.maxRecoveriesPerWindow)
      (hfree : e.before.recentRecoveries now i = none)
      (hrecoveries : t.recoveries = store (e.before.recentRecoveries now) i now)
      (hmarker : t.recoveryChargedEpoch = some e.before.epoch)
  | overran (hclock : e.before.lastNow.getD 0 ≤ now) (hnow : t.lastNow = some now)
      (hrecoveries : t.recoveries = e.before.recentRecoveries now)
      (hmarker : t.recoveryChargedEpoch = e.before.recoveryChargedEpoch)

section Ledger

variable {e : SendEvent} {now : ℕ} {s t u : SendCache}

theorem Lapses.recentRecoveries_eq (h : Lapses now e.before s) :
    s.recentRecoveries now = e.before.recentRecoveries now := by
  simp only [Delivery.recentRecoveries_eq,h.fixed.recoveries,h.fixed.policy]

theorem ledger_charged (h : Lapses now e.before s) (hch : SendCache.Charged now s u)
    (hn : t.lastNow = u.lastNow) (hr : t.recoveries = u.recoveries)
    (hm : t.recoveryChargedEpoch = u.recoveryChargedEpoch) : Ledger e now t := by
  have hf := h.fixed
  have hle := h.clock_le
  cases hch with
  | before _ => exact .kept (hn ▸ hle) (hr.trans hf.recoveries) (hm.trans hf.chargedEpoch)
  | now hc hu hs hfree =>
    rw [hc] at hle
    rw [hf.chargedEpoch,hf.epoch] at hu
    rw [hf.policy] at hs
    rw [h.recentRecoveries_eq] at hfree
    refine .charged hle (hn.trans hc) hu hs hfree ?_ ?_
    · rw [hr,h.recentRecoveries_eq]
    · rw [hm,hf.epoch]

theorem SendEffect.ledger (h : SendEffect e now t) : Ledger e now t := by
  cases h with
  | lapsed hl _ => exact .kept hl.clock_le hl.fixed.recoveries hl.fixed.chargedEpoch
  | inserted hl _ _ _ _ _ _ _ ht | original hl _ _ _ _ ht | observation hl _ _ ht
  | repaired hl _ _ _ _ _ ht | queued hl _ _ _ _ _ ht | observed hl _ _ ht =>
    subst ht
    exact .kept hl.clock_le hl.fixed.recoveries hl.fixed.chargedEpoch
  | awaited hl _ _ _ _ hc _ ht | demanded hl _ _ _ hc _ ht =>
    subst ht
    exact ledger_charged hl hc rfl rfl rfl
  | renewed hl _ _ _ hc _ _ ht =>
    subst ht
    rcases hc with rfl | hc
    · exact .kept hl.clock_le hl.fixed.recoveries hl.fixed.chargedEpoch
    · exact ledger_charged hl hc rfl rfl rfl
  | overran hl hover _ ht =>
    subst ht
    have hle := hl.clock_le
    rw [hover.clock] at hle
    exact .overran hle hover.clock hl.recentRecoveries_eq hl.fixed.chargedEpoch

end Ledger

/-! Whole runs. -/

/-- The generation that a call charged, and when. -/
def SendEvent.admits (e : SendEvent) : Option (MediaEpoch × ℕ) :=
  if e.after.recoveryChargedEpoch = e.before.recoveryChargedEpoch then none
  else some (e.before.epoch,e.input.time.getD 0)

def admissions (past : List SendEvent) : List (MediaEpoch × ℕ) := past.filterMap (·.admits)

@[simp] theorem admissions_snoc (past : List SendEvent) (e : SendEvent) :
    admissions (past ++ [e]) = admissions past ++ e.admits.toList := by
  cases h : e.admits <;> simp [admissions,h]

/-- The record of a run: each generation once, and never too many within the window. -/
structure Rated (policy : SendPolicy) (past : List SendEvent) (c : SendCache) : Prop where
  samePolicy : c.policy = policy
  limited : SlidingWindow.Limited policy.maxRecoveriesPerWindow policy.recoveryWindowMicros
    (c.lastNow.getD 0) c.recoveries ((admissions past).map (·.2))
  once : ((admissions past).map (·.1)).Nodup
  since : ∀ x ∈ admissions past, Since x.1 c.epoch
  current : ∀ x ∈ admissions past, x.1 = c.epoch → c.recoveryChargedEpoch = some c.epoch
  marked : ∀ g, c.recoveryChargedEpoch = some g → g ∈ (admissions past).map (·.1)

namespace Rated

variable {pol : SendPolicy} {past : List SendEvent} {e : SendEvent} {now : ℕ} {c t : SendCache}

theorem since_step {admitted : List (MediaEpoch × ℕ)} (h : ∀ x ∈ admitted, Since x.1 e.before.epoch)
    (hg : Generation e t) : ∀ x ∈ admitted, Since x.1 t.epoch := by
  intro x hx
  cases hg with
  | same he _ _ =>
    rw [he]
    exact h x hx
  | next hn _ _ => exact .inr ((h x hx).replaced hn)

/-- The marker names the present generation if that has been charged. -/
theorem current_step {admitted : List (MediaEpoch × ℕ)}
    (hs : ∀ x ∈ admitted, Since x.1 e.before.epoch) (hg : Generation e t)
    (hm : ∀ x ∈ admitted, x.1 = e.before.epoch → t.recoveryChargedEpoch = some e.before.epoch) :
    ∀ x ∈ admitted, x.1 = t.epoch → t.recoveryChargedEpoch = some t.epoch := by
  intro x hx hxt
  cases hg with
  | same he _ _ =>
    rw [he] at hxt ⊢
    exact hm x hx hxt
  | next hn _ _ =>
    have hr := (hs x hx).replaced hn
    rw [hxt] at hr
    exact absurd hr (MediaEpoch.replaces_irrefl _)

/-- A call that charges nothing. -/
theorem uncharged (h : Rated pol past e.before) (he : SendEffect e now t) (ha : e.after = t)
    (hm : t.recoveryChargedEpoch = e.before.recoveryChargedEpoch)
    (hl : SlidingWindow.Limited pol.maxRecoveriesPerWindow pol.recoveryWindowMicros
      (t.lastNow.getD 0) t.recoveries
        ((admissions past).map (·.2))) : Rated pol (past ++ [e]) t := by
  have hadmissions : admissions (past ++ [e]) = admissions past := by simp [SendEvent.admits,ha,hm]
  refine ⟨he.steady.policy.trans h.samePolicy,?_,?_,?_,?_,?_⟩ <;> rw [hadmissions]
  · exact hl
  · exact h.once
  · exact since_step h.since he.generation
  · refine current_step h.since he.generation fun x hx hxe => ?_
    rw [hm]
    exact h.current x hx hxe
  · rw [hm]
    exact h.marked

theorem effect (h : Rated pol past e.before) (hpos : 0 < pol.recoveryWindowMicros)
    (he : SendEffect e now t) (hafter : e.after = t) (hn : e.input.time.getD 0 = now) :
    Rated pol (past ++ [e]) t := by
  have hrc : e.before.recentRecoveries now = SlidingWindow.recent e.before.recoveries
      pol.maxRecoveriesPerWindow pol.recoveryWindowMicros now := by
    rw [recentRecoveries_eq,h.samePolicy]
  cases he.ledger with
  | kept hc hr hm =>
    refine h.uncharged he hafter hm ?_
    rw [hr]
    exact h.limited.later hc
  | charged hc hl hu hs hfree hr hm =>
    have hadm : e.admits = some (e.before.epoch,now) := by
      simp only [SendEvent.admits,hafter,hm,hn]
      rw [if_neg fun heq => hu heq.symm]
    have ha : admissions (past ++ [e]) = admissions past ++ [(e.before.epoch,now)] := by
      simp [hadm]
    have hsi : ∀ x ∈ admissions past ++ [(e.before.epoch,now)], Since x.1 e.before.epoch :=
      forall_mem_snoc.mpr ⟨h.since,.inl rfl⟩
    rw [h.samePolicy] at hs
    rw [hrc] at hfree hr
    refine ⟨he.steady.policy.trans h.samePolicy,?_,?_,?_,?_,?_⟩
    · rw [ha,hr,hl,map_append]
      exact ((h.limited.later hc).forget hpos).enter hs hfree
    · rw [ha,map_append]
      refine nodup_append.mpr ⟨h.once,nodup_singleton _,?_⟩
      intro g hg g' hg' heq
      obtain ⟨x,hx,rfl⟩ := mem_map.mp hg
      obtain rfl := mem_singleton.mp hg'
      exact hu (h.current x hx heq)
    · rw [ha]
      exact since_step hsi he.generation
    · rw [ha]
      exact current_step hsi he.generation fun _ _ _ => hm
    · rw [ha,hm]
      rintro g ⟨⟩
      simp
  | overran hc hl hr hm =>
    refine h.uncharged he hafter hm ?_
    rw [hr,hl,hrc]
    exact (h.limited.later hc).forget hpos

end Rated

/-! One too many. -/

/-- The procedure reports an overrun only of a cache that it has closed. -/
abbrev Capped {α : Type} (m : Sender α) : Prop :=
  Raises SendError.recoveryLimitExceeded (fun t => t.closed = true) m

namespace SendCache

variable {p : CachedPicture}

/-- A result that is no overrun. -/
abbrev InRange {α : Type} (x : Except SendError α) : Prop :=
  Fails (· ≠ SendError.recoveryLimitExceeded) x

theorem fragment_inRange (i : ℕ) : InRange (p.fragment i) :=
  .bind (.mapError (by simp)) fun (_,_) _ => .ok _

theorem repairPacketBytes_inRange (i : ℕ) : InRange (p.repairPacketBytes i) :=
  .bind (fragment_inRange i) fun _ _ => .ok _

theorem original_inRange (c : SendCache) (room : ℕ) : InRange (c.original p room) := by
  refine .ite (.bind (.mapError (by simp)) fun _ _ => .ok _) ?_
  split
  · exact .bind (fragment_inRange _) fun _ _ => .bind (.mapError (by simp)) fun _ _ => .ok _
  · exact .bind (.mapError (by simp)) fun _ _ => .ok _

theorem considered_inRange (remaining : ℕ) (selected) (entry : Fin cacheSlots × CachedPicture) :
    InRange (considered remaining selected entry) := by
  obtain ⟨i,p⟩ := entry
  dsimp only [considered]
  cases p.repair with
  | none => exact .ok _
  | some job => exact .ite (.ok _) (.bind (repairPacketBytes_inRange _)
    fun _ _ => .ite (.ok _) (.ok _))

theorem repairCandidate_inRange (c : SendCache) : InRange c.repairCandidate := by
  unfold repairCandidate
  generalize (none : Option (Fin cacheSlots × CachedPicture × RepairJob)) = selected
  induction indexed c.pictures generalizing selected with
  | nil => exact .ok _
  | cons x xs ih =>
    rw [foldlM_cons]
    exact .bind (considered_inRange _ _ _) fun _ _ => ih _

theorem repairable_inRange (a : ℕ) (ra : List RepairRange) : InRange (repairable p a ra) := by
  induction ra with
  | nil => exact .ok _
  | cons r rs ih => exact .bind (repairPacketBytes_inRange _) fun _ _ => .ite (.error (by simp)) ih

theorem repairJob_inRange (r : List RepairRange) (m : ℕ) : InRange (repairJob p r m) := by
  unfold repairJob
  split
  · exact .ite (.error (by simp)) (.ite (.error (by simp)) (.ok _))
  · exact .ok _

theorem checkClock_capped (now : ℕ) : Capped (checkClock now) :=
  .bind .get fun _ => .ite (.bind (.modify _) fun _ => .throw (by simp)) (.modify _)

theorem checkRecoveryDeadline_capped (now : ℕ) : Capped (checkRecoveryDeadline now) :=
  .bind .get fun _ => .ite (.bind (.modify _) fun _ => .throw (by simp)) (.pure _)

theorem failReference_capped (now : ℕ) : Capped (failReference now) := by
  refine .bind .get fun c => ?_
  split
  · exact .bind (.modify _) fun _ => .throw (by simp)
  · exact .modify _

/-- A call that samples the clock of an open cache. -/
theorem opened_capped {α : Type} {now : ℕ} {k : SendCache → Sender α} (h : ∀ c, Capped (k c)) :
    Capped (do
      checkClock now
      let c ← get
      refuseIf (c.closed = true) .closed
      checkRecoveryDeadline now
      k c) :=
  .bind (checkClock_capped now) fun _ => .bind .get fun c => .bind (.refuseIf (by simp)) fun _ =>
    .bind (checkRecoveryDeadline_capped now) fun _ => h c

theorem tick_capped (now : ℕ) : Capped (tick now) := by
  refine opened_capped fun _ => .bind .get fun c => .bind (.refuseIf (by simp))
    fun _ => .ite ?_ (.modify _)
  exact .bind (failReference_capped now) fun _ => .throw (by simp)

theorem pushPicture_capped (r : ℕ) (progress : Progress) (pa : PictureBytes)
    (mode : DeliveryMode) (now : ℕ) : Capped (pushPicture r progress pa mode now) := by
  refine .bind (tick_capped now) fun _ => .bind .get
    fun c => .bind (.ofMapped (by simp)) fun _ => ?_
  refine .bind (.refuseIf (by simp)) fun _ => .bind (.refuseIf (by simp)) fun _ => ?_
  refine .bind (.refuseIf (by simp)) fun _ => .bind (.refuseIf (by simp)) fun _ => ?_
  refine .bind (.okOr (by simp)) fun _ => .bind (.okOr (by simp)) fun _ => ?_
  refine .bind (.refuseIf (by simp)) fun _ => .bind (.refuseIf (by simp)) fun _ => ?_
  refine .bind (.ofMapped (by simp)) fun _ => .ite ?_ (.bind (.okOr (by simp)) fun _ => .modify _)
  exact .bind (failReference_capped now) fun _ => .throw (by simp)

theorem pushShared_capped (r : ℕ) (frame : SharedFrame) (mode : DeliveryMode) (now : ℕ) :
    Capped (pushShared r frame mode now) :=
  .bind .get fun _ => .bind (.refuseIf (by simp)) fun _ => .bind (.ofMapped (by simp)) fun _ =>
    pushPicture_capped _ _ _ _ _

theorem nextPacket_capped (room now : ℕ) : Capped (nextPacket room now) := by
  refine .bind (tick_capped now) fun _ => .bind .get fun c => ?_
  split
  · refine .bind .get fun c => ?_
    split
    · exact .pure _
    · exact .bind (.ofMapped (by simp)) fun _ => .bind (.modify _) fun _ => .pure _
  · refine .bind (.ofResult (original_inRange _ _)) fun _ => ?_
    exact .bind (.modify _) fun _ => .pure _

theorem queueRepair_capped (pa : List Byte) (now : ℕ) : Capped (queueRepair pa now) := by
  refine .bind .get fun c => .bind (.ofMapped (by simp))
    fun _ => .bind (.ofMapped (by simp)) fun _ => ?_
  refine .bind (tick_capped now) fun _ => .bind .get fun c => .bind (.okOr (by simp)) fun _ => ?_
  refine .bind (.refuseIf (by simp)) fun _ => .bind (.ofMapped (by simp)) fun _ => ?_
  refine .bind (.refuseIf (by simp)) fun _ => .bind (.ofResult (repairable_inRange _ _)) fun _ => ?_
  refine .bind (.ofResult (repairJob_inRange _ _)) fun _ => .bind (.refuseIf ?_) fun _ => ?_
  · split <;> simp
  · exact .bind (.ofMapped (by simp)) fun _ => .modify _

theorem nextRepairPacket_capped (room now : ℕ) : Capped (nextRepairPacket room now) := by
  refine .bind (tick_capped now) fun _ => .bind .get fun c => ?_
  refine .bind (.ofResult (repairCandidate_inRange _)) fun selected => ?_
  split
  · exact .pure _
  · refine .bind (.ofResult (fragment_inRange _)) fun _ => ?_
    exact .bind (.ofMapped (by simp)) fun _ => .bind (.modify _) fun _ => .pure _

theorem observeUnchanged_capped (frame o now : ℕ) :
    Capped (observeUnchanged frame o now) := by
  refine .bind (tick_capped now) fun _ => .bind .get fun c => .bind (.okOr (by simp)) fun _ => ?_
  refine .bind (.refuseIf (by simp)) fun _ => .ite (.pure _) (.bind (.ofMapped (by simp))
    fun _ => ?_)
  exact .bind (.refuseIf (by simp)) fun _ => .bind (.modify _) fun _ => .pure _

theorem authorizeWrite_capped (offer : PacketOffer) (now : ℕ) :
    Capped (authorizeWrite offer now) := by
  refine .bind (tick_capped now) fun _ => .bind .get
    fun c => .bind (.refuseIf (by simp)) fun _ => ?_
  refine .refuseIf ?_
  unfold PacketOffer.expiryError
  split <;> simp

/-- The one place that reports an overrun. -/
theorem admitRecovery_capped (now : ℕ) : Capped (admitRecovery now) := by
  refine .bind .get fun c => .ite (.pure _) (.bind (.modify _) fun _ => .bind .get fun c => ?_)
  split
  · exact fun s => .modify_bind (.throw fun _ => rfl)
  · exact .modify _

theorem awaitRecoveryRequest_capped (now : ℕ) : Capped (awaitRecoveryRequest now) := by
  refine opened_capped fun c => .bind (.refuseIf (by simp)) fun _ => .ite (.pure _) ?_
  exact .bind (.okOr (by simp)) fun _ => .bind (admitRecovery_capped now) fun _ => .modify _

theorem abandonExpiredOffer_capped (offer : PacketOffer) (now : ℕ) :
    Capped (abandonExpiredOffer offer now) := by
  refine opened_capped fun c => .bind (.refuseIf (by simp))
    fun _ => .bind (.refuseIf (by simp)) fun _ => ?_
  refine .ite (.bind (failReference_capped now) fun _ => ?_) (awaitRecoveryRequest_capped now)
  exact awaitRecoveryRequest_capped now

theorem acceptRecovery_capped (r : RecoveryRequest) (b : DecoderBinding) (t now : ℕ) :
    Capped (acceptRecovery r b t now) :=
  .bind (admitRecovery_capped now) fun _ => .bind (.modify _) fun _ => .bind .get fun _ => .pure _

theorem requestRecovery_capped (b : List Byte) (bi : DecoderBinding) (now : ℕ) :
    Capped (requestRecovery b bi now) := by
  refine opened_capped fun c => .bind (.refuseIf (by simp))
    fun _ => .bind (.ofMapped (by simp)) fun _ => ?_
  refine .bind (.refuseIf (by simp)) fun _ => .bind (.refuseIf (by simp)) fun _ => .ite (.pure _) ?_
  split
  · exact acceptRecovery_capped _ _ _ _
  split
  · exact acceptRecovery_capped _ _ _ _
  · exact .bind (.modify _) fun _ => .throw (by simp)

theorem replace_capped (ep : MediaEpoch) (b : MediaBindings) (now : ℕ) :
    Capped (replace ep b now) := by
  refine opened_capped fun c => .bind (.refuseIf (by simp)) fun _ => .ite ?_ (.modify _)
  exact .bind (admitRecovery_capped now) fun _ => .modify _

end SendCache

/-! Replies. -/

def SendReply.error? : SendReply → Option SendError
  | .done (.error e) => some e
  | .prepared (.error e) => some e
  | .observed (.error e) => some e
  | .recovery (.error e) => some e
  | _ => none

section Replies

variable {e : SendError}

@[simp] theorem error?_done {res} :
    (SendReply.done res).error? = some e ↔ res = .error e := by
  cases res <;> simp [SendReply.error?]

@[simp] theorem error?_prepared {res} :
    (SendReply.prepared res).error? = some e ↔ res = .error e := by
  cases res <;> simp [SendReply.error?]

@[simp] theorem error?_observed {res} :
    (SendReply.observed res).error? = some e ↔ res = .error e := by
  cases res <;> simp [SendReply.error?]

@[simp] theorem error?_recovery {res} :
    (SendReply.recovery res).error? = some e ↔ res = .error e := by
  cases res <;> simp [SendReply.error?]

end Replies

/-- Whatever call reports an overrun has closed the cache. -/
theorem sendStep_capped (c : SendCache) (op : SendOp)
    (h : (sendStep c op).1.error? = some .recoveryLimitExceeded) :
    (sendStep c op).2.closed = true := by
  cases op with
  | push n progress payload mode now =>
    exact pushPicture_capped n progress payload mode now c (error?_done.mp h)
  | pushShared n frame mode now =>
    exact pushShared_capped n frame mode now c (error?_done.mp h)
  | nextPacket room now => exact nextPacket_capped room now c (error?_prepared.mp h)
  | queueRepair pk now => exact queueRepair_capped pk now c (error?_done.mp h)
  | nextRepairPacket room now => exact nextRepairPacket_capped room now c (error?_prepared.mp h)
  | observeUnchanged frame observed now =>
    exact observeUnchanged_capped frame observed now c (error?_observed.mp h)
  | authorizeWrite offer now => exact authorizeWrite_capped offer now c (error?_done.mp h)
  | tick now => exact tick_capped now c (error?_done.mp h)
  | awaitRecoveryRequest now => exact awaitRecoveryRequest_capped now c (error?_done.mp h)
  | abandonExpiredOffer offer now =>
    exact abandonExpiredOffer_capped offer now c (error?_done.mp h)
  | requestRecovery bytes b now =>
    exact requestRecovery_capped bytes b now c (error?_recovery.mp h)
  | replace epoch bs now => exact replace_capped epoch bs now c (error?_done.mp h)
  | close => rfl

/-- A closed cache refuses and stays closed. -/
def Stopped {α : Type} (res : Except SendError α) (t : SendCache) : Prop :=
  (∃ e, res = .error e) ∧ t.closed = true

section Closed

variable {α : Type} {c : SendCache} {now : ℕ}

theorem opened_closed {k : SendCache → Sender α} (hc : c.closed = true) :
    Ensures (do
      SendCache.checkClock now
      let c ← get
      refuseIf (c.closed = true) .closed
      checkRecoveryDeadline now
      k c) c Stopped := by
  refine opened_ensures (fun e t h _ => ⟨⟨e,rfl⟩,h.fixed.closed hc⟩) fun _ ho => ?_
  exact absurd hc ho

theorem ticked_closed {k : Sender α} (hc : c.closed = true) :
    Ensures (do
      SendCache.tick now
      k) c Stopped := by
  refine ticked_ensures (fun e t h _ => ⟨⟨e,rfl⟩,h.fixed.closed hc⟩) fun s h hr => ?_
  exact absurd (.inl (h.fixed.closed hc)) hr.alive

theorem sendStep_closed (hc : c.closed = true) (op : SendOp) :
    (sendStep c op).2.closed = true ∧ (op = .close ∨ ∃ e, (sendStep c op).1.error? = some e) := by
  have hs : ∀ {α : Type} {m : Sender α} {reply : Except SendError α → SendReply},
      (∀ e, (reply (.error e)).error? = some e) → Ensures m c Stopped →
      (sends reply m c).2.closed = true ∧ ∃ e, (sends reply m c).1.error? = some e := by
    rintro α m reply hr ⟨⟨e,he⟩,ht⟩
    refine ⟨ht,e,?_⟩
    rw [sends,he]
    exact hr e
  suffices h : op = .close ∨
      ((sendStep c op).2.closed = true ∧ ∃ e, (sendStep c op).1.error? = some e) by
    rcases h with rfl | ⟨hc,her⟩
    · exact ⟨rfl,.inl rfl⟩
    · exact ⟨hc,.inr her⟩
  cases op with
  | push | nextPacket | nextRepairPacket | observeUnchanged | authorizeWrite =>
    exact .inr (hs (fun _ => rfl) (ticked_closed hc))
  | pushShared recordBytes frame mode now =>
    refine .inr (hs (fun _ => rfl) (.get_bind (.refuseIf_bind ?_ fun _ => ?_)))
    · exact fun _ => ⟨⟨_,rfl⟩,hc⟩
    · exact .ofResult_bind (fun e _ => ⟨⟨e,rfl⟩,hc⟩) fun _ _ => ticked_closed hc
  | queueRepair packet now =>
    refine .inr (hs (fun _ => rfl) (.get_bind (.ofResult_bind ?_ fun _ _ => ?_)))
    · exact fun e _ => ⟨⟨e,rfl⟩,hc⟩
    · exact .ofResult_bind (fun e _ => ⟨⟨e,rfl⟩,hc⟩) fun _ _ => ticked_closed hc
  | tick | awaitRecoveryRequest | abandonExpiredOffer | requestRecovery | replace =>
    exact .inr (hs (fun _ => rfl) (opened_closed hc))
  | close => exact .inl rfl

theorem trace_closed (hc : c.closed = true) (ops : List SendOp) :
    ∀ e ∈ trace sendStep c ops, e.before.closed = true ∧
      (e.input = .close ∨ ∃ err, e.reply.error? = some err) := by
  induction ops generalizing c with
  | nil => simp [trace]
  | cons op ops ih =>
    obtain ⟨hn,hr⟩ := sendStep_closed hc op
    intro e he
    rcases mem_cons.mp he with rfl | he
    · exact ⟨hc,hr⟩
    · exact ih hn e he

end Closed

/-! Refused requests. -/

/-- Once a generation has failed, time moves its deadline only by closing the cache. -/
theorem Lapses.deadline_fixed (h : Lapses now c t) (hd : c.dead) :
    t.closed = true ∨ t.recoveryDeadline = c.recoveryDeadline := by
  have hinv : t.dead ∧ (t.closed = true ∨ t.recoveryDeadline = c.recoveryDeadline) := by
    refine h.invariant
      (I := fun s => s.dead ∧ (s.closed = true ∨ s.recoveryDeadline = c.recoveryDeadline))
      (fun s t hl hs => ⟨hl.fixed.dead hs.1,?_⟩) ⟨hd,.inr rfl⟩
    cases hl with
    | sampled _ => exact hs.2
    | closed => exact .inl rfl
    | failed ha _ | expired ha _ _ => exact absurd hs.1 ha
  exact hinv.2

theorem Lapses.needs (h : Lapses now c t) (hn : c.needsRecovery = true) :
    t.needsRecovery = true := by
  refine h.invariant (I := fun s => s.needsRecovery = true) (fun s t hl hs => ?_) hn
  cases hl with
  | sampled | closed | expired => exact hs
  | failed _ _ => rfl

/-- A refused request has charged nothing and moved no deadline. -/
structure Uncharged (c t : SendCache) : Prop where
  marker : t.recoveryChargedEpoch = c.recoveryChargedEpoch
  slots : ∀ i time, t.recoveries i = some time → c.recoveries i = some time
  deadline : c.needsRecovery = true → t.closed = true ∨ t.recoveryDeadline = c.recoveryDeadline

theorem requestRecovery_uncharged (b : List Byte) (bi : DecoderBinding) (now : ℕ) (c : SendCache) :
    Ensures (requestRecovery b bi now) c fun res t =>
      ∀ e, res = .error e → Uncharged c t := by
  refine requestRecovery_ensures (fun _ t h e _ => ?_) (fun s h _ e _ => ?_)
    (fun _ _ _ he => by cases he) fun _ _ _ _ _ _ _ _ _ _ he => by cases he
  · have hf := h.fixed
    refine ⟨hf.chargedEpoch,fun i time htime => ?_,fun hn => h.deadline_fixed (.inr hn)⟩
    rwa [hf.recoveries] at htime
  · have hf := h.fixed
    refine ⟨hf.chargedEpoch,fun i time htime => ?_,fun _ => .inl rfl⟩
    rw [← hf.recoveries]
    simp only [overrun,close,clear,recentRecoveries] at htime
    split at htime
    · exact (Option.filter_eq_some_iff.mp htime).1
    · exact htime

/-- A failed generation is charged by the time it is replaced. -/
theorem Rated.replaced {past e}
    (h : Rated pol (past ++ [e]) t) (he : SendEffect e now t)
    (ha : e.act = .renew) (hn : e.before.needsRecovery = true) :
    e.before.epoch ∈ (admissions (past ++ [e])).map (·.1) := by
  refine h.marked _ ?_
  cases he with
  | renewed hl _ _ _ _ hf _ ht =>
    subst ht
    have hep := hl.fixed.epoch
    change recoveryChargedEpoch _ = some e.before.epoch
    cases hf (hl.needs hn) with
    | before hc => rwa [← hep]
    | now _ _ _ _ => exact congrArg some hep
  | _ => simp_all

theorem SendPolicy.recoveryWindow_pos {l}
    (h : pol.validate l = .ok ()) : 0 < pol.recoveryWindowMicros := by
  unfold SendPolicy.validate at h
  split at h
  · cases h
  · omega

theorem rated_new {o l b ep}
    (h : new o l b ep pol = .ok c) :
    Rated pol [] c ∧ 0 < pol.recoveryWindowMicros := by
  obtain ⟨⟨⟩,hv,h⟩ := bind_eq_ok.mp h
  cases h
  refine ⟨⟨rfl,.nil,.nil,?_,?_,?_⟩,SendPolicy.recoveryWindow_pos hv⟩ <;> simp [admissions]

/-- In every run, no interval of the window's length sees more failed generations charged than
the policy allows, none is charged twice, and none is replaced uncharged. A refused request
charges nothing and moves no deadline. The call that would charge one too many closes the cache,
and no later call succeeds. -/
theorem recovery_rate {owner : ℕ} {limits : MediaLimits} {bindings : MediaBindings}
    {epoch : MediaEpoch} {pol : SendPolicy} {c : SendCache}
    (hnew : SendCache.new owner limits bindings epoch pol = .ok c) (ops : List SendOp) :
    (∀ a, ((admissions (trace sendStep c ops)).filter fun x =>
      a ≤ x.2 ∧ x.2 < a + pol.recoveryWindowMicros).length ≤ pol.maxRecoveriesPerWindow) ∧
    ((admissions (trace sendStep c ops)).map (·.1)).Nodup ∧
    (∀ (earlier : List SendEvent) (e : SendEvent) later,
      trace sendStep c ops = earlier ++ e :: later → e.act = .renew →
        e.before.needsRecovery = true →
      e.before.epoch ∈ (admissions (earlier ++ [e])).map (·.1)) ∧
    (∀ e : SendEvent, e ∈ trace sendStep c ops → ∀ bytes binding now err,
      e.input = .requestRecovery bytes binding now → e.reply = .recovery (.error err) →
      Uncharged e.before e.after) ∧
    ∀ (earlier : List SendEvent) (e : SendEvent) later,trace sendStep c ops = earlier ++
      e :: later → e.reply.error? = some .recoveryLimitExceeded →
      e.after.closed = true ∧ ∀ e' ∈ later, e'.before.closed = true ∧
        (e'.input = .close ∨ ∃ err, e'.reply.error? = some err) := by
  obtain ⟨hst,hpos⟩ := rated_new hnew
  have hrun : ∀ ops, Rated pol (trace sendStep c ops) (final sendStep c ops) :=
    history_invariant sendStep (I := Rated pol) hst fun _ t op h =>
      h.effect hpos (sendStep_effect t op) rfl rfl
  refine ⟨fun a => ?_,(hrun ops).once,?_,?_,?_⟩
  · have hl := (hrun ops).limited.limited a
    rwa [filter_map,length_map] at hl
  · intro earlier e later hs ha hn
    obtain ⟨ops₁,op,_,_,rfl,rfl,_⟩ := trace_split sendStep hs
    have heff := sendStep_effect (final sendStep c ops₁) op
    exact ((hrun ops₁).effect hpos heff rfl rfl).replaced heff ha hn
  · intro e he bytes binding now err hi hr
    obtain ⟨_,_,hs⟩ := append_of_mem he
    obtain ⟨ops₁,op,_,_,_,rfl,_⟩ := trace_split sendStep hs
    obtain rfl : op = .requestRecovery bytes binding now := hi
    exact requestRecovery_uncharged bytes binding now _ err (SendReply.recovery.inj hr)
  · intro earlier e later hs hr
    obtain ⟨ops₁,op,_,_,_,rfl,rfl⟩ := trace_split sendStep hs
    have hc := sendStep_capped _ op hr
    exact ⟨hc,trace_closed hc _⟩

/-- A bootstrap that is never sent, discovered and awaited. -/
def sampleLoss : List SendOp :=
  [.pushShared 64 ⟨7,.idr,1,0,[1,2,3],3⟩ .recovery 1,.tick 2000000,.awaitRecoveryRequest 2000001]

theorem recovery_rate_sampleLoss : ∃ c,
    SendCache.new 0 sampleConfig.limits sampleConfig.bindings sampleConfig.epoch sampleSendPolicy =
    .ok c ∧ admissions (trace sendStep c sampleLoss) = [(sampleConfig.epoch,2000001)] ∧
    ((admissions (trace sendStep c sampleLoss)).map (·.1)).Nodup := by
  obtain ⟨c,hc⟩ := exists_sampleCache
  obtain ⟨_,honce,_⟩ := recovery_rate hc sampleLoss
  refine ⟨c,hc,?_,honce⟩
  cases hc
  rfl

end FrankenRemote.Delivery
