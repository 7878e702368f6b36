import FrankenRemote.ReceiveEffect

/-! What the slot table keeps under every call, whatever arrives: frames are distinct,
references point back, and complete independent pictures lie ahead of the decoder. -/
namespace FrankenRemote.Delivery

open Wire Bytes Procedure SlotTable ReceivePipeline

/-- No frame is assembled twice, references point back, and every complete independent
picture lies ahead of what the decoder has seen. -/
structure Ordered (r : ReceivePipeline) : Prop where
  distinct : Keyed (·.descriptor.frame) r.slots
  descends : ∀ i a q, r.slots i = some a → a.descriptor.reference = some q → q < a.descriptor.frame
  bootstrap : ∀ i a, r.slots i = some a → a.reliableOffset.isSome = true →
    a.descriptor.reference = none
  ahead : ∀ i a, r.slots i = some a → a.complete → a.descriptor.reference = none →
    (∀ q, r.lastDecoded = some q → q < a.descriptor.frame) ∧
      ∀ flight, r.inFlight = some flight → flight.frame < a.descriptor.frame
  unstarted : r.state = .awaitingConfiguration ∨ r.state = .awaitingRecovery →
    r.lastDecoded = none ∧ r.inFlight = none
  decoding : r.state = .decodingRecovery → r.inFlight.isSome = true

/-- A pipeline that has seen nothing yet. -/
structure Fresh (config : ReceiveConfig) (r : ReceivePipeline) : Prop where
  config : r.config = config
  slots : r.slots = vacant
  state : r.state = .awaitingConfiguration
  failure : r.failure = none
  recoveryFrame : r.recoveryFrame = none
  lastDecoded : r.lastDecoded = none
  inFlight : r.inFlight = none
  progress : r.progress = none

variable {r t : ReceivePipeline} {d : FrameDescriptor} {a : Assembly} {now : ℕ}
  {res : Except DeliveryError ReceiveUpdate}

theorem fresh_new {c b o} (h : ReceivePipeline.new c b o = .ok r) : Fresh c r := by
  obtain ⟨_,_,h⟩ := bind_eq_ok.mp h
  split at h
  · cases h
  cases h
  exact ⟨rfl,rfl,rfl,rfl,rfl,rfl,rfl,rfl⟩

theorem ordered_vacant (hslots : r.slots = vacant) (hstate : r.state = .awaitingConfiguration)
    (hd : r.lastDecoded = none) (hf : r.inFlight = none) : Ordered r := by
  have he : ∀ i a, r.slots i ≠ some a := fun i a ha => by
    rw [hslots] at ha
    cases ha
  refine ⟨?_,?_,?_,?_,fun _ => ⟨hd,hf⟩,fun hs => ?_⟩
  · exact fun i _ a _ ha => absurd ha (he i a)
  · exact fun i a _ ha => absurd ha (he i a)
  · exact fun i a ha => absurd ha (he i a)
  · exact fun i a ha => absurd ha (he i a)
  · rw [hstate] at hs
    cases hs

/-- The decoder's position is unchanged. -/
structure SamePosition (r t : ReceivePipeline) : Prop where
  config : t.config = r.config := by rfl
  state : t.state = r.state := by rfl
  lastDecoded : t.lastDecoded = r.lastDecoded := by rfl
  inFlight : t.inFlight = r.inFlight := by rfl

theorem SamePosition.trans {s} (h : SamePosition r s) (k : SamePosition s t) : SamePosition r t :=
  ⟨k.config.trans h.config,k.state.trans h.state,k.lastDecoded.trans h.lastDecoded,
    k.inFlight.trans h.inFlight⟩

/-- Dropping pictures, or changing only their timers, keeps the table ordered. -/
theorem Ordered.revise (h : Ordered r) (hp : SamePosition r t)
    (hfrom : ∀ i b, t.slots i = some b → ∃ a, r.slots i = some a ∧ b.descriptor = a.descriptor ∧
      b.reliableOffset = a.reliableOffset ∧ b.received = a.received) : Ordered t where
  distinct := h.distinct.revise fun i b hb => by
    obtain ⟨a,ha,hd,_⟩ := hfrom i b hb
    exact ⟨a,ha,by rw [hd]⟩
  descends i b q hb hq := by
    obtain ⟨a,ha,hd,_,_⟩ := hfrom i b hb
    rw [hd] at hq ⊢
    exact h.descends i a q ha hq
  bootstrap i b hb hr := by
    obtain ⟨a,ha,hd,ho,_⟩ := hfrom i b hb
    rw [ho] at hr
    rw [hd]
    exact h.bootstrap i a ha hr
  ahead i b hb hc href := by
    obtain ⟨a,ha,hd,_,hrec⟩ := hfrom i b hb
    rw [Assembly.complete,hd,hrec] at hc
    rw [hd] at href ⊢
    rw [hp.lastDecoded,hp.inFlight]
    exact h.ahead i a ha hc href
  unstarted := by
    rw [hp.state,hp.lastDecoded,hp.inFlight]
    exact h.unstarted
  decoding := by
    rw [hp.state,hp.inFlight]
    exact h.decoding

theorem Ordered.subtable (h : Ordered r) (hp : SamePosition r t)
    (hs : ∀ i a, t.slots i = some a → r.slots i = some a) : Ordered t :=
  h.revise hp fun i a ha => ⟨a,hs i a ha,rfl,rfl,rfl⟩

/-- A descriptor whose reference, if any, lies behind it. -/
def Backward (d : FrameDescriptor) : Prop := ∀ q, d.reference = some q → q < d.frame

/-- The decoder has not passed this frame. -/
def Unpassed (r : ReceivePipeline) (frame : ℕ) : Prop :=
  (∀ q, r.lastDecoded = some q → q < frame) ∧ ∀ flight, r.inFlight = some flight →
    flight.frame < frame

theorem unpassed_of_useful {frame} (h : ¬r.obsolete frame) : Unpassed r frame := by
  simp only [ReceivePipeline.obsolete,not_or] at h
  refine ⟨fun q hq => ?_,fun flight hf => ?_⟩
  · simpa [hq] using h.1
  · simpa [hf] using h.2.1

theorem Ordered.unpassed (h : Ordered r) (hs : r.state = .awaitingRecovery) (frame : ℕ) :
    Unpassed r frame := by
  obtain ⟨hd,hf⟩ := h.unstarted (.inr hs)
  refine ⟨fun q hq => ?_,fun flight hflight => ?_⟩
  · rw [hd] at hq
    cases hq
  · rw [hf] at hflight
    cases hflight

variable {i : Fin windowCeiling}

/-- A picture elsewhere in the table has another frame than the seated one. -/
theorem Ordered.other (h : Ordered r) {reliable j c} (hst : Seat r d reliable i a) (hj : j ≠ i)
    (hc : r.slots j = some c) : c.descriptor.frame ≠ d.frame := by
  intro heq
  cases hst with
  | held hs hd _ =>
    rw [← hd] at heq
    exact hj (h.distinct j i c a hc hs heq)
  | fresh _ _ _ _ _ hn _ _ => exact hn j c hc heq

/-- Seating a picture, or changing the one in its seat, keeps the table ordered. -/
theorem Ordered.seat (h : Ordered r) {reliable} {b : Assembly} (hs : Seat r d reliable i a)
    (hd : b.descriptor = a.descriptor) (hr : b.reliableOffset.isSome = a.reliableOffset.isSome)
    (hback : Backward d) (hboot : reliable = true → d.reference = none)
    (hu : Unpassed r d.frame) : Ordered (r.seat i b) := by
  have hb : b.descriptor = d := hd.trans hs.descriptor
  constructor
  · refine keyed_store h.distinct fun j c hj hc => ?_
    rw [hb]
    exact h.other hs hj hc
  · intro j c q hc hq
    rcases store_eq_some.mp hc with ⟨_,rfl⟩ | ⟨_,hc⟩
    · rw [hb] at hq ⊢
      exact hback q hq
    · exact h.descends j c q hc hq
  · intro j c hc hrel
    rcases store_eq_some.mp hc with ⟨_,rfl⟩ | ⟨_,hc⟩
    · rw [hr,hs.reliable] at hrel
      rw [hb]
      exact hboot hrel
    · exact h.bootstrap j c hc hrel
  · intro j c hc hco href
    rcases store_eq_some.mp hc with ⟨_,rfl⟩ | ⟨_,hc⟩
    · rw [hb]
      exact hu
    · exact h.ahead j c hc hco href
  · exact h.unstarted
  · exact h.decoding

theorem samePosition_seat (r : ReceivePipeline) (i : Fin windowCeiling) (a : Assembly) :
    SamePosition r (r.seat i a) := {}

theorem samePosition_discard (r : ReceivePipeline) : SamePosition r r.discardSuperseded := by
  unfold ReceivePipeline.discardSuperseded
  split <;> exact {}

theorem Ordered.discardSuperseded (h : Ordered r) : Ordered r.discardSuperseded := by
  refine h.subtable (samePosition_discard r) fun i a ha => ?_
  unfold ReceivePipeline.discardSuperseded at ha
  split at ha
  · exact ha
  · exact (discard_eq_some.mp ha).1

/-! Pictures keep their identity while they are assembled. -/

theorem fragment_identity (f : Fragment) (now rd : ℕ) (a : Assembly) :
    Ensures (Assembly.fragment f now rd) a fun _ b =>
      b.descriptor = a.descriptor ∧ b.reliableOffset = a.reliableOffset := by
  refine .get_bind (.refuseIf_bind (fun _ => ⟨rfl,rfl⟩) fun _ => ?_)
  rcases a.descriptor.fragmentRange f.index with e | ⟨start,stop⟩
  · exact .throw ⟨rfl,rfl⟩
  · refine .ite (fun _ => .refuseIf_bind (fun _ => ⟨rfl,rfl⟩) fun _ => .pure ⟨rfl,rfl⟩) fun _ => ?_
    exact .modify_bind (.refuseIf_bind (fun _ => ⟨rfl,rfl⟩) fun _ =>
      .modify_bind (.modify_bind (.get_bind (.pure ⟨rfl,rfl⟩))))

theorem recovery_identity (c : RecoveryChunk) (m : ℕ) (a : Assembly) :
      Ensures (Assembly.recovery c m) a fun _ b =>
      b.descriptor = a.descriptor ∧ b.reliableOffset.isSome = a.reliableOffset.isSome := by
  refine .get_bind (.refuseIf_bind (fun _ => ⟨rfl,rfl⟩) fun hn => ?_)
  have ho : a.reliableOffset.isSome = true := by
    simp only [not_or,not_not] at hn
    rw [hn.1]
    rfl
  refine .refuseIf_bind (fun _ => ⟨rfl,rfl⟩) fun _ => .modify_bind
    (.refuseIf_bind (fun _ => ⟨rfl,rfl⟩) fun _ => .modify_bind (.get_bind (.pure ⟨rfl,?_⟩)))
  exact ho.symm

/-! Calls that neither hand over nor acknowledge a picture. -/

/-- The decoder's position and the order of the table stay, or the epoch ends. -/
def Quiet (r t : ReceivePipeline) : Prop :=
  (SamePosition r t ∧ (Ordered r → Ordered t)) ∨ Ends r t

theorem Quiet.refl : Quiet r r := .inl ⟨{},id⟩

theorem quiet_at (r : ReceivePipeline) (now : ℕ) : Quiet r (r.at now) :=
  .inl ⟨{},fun h => {h with}⟩

theorem quiet_failed (hc : t.config = r.config) (hs : t.scope = r.scope)
    (e : DeliveryError) : Quiet r (t.failed e) :=
  .inr ⟨dead_failed t e,hc,hs⟩

theorem Quiet.of_at (h : Quiet (r.at now) t) : Quiet r t := by
  rcases h with ⟨hp,ho⟩ | ⟨hd,hc,hs⟩
  · refine .inl ⟨{hp with},fun h => ho ?_⟩
    exact {h with}
  · exact .inr ⟨hd,hc,hs⟩

/-- A record that the receiver survives leaves it quiet. -/
def Spared (r : ReceivePipeline) (res : Except DeliveryError ReceiveUpdate) (t : ReceivePipeline) :
    Prop :=
  (∃ u, res = .ok u) ∨ res = .error .wrongState → Quiet r t

theorem fragmentResult_quiet {f : Fragment} (hback : Backward f.descriptor)
    (h : FragmentResult r f now res t) : Spared r res t := by
  intro hr
  cases h with
  | obsolete | refused | deferred => exact .refl
  | @broken i a b e hs hx =>
    rcases hr with ⟨u,hu⟩ | hw
    · cases hu
    · cases hw
      have hne := Assembly.fragment_ne_wrongState f now r.config.policy.repairDelayMicros a
      rw [hx] at hne
      exact absurd rfl hne
  | @stored i a b u huse hs hx =>
    have hi := fragment_identity f now r.config.policy.repairDelayMicros a
    rw [Ensures,hx] at hi
    have hkeep : Ordered r → Ordered (r.seat i b) := fun h =>
      h.seat hs hi.1 (by rw [hi.2]) hback (fun h => by cases h) (unpassed_of_useful huse)
    split
    · exact .inl ⟨(samePosition_seat r i b).trans (samePosition_discard _),fun h =>
        (hkeep h).discardSuperseded⟩
    · exact .inl ⟨samePosition_seat r i b,hkeep⟩

theorem recoveryResult_quiet {c} (h : RecoveryResult r c res t) : Quiet r t := by
  cases h with
  | late | foreign | refused => exact .refl
  | @applied i a b res hs hst hx =>
    have hi := recovery_identity c r.config.limits.maxFragments a
    rw [Ensures,hx] at hi
    refine .inl ⟨{},fun h => ?_⟩
    have hseat := h.seat hst hi.1 hi.2 (fun _ h => by cases h) (fun _ => rfl) (h.unpassed hs _)
    exact {hseat with}

theorem progressResult_quiet {p : Progress} (hback : Backward p.descriptor)
    (h : ProgressResult r p res t) : Quiet r t := by
  cases h with
  | abandoned | older | undeclared | refused => exact .refl
  | obsolete _ => exact .inl ⟨{},fun h => {h with}⟩
  | @declared i a hd hst =>
    refine .inl ⟨{},fun h => ?_⟩
    have hs := h.seat hst rfl rfl hback (fun _ => hd.2.1) (h.unpassed hd.1 _)
    exact {hs with}
  | @announced i a hd hu hst =>
    refine .inl ⟨{},fun h => ?_⟩
    have hs := h.seat hst rfl rfl hback (fun h => by cases h) (unpassed_of_useful hu)
    exact {hs with}

theorem dispatch_quiet {pf ch rec} :
    Ensures (dispatch pf ch rec now) r (Spared r) := by
  have hself : ∀ res, Spared r res r := fun _ _ => .refl
  refine .get_bind ?_
  cases ch with
  | video =>
    refine .ofResult_bind (fun _ _ => hself _) fun f hf => (onFragment_ensures pf f now r).mono
      fun _ _ => ?_
    exact fragmentResult_quiet
      (Fragment.validate_eq_ok.mp (decodeFragment_valid (mapError_eq_ok hf))).1.reference_lt
  | recovery =>
    exact .ofResult_bind (fun _ _ => hself _) fun c _ => (onRecovery_ensures pf c now r).mono
      fun _ _ h _ => recoveryResult_quiet h
  | mediaConfig =>
    exact .ofResult_bind (fun _ _ => hself _) fun p hp => (onProgress_ensures pf p now r).mono
      fun _ _ h _ => progressResult_quiet
        (decodeProgress_valid (mapError_eq_ok hp)).reference_lt h
  | control => exact .throw (hself _)

theorem receive_quiet {p ch pa} :
    Ensures (receive p ch pa now) r fun _ t => Quiet r t := by
  refine receive_ensures (fun _ => .refl) (fun _ _ => quiet_failed rfl rfl _)
    (fun _ _ h => .inr h.ends)
    (fun _ _ => quiet_at r now) (fun rec _ _ => dispatch_quiet.and (dispatch_framed p ch rec now _))
    (fun _ _ h => (h.1 (.inl ⟨_,rfl⟩)).of_at) (fun _ h => (h.1 (.inr rfl)).of_at)
      fun _ _ t h _ => ?_
  exact quiet_failed (congrArg (·.config) h.2) (congrArg (·.scope) h.2) _

theorem quiet_offered {next att} (hs : r.slots i = some a) :
    Quiet r ((r.at now).seat i {a with nextRepair := next, repairAttempts := att}) := by
  refine Quiet.of_at (.inl ⟨samePosition_seat _ _ _,fun h => ?_⟩)
  refine h.revise (samePosition_seat _ _ _) fun j b hb => ?_
  rcases store_eq_some.mp hb with ⟨rfl,rfl⟩ | ⟨_,hb⟩
  · exact ⟨a,hs,rfl,rfl,rfl⟩
  · exact ⟨b,hb,rfl,rfl,rfl⟩

theorem repairOffer_quiet {room} : Ensures (repairOffer room now) r fun _ t => Quiet r t :=
  repairOffer_ensures (fun _ _ h => .inr h.ends) (fun _ => quiet_at r now) fun _ _ _ _ _ =>
    quiet_offered

/-! Hand-over and acknowledgement. -/

/-- What a selected picture is. -/
inductive Selected (r : ReceivePipeline) (i : Fin windowCeiling) (a : Assembly) : Prop
  | bootstrap (hstate : r.state = .awaitingRecovery) (hslot : r.slots i = some a)
      (hreliable : a.reliableOffset.isSome = true)
      (hframe : r.recoveryFrame = some a.descriptor.frame)
  | independent (hstate : r.state = .streaming) (hslot : r.slots i = some a)
      (hcomplete : a.complete) (href : a.descriptor.reference = none)
  | dependent (hstate : r.state = .streaming) (hslot : r.slots i = some a) (q : ℕ)
      (href : a.descriptor.reference = some q) (hdecoded : r.lastDecoded = some q)

theorem selected_cases (h : r.selected = some (i,a)) : Selected r i a := by
  obtain ⟨hsl,hc,he,_⟩ := selected_some h
  unfold ReceivePipeline.eligible at he
  split at he
  · rename_i hs
    have hf := of_decide_eq_true he
    exact .bootstrap hs hsl hf.1 hf.2
  · rename_i hs
    have hf := of_decide_eq_true he
    cases hr : a.descriptor.reference with
    | none => exact .independent hs hsl hc hr
    | some q =>
      rw [hr] at hf
      exact .dependent hs hsl q hr ((or_iff_right nofun).mp hf).symm
  · cases he

theorem Selected.slot (h : Selected r i a) : r.slots i = some a := by
  cases h <;> assumption

theorem handedOver_slots {j b} (h : (r.handedOver i a).slots j = some b) :
    j ≠ i ∧ r.slots j = some b ∧
      (a.descriptor.reference = none → a.descriptor.frame ≤ b.descriptor.frame) := by
  simp only [ReceivePipeline.handedOver] at h
  split at h
  · obtain ⟨h,hf⟩ := discard_eq_some.mp h
    obtain ⟨hj,h⟩ := erase_eq_some.mp h
    exact ⟨hj,h,fun _ => by simpa using hf⟩
  · rename_i hr
    obtain ⟨hj,h⟩ := erase_eq_some.mp h
    exact ⟨hj,h,fun hn => absurd hn hr⟩

theorem Ordered.handedOver (h : Ordered r) (hsel : r.selected = some (i,a)) :
    Ordered (r.handedOver i a) := by
  have hc := selected_cases hsel
  have hsl := hc.slot
  -- Every complete independent picture that is left follows the one handed over.
  have ha : ∀ j b, (r.handedOver i a).slots j = some b → b.complete →
      b.descriptor.reference = none → a.descriptor.frame < b.descriptor.frame := by
    intro j b hb hco hr
    obtain ⟨hj,hb,hold⟩ := handedOver_slots hb
    have hne : a.descriptor.frame ≠ b.descriptor.frame := fun heq =>
      hj (h.distinct i j a b hsl hb heq).symm
    have hle : a.descriptor.frame ≤ b.descriptor.frame := by
      cases hc with
      | bootstrap _ _ hrel _ => exact hold (h.bootstrap i a hsl hrel)
      | independent _ _ _ hn => exact hold hn
      | dependent hstate _ _ _ _ =>
        obtain ⟨_,_,_,hl⟩ := selected_some hsel
        refine hl j b hb hco ?_
        simp [ReceivePipeline.eligible,hstate,hr]
    omega
  have hstate : (r.handedOver i a).state = .decodingRecovery ∨
      (r.handedOver i a).state = .streaming := by
    cases hc with
    | bootstrap hs _ _ _ => exact .inl (if_pos hs)
    | independent hs _ _ _ | dependent hs _ _ _ _ => exact .inr ((if_neg (by simp [hs])).trans hs)
  constructor
  · exact h.distinct.revise fun j b hb => ⟨b,(handedOver_slots hb).2.1,rfl⟩
  · intro j b q hb
    exact h.descends j b q (handedOver_slots hb).2.1
  · intro j b hb
    exact h.bootstrap j b (handedOver_slots hb).2.1
  · intro j b hb hco hr
    refine ⟨(h.ahead j b (handedOver_slots hb).2.1 hco hr).1,fun flight hf => ?_⟩
    cases hf
    exact ha j b hb hco hr
  · intro he
    rcases hstate with hs | hs <;> rw [hs] at he <;> rcases he with h | h <;> cases h
  · intro _
    rfl

theorem Ordered.decoded (h : Ordered r) {f} (hf : r.inFlight = some f) :
    Ordered (r.decoded f.frame) where
  distinct := h.distinct
  descends := h.descends
  bootstrap := h.bootstrap
  ahead i a ha hc hr := by
    refine ⟨fun q hq => ?_,nofun⟩
    cases hq
    exact (h.ahead i a ha hc hr).2 f hf
  unstarted := by
    rintro (h | h) <;> cases h
  decoding := nofun

end FrankenRemote.Delivery
