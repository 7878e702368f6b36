import FrankenRemote.RepairRanges
import FrankenRemote.SendOrder

/-! Repair of one sender: what it costs, what it repeats, and how often. -/
namespace FrankenRemote.Delivery

open Wire Bytes Procedure SlotTable Tiling SendCache

/-! The cost of a repair packet. -/

/-- Overhead of a fragment record of this picture. -/
def CachedPicture.overhead (p : CachedPicture) : ℕ :=
  if p.descriptor.reference.isSome then fragmentOverhead else fragmentOverhead - 8

/-- A repair window can carry this fragment. -/
def Affordable (p : CachedPicture) (allowance index : ℕ) : Prop :=
  ∃ bytes, p.repairPacketBytes index = .ok bytes ∧ bytes ≤ allowance

section Cost

variable {l : MediaLimits} {p : CachedPicture} {index : ℕ}

theorem lt_fragments_iff (h : p.entry.Sound l) :
    index < p.entry.fragments ↔ index*p.descriptor.stride < p.descriptor.totalBytes :=
  start_lt_iff h.valid

theorem repairPacketBytes_eq (h : p.entry.Sound l) (hi : index < p.entry.fragments) :
    p.repairPacketBytes index =
      .ok (blockLength p.descriptor.totalBytes p.descriptor.stride index + p.overhead) := by
  have hs := (lt_fragments_iff h).mp hi
  have hlen : p.bytes.length = p.descriptor.totalBytes := h.length
  refine bind_eq_ok.mpr ⟨_,fragment_ok h.valid hlen hs,?_⟩
  have hb : (pieceOf p.descriptor p.bytes index).bytes.length =
      blockLength p.descriptor.totalBytes p.descriptor.stride index := by
    rw [← hlen]
    exact length_block index (by rw [hlen]; exact hs)
  rw [hb]
  rfl

theorem repairPacketBytes_length {f b room pa}
    (hf : p.fragment index = .ok f) (hp : encodeFragment f b l room = .ok pa) :
    p.repairPacketBytes index = .ok pa.length := by
  have hd : f.descriptor = p.descriptor := by
    obtain ⟨_,_,hf⟩ := bind_eq_ok.mp hf
    cases hf
    rfl
  obtain ⟨_,_,hp⟩ := bind_eq_ok.mp hp
  obtain ⟨_,_,hp⟩ := bind_eq_ok.mp hp
  obtain ⟨_,_,hp⟩ := bind_eq_ok.mp hp
  have hlen := length_encodeRecord hp
  have hh : headerBytes = 24 := rfl
  have ho : fragmentOverhead = 73 := rfl
  refine bind_eq_ok.mpr ⟨f,hf,?_⟩
  rw [hlen,hd,FrameDescriptor.encodedLen]
  split <;> congr 1 <;> omega

/-- A range's first fragment is its largest. -/
theorem affordable_mono {a} (h : p.entry.Sound l) {i j}
    (hi : Affordable p a i) (hij : i ≤ j) (hj : j < p.entry.fragments) : Affordable p a j := by
  obtain ⟨_,hb,hle⟩ := hi
  rw [repairPacketBytes_eq h (hij.trans_lt hj)] at hb
  cases hb
  refine ⟨_,repairPacketBytes_eq h hj,le_trans ?_ hle⟩
  have hmul : i*p.descriptor.stride ≤ j*p.descriptor.stride := Nat.mul_le_mul_right _ hij
  simp only [blockLength]
  omega

theorem affordable_of_repairable {a ra} (h : repairable p a ra = .ok ()) :
    ∀ r ∈ ra, Affordable p a r.start := by
  induction ra with
  | nil => simp
  | cons r rs ih =>
    obtain ⟨bs,hb,h⟩ := bind_eq_ok.mp h
    split at h
    · cases h
    rename_i hf
    intro x hx
    rcases List.mem_cons.mp hx with rfl | hx
    · exact ⟨bs,hb,not_lt.mp hf⟩
    · exact ih h x hx

end Cost

/-- Valid ranges are non-empty and in order. -/
theorem validateRanges_ordered {co pr ra} (h : validateRanges co pr ra = .ok ()) :
    ra.Pairwise (·.stop ≤ ·.start) ∧ ∀ r ∈ ra, pr ≤ r.start ∧ r.start < r.stop := by
  induction ra generalizing pr with
  | nil => simp
  | cons r rs ih =>
    unfold validateRanges at h
    split at h
    · cases h
    obtain ⟨ho,ha⟩ := ih h
    refine ⟨List.pairwise_cons.mpr ⟨fun q hq => (ha q hq).1,ho⟩,List.forall_mem_cons.mpr
      ⟨by omega,?_⟩⟩
    intro q hq
    have hq := ha q hq
    omega

variable {rec : Record} {co : ℕ}

/-- A decoded request asks for something, in a few non-empty ranges. -/
theorem decodeRepair_ranges {l re} (h : decodeRepair rec co l = .ok re) :
    re.ranges ≠ [] ∧ re.ranges.length ≤ l.maxRepairRanges ∧
      re.ranges.Pairwise (·.stop ≤ ·.start) ∧ ∀ r ∈ re.ranges, r.start < r.stop := by
  obtain ⟨_,_,⟨hne,hfew,_,_,hv⟩,_⟩ := (repair_lawful l co).decodes.mp h
  obtain ⟨ho,hp⟩ := validateRanges_ordered hv
  exact ⟨hne,hfew,ho,fun r hr => (hp r hr).2⟩

variable {i : Fin cacheSlots}

theorem Lapses.cached {now c t p} (h : Lapses now c t) (hp : t.pictures i = some p) :
    c.pictures i = some p := by
  refine h.invariant (I := fun s => s.pictures i = some p → c.pictures i = some p) ?_ id hp
  intro s t hl hs hp
  cases hl with
  | sampled _ => exact hs hp
  | closed => simp [close,clear] at hp
  | failed _ _ => simp [fenced,clear] at hp
  | expired _ _ _ => exact hs (discard_eq_some.mp hp).1

/-- The window's charge and its start, at a clock that has not passed the start. -/
structure Windowed (policy : SendPolicy) (c : SendCache) : Prop where
  samePolicy : c.policy = policy
  spent_le : c.repairSpent ≤ policy.repairBytesPerWindow
  start_le : c.repairWindowStart ≤ c.lastNow.getD 0

/-- The window is the same one, or a later one without charges. -/
def WindowMoves (policy : SendPolicy) (c t : SendCache) : Prop :=
  (t.repairWindowStart = c.repairWindowStart ∧ t.repairSpent = c.repairSpent) ∨
    (c.repairWindowStart + policy.repairWindowMicros ≤ t.repairWindowStart ∧ t.repairSpent = 0)

section Window

variable {pol : SendPolicy} {c s t : SendCache} {now : ℕ}

theorem Windowed.lapse (h : Windowed pol c) (hl : Lapse now c t) :
    Windowed pol t ∧ WindowMoves pol c t := by
  cases hl with
  | sampled hc =>
    refine ⟨⟨h.samePolicy,h.spent_le,?_⟩,.inl ⟨rfl,rfl⟩⟩
    have hs := h.start_le
    cases hla : c.lastNow with
    | none =>
      simp only [hla,Option.getD_none,Nat.le_zero] at hs
      simp [hs]
    | some last =>
      have hle := hc last hla
      simp only [hla,Option.getD_some] at hs ⊢
      exact hs.trans hle
  | closed | failed => exact ⟨{h with},.inl ⟨rfl,rfl⟩⟩
  | expired _ hc _ =>
    have hs := h.start_le
    rw [hc,Option.getD_some] at hs
    by_cases hr : c.policy.repairWindowMicros ≤ now - c.repairWindowStart
    · have hw : (c.expire now).repairWindowStart = now ∧ (c.expire now).repairSpent = 0 := by
        simp [expire,hr]
      refine ⟨⟨h.samePolicy,?_,?_⟩,.inr ⟨?_,hw.2⟩⟩
      · rw [hw.2]
        exact Nat.zero_le _
      · rw [hw.1]
        change now ≤ c.lastNow.getD 0
        simp [hc]
      · rw [hw.1,← h.samePolicy]
        omega
    · have hw : (c.expire now).repairWindowStart = c.repairWindowStart ∧
          (c.expire now).repairSpent = c.repairSpent := by
        simp only [expire,if_neg hr,and_self]
      exact ⟨⟨h.samePolicy,hw.2.trans_le h.spent_le,hw.1.trans_le h.start_le⟩,.inl hw⟩

theorem WindowMoves.trans (h : WindowMoves pol c s) (k : WindowMoves pol s t) :
    WindowMoves pol c t := by
  simp only [WindowMoves] at *
  omega

theorem Windowed.lapses (h : Windowed pol c) (hl : Lapses now c t) :
    Windowed pol t ∧ WindowMoves pol c t := by
  refine hl.invariant (I := fun s => Windowed pol s ∧ WindowMoves pol c s) ?_
    ⟨h,.inl ⟨rfl,rfl⟩⟩
  intro s t hlapse hs
  have hstep := hs.1.lapse hlapse
  exact ⟨hstep.1,hs.2.trans hstep.2⟩

/-- A window that was over is empty again once a call has passed its time checks. -/
theorem Windowed.refilled (h : Windowed pol c) (hl : Lapses now c s) (hr : Ready now s)
    (hover : c.repairWindowStart + pol.repairWindowMicros ≤ now) : s.repairSpent = 0 := by
  obtain ⟨hs,hm⟩ := h.lapses hl
  have hw := hr.window
  rw [hs.samePolicy] at hw
  simp only [WindowMoves] at hm
  omega

end Window

/-! What a run repairs. -/

/-- The bytes of a repair packet that a call prepared within this window. -/
def SendEvent.repairs (e : SendEvent) (window : ℕ) : Option ℕ :=
  match e.act with
  | .offer o =>
    if o.purpose = .repair ∧ e.after.repairWindowStart = window then some o.packet.length else none
  | _ => none

/-- When a call took on a repair of this picture. -/
def SendEvent.asks (e : SendEvent) (g : MediaEpoch) (frame : ℕ) : Option ℕ :=
  match e.act with
  | .queue f now => if e.before.epoch = g ∧ f = frame then some now else none
  | _ => none

def repairBytes (past : List SendEvent) (window : ℕ) : ℕ := (past.filterMap (·.repairs window)).sum

def askedIn (past : List SendEvent) (g : MediaEpoch) (frame : ℕ) : List ℕ :=
  past.filterMap (·.asks g frame)

@[simp] theorem repairBytes_snoc (past : List SendEvent) (e : SendEvent) (w : ℕ) :
    repairBytes (past ++ [e]) w = repairBytes past w + (e.repairs w).getD 0 := by
  cases h : e.repairs w <;> simp [repairBytes,h]

@[simp] theorem askedIn_snoc (past : List SendEvent) (e : SendEvent) (g : MediaEpoch) (frame : ℕ) :
    askedIn (past ++ [e]) g frame = askedIn past g frame ++ (e.asks g frame).toList := by
  cases h : e.asks g frame <;> simp [askedIn,h]

/-- Rounds of one picture, in number and in distance. -/
structure Spaced (policy : SendPolicy) (times : List ℕ) : Prop where
  rounds : times.length ≤ policy.maxRepairRounds
  apart : times.Pairwise fun a b => a + policy.minimumRepairIntervalMicros ≤ b

/-- A cached picture has counted its rounds, and all that is left of its job fits a window. -/
structure Worked (limits : MediaLimits) (policy : SendPolicy) (times : List ℕ) (p : CachedPicture) :
    Prop where
  sound : p.entry.Sound limits
  rounds : p.repairRounds = times.length
  spaced : ∀ time ∈ times, time + policy.minimumRepairIntervalMicros ≤ p.nextRepair
  job : ∀ job, p.repair = some job → p.mode = .datagrams ∧
    JobSound (Affordable p policy.repairBytesPerWindow) p.entry.fragments limits.maxRepairRanges job

/-- No window has carried more than its bytes, and the present one what it is charged for. -/
structure Spends (policy : SendPolicy) (past : List SendEvent) (c : SendCache) : Prop where
  windowed : Windowed policy c
  unspent : ∀ w, c.repairWindowStart < w → repairBytes past w = 0
  spent : repairBytes past c.repairWindowStart = c.repairSpent
  budget : ∀ w, repairBytes past w ≤ policy.repairBytesPerWindow

namespace Spends

variable {pol : SendPolicy} {past : List SendEvent} {c s t : SendCache} {e : SendEvent} {now : ℕ}

theorem lapses (h : Spends pol past c) (hpos : 1 ≤ pol.repairWindowMicros)
    (hl : Lapses now c t) : Spends pol past t := by
  obtain ⟨hwindow,hm⟩ := h.windowed.lapses hl
  have hlater : c.repairWindowStart ≤ t.repairWindowStart := by
    simp only [WindowMoves] at hm
    omega
  refine ⟨hwindow,fun w hw => h.unspent w (hlater.trans_lt hw),?_,h.budget⟩
  rcases hm with ⟨hst,hs⟩ | ⟨hst,hs⟩
  · rw [hst,hs]
    exact h.spent
  · rw [hs]
    exact h.unspent _ (by omega)

theorem repairs_none (ha : ∀ o, e.act = .offer o → o.purpose ≠ .repair) (w : ℕ) :
    e.repairs w = none := by
  unfold SendEvent.repairs
  split
  · rename_i o ho
    rw [if_neg fun hr => ha o ho hr.1]
  · rfl

theorem silent (h : Spends pol past s) (ha : ∀ o, e.act = .offer o → o.purpose ≠ .repair) :
    Spends pol (past ++ [e]) s := by
  have hb : ∀ w, repairBytes (past ++ [e]) w = repairBytes past w := by
    intro w
    simp [repairs_none ha w]
  refine ⟨h.windowed,?_,?_,?_⟩
  · simpa only [hb] using h.unspent
  · simpa only [hb] using h.spent
  · simpa only [hb] using h.budget

/-- A repair packet is charged its length, which the window has left. -/
theorem repaired {p job f pa room b offer} (h : Spends pol past s)
    (hc : SendCache.Candidate s i p job) (hf : p.fragment job.fragment = .ok f)
    (hpk : encodeFragment f b s.limits room = .ok pa) (hact : e.act = .offer offer)
    (hp : offer.purpose = .repair) (ho : offer.packet = pa)
    (ha : e.after = s.repaired i p job pa.length) :
    Spends pol (past ++ [e]) (s.repaired i p job pa.length) := by
  have hr : ∀ w, e.repairs w = if s.repairWindowStart = w then some pa.length else none := by
    intro w
    simp only [SendEvent.repairs,hact,hp,ha,ho,true_and]
    rfl
  have hfi : pa.length ≤ pol.repairBytesPerWindow - s.repairSpent := by
    obtain ⟨_,hb,hle⟩ := hc.fits
    rw [repairPacketBytes_length hf hpk] at hb
    cases hb
    rwa [h.windowed.samePolicy] at hle
  have hle := h.windowed.spent_le
  have hb : ∀ w, repairBytes (past ++ [e]) w =
      repairBytes past w + if s.repairWindowStart = w then pa.length else 0 := by
    intro w
    rw [repairBytes_snoc,hr]
    split <;> rfl
  refine ⟨⟨h.windowed.samePolicy,?_,h.windowed.start_le⟩,?_,?_,?_⟩
  · change s.repairSpent + pa.length ≤ _
    omega
  · intro w hw
    have hne : s.repairWindowStart ≠ w := ne_of_lt hw
    rw [hb,h.unspent w hw,if_neg hne]
  · change repairBytes (past ++ [e]) s.repairWindowStart = s.repairSpent + pa.length
    rw [hb,if_pos rfl,h.spent]
  · intro w
    rw [hb]
    split
    · rename_i hw
      subst hw
      rw [h.spent]
      omega
    · exact h.budget w

theorem effect (h : Spends pol past e.before) (hpos : 1 ≤ pol.repairWindowMicros)
    (he : SendEffect e now t) (ha : e.after = t) : Spends pol (past ++ [e]) t := by
  have hlapses : ∀ s, Lapses now e.before s → Spends pol past s := fun s => h.lapses hpos
  have hsilent : ∀ s, Lapses now e.before s → (∀ o, e.act = .offer o → o.purpose ≠ .repair) →
      Spends pol (past ++ [e]) s := fun s hl => (hlapses s hl).silent
  cases he with
  | lapsed hl hact => exact hsilent _ hl (by simp [hact])
  | inserted hl _ _ _ _ _ _ hact ht | original hl _ _ _ hact ht | observation hl _ hact ht
  | queued hl _ _ _ _ hact ht | observed hl _ hact ht | overran hl _ hact ht =>
    subst ht
    have hs := hsilent _ hl (by simp [hact])
    exact {hs with windowed := {hs.windowed with}}
  | repaired hl _ hc hf hp hact ht =>
    subst ht
    exact (hlapses _ hl).repaired hc hf hp hact rfl rfl ha
  | awaited hl _ _ _ _ hch hact ht | demanded hl _ _ _ hch hact ht =>
    subst ht
    rw [hch.frame]
    have hs := hsilent _ hl (by simp [hact])
    exact {hs with windowed := {hs.windowed with}}
  | renewed hl _ _ _ hch _ hact ht =>
    subst ht
    have hs := hsilent _ hl (by simp [hact])
    rcases hch with rfl | hch
    · exact {hs with windowed := {hs.windowed with}}
    · rw [hch.frame]
      exact {hs with windowed := {hs.windowed with}}

end Spends

/-! Rounds. -/

structure Rounds (limits : MediaLimits) (policy : SendPolicy) (past : List SendEvent)
    (c : SendCache) : Prop where
  asked : ∀ g frame, Spaced policy (askedIn past g frame)
  known : ∀ frame, askedIn past c.epoch frame ≠ [] →
    ∃ x ∈ acceptedIn past c.epoch, x.descriptor.frame = frame
  worked : ∀ i p, c.pictures i = some p →
    Worked limits policy (askedIn past c.epoch p.descriptor.frame) p

/-- The pictures agree on their repair. -/
structure SameWork (p q : CachedPicture) : Prop where
  entry : q.entry = p.entry
  rounds : q.repairRounds = p.repairRounds
  next : q.nextRepair = p.nextRepair
  repair : q.repair = p.repair

theorem affordable_entry {p q : CachedPicture} (h : q.entry = p.entry) (a : ℕ) :
    Affordable q a = Affordable p a := by
  have hcost : q.repairPacketBytes = p.repairPacketBytes := by
    cases p
    cases q
    simp only [CachedPicture.entry,Entry.mk.injEq] at h
    obtain ⟨rfl,rfl,rfl⟩ := h
    rfl
  funext index
  rw [Affordable,hcost]
  rfl

section Rounds

variable {l : MediaLimits} {pol : SendPolicy} {past : List SendEvent} {c s t : SendCache}
  {e : SendEvent} {now : ℕ} {times : List ℕ} {p q : CachedPicture}

section

variable (h : Worked l pol times p)

include h

theorem Worked.same (hs : SameWork p q) : Worked l pol times q := by
  obtain ⟨he,hrd,hn,hr⟩ := hs
  have hm : q.mode = p.mode := congrArg Entry.mode he
  refine ⟨by rw [he]; exact h.sound,hrd.trans h.rounds,by rw [hn]; exact h.spaced,?_⟩
  intro job hj
  rw [hm,he,affordable_entry he]
  exact h.job job (hr.symm.trans hj)

theorem Worked.advance {job} (hj : p.repair = some job) :
    Worked l pol times {p with repair := job.advance} := by
  obtain ⟨hm,hs⟩ := h.job job hj
  refine {h with job := fun next hn => ⟨hm,?_⟩}
  exact hs.advance (fun _ _ => affordable_mono h.sound) hn

theorem Worked.asked {re job} (hp : s.policy = pol) (hl : s.limits = l)
    (hrq : decodeRepair rec co l = .ok re) (hrepairable : SendCache.Repairable s now re p job) :
    Worked l pol (times ++ [now])
      (askedPicture p (now + pol.minimumRepairIntervalMicros) job) := by
  subst hp hl
  obtain ⟨hran,hfew,ho,hnon⟩ := decodeRepair_ranges hrq
  have ha : ∀ r ∈ re.ranges, Lies (Affordable p s.policy.repairBytesPerWindow)
      p.entry.fragments r := by
    intro r hr
    obtain ⟨_,ht,hi⟩ := hrepairable.inside
    have hc : p.descriptor.fragmentCount = .ok p.entry.fragments :=
      fragmentCount_valid h.sound.valid
    rw [hc] at ht
    cases ht
    exact ⟨affordable_of_repairable hrepairable.fits r hr,hnon r hr,hi r hr⟩
  have hj : JobSound (Affordable p s.policy.repairBytesPerWindow) p.entry.fragments
      s.limits.maxRepairRanges job := by
    have hst := hrepairable.job
    unfold repairJob at hst
    split at hst
    · rename_i old hold
      exact (h.job old hold).2.coalesce ha hst
    · cases hst
      exact jobSound_start hran ho ha hfew
  refine ⟨h.sound,?_,forall_mem_snoc.mpr ⟨fun time htime => ?_,le_rfl⟩,fun next hn => ?_⟩
  · change p.repairRounds+1 = _
    simp [h.rounds]
  · change time + _ ≤ now + _
    have hs := h.spaced time htime
    have hready := hrepairable.spaced
    omega
  · obtain rfl : job = next := Option.some_inj.mp hn
    exact ⟨hrepairable.mode,hj⟩

end

theorem Spaced.snoc (h : Spaced pol times) (hr : times.length < pol.maxRepairRounds)
    (hs : ∀ time ∈ times, time + pol.minimumRepairIntervalMicros ≤ now) :
    Spaced pol (times ++ [now]) := by
  exact ⟨by simpa using hr,pairwise_snoc.mpr ⟨h.apart,hs⟩⟩

namespace Rounds

theorem carry (h : Rounds l pol past c) (he : t.epoch = c.epoch)
    (hold : ∀ i q, t.pictures i = some q → ∃ p, c.pictures i = some p ∧ SameWork p q) :
    Rounds l pol past t := by
  refine ⟨h.asked,?_,fun i q hq => ?_⟩
  · rw [he]
    exact h.known
  · obtain ⟨p,hp,hs⟩ := hold i q hq
    have hd : q.descriptor = p.descriptor := congrArg Entry.descriptor hs.entry
    rw [he,hd]
    exact (h.worked i p hp).same hs

theorem lapses (h : Rounds l pol past c) (hl : Lapses now c t) : Rounds l pol past t :=
  h.carry hl.fixed.epoch fun _ q hq => ⟨q,hl.cached hq,rfl,rfl,rfl,rfl⟩

theorem silent (h : Rounds l pol past t) (hq : ∀ g frame, e.asks g frame = none) :
    Rounds l pol (past ++ [e]) t := by
  have ha : ∀ g frame, askedIn (past ++ [e]) g frame = askedIn past g frame := by
    intro g frame
    simp [hq g frame]
  refine ⟨?_,fun frame hf => ?_,?_⟩
  · simpa only [ha] using h.asked
  · rw [ha] at hf
    obtain ⟨x,hx,hframe⟩ := h.known frame hf
    refine ⟨x,?_,hframe⟩
    rw [acceptedIn_snoc]
    exact List.mem_append_left _ hx
  · simpa only [ha] using h.worked

theorem asks_none (ha : ∀ frame now, e.act ≠ .queue frame now) (g : MediaEpoch) (frame : ℕ) :
    e.asks g frame = none := by
  unfold SendEvent.asks
  split
  · rename_i f now hq
    exact absurd hq (ha f now)
  · rfl

theorem kept (h : Rounds l pol past e.before) (hl : Lapses now e.before s)
    (ha : ∀ frame now, e.act ≠ .queue frame now) (he : t.epoch = s.epoch)
    (hold : ∀ i q, t.pictures i = some q → ∃ p, s.pictures i = some p ∧ SameWork p q) :
    Rounds l pol (past ++ [e]) t :=
  ((h.lapses hl).carry he hold).silent (asks_none ha)

/-- A new picture is later than all that was ever asked for. -/
theorem inserted {used sent} (h : Rounds l pol past s)
    (ho : Opened l past s sent) (hl : Linked none (acceptedIn past s.epoch))
    (had : SendCache.Admissible s p i) (hrd : p.repairRounds = 0)
    (hr : p.repair = none) (hqt : ∀ g frame, e.asks g frame = none) :
    Rounds l pol (past ++ [e]) (s.inserted i p used) := by
  have hu : askedIn past s.epoch p.descriptor.frame = [] := by
    by_contra ha
    obtain ⟨x,hx,hf⟩ := h.known _ ha
    have hp := (linked_lt (linked_snoc (x :=
      p.entry) hl (fun q hq => had.later q (ho.last.trans hq))
      (by rw [← ho.last]; exact had.reference))).2
    have hlt := (List.pairwise_append.mp hp).2.2 x hx _ (List.mem_singleton_self _)
    exact hlt.ne hf
  refine silent ⟨h.asked,h.known,fun j q hq => ?_⟩ hqt
  change Worked l pol (askedIn past s.epoch q.descriptor.frame) q
  rcases store_eq_some.mp hq with ⟨_,rfl⟩ | ⟨_,hq⟩
  · rw [hu]
    refine ⟨⟨ho.sameLimits ▸ had.valid,had.length⟩,by simp [hrd],by simp,?_⟩
    intro job hj
    simp [hr] at hj
  · exact h.worked j q hq

theorem repaired {job b} (h : Rounds l pol past s)
    (hc : SendCache.Candidate s i p job) (hqt : ∀ g frame, e.asks g frame = none) :
    Rounds l pol (past ++ [e]) (s.repaired i p job b) := by
  refine silent ⟨h.asked,h.known,fun j q hq => ?_⟩ hqt
  change Worked l pol (askedIn past s.epoch q.descriptor.frame) q
  rcases store_eq_some.mp hq with ⟨_,rfl⟩ | ⟨_,hq⟩
  · exact (h.worked i p hc.cached).advance hc.repair
  · exact h.worked j q hq

theorem queued {r job sent} (h : Rounds l pol past s) (ho : Opened l past s sent)
    (hpo : s.policy = pol) (he : s.epoch = e.before.epoch)
    (hrq : decodeRepair rec co l = .ok r) (hp : s.pictures i = some p)
    (hr : SendCache.Repairable s now r p job) (ha : e.act = .queue r.frame now) :
    Rounds l pol (past ++ [e])
      (s.put i (askedPicture p (now + pol.minimumRepairIntervalMicros) job)) := by
  have hasks : ∀ g frame, e.asks g frame =
      if s.epoch = g ∧ p.descriptor.frame = frame then some now else none := by
    intro g frame
    simp [SendEvent.asks,ha,he,hr.frame]
  have hw := h.worked i p hp
  have hask : askedIn (past ++ [e]) s.epoch p.descriptor.frame =
      askedIn past s.epoch p.descriptor.frame ++ [now] := by
    simp [hasks]
  have helse : ∀ g frame, ¬(s.epoch = g ∧ p.descriptor.frame = frame) →
      askedIn (past ++ [e]) g frame = askedIn past g frame := by
    intro g frame hne
    simp [hasks,hne]
  refine ⟨fun g frame => ?_,fun frame hf => ?_,fun j q hq => ?_⟩
  · by_cases hhere : s.epoch = g ∧ p.descriptor.frame = frame
    · obtain ⟨rfl,rfl⟩ := hhere
      rw [hask]
      refine (h.asked _ _).snoc ?_ fun time htime => (hw.spaced time htime).trans hr.spaced
      rw [← hw.rounds,← hpo]
      exact hr.rounds
    · rw [helse g frame hhere]
      exact h.asked g frame
  · have hacc : acceptedIn (past ++ [e]) s.epoch = acceptedIn past s.epoch := by
      simp [SendEvent.accepts,ha]
    change askedIn (past ++ [e]) s.epoch frame ≠ [] at hf
    change ∃ x ∈ acceptedIn (past ++ [e]) s.epoch, _
    rw [hacc]
    by_cases hhere : p.descriptor.frame = frame
    · exact ⟨p.entry,(ho.streaming.cached i p hp).1,hhere⟩
    · rw [helse _ _ fun hboth => hhere hboth.2] at hf
      exact h.known frame hf
  · change Worked l pol (askedIn (past ++ [e]) s.epoch q.descriptor.frame) q
    rcases store_eq_some.mp hq with ⟨_,rfl⟩ | ⟨hj,hq⟩
    · change Worked l pol (askedIn (past ++ [e]) s.epoch p.descriptor.frame) _
      rw [hask]
      exact hw.asked hpo ho.sameLimits hrq hr
    · rw [helse _ _ fun hboth => hj (ho.streaming.distinct j i q p hq hp hboth.2.symm)]
      exact h.worked j q hq

theorem effect (h : Rounds l pol past e.before) (hh : SendHistory l past e.before)
    (hpo : e.before.policy = pol) (heff : SendEffect e now t) : Rounds l pol (past ++ [e]) t := by
  cases heff with
  | lapsed hl ha => exact h.kept hl (by simp [ha]) rfl fun _ q hq => ⟨q,hq,rfl,rfl,rfl,rfl⟩
  | inserted hl hr had _ _ hrd hrepair ha ht =>
    subst ht
    obtain ⟨sent,_,ho⟩ := hh.ready hl hr.alive
    exact (h.lapses hl).inserted ho (hh.linked _) had hrd hrepair
      (asks_none (by simp [ha]))
  | @original s i p _ _ _ _ hl _ hpd hse ha ht =>
    subst ht
    have hp := (pending_some hpd).1
    refine h.kept hl (by simp [ha]) rfl fun j q hq => ?_
    rcases store_eq_some.mp hq with ⟨rfl,rfl⟩ | ⟨_,hq⟩
    · refine ⟨p,hp,?_⟩
      cases original_result hse <;> exact ⟨rfl,rfl,rfl,rfl⟩
    · exact ⟨q,hq,rfl,rfl,rfl,rfl⟩
  | observation hl _ ha ht | observed hl _ ha ht =>
    subst ht
    refine h.kept hl (by simp [ha]) rfl fun j q hq => ?_
    exact ⟨q,hq,rfl,rfl,rfl,rfl⟩
  | repaired hl _ hc _ _ ha ht =>
    subst ht
    exact (h.lapses hl).repaired hc (asks_none (by simp [ha]))
  | queued hl hr hrq hp hrepairable ha ht =>
    subst ht
    obtain ⟨sent,_,ho⟩ := hh.ready hl hr.alive
    obtain ⟨_,hrq⟩ := hrq
    obtain ⟨_,_,hrq⟩ := bind_eq_ok.mp hrq
    have hs := hl.fixed.policy.trans hpo
    rw [← hl.fixed.limits,ho.sameLimits] at hrq
    rw [hs]
    exact (h.lapses hl).queued ho hs hl.fixed.epoch hrq hp hrepairable ha
  | awaited hl _ _ _ _ hch ha ht =>
    subst ht
    rw [hch.frame]
    refine h.kept hl (by simp [ha]) rfl fun j q hq => ?_
    exact ⟨q,hq,rfl,rfl,rfl,rfl⟩
  | demanded hl _ _ _ hch ha ht =>
    subst ht
    rw [hch.frame]
    refine h.kept hl (by simp [ha]) rfl fun j q hq => ?_
    simp [accepted,clear] at hq
  | @renewed s u epoch _ hl _ hn _ _ _ ha ht =>
    subst ht
    rw [hl.fixed.epoch] at hn
    have hu : ∀ frame, askedIn past epoch frame = [] := by
      intro frame
      refine List.filterMap_eq_nil_iff.mpr fun e' he' => ?_
      unfold SendEvent.asks
      split
      · rw [if_neg fun hsm => hh.unborn hn e' he' hsm.1]
      · rfl
    refine silent ⟨h.asked,fun frame hf => absurd (hu frame) hf,fun j q hq => ?_⟩
      (asks_none (by simp [ha]))
    simp [renewed,clear] at hq
  | overran hl _ ha ht =>
    subst ht
    refine h.kept hl (by simp [ha]) rfl fun j q hq => ?_
    simp [overrun,close,clear] at hq

end Rounds

end Rounds

end FrankenRemote.Delivery
