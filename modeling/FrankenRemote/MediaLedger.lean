import FrankenRemote.Holdings
import FrankenRemote.Send
import FrankenRemote.Transition

/-! The two ledgers of compressed pictures: the allowance of one viewer, and the pool that the
encoders of a host share. Every section under a lock is one step, so a run is any interleaving. -/
namespace FrankenRemote.Delivery

open Bytes Finset

/-- The credit of one picture goes back; nothing is returned below zero. -/
def BudgetUsage.refund (u : BudgetUsage) (bytes : ℕ) : Option BudgetUsage :=
  if bytes ≤ u.bytes ∧ 1 ≤ u.pictures then some ⟨u.bytes-bytes,u.pictures-1⟩ else none

/-! The allowance of a viewer. -/

/-- A ledger and the reservations that are live. -/
structure MediaLedger where
  budget : MediaBudget
  used : BudgetUsage
  /-- `Reservation` objects with their bytes. -/
  held : Holdings ℕ ℕ
  fresh : ℕ

inductive LedgerReply
  | reserved (owner : ℕ)
  | done
  | refused (error : DeliveryError)
  /-- A subtraction below zero. -/
  | underflow
  /-- No such object is live; ownership excludes the call. -/
  | absent
  deriving DecidableEq

inductive BudgetOp
  | reserve (bytes : ℕ)
  | grow (owner extra : ℕ)
  | drop (owner : ℕ)

namespace MediaLedger

def new (ledger : ℕ) (limits : ProtocolLimits) : MediaLedger := ⟨.new ledger limits,⟨0,0⟩,.none_,0⟩

def reserve (l : MediaLedger) (bytes : ℕ) : LedgerReply × MediaLedger :=
  match l.budget.reserve l.used bytes with
  | .ok used => (.reserved l.fresh,
    {l with used, held := l.held.acquire l.fresh bytes, fresh := l.fresh+1})
  | .error e => (.refused e,l)

def grow (l : MediaLedger) (owner extra : ℕ) : LedgerReply × MediaLedger :=
  if owner ∈ l.held.live then
    match l.budget.grow l.used (l.held.charge owner) extra with
    | .ok (own,used) => (.done,{l with used, held := l.held.recharge owner own})
    | .error e => (.refused e,l)
  else (.absent,l)

/-- `Drop for Reservation`. -/
def drop (l : MediaLedger) (owner : ℕ) : LedgerReply × MediaLedger :=
  if owner ∈ l.held.live then
    match l.used.refund (l.held.charge owner) with
    | some used => (.done,{l with used, held := l.held.release owner})
    | none => (.underflow,l)
  else (.absent,l)

def step (l : MediaLedger) : BudgetOp → LedgerReply × MediaLedger
  | .reserve bytes => l.reserve bytes
  | .grow owner extra => l.grow owner extra
  | .drop owner => l.drop owner

/-- `MediaBudget::allocate`: the preflight by length, then the charge of the capacity that the
allocator returned. A refused growth drops the reservation. -/
def allocate (l : MediaLedger) (platform : Platform) (length metadata : ℕ) :
    LedgerReply × MediaLedger :=
  match checkedAdd length metadata with
  | none => (.refused .resourceLimit,l)
  | some bytes =>
    match l.reserve bytes with
    | (.reserved owner,t) =>
      match platform.reserveBytes length with
      | none => (.refused .allocationFailed,(t.drop owner).2)
      | some slack =>
        match t.grow owner slack with
        | (.done,u) => (.reserved owner,u)
        | (reply,u) => (reply,(u.drop owner).2)
    | (reply,t) => (reply,t)

end MediaLedger

/-! The pool of a host. -/

/-- What an encoder hands over; its buffer may be larger than the picture. -/
structure EncodedAccessUnit where
  frame : ℕ
  kind : FrameKind
  configuration : ℕ
  captureMicros : ℕ
  bytes : List Byte
  capacity : ℕ

/-- `MAX_PICTURES`. -/
def maxPoolPictures : ℕ := 64

structure SharedFramePool where
  limits : ProtocolLimits
  /-- `Allocation::METADATA_BYTES`, which the target decides. -/
  metadataBytes : ℕ
  maximum : BudgetUsage
  used : BudgetUsage
  /-- `SharedPermit` objects with their charge. -/
  permits : Holdings ℕ ℕ
  /-- References to the frame that owns a permit; none for a reservation. -/
  references : ℕ → ℕ
  fresh : ℕ

inductive PoolOp
  | reserveCapacity (maximumCapacity : ℕ)
  | share (unit : EncodedAccessUnit)
  /-- `SharedFrameReservation::share`. -/
  | shareReserved (permit : ℕ) (unit : EncodedAccessUnit)
  | dropReservation (permit : ℕ)
  | cloneFrame (permit : ℕ)
  | dropFrame (permit : ℕ)

inductive PoolReply
  | reserved (permit : ℕ)
  | shared (permit : ℕ) (frame : SharedFrame)
  | done
  | refused (error : DeliveryError)
  | underflow
  | absent

def EncodedAccessUnit.shared (unit : EncodedAccessUnit) (charge : ℕ) : SharedFrame :=
  ⟨unit.frame,unit.kind,unit.configuration,unit.captureMicros,unit.bytes,charge⟩

namespace SharedFramePool

def new (limits : ProtocolLimits) (metadataBytes maximumBytes maximumPictures : ℕ) :
    Except DeliveryError SharedFramePool :=
  if maximumBytes ≤ metadataBytes ∨ limits.perViewerCompressedBytes < maximumBytes ∨
      ¬(1 ≤ maximumPictures ∧ maximumPictures ≤ maxPoolPictures) then .error .invalidPolicy
  else .ok ⟨limits,metadataBytes,⟨maximumBytes,maximumPictures⟩,⟨0,0⟩,.none_,fun _ => 0,0⟩

/-- The usage with one more permit of this charge. -/
def charged (p : SharedFramePool) (charge : ℕ) : Except DeliveryError BudgetUsage := do
  let total ← orElse (checkedAdd p.used.bytes charge) .resourceLimit
  if p.maximum.bytes < total ∨ p.maximum.pictures ≤ p.used.pictures then .error .resourceLimit
  else .ok ⟨total,p.used.pictures+1⟩

/-- A new permit, with this many references to its frame. -/
def permit (p : SharedFramePool) (charge : ℕ) (used : BudgetUsage) (references : ℕ) :
    SharedFramePool :=
  {p with
    used
    permits := p.permits.acquire p.fresh charge
    references := Function.update p.references p.fresh references
    fresh := p.fresh+1}

def reserveCapacity (p : SharedFramePool) (maximumCapacity : ℕ) : PoolReply × SharedFramePool :=
  if maximumCapacity = 0 then (.refused .resourceLimit,p)
  else
    match checkedAdd maximumCapacity p.metadataBytes with
    | none => (.refused .resourceLimit,p)
    | some charge =>
      match p.charged charge with
      | .ok used => (.reserved p.fresh,p.permit charge used 0)
      | .error e => (.refused e,p)

def share (p : SharedFramePool) (unit : EncodedAccessUnit) : PoolReply × SharedFramePool :=
  if p.limits.maxEncodedAccessUnitBytes < unit.bytes.length then (.refused .resourceLimit,p)
  else
    match checkedAdd unit.capacity p.metadataBytes with
    | none => (.refused .resourceLimit,p)
    | some charge =>
      match p.charged charge with
      | .ok used => (.shared p.fresh (unit.shared charge),p.permit charge used 1)
      | .error e => (.refused e,p)

/-- `Drop for SharedPermit`, with the reply of the call that dropped it. -/
def release (p : SharedFramePool) (permit : ℕ) (reply : PoolReply) : PoolReply × SharedFramePool :=
  match p.used.refund (p.permits.charge permit) with
  | some used => (reply,{p with used, permits := p.permits.release permit})
  | none => (.underflow,p)

/-- A reservation becomes a frame and returns what its buffer does not use. A picture or buffer
that is too large takes the reservation with it. -/
def shareReserved (p : SharedFramePool) (permit : ℕ) (unit : EncodedAccessUnit) :
    PoolReply × SharedFramePool :=
  if ¬(permit ∈ p.permits.live ∧ p.references permit = 0) then (.absent,p)
  else if p.limits.maxEncodedAccessUnitBytes < unit.bytes.length then
    p.release permit (.refused .resourceLimit)
  else if p.permits.charge permit-p.metadataBytes < unit.capacity then
    p.release permit (.refused .resourceLimit)
  else
    let actual := unit.capacity+p.metadataBytes
    let returned := p.permits.charge permit-actual
    if p.permits.charge permit < actual ∨ p.used.bytes < returned then (.underflow,p)
    else
      (.shared permit (unit.shared actual),{p with
          used := ⟨p.used.bytes-returned,p.used.pictures⟩
          permits := p.permits.recharge permit actual
          references := Function.update p.references permit 1})

def dropReservation (p : SharedFramePool) (permit : ℕ) : PoolReply × SharedFramePool :=
  if permit ∈ p.permits.live ∧ p.references permit = 0 then p.release permit .done else (.absent,p)

def cloneFrame (p : SharedFramePool) (permit : ℕ) : PoolReply × SharedFramePool :=
  if permit ∈ p.permits.live ∧ 0 < p.references permit then
    (.done,{p with references := Function.update p.references permit (p.references permit+1)})
  else (.absent,p)

/-- The last reference releases the permit. -/
def dropFrame (p : SharedFramePool) (permit : ℕ) : PoolReply × SharedFramePool :=
  if permit ∈ p.permits.live ∧ 0 < p.references permit then
    if p.references permit = 1 then p.release permit .done
    else (.done,{p with references := Function.update p.references permit (p.references permit-1)})
  else (.absent,p)

def step (p : SharedFramePool) : PoolOp → PoolReply × SharedFramePool
  | .reserveCapacity maximumCapacity => p.reserveCapacity maximumCapacity
  | .share unit => p.share unit
  | .shareReserved permit unit => p.shareReserved permit unit
  | .dropReservation permit => p.dropReservation permit
  | .cloneFrame permit => p.cloneFrame permit
  | .dropFrame permit => p.dropFrame permit

end SharedFramePool

/-! One step. -/

section Budget

variable {b : MediaBudget} {u u' : BudgetUsage} {own own' extra bs : ℕ}

theorem orElse_eq_ok {ε α : Type} {o : Option α} {e : ε} {a : α} :
    orElse o e = .ok a ↔ o = some a := by
  cases o <;> simp [orElse]

theorem MediaBudget.reserve_eq_ok (h : b.reserve u bs = .ok u') :
    u' = ⟨u.bytes+bs,u.pictures+1⟩ ∧ u.bytes+bs ≤ b.maxBytes ∧ u.pictures+1 ≤ b.maxPictures := by
  unfold MediaBudget.reserve at h
  split at h
  · cases h
  obtain ⟨_,hn,h⟩ := bind_eq_ok.mp h
  obtain ⟨rfl,_⟩ := checkedAdd_eq_some.mp (orElse_eq_ok.mp hn)
  split at h
  · cases h
  · cases h
    exact ⟨rfl,by omega,by omega⟩

theorem MediaBudget.grow_eq_ok (h : b.grow u own extra = .ok (own',u')) :
    own' = own+extra ∧ u' = ⟨u.bytes+extra,u.pictures⟩ ∧ u.bytes+extra ≤ b.maxBytes := by
  obtain ⟨_,hl,h⟩ := bind_eq_ok.mp h
  obtain ⟨rfl,_⟩ := checkedAdd_eq_some.mp (orElse_eq_ok.mp hl)
  split at h
  · cases h
  obtain ⟨_,hn,h⟩ := bind_eq_ok.mp h
  obtain ⟨rfl,_⟩ := checkedAdd_eq_some.mp (orElse_eq_ok.mp hn)
  split at h
  · cases h
  · cases h
    exact ⟨rfl,rfl,by omega⟩

theorem BudgetUsage.refund_eq_some : u.refund bs = some u' ↔
    (bs ≤ u.bytes ∧ 1 ≤ u.pictures) ∧ u' = ⟨u.bytes-bs,u.pictures-1⟩ := by
  unfold BudgetUsage.refund
  by_cases h : bs ≤ u.bytes ∧ 1 ≤ u.pictures
  · simp [h,eq_comm]
  · simp [h]

end Budget

/-- The recorded usage is that of the live owners. -/
structure Sums (used : BudgetUsage) (h : Holdings ℕ ℕ) (fresh : ℕ) : Prop where
  bytes : used.bytes = h.total
  pictures : used.pictures = h.live.card
  below : ∀ k ∈ h.live, k < fresh

namespace Sums

variable {used : BudgetUsage} {h : Holdings ℕ ℕ} {fresh k : ℕ}

theorem notMem (hs : Sums used h fresh) : fresh ∉ h.live := fun hm => (hs.below fresh hm).false

theorem acquire (hs : Sums used h fresh) (bs : ℕ) :
    Sums ⟨used.bytes+bs,used.pictures+1⟩ (h.acquire fresh bs) (fresh+1) := by
  refine ⟨?_,?_,?_⟩
  · rw [h.total_acquire hs.notMem,hs.bytes,add_comm]
  · simp [card_insert_of_notMem hs.notMem,hs.pictures]
  · intro k hk
    rcases mem_insert.mp hk with rfl | hk
    · exact Nat.lt_succ_self _
    · exact (hs.below k hk).trans (Nat.lt_succ_self _)

theorem recharge (hs : Sums used h fresh) (hk : k ∈ h.live) {bs charge}
    (hb : bs+h.charge k = used.bytes+charge) : Sums ⟨bs,used.pictures⟩
      (h.recharge k charge) fresh := by
  refine ⟨?_,hs.pictures,hs.below⟩
  have ht := h.total_recharge hk charge
  have hsum := hs.bytes
  show bs = _
  omega

/-- A live owner can always give its credit back. -/
theorem refund (hs : Sums used h fresh) (hk : k ∈ h.live) :
    ∃ used', used.refund (h.charge k) = some used' ∧ Sums used' (h.release k) fresh := by
  have hle := h.charge_le_total hk
  have hcard := card_pos.mpr ⟨k,hk⟩
  refine ⟨_,BudgetUsage.refund_eq_some.mpr ⟨⟨hs.bytes ▸ hle,hs.pictures ▸ hcard⟩,rfl⟩,?_,?_,?_⟩
  · have ht := h.total_release hk
    have hsum := hs.bytes
    show used.bytes-h.charge k = _
    omega
  · simp [card_erase_of_mem hk,hs.pictures]
  · intro l hl
    exact hs.below l (mem_of_mem_erase hl)

end Sums

theorem refund_le {u u' : BudgetUsage} {bs} (h : u.refund bs = some u') :
    u'.bytes ≤ u.bytes ∧ u'.pictures ≤ u.pictures := by
  obtain ⟨_,rfl⟩ := BudgetUsage.refund_eq_some.mp h
  simp

namespace MediaLedger

structure Conserved (l : MediaLedger) : Prop where
  sums : Sums l.used l.held l.fresh
  maxBytes : l.used.bytes ≤ l.budget.maxBytes
  maxPictures : l.used.pictures ≤ l.budget.maxPictures

variable {l : MediaLedger}

theorem conserved_new (ledger : ℕ) (lim : ProtocolLimits) : (new ledger lim).Conserved := by
  refine ⟨⟨?_,?_,?_⟩,?_,?_⟩ <;> simp [new]

/-- What a step of the viewer's ledger does. -/
structure Steps (l : MediaLedger) (reply : LedgerReply) (t : MediaLedger) : Prop where
  conserved : t.Conserved
  budget : t.budget = l.budget
  sound : reply ≠ .underflow
  refused : ∀ e, reply = .refused e → t = l

theorem reserve_steps (h : l.Conserved) (bs : ℕ) : Steps l (l.reserve bs).1 (l.reserve bs).2 := by
  unfold reserve
  cases hr : l.budget.reserve l.used bs with
  | error e => exact ⟨h,rfl,by simp,by simp⟩
  | ok used =>
    obtain ⟨rfl,hb,hp⟩ := MediaBudget.reserve_eq_ok hr
    exact ⟨⟨h.sums.acquire bs,hb,hp⟩,rfl,by simp,by simp⟩

theorem grow_steps (h : l.Conserved) (o extra : ℕ) :
    Steps l (l.grow o extra).1 (l.grow o extra).2 := by
  unfold grow
  by_cases hl : o ∈ l.held.live
  · rw [if_pos hl]
    cases hgrow : l.budget.grow l.used (l.held.charge o) extra with
    | error e => exact ⟨h,rfl,by simp,by simp⟩
    | ok grown =>
      obtain ⟨_,used⟩ := grown
      obtain ⟨rfl,rfl,hb⟩ := MediaBudget.grow_eq_ok hgrow
      exact ⟨⟨h.sums.recharge hl (by omega),hb,h.maxPictures⟩,rfl,by simp,by simp⟩
  · rw [if_neg hl]
    exact ⟨h,rfl,by simp,by simp⟩

theorem drop_steps (h : l.Conserved) (o : ℕ) : Steps l (l.drop o).1 (l.drop o).2 := by
  unfold drop
  by_cases hl : o ∈ l.held.live
  · obtain ⟨_,hr,hsums⟩ := h.sums.refund hl
    obtain ⟨hb,hp⟩ := refund_le hr
    simp only [if_pos hl,hr]
    exact ⟨⟨hsums,hb.trans h.maxBytes,hp.trans h.maxPictures⟩,rfl,by simp,by simp⟩
  · rw [if_neg hl]
    exact ⟨h,rfl,by simp,by simp⟩

theorem step_steps (h : l.Conserved) (op : BudgetOp) : Steps l (l.step op).1 (l.step op).2 := by
  cases op with
  | reserve bs => exact reserve_steps h bs
  | grow o extra => exact grow_steps h o extra
  | drop o => exact drop_steps h o

def reserved (l : MediaLedger) (bytes : ℕ) : MediaLedger :=
  {l with
    used := ⟨l.used.bytes+bytes,l.used.pictures+1⟩
    held := l.held.acquire l.fresh bytes
    fresh := l.fresh+1}

theorem drop_reserved (h : l.Conserved) (bs : ℕ) : ((l.reserved bs).drop l.fresh).2.used = l.used ∧
      ((l.reserved bs).drop l.fresh).2.held.live = l.held.live := by
  simp [drop,reserved,BudgetUsage.refund,h.sums.notMem]

theorem grow_reserved (l : MediaLedger) (bs slack : ℕ) : (l.reserved bs).grow l.fresh slack =
    match l.budget.grow (l.reserved bs).used bs slack with
    | .ok (own,used) =>
      (.done,{l.reserved bs with used, held := (l.reserved bs).held.recharge l.fresh own})
    | .error e => (.refused e,l.reserved bs) := by
  simp [grow,reserved]

/-- An allocation that is refused, at whichever stage, leaves the usage and its owners as they
were. -/
theorem allocate_refused (h : l.Conserved) (pf : Platform) {length metadata e}
    (hrf : (l.allocate pf length metadata).1 = .refused e) :
    (l.allocate pf length metadata).2.used = l.used ∧
      (l.allocate pf length metadata).2.held.live = l.held.live := by
  unfold allocate at hrf ⊢
  cases hadd : checkedAdd length metadata with
  | none => simp
  | some bs =>
    cases hr : l.budget.reserve l.used bs with
    | error e => simp [reserve,hr]
    | ok used =>
      obtain ⟨rfl,_⟩ := MediaBudget.reserve_eq_ok hr
      have hres : l.reserve bs = (.reserved l.fresh,l.reserved bs) := by simp [reserve,hr,reserved]
      simp only [hadd,hres] at hrf ⊢
      cases hs : pf.reserveBytes length with
      | none => exact drop_reserved h bs
      | some slack =>
        simp only [hs,grow_reserved] at hrf ⊢
        cases hgrow : l.budget.grow (l.reserved bs).used bs slack with
        | ok grown =>
          rw [hgrow] at hrf
          cases hrf
        | error e => exact drop_reserved h bs

end MediaLedger

namespace SharedFramePool

structure Conserved (p : SharedFramePool) : Prop where
  sums : Sums p.used p.permits p.fresh
  maxBytes : p.used.bytes ≤ p.maximum.bytes
  maxPictures : p.used.pictures ≤ p.maximum.pictures
  metadata : ∀ k ∈ p.permits.live, p.metadataBytes ≤ p.permits.charge k

variable {p : SharedFramePool}

theorem conserved_new {lim metadataBytes maximumBytes maximumPictures}
    (h : new lim metadataBytes maximumBytes maximumPictures = .ok p) : p.Conserved := by
  unfold new at h
  split at h
  · cases h
  · cases h
    refine ⟨⟨?_,?_,?_⟩,?_,?_,?_⟩ <;> simp

/-- What a step of the pool does. -/
structure Steps (p : SharedFramePool) (asks : Bool) (reply : PoolReply) (t : SharedFramePool) :
    Prop where
  conserved : t.Conserved
  maximum : t.maximum = p.maximum
  sound : reply ≠ .underflow
  refused : asks = true → ∀ e, reply = .refused e → t = p

theorem Steps.same {asks reply} (h : p.Conserved) (hs : reply ≠ .underflow) :
    Steps p asks reply p := ⟨h,rfl,hs,fun _ _ _ => rfl⟩

theorem charged_eq_ok {charge : ℕ} {used : BudgetUsage} (h : p.charged charge = .ok used) :
    used = ⟨p.used.bytes+charge,p.used.pictures+1⟩ ∧ p.used.bytes+charge ≤ p.maximum.bytes ∧
      p.used.pictures+1 ≤ p.maximum.pictures := by
  obtain ⟨_,ht,h⟩ := bind_eq_ok.mp h
  obtain ⟨rfl,_⟩ := checkedAdd_eq_some.mp (orElse_eq_ok.mp ht)
  split at h
  · cases h
  · cases h
    exact ⟨rfl,by omega,by omega⟩

theorem permit_conserved (h : p.Conserved) {cap charge used} (references : ℕ)
    (hc : checkedAdd cap p.metadataBytes = some charge) (hused : p.charged charge = .ok used) :
    (p.permit charge used references).Conserved := by
  obtain ⟨rfl,hb,hp⟩ := charged_eq_ok hused
  obtain ⟨rfl,_⟩ := checkedAdd_eq_some.mp hc
  refine ⟨h.sums.acquire _,hb,hp,?_⟩
  intro k hk
  rcases mem_insert.mp hk with rfl | hk
  · simp [permit]
  · have hne : k ≠ p.fresh := (h.sums.below k hk).ne
    simpa [permit,Holdings.charge_acquire_of_ne _ _ hne] using h.metadata k hk

theorem reserveCapacity_steps (h : p.Conserved) (maximumCapacity : ℕ) :
    Steps p true (p.reserveCapacity maximumCapacity).1 (p.reserveCapacity maximumCapacity).2 := by
  unfold reserveCapacity
  by_cases hz : maximumCapacity = 0
  · rw [if_pos hz]
    exact .same h (by simp)
  rw [if_neg hz]
  cases hc : checkedAdd maximumCapacity p.metadataBytes with
  | none => exact .same h (by simp)
  | some charge =>
    dsimp only
    cases hused : p.charged charge with
    | error e => exact .same h (by simp)
    | ok used => exact ⟨permit_conserved h 0 hc hused,rfl,by simp,by simp⟩

theorem share_steps (h : p.Conserved) (unit : EncodedAccessUnit) :
    Steps p true (p.share unit).1 (p.share unit).2 := by
  unfold share
  by_cases hlong : p.limits.maxEncodedAccessUnitBytes < unit.bytes.length
  · rw [if_pos hlong]
    exact .same h (by simp)
  rw [if_neg hlong]
  cases hc : checkedAdd unit.capacity p.metadataBytes with
  | none => exact .same h (by simp)
  | some charge =>
    dsimp only
    cases hused : p.charged charge with
    | error e => exact .same h (by simp)
    | ok used => exact ⟨permit_conserved h 1 hc hused,rfl,by simp,by simp⟩

theorem release_steps (h : p.Conserved) {permit} (hl : permit ∈ p.permits.live) {reply}
    (hs : reply ≠ .underflow) : Steps p false (p.release permit reply).1
      (p.release permit reply).2 := by
  obtain ⟨_,hr,hsums⟩ := h.sums.refund hl
  obtain ⟨hb,hp⟩ := refund_le hr
  simp only [release,hr]
  refine ⟨⟨hsums,hb.trans h.maxBytes,hp.trans h.maxPictures,?_⟩,rfl,hs,by simp⟩
  intro k hk
  exact h.metadata k (mem_of_mem_erase hk)

theorem shareReserved_steps (h : p.Conserved) (permit : ℕ) (unit : EncodedAccessUnit) :
    Steps p false (p.shareReserved permit unit).1 (p.shareReserved permit unit).2 := by
  unfold shareReserved
  by_cases hli : permit ∈ p.permits.live ∧ p.references permit = 0
  swap
  · rw [if_pos hli]
    exact .same h (by simp)
  rw [if_neg (not_not.mpr hli)]
  by_cases hlong : p.limits.maxEncodedAccessUnitBytes < unit.bytes.length
  · rw [if_pos hlong]
    exact release_steps h hli.1 (by simp)
  rw [if_neg hlong]
  by_cases hl : p.permits.charge permit-p.metadataBytes < unit.capacity
  · rw [if_pos hl]
    exact release_steps h hli.1 (by simp)
  rw [if_neg hl]
  -- the reservation covers the buffer, and the usage covers the reservation
  have hm := h.metadata permit hli.1
  have hc := p.permits.charge_le_total hli.1
  have hb := h.sums.bytes
  rw [if_neg (by omega)]
  refine ⟨⟨h.sums.recharge hli.1 (by omega),?_,h.maxPictures,?_⟩,rfl,by simp,by simp⟩
  · exact (Nat.sub_le _ _).trans h.maxBytes
  · intro k hk
    by_cases hk' : k = permit
    · subst hk'
      simp
    · simpa [Holdings.charge_recharge_of_ne _ _ hk'] using h.metadata k hk

theorem references_conserved (h : p.Conserved) (references : ℕ → ℕ) :
    {p with references}.Conserved :=
  {h with}

def asks : PoolOp → Bool
  | .reserveCapacity _ | .share _ => true
  | _ => false

theorem step_steps (h : p.Conserved) (op : PoolOp) : Steps p (asks op) (p.step op).1
    (p.step op).2 := by
  cases op with
  | reserveCapacity maximumCapacity => exact reserveCapacity_steps h maximumCapacity
  | share unit => exact share_steps h unit
  | shareReserved permit unit => exact shareReserved_steps h permit unit
  | dropReservation permit =>
    simp only [step,dropReservation]
    split
    · next hl => exact release_steps h hl.1 (by simp)
    · exact .same h (by simp)
  | cloneFrame permit =>
    simp only [step,cloneFrame]
    split
    · exact ⟨references_conserved h _,rfl,by simp,by simp [asks]⟩
    · exact .same h (by simp)
  | dropFrame permit =>
    simp only [step,dropFrame]
    split
    · next hl =>
      split
      · exact release_steps h hl.1 (by simp)
      · exact ⟨references_conserved h _,rfl,by simp,by simp [asks]⟩
    · exact .same h (by simp)

end SharedFramePool

/-! Both ledgers. -/

structure MediaLedgers where
  viewer : MediaLedger
  pool : SharedFramePool

inductive LedgerOp
  | viewer (op : BudgetOp)
  | pool (op : PoolOp)

inductive LedgersReply
  | viewer (reply : LedgerReply)
  | pool (reply : PoolReply)

namespace MediaLedgers

def step (m : MediaLedgers) : LedgerOp → LedgersReply × MediaLedgers
  | .viewer op => (.viewer (m.viewer.step op).1,{m with viewer := (m.viewer.step op).2})
  | .pool op => (.pool (m.pool.step op).1,{m with pool := (m.pool.step op).2})

def final : MediaLedgers → List LedgerOp → MediaLedgers := Transition.final step

abbrev Event := Transition.Event MediaLedgers LedgerOp LedgersReply

def trace : MediaLedgers → List LedgerOp → List Event := Transition.trace step

/-- Both ledgers from their start on. -/
def Starts (m : MediaLedgers) : Prop :=
  (∃ ledger limits, m.viewer = .new ledger limits) ∧
    ∃ limits metadataBytes maximumBytes maximumPictures,
      SharedFramePool.new limits metadataBytes maximumBytes maximumPictures = .ok m.pool

structure Conserved (m : MediaLedgers) : Prop where
  viewer : m.viewer.Conserved
  pool : m.pool.Conserved

variable {m : MediaLedgers}

theorem conserved_of_starts (h : m.Starts) : m.Conserved := by
  obtain ⟨⟨ledger,lim,hv⟩,_,_,_,_,hpool⟩ := h
  refine ⟨?_,SharedFramePool.conserved_new hpool⟩
  rw [hv]
  exact MediaLedger.conserved_new ledger lim

theorem Conserved.step (h : m.Conserved) (op : LedgerOp) : (m.step op).2.Conserved := by
  cases op with
  | viewer op => exact ⟨(MediaLedger.step_steps h.viewer op).conserved,h.pool⟩
  | pool op => exact ⟨h.viewer,(SharedFramePool.step_steps h.pool op).conserved⟩

theorem conserved_run (h : m.Starts) (ops : List LedgerOp) : (final m ops).Conserved ∧
    (final m ops).viewer.budget = m.viewer.budget ∧
    (final m ops).pool.maximum = m.pool.maximum := by
  refine Transition.final_invariant (I := fun t => t.Conserved ∧ t.viewer.budget = m.viewer.budget ∧
    t.pool.maximum = m.pool.maximum) step ?_ ops ⟨conserved_of_starts h,rfl,rfl⟩
  rintro t op ⟨ht,hb,hm⟩
  refine ⟨ht.step op,?_⟩
  cases op with
  | viewer op => exact ⟨(MediaLedger.step_steps ht.viewer op).budget.trans hb,hm⟩
  | pool op => exact ⟨hb,(SharedFramePool.step_steps ht.pool op).maximum.trans hm⟩

/-- A subtraction below zero in either ledger. -/
def Underflows : LedgersReply → Prop
  | .viewer reply => reply = .underflow
  | .pool reply => reply = .underflow

def Refuses : LedgerOp → LedgersReply → Prop
  | .viewer _,.viewer reply => ∃ e, reply = .refused e
  | .pool op,.pool reply => SharedFramePool.asks op = true ∧ ∃ e, reply = .refused e
  | _,_ => False

theorem step_sound (h : m.Conserved) (op : LedgerOp) :
    ¬Underflows (m.step op).1 ∧ (Refuses op (m.step op).1 → (m.step op).2 = m) := by
  cases op with
  | viewer op =>
    have hstep := MediaLedger.step_steps h.viewer op
    refine ⟨hstep.sound,?_⟩
    rintro ⟨e,hr⟩
    simp only [step,hstep.refused e hr]
  | pool op =>
    have hstep := SharedFramePool.step_steps h.pool op
    refine ⟨hstep.sound,?_⟩
    rintro ⟨hasks,e,hr⟩
    simp only [step,hstep.refused hasks e hr]

theorem budgets_conserved {m : MediaLedgers} (hm : m.Starts) (ops : List LedgerOp) :
    ((final m ops).viewer.used =
      ⟨(final m ops).viewer.held.total,(final m ops).viewer.held.live.card⟩ ∧
      (final m ops).pool.used =
        ⟨(final m ops).pool.permits.total,(final m ops).pool.permits.live.card⟩) ∧
    ((final m ops).viewer.used.bytes ≤ m.viewer.budget.maxBytes ∧
      (final m ops).viewer.used.pictures ≤ m.viewer.budget.maxPictures ∧
      (final m ops).pool.used.bytes ≤ m.pool.maximum.bytes ∧
      (final m ops).pool.used.pictures ≤ m.pool.maximum.pictures) ∧
    (∀ e ∈ trace m ops, ¬Underflows e.reply ∧
      (Refuses e.input e.reply → (e.before.step e.input).2 = e.before)) ∧
    (∀ platform length metadata e, ((final m ops).viewer.allocate platform length metadata).1 =
      .refused e →
      ((final m ops).viewer.allocate platform length metadata).2.used = (final m ops).viewer.used ∧
      ((final m ops).viewer.allocate platform length metadata).2.held.live =
        (final m ops).viewer.held.live) ∧
    ((final m ops).viewer.held.live = ∅ → (final m ops).viewer.used = ⟨0,0⟩) ∧
    ((final m ops).pool.permits.live = ∅ → (final m ops).pool.used = ⟨0,0⟩) := by
  obtain ⟨⟨hv,hpool⟩,hb,hmx⟩ := conserved_run hm ops
  have hused : (final m ops).viewer.used =
      ⟨(final m ops).viewer.held.total,(final m ops).viewer.held.live.card⟩ := by
    rw [← hv.sums.bytes,← hv.sums.pictures]
  have hused' : (final m ops).pool.used =
      ⟨(final m ops).pool.permits.total,(final m ops).pool.permits.live.card⟩ := by
    rw [← hpool.sums.bytes,← hpool.sums.pictures]
  refine ⟨⟨hused,hused'⟩,?_,?_,fun platform _ _ _ => MediaLedger.allocate_refused hv platform,?_,?_⟩
  · rw [← hb,← hmx]
    exact ⟨hv.maxBytes,hv.maxPictures,hpool.maxBytes,hpool.maxPictures⟩
  · exact Transition.trace_invariant (I :=
      Conserved) step (fun _ op h => ⟨h.step op,step_sound h op⟩) ops (conserved_of_starts hm)
  · intro hl
    simp [hused,Holdings.total,hl]
  · intro hl
    simp [hused',Holdings.total,hl]

def samplePair : Except DeliveryError MediaLedgers :=
  (SharedFramePool.new sampleProtocolLimits 16 4096 2).map
    fun pool => ⟨.new 0 sampleProtocolLimits,pool⟩

/-- A reserved picture with two subscribers, beside a viewer that allocates and gives back. -/
def sampleLedgerOps : List LedgerOp :=
  [.viewer (.reserve 100),.pool (.reserveCapacity 50),.viewer (.reserve 100000),
    .pool (.shareReserved 0 ⟨1,.idr,1,0,[1,2,3],40⟩),.pool (.cloneFrame 0),.viewer (.grow 0 28),
    .pool (.dropFrame 0),.viewer (.drop 0),.pool (.dropFrame 0)]

theorem budgets_conserved_sampled : ∃ m, samplePair = .ok m ∧
    (final m (sampleLedgerOps.take 7)).viewer.used = ⟨128,1⟩ ∧
    (final m (sampleLedgerOps.take 7)).pool.used = ⟨56,1⟩ ∧
    (final m sampleLedgerOps).viewer.used = ⟨0,0⟩ ∧
    (final m sampleLedgerOps).pool.used = ⟨0,0⟩ := by
  obtain ⟨m,hm⟩ : ∃ m, samplePair = .ok m := ⟨_,rfl⟩
  have hrun : m.Starts ∧ (final m (sampleLedgerOps.take 7)).viewer.used = ⟨128,1⟩ ∧
      (final m (sampleLedgerOps.take 7)).pool.used = ⟨56,1⟩ ∧
      (final m sampleLedgerOps).viewer.held.live = ∅ ∧
          (final m sampleLedgerOps).pool.permits.live = ∅ := by
    cases hm
    exact ⟨⟨⟨0,sampleProtocolLimits,rfl⟩,sampleProtocolLimits,16,4096,2,
      rfl⟩,by decide +kernel,by decide +kernel,by decide +kernel,by decide +kernel⟩
  obtain ⟨hs,hv,hpool,hn,hn'⟩ := hrun
  obtain ⟨_,_,_,_,hz,hz'⟩ := budgets_conserved hs sampleLedgerOps
  exact ⟨m,hm,hv,hpool,hz hn,hz' hn'⟩

end MediaLedgers

end FrankenRemote.Delivery
