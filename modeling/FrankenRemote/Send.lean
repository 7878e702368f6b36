import FrankenRemote.Delivery
import FrankenRemote.WireRecovery
import FrankenRemote.SlotTable
import Mathlib.Data.List.MinMax
import Mathlib.Data.List.Sort

/-! One subscription's sender: cached pictures, packetisation in announcement order, and
bounded selective retransmission. -/
namespace FrankenRemote.Delivery

open Wire Bytes Procedure SlotTable

abbrev cacheSlots : ℕ := 64

abbrev recoverySlots : ℕ := 16

structure SendPolicy where
  maxCachedPictures : ℕ
  maxCachedBytes : ℕ
  referenceHorizonMicros : ℕ
  recoveryHorizonMicros : ℕ
  minimumRepairIntervalMicros : ℕ
  maxRepairRounds : ℕ
  repairBytesPerWindow : ℕ
  repairWindowMicros : ℕ
  maxRecoveriesPerWindow : ℕ
  recoveryWindowMicros : ℕ
  deriving DecidableEq

inductive SendError
  | delivery (error : DeliveryError) | wire (error : WireError) | invalidPolicy | closed
  | needsRecovery | invalidSequence | invalidDependency | invalidRecovery | invalidPayload
  | cacheFull | frameUnavailable | repairBusy | repairNotReady | repairRateLimited
  | repairBudgetExceeded | repairExpired | originalExpired | invalidObservation
  | observationExpired | recoveryLimitExceeded
  deriving DecidableEq

def SendPolicy.default : SendPolicy :=
  ⟨32,32*1024*1024,250000,2000000,10000,3,1024*1024,250000,4,10000000⟩

def SendPolicy.validate (p : SendPolicy) (limits : MediaLimits) : Except SendError Unit :=
  if ¬(1 ≤ p.maxCachedPictures ∧ p.maxCachedPictures ≤ cacheSlots) ∨ p.maxCachedBytes = 0 ∨
      limits.protocol.perViewerCompressedBytes < p.maxCachedBytes ∨
      ¬(1 ≤ p.referenceHorizonMicros ∧ p.referenceHorizonMicros ≤ 250000) ∨
      ¬(1 ≤ p.recoveryHorizonMicros ∧ p.recoveryHorizonMicros ≤ 5000000) ∨
      p.minimumRepairIntervalMicros = 0 ∨
      p.referenceHorizonMicros < p.minimumRepairIntervalMicros ∨
      ¬(1 ≤ p.maxRepairRounds ∧ p.maxRepairRounds ≤ 8) ∨ p.repairBytesPerWindow = 0 ∨
      p.maxCachedBytes < p.repairBytesPerWindow ∨
      ¬(1 ≤ p.repairWindowMicros ∧ p.repairWindowMicros ≤ 1000000) ∨
      ¬(1 ≤ p.maxRecoveriesPerWindow ∧ p.maxRecoveriesPerWindow ≤ recoverySlots) ∨
      ¬(1000000 ≤ p.recoveryWindowMicros ∧ p.recoveryWindowMicros ≤ 60000000)
  then .error .invalidPolicy else .ok ()

inductive DeliveryMode
  | recovery | datagrams
  deriving DecidableEq, Repr

inductive OfferPurpose
  | original | repair | observation
  deriving DecidableEq, Repr

/-- A prepared record and the cache and generation it belongs to. -/
structure PacketOffer where
  channel : Channel
  packet : List Byte
  frame : ℕ
  sendBy : ℕ
  owner : ℕ
  epoch : MediaEpoch
  purpose : OfferPurpose
  deriving DecidableEq

def PacketOffer.expiryError (offer : PacketOffer) : SendError :=
  match offer.purpose with
  | .original => .originalExpired
  | .repair => .repairExpired
  | .observation => .observationExpired

/-! Repair jobs. -/

/-- Ranges asked for, with the range being emitted and its next fragment. -/
structure RepairJob where
  ranges : List RepairRange
  range : ℕ
  fragment : ℕ
  deriving DecidableEq

namespace RepairJob

def remaining (job : RepairJob) : List RepairRange :=
  match job.ranges.drop job.range with
  | [] => []
  | r::rs => {r with start := job.fragment}::rs

/-- Extend the last range over an overlapping or adjacent next one, else admit it. -/
def absorb (maximum : ℕ) (ranges : List RepairRange) (next : RepairRange) : List RepairRange :=
  match ranges.getLast? with
  | some last =>
    if next.start ≤ last.stop then
      ranges.dropLast ++ [{last with stop := max last.stop next.stop}]
    else admitRange maximum ranges next
  | none => admitRange maximum ranges next

def covered (ranges : List RepairRange) : ℕ := (ranges.map fun r => r.stop - r.start).sum

/-- The union of the unsent suffix and a new request, if the request adds anything. -/
def coalesce (job : RepairJob) (requested : List RepairRange) (maximum : ℕ) :
    Except SendError RepairJob :=
  let maximum := min maximum 64
  if maximum = 0 then .error .repairBusy
  else
    let ranges := (List.merge job.remaining requested (fun a b => a.start ≤ b.start)).foldl
      (absorb maximum) []
    if covered job.remaining = covered ranges then .error .repairBusy
    else .ok ⟨ranges,0,(ranges.headD ⟨0,0⟩).start⟩

def advance (job : RepairJob) : Option RepairJob :=
  if job.fragment+1 = (job.ranges.getD job.range ⟨0,0⟩).stop then
    if job.range+1 = job.ranges.length then none
    else some ⟨job.ranges,job.range+1,(job.ranges.getD (job.range+1) ⟨0,0⟩).start⟩
  else some {job with fragment := job.fragment+1}

end RepairJob

/-! Cached pictures. -/

structure CachedPicture where
  progress : Progress
  bytes : List Byte
  mode : DeliveryMode
  charged : ℕ
  sendBy : ℕ
  announced : Bool
  nextOriginal : ℕ
  repairRounds : ℕ
  nextRepair : ℕ
  repair : Option RepairJob
  deriving DecidableEq

namespace CachedPicture

def descriptor (p : CachedPicture) : FrameDescriptor := p.progress.descriptor

/-- How far `nextOriginal` runs: bytes of a recovery picture, fragments of a datagram one. -/
def originals (p : CachedPicture) : ℕ :=
  match p.mode with
  | .recovery => p.descriptor.totalBytes
  | .datagrams =>
    match p.descriptor.fragmentCount with
    | .ok count => count
    | .error _ => 0

def originalComplete (p : CachedPicture) : Bool := p.originals ≤ p.nextOriginal

def fragment (p : CachedPicture) (index : ℕ) : Except SendError Fragment := do
  let (start,stop) ← (p.descriptor.fragmentRange index).mapError .wire
  .ok ⟨p.descriptor,index,Tiling.slice p.bytes start (stop-start)⟩

/-- Bytes of the next contiguous chunk. -/
def chunkLength (p : CachedPicture) (limits : MediaLimits) : ℕ :=
  min (limits.recordBytes - recoveryOverhead) (p.bytes.length - p.nextOriginal)

def chunk (p : CachedPicture) (limits : MediaLimits) : RecoveryChunk where
  frame := p.descriptor.frame
  totalBytes := p.descriptor.totalBytes
  offset := p.nextOriginal
  captureMicros := p.descriptor.captureMicros
  bytes := Tiling.slice p.bytes p.nextOriginal (p.chunkLength limits)

def repairPacketBytes (p : CachedPicture) (index : ℕ) : Except SendError ℕ := do
  let f ← p.fragment index
  .ok (f.bytes.length + if p.descriptor.reference.isSome then
    fragmentOverhead else fragmentOverhead - 8)

end CachedPicture

structure PendingObservation where
  progress : Progress
  sendBy : ℕ
  deriving DecidableEq

/-- The recovery of a failed generation; no request while the sender waits for one. -/
structure PendingRecovery where
  request : Option RecoveryRequest
  binding : Option DecoderBinding
  deadline : ℕ
  deriving DecidableEq

/-- One sender and its repair cache. `owner` is the identity that its offers share. -/
structure SendCache where
  owner : ℕ
  limits : MediaLimits
  bindings : MediaBindings
  epoch : MediaEpoch
  policy : SendPolicy
  pictures : Slots cacheSlots CachedPicture
  usedBytes : ℕ
  usedPictures : ℕ
  lastInserted : Option ℕ
  lastProgress : Option Progress
  observation : Option PendingObservation
  lastNow : Option ℕ
  repairWindowStart : ℕ
  repairSpent : ℕ
  closed : Bool
  needsRecovery : Bool
  firstFailureDeadline : Option ℕ
  recoveryRequest : Option PendingRecovery
  recoveries : Slots recoverySlots ℕ
  recoveryChargedEpoch : Option MediaEpoch

abbrev Sender := Proc SendCache SendError

/-- One accepted request; a shared encoder consumes it once. -/
structure RecoveryDemand where
  owner : ℕ
  epoch : MediaEpoch
  request : RecoveryRequest
  deadline : ℕ
  deriving DecidableEq

def RecoveryDemand.check (d : RecoveryDemand) (c : SendCache) (now : ℕ) :
    Except DeliveryError Unit :=
  if c.closed ∨ ¬c.needsRecovery ∨ d.owner ≠ c.owner ∨ d.epoch ≠ c.epoch ∨
      c.recoveryRequest.all (fun p => p.deadline ≠ d.deadline ∨ p.request ≠ some d.request) then
    .error .staleGeneration
  else if d.deadline ≤ now then .error .recoveryExpired
  else .ok ()

inductive RecoveryDisposition
  | accepted (demand : RecoveryDemand) | coalesced
  deriving DecidableEq

namespace SendCache

def new (owner : ℕ) (limits : MediaLimits) (bindings : MediaBindings) (epoch : MediaEpoch)
    (policy : SendPolicy) : Except SendError SendCache := do
  policy.validate limits
  .ok {
    owner := owner
    limits := limits
    bindings := bindings
    epoch := epoch
    policy := policy
    pictures := vacant
    usedBytes := 0
    usedPictures := 0
    lastInserted := none
    lastProgress := none
    observation := none
    lastNow := none
    repairWindowStart := 0
    repairSpent := 0
    closed := false
    needsRecovery := false
    firstFailureDeadline := none
    recoveryRequest := none
    recoveries := vacant
    recoveryChargedEpoch := none
  }

def clear (c : SendCache) : SendCache :=
  {c with
    firstFailureDeadline := none
    recoveryRequest := none
    lastProgress := none
    observation := none
    pictures := vacant
    usedBytes := 0
    usedPictures := 0}

def close (c : SendCache) : SendCache := {c.clear with closed := true}

def recoveryDeadline (c : SendCache) : Option ℕ :=
  (c.firstFailureDeadline.toList ++ (c.recoveryRequest.map (·.deadline)).toList).min?

/-- The cache that waits for a recovery; only the last source descriptor survives. -/
def fenced (c : SendCache) (deadline : ℕ) : SendCache :=
  {c.clear with
    lastProgress := c.lastProgress
    needsRecovery := true
    firstFailureDeadline := some deadline}

/-- Drop whatever has passed its deadline and refill the repair window. -/
def expire (c : SendCache) (now : ℕ) : SendCache :=
  let stale := (entries c.pictures).filter (·.sendBy ≤ now)
  let refill := c.policy.repairWindowMicros ≤ now - c.repairWindowStart
  {c with
    observation := c.observation.filter (now < ·.sendBy)
    pictures := discard c.pictures (·.sendBy ≤ now)
    usedBytes := c.usedBytes - (stale.map (·.charged)).sum
    usedPictures := c.usedPictures - stale.length
    repairWindowStart := if refill then now else c.repairWindowStart
    repairSpent := if refill then 0 else c.repairSpent}

def put (c : SendCache) (i : Fin cacheSlots) (p : CachedPicture) : SendCache :=
  {c with pictures := store c.pictures i p}

def located (c : SendCache) (frame : ℕ) : Option (Fin cacheSlots × CachedPicture) :=
  (indexed c.pictures).find? (·.2.descriptor.frame = frame)

/-- The least frame that still owes its announcement or an original. -/
def pending (c : SendCache) : Option (Fin cacheSlots × CachedPicture) :=
  ((indexed c.pictures).filter fun (_,p) => ¬p.announced ∨ ¬p.originalComplete).argmin
    (·.2.descriptor.frame)

/-- The next record of a picture and the picture once it is prepared: the announcement
first, then one fragment or one contiguous chunk. -/
def original (c : SendCache) (p : CachedPicture) (room : ℕ) :
    Except SendError (Channel × List Byte × CachedPicture) :=
  if ¬p.announced then do
    let packet ← (encodeProgress p.progress (c.bindings.forChannel .mediaConfig) c.limits
      room).mapError .wire
    .ok (.mediaConfig,packet,{p with announced := true})
  else
    match p.mode with
    | .datagrams => do
      let f ← p.fragment p.nextOriginal
      let packet ← (encodeFragment f (c.bindings.forChannel .video) c.limits room).mapError .wire
      .ok (.video,packet,{p with nextOriginal := p.nextOriginal+1})
    | .recovery => do
      let packet ← (encodeRecovery (p.chunk c.limits) (c.bindings.forChannel .recovery) c.limits
        room).mapError .wire
      .ok (.recovery,packet,{p with nextOriginal := p.nextOriginal + p.chunkLength c.limits})

/-- Keep the earlier deadline, then the earlier frame; a tie keeps the lower index. -/
def earlier (selected : Option (Fin cacheSlots × CachedPicture × RepairJob))
    (candidate : Fin cacheSlots × CachedPicture × RepairJob) :
    Fin cacheSlots × CachedPicture × RepairJob :=
  match selected with
  | none => candidate
  | some old =>
    let p := candidate.2.1
    let q := old.2.1
    if p.sendBy < q.sendBy ∨ (p.sendBy = q.sendBy ∧ p.descriptor.frame < q.descriptor.frame)
    then candidate else old

/-- One picture of the scan for a repair: its next fragment must have been issued as an
original, and its packet must fit in what is left of the window. -/
def considered (remaining : ℕ) (selected : Option (Fin cacheSlots × CachedPicture × RepairJob))
    (entry : Fin cacheSlots × CachedPicture) :
    Except SendError (Option (Fin cacheSlots × CachedPicture × RepairJob)) :=
  let (i,p) := entry
  match p.repair with
  | none => .ok selected
  | some job =>
    if p.nextOriginal ≤ job.fragment then .ok selected
    else do
      let bytes ← p.repairPacketBytes job.fragment
      if remaining < bytes then .ok selected else .ok (some (earlier selected (i,p,job)))

def repairCandidate (c : SendCache) :
    Except SendError (Option (Fin cacheSlots × CachedPicture × RepairJob)) :=
  (indexed c.pictures).foldlM (considered (c.policy.repairBytesPerWindow - c.repairSpent)) none

/-! Procedures. -/

def checkClock (now : ℕ) : Sender Unit := do
  let c ← get
  if c.lastNow.any (now < ·) then
    modify close
    throw (.delivery .clockRegression)
  else modify ({· with lastNow := some now})

def checkRecoveryDeadline (now : ℕ) : Sender Unit := do
  let c ← get
  if c.recoveryDeadline.any (· ≤ now) then
    modify close
    throw (.delivery .recoveryExpired)
  else pure ()

/-- Losing an unsent reference fences all its dependents. -/
def failReference (now : ℕ) : Sender Unit := do
  let c ← get
  match deadline now c.policy.recoveryHorizonMicros with
  | .error e =>
    modify close
    throw (.delivery e)
  | .ok t => modify (fenced · t)

def tick (now : ℕ) : Sender Unit := do
  checkClock now
  let c ← get
  refuseIf (c.closed = true) .closed
  checkRecoveryDeadline now
  let c ← get
  refuseIf (c.needsRecovery = true) .needsRecovery
  if (entries c.pictures).any (fun p => p.sendBy ≤ now ∧ ¬p.originalComplete) then
    failReference now
    throw .originalExpired
  else modify (expire · now)

end SendCache

/-! Admission of pictures. -/

/-- An encoded picture and the bytes it pins. -/
structure PictureBytes where
  bytes : List Byte
  charge : ℕ

def SendPolicy.lifetime (p : SendPolicy) : DeliveryMode → ℕ
  | .recovery => p.recoveryHorizonMicros
  | .datagrams => p.referenceHorizonMicros

inductive FrameKind
  | idr | predicted (references : ℕ)
  deriving DecidableEq, Repr

/-- An encoded allocation shared with other subscribers. -/
structure SharedFrame where
  frame : ℕ
  kind : FrameKind
  configuration : ℕ
  captureMicros : ℕ
  bytes : List Byte
  charge : ℕ

def SharedFrame.reference (f : SharedFrame) : Option ℕ :=
  match f.kind with
  | .idr => none
  | .predicted references => some references

def SharedFrame.progress (f : SharedFrame) (stride : ℕ) : Except WireError Progress :=
  if 2^32 ≤ f.bytes.length then .error .resourceLimit
  else .ok ⟨⟨f.frame,f.bytes.length,stride,f.captureMicros,f.reference⟩,f.captureMicros,
    .captured,.running⟩

namespace SendCache

/-- The cache with one more picture. -/
def inserted (c : SendCache) (i : Fin cacheSlots) (p : CachedPicture) (used : ℕ) : SendCache :=
  {c with
    pictures := store c.pictures i p
    usedBytes := used
    usedPictures := c.usedPictures+1
    lastInserted := some p.descriptor.frame
    lastProgress := some p.progress
    observation := none}

/-- `recordBytes` is the size of a cache record on the target. -/
def pushPicture (recordBytes : ℕ) (progress : Progress) (payload : PictureBytes)
    (mode : DeliveryMode) (now : ℕ) : Sender Unit := do
  tick now
  let c ← get
  let d := progress.descriptor
  ofResult ((d.validate c.limits).mapError .wire)
  refuseIf (d.totalBytes ≠ payload.bytes.length) .invalidPayload
  refuseIf (c.lastInserted.any (d.frame ≤ ·) = true) .invalidSequence
  refuseIf (d.reference.isSome ∧ d.reference ≠ c.lastInserted) .invalidDependency
  refuseIf ((c.lastInserted = none ∧ (d.reference.isSome ∨ mode ≠ .recovery)) ∨
    (c.lastInserted.isSome ∧ mode = .recovery) ∨
    (mode = .recovery ∧ d.stride ≠ c.limits.fragmentStride)) .invalidRecovery
  let charged ← okOr (checkedAdd payload.charge recordBytes) .cacheFull
  let used ← okOr (checkedAdd c.usedBytes charged) .cacheFull
  refuseIf (c.policy.maxCachedBytes < used ∨ c.policy.maxCachedPictures ≤ c.usedPictures) .cacheFull
  refuseIf (now < d.captureMicros) .invalidObservation
  let sendBy ← ofResult ((deadline d.captureMicros (c.policy.lifetime mode)).mapError .delivery)
  if sendBy ≤ now then
    -- The encoder has already advanced its chain past this picture.
    failReference now
    throw .originalExpired
  else
    let i ← okOr (firstIndex c.pictures Option.isNone) .cacheFull
    modify (inserted · i ⟨progress,payload.bytes,mode,charged,sendBy,false,0,0,now,none⟩ used)

def pushShared (recordBytes : ℕ) (frame : SharedFrame) (mode : DeliveryMode) (now : ℕ) :
    Sender Unit := do
  let c ← get
  refuseIf (frame.configuration ≠ c.epoch.configuration) (.delivery .staleGeneration)
  let progress ← ofResult ((frame.progress c.limits.fragmentStride).mapError .wire)
  pushPicture recordBytes progress ⟨frame.bytes,frame.charge⟩ mode now

/-! Packets. -/

def nextObservation (room : ℕ) : Sender (Option PacketOffer) := do
  let c ← get
  match c.observation with
  | none => pure none
  | some pending =>
    let packet ← ofResult ((encodeProgress pending.progress (c.bindings.forChannel .mediaConfig)
      c.limits room).mapError .wire)
    modify ({· with observation := none})
    pure (some ⟨.mediaConfig,packet,pending.progress.descriptor.frame,pending.sendBy,
      c.owner,c.epoch,.observation⟩)

def nextPacket (room now : ℕ) : Sender (Option PacketOffer) := do
  tick now
  let c ← get
  match c.pending with
  | none => nextObservation room
  | some (i,p) =>
    let (channel,packet,sent) ← ofResult (c.original p room)
    modify (·.put i sent)
    pure (some ⟨channel,packet,p.descriptor.frame,p.sendBy,c.owner,c.epoch,.original⟩)

/-- Refuse what no repair window could ever carry. -/
def repairable (p : CachedPicture) (allowance : ℕ) : List RepairRange → Except SendError Unit
  | [] => .ok ()
  | r::rs => do
    let bytes ← p.repairPacketBytes r.start
    if allowance < bytes then .error .repairBudgetExceeded else repairable p allowance rs

def repairJob (p : CachedPicture) (ranges : List RepairRange) (maximum : ℕ) :
    Except SendError RepairJob :=
  match p.repair with
  | some job => job.coalesce ranges maximum
  | none => .ok ⟨ranges,0,(ranges.headD ⟨0,0⟩).start⟩

def queueRepair (packet : List Byte) (now : ℕ) : Sender Unit := do
  let c ← get
  let record ← ofResult ((Record.decode packet c.limits (c.bindings.forChannel .control)
    .control).mapError .wire)
  let request ← ofResult ((decodeRepair record c.limits.maxFragments c.limits).mapError .wire)
  tick now
  let c ← get
  let (i,p) ← okOr (c.located request.frame) .frameUnavailable
  refuseIf (p.mode = .recovery ∨ ¬p.announced) .repairNotReady
  let total ← ofResult (p.descriptor.fragmentCount.mapError .wire)
  refuseIf (request.ranges.any (total < ·.stop) = true) (.wire .invalidRanges)
  ofResult (repairable p c.policy.repairBytesPerWindow request.ranges)
  let job ← ofResult (repairJob p request.ranges c.limits.maxRepairRanges)
  refuseIf (now < p.nextRepair ∨ c.policy.maxRepairRounds ≤ p.repairRounds)
    (if p.repair.isSome then .repairBusy else .repairRateLimited)
  let next ← ofResult ((deadline now c.policy.minimumRepairIntervalMicros).mapError .delivery)
  let asked := {p with nextRepair := next, repairRounds := p.repairRounds+1, repair := some job}
  modify (·.put i asked)

def nextRepairPacket (room now : ℕ) : Sender (Option PacketOffer) := do
  tick now
  let c ← get
  let selected ← ofResult c.repairCandidate
  match selected with
  | none => pure none
  | some (i,p,job) =>
    let f ← ofResult (p.fragment job.fragment)
    let packet ← ofResult
      ((encodeFragment f (c.bindings.forChannel .video) c.limits room).mapError .wire)
    let rest := {p with repair := job.advance}
    modify fun c => {c.put i rest with repairSpent := c.repairSpent + packet.length}
    pure (some ⟨.video,packet,p.descriptor.frame,p.sendBy,c.owner,c.epoch,.repair⟩)

/-- A full comparison found the last picture unchanged; `false` repeats a known time. -/
def observeUnchanged (frame observedMicros now : ℕ) : Sender Bool := do
  tick now
  let c ← get
  let previous ← okOr c.lastProgress .invalidObservation
  refuseIf (previous.descriptor.frame ≠ frame ∨ now < observedMicros ∨
    observedMicros < previous.observedMicros ∨ observedMicros < previous.descriptor.captureMicros ∨
    previous.observation = .unknown ∨ ¬(previous.pipeline = .running ∨ previous.pipeline = .idle))
    .invalidObservation
  if observedMicros = previous.observedMicros then pure false
  else
    let sendBy ← ofResult
      ((deadline observedMicros c.policy.referenceHorizonMicros).mapError .delivery)
    refuseIf (sendBy ≤ now) .observationExpired
    let progress : Progress := ⟨previous.descriptor,observedMicros,.qualifiedUnchanged,.idle⟩
    modify ({· with lastProgress := some progress, observation := some ⟨progress,sendBy⟩})
    pure true

def authorizeWrite (offer : PacketOffer) (now : ℕ) : Sender Unit := do
  tick now
  let c ← get
  refuseIf (c.owner ≠ offer.owner ∨ c.epoch ≠ offer.epoch) (.delivery .staleGeneration)
  refuseIf (offer.sendBy ≤ now) offer.expiryError

/-- Refill time of the window, if a repair that is otherwise due waits for it. -/
def repairWindowDeadline (c : SendCache) : Option ℕ :=
  match checkedAdd c.repairWindowStart c.policy.repairWindowMicros with
  | none => none
  | some refill =>
    let blocked (p : CachedPicture) : Bool :=
      match p.repair with
      | none => false
      | some job =>
        match p.repairPacketBytes job.fragment with
        | .error _ => false
        | .ok bytes => job.fragment < p.nextOriginal ∧ refill < p.sendBy ∧
          c.policy.repairBytesPerWindow - c.repairSpent < bytes
    if (entries c.pictures).any blocked then some refill else none

def nextDeadline (c : SendCache) : Option ℕ :=
  if c.closed then none
  else if c.needsRecovery then c.recoveryDeadline
  else
    ((entries c.pictures).map (·.sendBy) ++ (c.observation.map (·.sendBy)).toList ++
      c.repairWindowDeadline.toList).min?

/-! Recovery. -/

/-- The slots of the sliding window that still count at `now`. -/
def recentRecoveries (c : SendCache) (now : ℕ) : Slots recoverySlots ℕ := fun i =>
  if i.val < c.policy.maxRecoveriesPerWindow then
    (c.recoveries i).filter (now - · < c.policy.recoveryWindowMicros)
  else c.recoveries i

/-- Charge a failed generation once. -/
def admitRecovery (now : ℕ) : Sender Unit := do
  let c ← get
  if c.recoveryChargedEpoch = some c.epoch then pure ()
  else
    modify fun c => {c with recoveries := c.recentRecoveries now}
    let c ← get
    match (List.finRange recoverySlots).find? fun i =>
      i.val < c.policy.maxRecoveriesPerWindow ∧ (c.recoveries i).isNone with
    | none =>
      modify close
      throw .recoveryLimitExceeded
    | some i =>
      modify fun c =>
        {c with recoveries := store c.recoveries i now, recoveryChargedEpoch := some c.epoch}

def awaitRecoveryRequest (now : ℕ) : Sender Unit := do
  checkClock now
  let c ← get
  refuseIf (c.closed = true) .closed
  checkRecoveryDeadline now
  refuseIf (¬c.needsRecovery) (.delivery .wrongState)
  if c.recoveryRequest.isSome then pure ()
  else
    let t ← okOr c.firstFailureDeadline (.delivery .wrongState)
    admitRecovery now
    modify ({· with recoveryRequest := some ⟨none,none,t⟩})

/-- Fence an expired offer that the transport did not admit. -/
def abandonExpiredOffer (offer : PacketOffer) (now : ℕ) : Sender Unit := do
  checkClock now
  let c ← get
  refuseIf (c.closed = true) .closed
  checkRecoveryDeadline now
  refuseIf (c.owner ≠ offer.owner ∨ c.epoch ≠ offer.epoch) (.delivery .staleGeneration)
  refuseIf (now < offer.sendBy) (.delivery .wrongState)
  if ¬c.needsRecovery then
    failReference now
    awaitRecoveryRequest now
  else awaitRecoveryRequest now

/-- A demand of this cache for one recovery of the current generation. -/
def acceptRecovery (request : RecoveryRequest) (binding : DecoderBinding) (t now : ℕ) :
    Sender RecoveryDisposition := do
  admitRecovery now
  modify fun c =>
    {c.clear with needsRecovery := true, recoveryRequest := some ⟨some request,some binding,t⟩}
  let c ← get
  pure (.accepted ⟨c.owner,c.epoch,request,t⟩)

def requestRecovery (bytes : List Byte) (binding : DecoderBinding) (now : ℕ) :
    Sender RecoveryDisposition := do
  checkClock now
  let c ← get
  refuseIf (c.closed = true) .closed
  checkRecoveryDeadline now
  refuseIf (binding.configuration ≠ c.epoch.configuration ∨ binding.recovery ≠ c.epoch.recovery)
    (.delivery .staleGeneration)
  let request ← ofResult ((decodeRecoveryRequest bytes binding c.limits.protocol .viewerToHost
    .reliable).mapError .wire)
  refuseIf (request.lastUsefulFrame.any (fun frame => c.lastInserted.all (· < frame)) = true)
    .invalidSequence
  refuseIf (c.recoveryRequest.any (fun p => p.binding.any (· ≠ binding)) = true)
    (.delivery .staleGeneration)
  if c.recoveryRequest.any (·.request.isSome) then pure .coalesced
  else
    match c.recoveryDeadline with
    | some t => acceptRecovery request binding t now
    | none =>
      match deadline now c.policy.recoveryHorizonMicros with
      | .ok t => acceptRecovery request binding t now
      | .error e =>
        modify close
        throw (.delivery e)

/-- An empty cache for a new generation; the owner and the allowances stay. -/
def renewed (c : SendCache) (epoch : MediaEpoch) (bindings : MediaBindings) : SendCache :=
  {c.clear with
    epoch := epoch
    bindings := bindings
    lastInserted := none
    needsRecovery := false}

def replace (epoch : MediaEpoch) (bindings : MediaBindings) (now : ℕ) : Sender Unit := do
  checkClock now
  let c ← get
  refuseIf (c.closed = true) .closed
  checkRecoveryDeadline now
  refuseIf (¬epoch.replaces c.epoch ∨ ¬bindings.allNewerThan c.bindings)
    (.delivery .staleGeneration)
  -- An expired original that no tick has discovered is charged all the same.
  if c.needsRecovery ∨ (entries c.pictures).any (fun p => p.sendBy ≤ now ∧ ¬p.originalComplete) then
    admitRecovery now
    modify (renewed · epoch bindings)
  else modify (renewed · epoch bindings)

end SendCache
end FrankenRemote.Delivery
