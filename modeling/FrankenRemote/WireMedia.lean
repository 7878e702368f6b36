import FrankenRemote.WireRecord
import FrankenRemote.Tiling

/-! Media schemas: picture descriptors, datagram fragments, contiguous recovery chunks,
progress announcements and repair requests. -/
namespace FrankenRemote.Wire

open Bytes List

/-- Declaration of one picture; no reference declares an independent picture. -/
structure FrameDescriptor where
  frame : ℕ
  totalBytes : ℕ
  stride : ℕ
  captureMicros : ℕ
  reference : Option ℕ
  deriving DecidableEq, Repr

namespace FrameDescriptor

/-- The fields are within their machine widths. -/
structure Fits (d : FrameDescriptor) : Prop where
  frame : d.frame < 256^8
  totalBytes : d.totalBytes < 256^4
  stride : d.stride < 256^4
  captureMicros : d.captureMicros < 256^8
  reference : ∀ r, d.reference = some r → r < 256^8

def fragmentCount (d : FrameDescriptor) : Except WireError ℕ :=
  if d.stride = 0 ∨ d.totalBytes = 0 then .error .invalidFragment
  else .ok ((d.totalBytes + d.stride - 1) / d.stride)

/-- First byte and end of a fragment. -/
def fragmentRange (d : FrameDescriptor) (index : ℕ) : Except WireError (ℕ × ℕ) := do
  let count ← d.fragmentCount
  if count ≤ index then .error .invalidFragment
  else if 2^32 ≤ index*d.stride then .error .arithmeticOverflow
  else
    let start := index*d.stride
    let length := min d.stride (d.totalBytes - start)
    if 2^32 ≤ start+length then .error .arithmeticOverflow else .ok (start,start+length)

def validate (d : FrameDescriptor) (limits : MediaLimits) : Except WireError Unit :=
  if d.totalBytes = 0 ∨ d.stride = 0 then .error .invalidFragment
  else if limits.protocol.maxEncodedAccessUnitBytes < d.totalBytes ∨
      limits.fragmentStride < d.stride then .error .resourceLimit
  else if d.reference.any (d.frame ≤ ·) then .error .invalidDependency
  else
    match d.fragmentCount with
    | .error e => .error e
    | .ok count => if limits.maxFragments < count then .error .resourceLimit else .ok ()

def encodedLen (d : FrameDescriptor) : ℕ := 25 + if d.reference.isSome then 8 else 0

def encode (d : FrameDescriptor) : List Byte :=
  beBytes 8 d.frame ++ beBytes 4 d.totalBytes ++ beBytes 4 d.stride ++ beBytes 8 d.captureMicros ++
    encodeOptionalU64 d.reference

def read (limits : MediaLimits) : Reader FrameDescriptor := do
  let frame ← Reader.u64
  let totalBytes ← Reader.u32
  let stride ← Reader.u32
  let captureMicros ← Reader.u64
  let reference ← Reader.optionalU64
  checked (validate ⟨frame,totalBytes,stride,captureMicros,reference⟩ limits)
  pure ⟨frame,totalBytes,stride,captureMicros,reference⟩

end FrameDescriptor

/-- One datagram fragment of a picture. -/
structure Fragment where
  descriptor : FrameDescriptor
  index : ℕ
  bytes : List Byte
  deriving DecidableEq, Repr

def Fragment.validate (f : Fragment) (limits : MediaLimits) : Except WireError Unit := do
  f.descriptor.validate limits
  let (start,stop) ← f.descriptor.fragmentRange f.index
  if stop - start ≠ f.bytes.length then .error .invalidFragment else .ok ()

def encodeFragment (f : Fragment) (binding : ℕ) (limits : MediaLimits) (room : ℕ) :
    Except WireError (List Byte) := do
  f.validate limits
  let d := f.descriptor
  let (start,_) ← d.fragmentRange f.index
  let count ← d.fragmentCount
  encodeRecord room limits binding .fragment (d.encodedLen + 16 + f.bytes.length)
    (beBytes 8 d.frame ++ beBytes 4 d.totalBytes ++ beBytes 4 start ++ beBytes 4 f.index ++
      beBytes 4 count ++ beBytes 4 d.stride ++ beBytes 8 d.captureMicros ++
      encodeOptionalU64 d.reference ++ encodeData f.bytes)

/-- The fragment with its redundant offset and count. -/
def fragmentFields : Reader (Fragment × ℕ × ℕ) := do
  let frame ← Reader.u64
  let totalBytes ← Reader.u32
  let offset ← Reader.u32
  let index ← Reader.u32
  let count ← Reader.u32
  let stride ← Reader.u32
  let captureMicros ← Reader.u64
  let reference ← Reader.optionalU64
  let bytes ← Reader.data
  pure (⟨⟨frame,totalBytes,stride,captureMicros,reference⟩,index,bytes⟩,offset,count)

def decodeFragment (record : Record) (limits : MediaLimits) : Except WireError Fragment := do
  let (f,offset,count) ← record.read .fragment fragmentFields
  f.validate limits
  let total ← f.descriptor.fragmentCount
  let (start,_) ← f.descriptor.fragmentRange f.index
  if count ≠ total ∨ offset ≠ start then .error .invalidFragment else .ok f

/-- Reliable recovery is contiguous chunks, not fragment indexing. -/
structure RecoveryChunk where
  frame : ℕ
  totalBytes : ℕ
  offset : ℕ
  captureMicros : ℕ
  bytes : List Byte
  deriving DecidableEq, Repr

def RecoveryChunk.validate (c : RecoveryChunk) (limits : MediaLimits) : Except WireError Unit :=
  if c.totalBytes = 0 ∨ c.bytes = [] then .error .invalidFragment
  else if limits.protocol.maxEncodedAccessUnitBytes < c.totalBytes then .error .resourceLimit
  else if 2^32 ≤ c.bytes.length ∨ 2^32 ≤ c.offset + c.bytes.length then .error .arithmeticOverflow
  else if c.totalBytes < c.offset + c.bytes.length then .error .invalidFragment
  else .ok ()

def encodeRecovery (c : RecoveryChunk) (binding : ℕ) (limits : MediaLimits) (room : ℕ) :
    Except WireError (List Byte) := do
  c.validate limits
  encodeRecord room limits binding .recovery (28 + c.bytes.length)
    (beBytes 8 c.frame ++ beBytes 4 c.totalBytes ++ beBytes 4 c.offset ++
      beBytes 8 c.captureMicros ++ encodeData c.bytes)

def recoveryFields : Reader RecoveryChunk := do
  let frame ← Reader.u64
  let totalBytes ← Reader.u32
  let offset ← Reader.u32
  let captureMicros ← Reader.u64
  let bytes ← Reader.data
  pure ⟨frame,totalBytes,offset,captureMicros,bytes⟩

def decodeRecovery (record : Record) (limits : MediaLimits) : Except WireError RecoveryChunk := do
  let c ← record.read .recovery recoveryFields
  c.validate limits
  pure c

inductive SourceObservation
  | unknown | captured | qualifiedUnchanged
  deriving DecidableEq, Repr

inductive PipelineState
  | opening | running | idle | failed
  deriving DecidableEq, Repr

def SourceObservation.code : SourceObservation → ℕ
  | unknown => 0
  | captured => 1
  | qualifiedUnchanged => 2

def SourceObservation.parse : ℕ → Except WireError SourceObservation
  | 0 => .ok unknown
  | 1 => .ok captured
  | 2 => .ok qualifiedUnchanged
  | _ => .error .invalidValue

def PipelineState.code : PipelineState → ℕ
  | opening => 0
  | running => 1
  | idle => 2
  | failed => 3

def PipelineState.parse : ℕ → Except WireError PipelineState
  | 0 => .ok opening
  | 1 => .ok running
  | 2 => .ok idle
  | 3 => .ok failed
  | _ => .error .invalidValue

/-- Reliable announcement of a picture; it enables detecting loss of a whole picture. -/
structure Progress where
  descriptor : FrameDescriptor
  observedMicros : ℕ
  observation : SourceObservation
  pipeline : PipelineState
  deriving DecidableEq, Repr

def encodeProgress (p : Progress) (binding : ℕ) (limits : MediaLimits) (room : ℕ) :
    Except WireError (List Byte) := do
  p.descriptor.validate limits
  encodeRecord room limits binding .progress (p.descriptor.encodedLen + 10)
    (p.descriptor.encode ++ beBytes 8 p.observedMicros ++ beBytes 1 p.observation.code ++
      beBytes 1 p.pipeline.code)

def progressFields (limits : MediaLimits) : Reader Progress := do
  let descriptor ← FrameDescriptor.read limits
  let observedMicros ← Reader.u64
  let observation ← Reader.u8
  let observation ← checked (SourceObservation.parse observation)
  let pipeline ← Reader.u8
  let pipeline ← checked (PipelineState.parse pipeline)
  pure ⟨descriptor,observedMicros,observation,pipeline⟩

def decodeProgress (record : Record) (limits : MediaLimits) : Except WireError Progress :=
  record.read .progress (progressFields limits)

/-- Fragments from `start` up to, not including, `stop`. -/
structure RepairRange where
  start : ℕ
  stop : ℕ
  deriving DecidableEq, Repr

structure RepairRequest where
  frame : ℕ
  ranges : List RepairRange
  deriving DecidableEq, Repr

/-- Non-empty ranges in increasing order below the fragment count. -/
def validateRanges (fragmentCount : ℕ) : ℕ → List RepairRange → Except WireError Unit
  | _, [] => .ok ()
  | previous, r::rs =>
    if r.start < previous ∨ r.stop ≤ r.start ∨ fragmentCount < r.stop then .error .invalidRanges
    else validateRanges fragmentCount r.stop rs

def encodeRepair (frame : ℕ) (ranges : List RepairRange) (fragmentCount binding : ℕ)
    (limits : MediaLimits) (room : ℕ) : Except WireError (List Byte) :=
  if ranges = [] ∨ limits.maxRepairRanges < ranges.length ∨ fragmentCount = 0 ∨
      limits.maxFragments < fragmentCount then .error .invalidRanges
  else do
    validateRanges fragmentCount 0 ranges
    encodeRecord room limits binding .repair (12 + ranges.length*8)
      (beBytes 8 frame ++ beBytes 4 ranges.length ++
        ranges.flatMap fun r => beBytes 4 r.start ++ beBytes 4 r.stop)

def readRanges : ℕ → Reader (List RepairRange)
  | 0 => pure []
  | n+1 => do
    let start ← Reader.u32
    let stop ← Reader.u32
    let rest ← readRanges n
    pure (⟨start,stop⟩::rest)

def repairFields (limits : MediaLimits) : Reader RepairRequest := do
  let frame ← Reader.u64
  let count ← Reader.u32
  rejectIf (count = 0 ∨ limits.maxRepairRanges < count) .invalidRanges
  let ranges ← readRanges count
  pure ⟨frame,ranges⟩

def decodeRepair (record : Record) (fragmentCount : ℕ) (limits : MediaLimits) :
    Except WireError RepairRequest :=
  if fragmentCount = 0 ∨ limits.maxFragments < fragmentCount then .error .invalidRanges
  else do
    let request ← record.read .repair (repairFields limits)
    validateRanges fragmentCount 0 request.ranges
    pure request

/-! Geometry of a picture's fragments. -/

structure FrameDescriptor.Valid (d : FrameDescriptor) (limits : MediaLimits) : Prop where
  total_pos : 0 < d.totalBytes
  stride_pos : 0 < d.stride
  total_le : d.totalBytes ≤ limits.protocol.maxEncodedAccessUnitBytes
  stride_le : d.stride ≤ limits.fragmentStride
  reference_lt : ∀ r, d.reference = some r → r < d.frame
  count_le : (d.totalBytes + d.stride - 1) / d.stride ≤ limits.maxFragments

variable {l : MediaLimits} {f : Fragment} {rec : Record} {b room : ℕ} {bytes : List Byte}
  {c : RecoveryChunk}

theorem FrameDescriptor.validate_eq_ok {d : FrameDescriptor} :
    d.validate l = .ok () ↔ d.Valid l := by
  constructor
  · intro h
    unfold FrameDescriptor.validate at h
    split at h
    · cases h
    split at h
    · cases h
    split at h
    · cases h
    rename_i h0 h1 h2
    rw [FrameDescriptor.fragmentCount,if_neg (by rw [or_comm]; exact h0)] at h
    simp only at h
    split at h
    · cases h
    rename_i h3
    refine ⟨by omega,by omega,by omega,by omega,fun r hr => ?_,by omega⟩
    simpa [hr] using h2
  · intro h
    have hpos := h.total_pos
    have hs := h.stride_pos
    have ht := h.total_le
    have hle := h.stride_le
    have href : ¬d.reference.any (d.frame ≤ ·) = true := by
      cases hr : d.reference with
      | none => simp
      | some r => simpa using h.reference_lt r hr
    have hc := h.count_le
    unfold FrameDescriptor.validate
    rw [if_neg (by omega),if_neg (by omega),if_neg href,FrameDescriptor.fragmentCount,
      if_neg (by omega)]
    exact if_neg (by omega)

section Geometry

variable {d : FrameDescriptor} {l : MediaLimits} (h : d.Valid l)
include h

theorem fragmentCount_valid : d.fragmentCount = .ok ((d.totalBytes + d.stride - 1) / d.stride) := by
  have := h.total_pos
  have := h.stride_pos
  exact if_neg (by omega)

theorem total_lt_word : d.totalBytes < 2^32 := by
  have ht := h.total_le
  have hunit := l.protocol.unit_le
  omega

variable {i : ℕ}

/-- A fragment starts inside the picture exactly when its index is below the count. -/
theorem start_lt_iff : i < (d.totalBytes + d.stride - 1) / d.stride ↔
    i*d.stride < d.totalBytes := by
  rw [← Finset.mem_range]
  exact Tiling.mem_blocks h.stride_pos

theorem fragmentRange_valid (hi : i*d.stride < d.totalBytes) : d.fragmentRange i =
      .ok (i*d.stride,i*d.stride + Tiling.blockLength d.totalBytes d.stride i) := by
  have hword := total_lt_word h
  have hc := (start_lt_iff h).mpr hi
  rw [FrameDescriptor.fragmentRange,fragmentCount_valid h,Tiling.blockLength]
  change (if _ then _ else _) = _
  rw [if_neg (by omega),if_neg (by omega)]
  exact if_neg (by omega)

theorem fragmentRange_outside (hi : d.totalBytes ≤ i*d.stride) :
    d.fragmentRange i = .error .invalidFragment := by
  have hc : (d.totalBytes + d.stride - 1) / d.stride ≤ i := by
    rw [← not_lt,start_lt_iff h]
    exact not_lt.mpr hi
  rw [FrameDescriptor.fragmentRange,fragmentCount_valid h]
  exact if_pos hc

end Geometry

/-! The bytes of each message. -/

variable {rest bs : List Byte} {n : ℕ}

theorem SourceObservation.parse_eq_ok {o} : parse n = .ok o ↔ n = o.code := by
  constructor
  · unfold parse
    split <;> intro h <;> cases h <;> rfl
  · rintro rfl
    cases o <;> rfl

theorem PipelineState.parse_eq_ok {p} : parse n = .ok p ↔ n = p.code := by
  constructor
  · unfold parse
    split <;> intro h <;> cases h <;> rfl
  · rintro rfl
    cases p <;> rfl

theorem Fragment.validate_eq_ok : f.validate l = .ok () ↔ f.descriptor.Valid l ∧
      f.index*f.descriptor.stride < f.descriptor.totalBytes ∧
      f.bytes.length = Tiling.blockLength f.descriptor.totalBytes f.descriptor.stride f.index := by
  rw [Fragment.validate,bind_eq_ok]
  constructor
  · rintro ⟨_,hv,h⟩
    have hva := FrameDescriptor.validate_eq_ok.mp hv
    rcases lt_or_ge (f.index*f.descriptor.stride) f.descriptor.totalBytes with hi | hi
    · rw [fragmentRange_valid hva hi] at h
      change (if _ then _ else _) = _ at h
      split at h
      · cases h
      · exact ⟨hva,hi,by omega⟩
    · rw [fragmentRange_outside hva hi] at h
      cases h
  · rintro ⟨hva,hi,_⟩
    refine ⟨(),FrameDescriptor.validate_eq_ok.mpr hva,?_⟩
    rw [fragmentRange_valid hva hi]
    exact if_neg (by omega)

theorem RecoveryChunk.validate_eq_ok :
    c.validate l = .ok () ↔ 0 < c.bytes.length ∧
    c.totalBytes ≤ l.protocol.maxEncodedAccessUnitBytes ∧
      c.offset + c.bytes.length ≤ c.totalBytes := by
  have hunit := l.protocol.unit_le
  have he : c.bytes = [] ↔ c.bytes.length = 0 := length_eq_zero_iff.symm
  simp only [RecoveryChunk.validate,he]
  split_ifs <;> simp only [false_iff,true_iff] <;> omega

def Fragment.fields (f : Fragment) : List Byte :=
  beBytes 8 f.descriptor.frame ++ beBytes 4 f.descriptor.totalBytes ++
    beBytes 4 (f.index*f.descriptor.stride) ++ beBytes 4 f.index ++
      beBytes 4 ((f.descriptor.totalBytes + f.descriptor.stride - 1)/f.descriptor.stride) ++
    beBytes 4 f.descriptor.stride ++ beBytes 8 f.descriptor.captureMicros ++
    encodeOptionalU64 f.descriptor.reference ++ encodeData f.bytes

def RecoveryChunk.fields (c : RecoveryChunk) : List Byte :=
  beBytes 8 c.frame ++ beBytes 4 c.totalBytes ++ beBytes 4 c.offset ++ beBytes 8 c.captureMicros ++
    encodeData c.bytes

def Progress.fields (p : Progress) : List Byte :=
  p.descriptor.encode ++ beBytes 8 p.observedMicros ++ beBytes 1 p.observation.code ++
    beBytes 1 p.pipeline.code

def encodeRanges (rs : List RepairRange) : List Byte :=
  rs.flatMap fun r => beBytes 4 r.start ++ beBytes 4 r.stop

def RepairRequest.fields (r : RepairRequest) : List Byte :=
  beBytes 8 r.frame ++ beBytes 4 r.ranges.length ++ encodeRanges r.ranges

/-- How messages of one kind are written and read. -/
structure MediaCodec (α : Type) where
  kind : Kind
  encode : α → (binding room : ℕ) → Except WireError (List Byte)
  decode : Record → Except WireError α
  /-- The widths of the source's types. -/
  sized : α → Prop

/-- A codec by its bytes: `fields` for each message that is `valid`. -/
structure MediaCodec.Lawful {α : Type} (k : MediaCodec α) (limits : MediaLimits)
    (fields : α → List Byte) (valid : α → Prop) : Prop where
  encodes : ∀ {a binding room bytes}, k.encode a binding room = .ok bytes ↔
    valid a ∧ encodeRecord room limits binding k.kind (fields a).length (fields a) = .ok bytes
  decodes : ∀ {record a}, k.decode record = .ok a ↔
    record.kind = k.kind ∧ record.payload = fields a ∧ valid a ∧ k.sized a

def fragmentCodec (limits : MediaLimits) : MediaCodec Fragment where
  kind := .fragment
  encode f binding := encodeFragment f binding limits
  decode record := decodeFragment record limits
  sized f := f.descriptor.Fits

def recoveryCodec (limits : MediaLimits) : MediaCodec RecoveryChunk where
  kind := .recovery
  encode c binding := encodeRecovery c binding limits
  decode record := decodeRecovery record limits
  sized c := c.frame < 256^8 ∧ c.captureMicros < 256^8

def progressCodec (limits : MediaLimits) : MediaCodec Progress where
  kind := .progress
  encode p binding := encodeProgress p binding limits
  decode record := decodeProgress record limits
  sized p := p.descriptor.Fits ∧ p.observedMicros < 256^8

def repairCodec (limits : MediaLimits) (fragmentCount : ℕ) : MediaCodec RepairRequest where
  kind := .repair
  encode r binding := encodeRepair r.frame r.ranges fragmentCount binding limits
  decode record := decodeRepair record fragmentCount limits
  sized r := r.frame < 256^8 ∧ ∀ range ∈ r.ranges, range.start < 256^4 ∧ range.stop < 256^4

theorem length_encodeOptionalU64 (v : Option ℕ) :
    (encodeOptionalU64 v).length = 1 + if v.isSome then 8 else 0 := by
  cases v <;> simp [encodeOptionalU64]

theorem length_encodeDescriptor (d : FrameDescriptor) : d.encode.length = d.encodedLen := by
  simp only [FrameDescriptor.encode,FrameDescriptor.encodedLen,length_append,length_beBytes,
    length_encodeOptionalU64]
  omega

theorem Fragment.length_fields (f : Fragment) :
    f.fields.length = f.descriptor.encodedLen + 16 + f.bytes.length := by
  simp only [Fragment.fields,length_append,length_beBytes,length_encodeOptionalU64,encodeData,
    FrameDescriptor.encodedLen]
  omega

theorem RecoveryChunk.length_fields (c : RecoveryChunk) :
    c.fields.length = 28 + c.bytes.length := by
  simp only [RecoveryChunk.fields,length_append,length_beBytes,encodeData]
  omega

theorem Progress.length_fields (p : Progress) : p.fields.length = p.descriptor.encodedLen + 10 := by
  simp only [Progress.fields,length_append,length_encodeDescriptor,length_beBytes]

theorem length_encodeRanges (rs : List RepairRange) : (encodeRanges rs).length = rs.length*8 := by
  induction rs with
  | nil => rfl
  | cons r rs ih =>
    rw [encodeRanges,flatMap_cons,← encodeRanges]
    simp only [length_append,length_beBytes,length_cons,ih]
    omega

theorem fragmentFields_eq_ok {o co} : parse fragmentFields bs = .ok ((f,o,co),rest) ↔
      f.descriptor.Fits ∧ o < 256^4 ∧ f.index < 256^4 ∧ co < 256^4 ∧ f.bytes.length < 256^4 ∧
      bs = beBytes 8 f.descriptor.frame ++ beBytes 4 f.descriptor.totalBytes ++ beBytes 4 o ++
        beBytes 4 f.index ++ beBytes 4 co ++ beBytes 4 f.descriptor.stride ++
        beBytes 8 f.descriptor.captureMicros ++ encodeOptionalU64 f.descriptor.reference ++
          encodeData f.bytes ++ rest := by
  simp only [fragmentFields,parse_bind_eq_ok,parse_takeNat_eq_ok,parse_optionalU64_eq_ok,
    parse_data_eq_ok,parse_pure_eq_ok]
  constructor
  · rintro ⟨_,_,⟨hfr,rfl⟩,_,_,⟨ht,rfl⟩,_,_,⟨ho,rfl⟩,_,_,⟨hi,rfl⟩,_,_,⟨hc,rfl⟩,_,_,⟨hs,rfl⟩,
      _,_,⟨hcap,rfl⟩,_,_,⟨hr,rfl⟩,_,_,⟨hby,rfl⟩,heq,rfl⟩
    cases heq
    exact ⟨⟨hfr,ht,hs,hcap,hr⟩,ho,hi,hc,hby,by simp⟩
  · rintro ⟨hf,ho,hi,hc,hby,hbs⟩
    exact ⟨_,_,⟨hf.frame,by simp [hbs]⟩,_,_,⟨hf.totalBytes,rfl⟩,_,_,⟨ho,rfl⟩,_,_,⟨hi,rfl⟩,
      _,_,⟨hc,rfl⟩,
      _,_,⟨hf.stride,rfl⟩,_,_,⟨hf.captureMicros,rfl⟩,_,_,⟨hf.reference,rfl⟩,_,_,⟨hby,rfl⟩,rfl,rfl⟩

theorem fragment_lawful (l : MediaLimits) :
    (fragmentCodec l).Lawful l Fragment.fields (·.validate l = .ok ()) where
  encodes {f b room bytes} := by
    change encodeFragment f b l room = .ok bytes ↔ _
    rw [encodeFragment,bind_eq_ok,Fragment.length_fields]
    refine ⟨fun ⟨_,hv,h⟩ => ⟨hv,?_⟩,fun ⟨hv,h⟩ => ⟨(),hv,?_⟩⟩
    · obtain ⟨hva,hi,-⟩ := Fragment.validate_eq_ok.mp hv
      dsimp only at h
      rwa [fragmentRange_valid hva hi,fragmentCount_valid hva] at h
    · obtain ⟨hva,hi,-⟩ := Fragment.validate_eq_ok.mp hv
      dsimp only
      rwa [fragmentRange_valid hva hi,fragmentCount_valid hva]
  decodes {rec f} := by
    change decodeFragment rec l = .ok f ↔ _
    rw [decodeFragment,bind_eq_ok]
    constructor
    · rintro ⟨⟨g,_,_⟩,hread,h⟩
      obtain ⟨_,hv,h⟩ := bind_eq_ok.mp h
      obtain ⟨hva,hi,-⟩ := Fragment.validate_eq_ok.mp hv
      rw [fragmentRange_valid hva hi,fragmentCount_valid hva] at h
      change (if _ then _ else _) = _ at h
      split at h
      · cases h
      rename_i hsm
      cases h
      obtain ⟨rfl,rfl⟩ := not_or.mp hsm |>.imp not_not.mp not_not.mp
      obtain ⟨hkind,hfs⟩ := read_eq_ok.mp hread
      obtain ⟨hf,-,-,-,-,hp⟩ := fragmentFields_eq_ok.mp hfs
      exact ⟨hkind,hp.trans (append_nil _),hv,hf⟩
    · rintro ⟨hkind,hp,hv,hf⟩
      obtain ⟨hva,hi,_⟩ := Fragment.validate_eq_ok.mp hv
      have hs : Tiling.blockLength f.descriptor.totalBytes f.descriptor.stride f.index ≤
          f.descriptor.totalBytes := (min_le_right _ _).trans (Nat.sub_le _ _)
      have hword := total_lt_word hva
      have hct := hva.count_le.trans l.fragments_le
      have hind := ((start_lt_iff hva).mpr hi).trans_le hct
      have hc : maxFragmentsCeiling = 16384 := rfl
      refine ⟨(f,_,_),read_eq_ok.mpr ⟨hkind,fragmentFields_eq_ok.mpr
        ⟨hf,?_,by omega,?_,by omega,hp.trans (append_nil _).symm⟩⟩,bind_eq_ok.mpr ⟨(),hv,?_⟩⟩
      · omega
      · omega
      · rw [fragmentRange_valid hva hi,fragmentCount_valid hva]
        exact if_neg (by simp)

theorem recovery_lawful (l : MediaLimits) :
    (recoveryCodec l).Lawful l RecoveryChunk.fields (·.validate l = .ok ()) where
  encodes {c b room bytes} := by
    change encodeRecovery c b l room = .ok bytes ↔ _
    rw [encodeRecovery,bind_eq_ok,RecoveryChunk.length_fields]
    exact ⟨fun ⟨_,h⟩ => h,fun h => ⟨(),h⟩⟩
  decodes {rec c} := by
    change decodeRecovery rec l = .ok c ↔ _
    simp only [decodeRecovery,bind_eq_ok,read_eq_ok,recoveryFields,parse_bind_eq_ok,
      parse_takeNat_eq_ok,parse_data_eq_ok,parse_pure_eq_ok]
    constructor
    · rintro ⟨_,⟨hkind,_,_,⟨hf,hbs⟩,_,_,⟨-,rfl⟩,_,_,⟨-,rfl⟩,_,_,⟨hcap,rfl⟩,_,_,⟨-,rfl⟩,rfl,rfl⟩,_,
        hv,h⟩
      cases h
      exact ⟨hkind,by simp [hbs,RecoveryChunk.fields],hv,hf,hcap⟩
    · rintro ⟨hkind,hp,hv,hf,hcap⟩
      obtain ⟨_,_,_⟩ := RecoveryChunk.validate_eq_ok.mp hv
      have hc := l.protocol.unit_le
      refine ⟨c,⟨hkind,_,_,⟨hf,?_⟩,_,_,⟨?_,rfl⟩,_,_,⟨?_,rfl⟩,_,_,⟨hcap,rfl⟩,_,_,⟨?_,rfl⟩,rfl,rfl⟩,
        (),hv,rfl⟩
      · simp [hp,RecoveryChunk.fields]
      all_goals omega

theorem parse_descriptor_eq_ok {d} : parse (FrameDescriptor.read l) bs = .ok (d,rest) ↔
      d.Fits ∧ d.validate l = .ok () ∧ bs = d.encode ++ rest := by
  simp only [FrameDescriptor.read,parse_bind_eq_ok,parse_takeNat_eq_ok,parse_optionalU64_eq_ok,
    parse_checked_eq_ok,parse_pure_eq_ok]
  constructor
  · rintro ⟨_,_,⟨hfr,rfl⟩,_,_,⟨ht,rfl⟩,_,_,⟨hs,rfl⟩,_,_,⟨hc,rfl⟩,_,_,⟨hr,rfl⟩,_,_,⟨hv,rfl⟩,rfl,rfl⟩
    exact ⟨⟨hfr,ht,hs,hc,hr⟩,hv,by simp [FrameDescriptor.encode]⟩
  · rintro ⟨hf,hv,hbs⟩
    exact ⟨_,_,⟨hf.frame,by simp [hbs,FrameDescriptor.encode]⟩,_,_,⟨hf.totalBytes,rfl⟩,_,_,
      ⟨hf.stride,rfl⟩,_,_,
      ⟨hf.captureMicros,rfl⟩,_,_,⟨hf.reference,rfl⟩,(),_,⟨hv,rfl⟩,rfl,rfl⟩

theorem progress_lawful (l : MediaLimits) :
    (progressCodec l).Lawful l Progress.fields (·.descriptor.validate l = .ok ()) where
  encodes {p b room bytes} := by
    change encodeProgress p b l room = .ok bytes ↔ _
    rw [encodeProgress,bind_eq_ok,Progress.length_fields]
    exact ⟨fun ⟨_,h⟩ => h,fun h => ⟨(),h⟩⟩
  decodes {rec p} := by
    change decodeProgress rec l = .ok p ↔ _
    simp only [decodeProgress,read_eq_ok,progressFields,parse_bind_eq_ok,parse_descriptor_eq_ok,
      parse_takeNat_eq_ok,
      parse_checked_eq_ok,SourceObservation.parse_eq_ok,PipelineState.parse_eq_ok,parse_pure_eq_ok]
    constructor
    · rintro ⟨hkind,_,_,⟨hf,hv,hbs⟩,_,_,⟨hobs,rfl⟩,_,_,⟨-,rfl⟩,_,_,⟨rfl,rfl⟩,_,_,⟨-,rfl⟩,_,_,
        ⟨rfl,rfl⟩,rfl,rfl⟩
      exact ⟨hkind,by simp [hbs,Progress.fields],hv,hf,hobs⟩
    · rintro ⟨hkind,hpay,hv,hf,hobs⟩
      have ho : p.observation.code < 256^1 := by cases p.observation <;> decide
      have hp : p.pipeline.code < 256^1 := by cases p.pipeline <;> decide
      refine ⟨hkind,_,_,⟨hf,hv,?_⟩,_,_,⟨hobs,rfl⟩,_,_,⟨ho,rfl⟩,_,_,⟨rfl,rfl⟩,_,_,⟨hp,rfl⟩,_,
        _,⟨rfl,rfl⟩,
        rfl,rfl⟩
      simp [hpay,Progress.fields]

theorem readRanges_eq_ok {rs} : parse (readRanges n) bs = .ok (rs,rest) ↔
      rs.length = n ∧ (∀ r ∈ rs, r.start < 256^4 ∧ r.stop < 256^4) ∧
      bs = encodeRanges rs ++ rest := by
  induction n generalizing bs rest rs with
  | zero =>
    rw [readRanges,parse_pure_eq_ok]
    constructor
    · rintro ⟨rfl,rfl⟩
      simp [encodeRanges]
    · rintro ⟨hlen,-,rfl⟩
      cases length_eq_zero_iff.mp hlen
      exact ⟨rfl,rfl⟩
  | succ n ih =>
    simp only [readRanges,parse_bind_eq_ok,parse_takeNat_eq_ok,parse_pure_eq_ok,ih]
    constructor
    · rintro ⟨_,_,⟨hs,rfl⟩,_,_,⟨hstop,rfl⟩,rs,_,⟨hlen,hr,rfl⟩,rfl,rfl⟩
      exact ⟨by simp [hlen],by simpa using ⟨⟨hs,hstop⟩,hr⟩,by simp [encodeRanges]⟩
    · rintro ⟨hlen,hr,rfl⟩
      cases rs with
      | nil => cases hlen
      | cons r rs =>
        obtain ⟨⟨hs,hstop⟩,hr⟩ := forall_mem_cons.mp hr
        exact ⟨_,_,⟨hs,by simp [encodeRanges]⟩,_,_,⟨hstop,rfl⟩,rs,_,
          ⟨by simpa using hlen,hr,rfl⟩,rfl,rfl⟩

/-- A request that may be sent for a picture of so many fragments. -/
def RepairRequest.Valid (limits : MediaLimits) (fragmentCount : ℕ) (r : RepairRequest) : Prop :=
  r.ranges ≠ [] ∧ r.ranges.length ≤ limits.maxRepairRanges ∧ fragmentCount ≠ 0 ∧
    fragmentCount ≤ limits.maxFragments ∧ validateRanges fragmentCount 0 r.ranges = .ok ()

theorem repair_lawful (l : MediaLimits) (fragmentCount : ℕ) :
    (repairCodec l fragmentCount).Lawful l RepairRequest.fields
      (RepairRequest.Valid l fragmentCount) where
  encodes {r b room bytes} := by
    change encodeRepair r.frame r.ranges fragmentCount b l room = .ok bytes ↔ _
    have hl : r.fields.length = 12 + r.ranges.length*8 := by
      simp only [RepairRequest.fields,length_append,length_beBytes,length_encodeRanges]
    rw [encodeRepair,hl,RepairRequest.Valid]
    split
    · rename_i hbad
      refine ⟨nofun,fun ⟨⟨hne,hlen,hct,hm,_⟩,_⟩ => ?_⟩
      rcases hbad with h | h | h | h
      · exact absurd h hne
      all_goals omega
    · rename_i hgood
      simp only [not_or,not_lt] at hgood
      rw [bind_eq_ok]
      exact ⟨fun ⟨_,hv,h⟩ => ⟨⟨hgood.1,hgood.2.1,hgood.2.2.1,hgood.2.2.2,hv⟩,h⟩,
        fun ⟨hv,h⟩ => ⟨(),hv.2.2.2.2,h⟩⟩
  decodes {rec r} := by
    change decodeRepair rec fragmentCount l = .ok r ↔ _
    rw [decodeRepair]
    split
    · rename_i hbad
      refine ⟨nofun,fun ⟨_,_,⟨_,_,hct,hm,_⟩,_⟩ => ?_⟩
      rcases hbad with h | h <;> omega
    · rename_i hgood
      simp only [not_or,not_lt] at hgood
      simp only [bind_eq_ok,read_eq_ok,repairFields,parse_bind_eq_ok,parse_takeNat_eq_ok,
        parse_rejectIf_eq_ok,readRanges_eq_ok,parse_pure_eq_ok]
      constructor
      · rintro ⟨_,⟨hkind,_,_,⟨hf,hbs⟩,_,_,⟨-,rfl⟩,_,_,⟨hsome,rfl⟩,_,_,⟨rfl,hr,rfl⟩,rfl,rfl⟩,_,hv,h⟩
        cases h
        simp only [not_or,not_lt] at hsome
        refine ⟨hkind,by simp [hbs,RepairRequest.fields],⟨?_,hsome.2,hgood.1,hgood.2,hv⟩,hf,hr⟩
        exact fun h => hsome.1 (length_eq_zero_iff.mpr h)
      · rintro ⟨hkind,hp,⟨hne,hlen,-,-,hv⟩,hf,hr⟩
        have hc := l.ranges_le
        have hm : maxRepairRangesCeiling = 64 := rfl
        refine ⟨r,⟨hkind,_,_,⟨hf,?_⟩,_,_,⟨by omega,rfl⟩,(),_,⟨?_,rfl⟩,_,_,⟨rfl,hr,rfl⟩,rfl,rfl⟩,(),
          hv,rfl⟩
        · simp [hp,RepairRequest.fields]
        · simpa [hlen] using hne

/-! What an endpoint writes, its peer reads back, and nothing else. -/

/-- What holds of a codec on its channel. -/
structure MediaCodec.Exact {α : Type} (k : MediaCodec α) (limits : MediaLimits)
    (channel : Channel) : Prop where
  decoded : ∀ a binding room bytes, k.sized a → binding < 2^32 →
    k.encode a binding room = .ok bytes →
    ∃ record, Record.decode bytes limits binding channel = .ok record ∧ k.decode record = .ok a
  encoded : ∀ a binding room bytes record, Record.decode bytes limits binding channel = .ok record →
    k.decode record = .ok a → declaredExtension bytes = 0 → bytes.length ≤ room →
      k.encode a binding room = .ok bytes
  /-- Every byte is of the header, of the message or of an extension. -/
  whole : ∀ a binding bytes record, Record.decode bytes limits binding channel = .ok record →
    k.decode record = .ok a → ∃ es, Ascending es ∧
      bytes = withExtensions k.kind binding record.payload es ∧
      k.encode a binding limits.recordBytes = .ok (withExtensions k.kind binding record.payload [])
  extended : ∀ a binding bytes record, Record.decode bytes limits binding channel = .ok record →
    k.decode record = .ok a → ∀ es, Ascending es → es.length ≤ 128 →
      (withExtensions k.kind binding record.payload es).length ≤ limits.recordBytes →
      Record.decode (withExtensions k.kind binding record.payload es) limits binding channel =
        .ok record

theorem MediaCodec.Lawful.exact {α : Type} {k : MediaCodec α} {fields valid ch}
    (h : k.Lawful l fields valid) (hchan : k.kind.channel = some ch) : k.Exact l ch where
  decoded a b room bytes hs hb he := by
    obtain ⟨hv,hr⟩ := h.encodes.mp he
    exact ⟨_,decode_encodeRecord hb hchan hr,h.decodes.mpr ⟨rfl,rfl,hv,hs⟩⟩
  encoded a b room bytes rec hr hd hn hroom := by
    obtain ⟨hkind,hp,hv,-⟩ := h.decodes.mp hd
    refine h.encodes.mpr ⟨hv,?_⟩
    rw [← hkind,← hp]
    exact encodeBounded_decodeBounded hr hn hroom
  whole a b bytes rec hr hd := by
    obtain ⟨hkind,hp,hv,-⟩ := h.decodes.mp hd
    obtain ⟨-,-,hi,-,hm,es,ha,-,_,rfl⟩ := decodeBounded_eq_ok.mp hr
    rw [length_withExtensions] at hm
    rw [hkind] at hi ⊢
    refine ⟨es,ha,rfl,h.encodes.mpr ⟨hv,?_⟩⟩
    rw [← hp]
    exact encodeBounded_eq_ok.mpr ⟨hi,by omega,by omega,by omega,rfl,(append_nil _).symm⟩
  extended a b bytes rec hr hd es ha hlen hle := by
    obtain ⟨hkind,-⟩ := h.decodes.mp hd
    obtain ⟨hbi,hb,hi,hc,-⟩ := decodeBounded_eq_ok.mp hr
    rw [← hkind] at hle ⊢
    refine decodeBounded_eq_ok.mpr ⟨hbi,hb,hi,hc,hle,es,ha,hlen,?_,rfl⟩
    rw [length_withExtensions] at hle
    have hr := l.recordBytes_le
    omega

theorem decodeFragment_valid (h : decodeFragment rec l = .ok f) : f.validate l = .ok () :=
  ((fragment_lawful l).decodes.mp h).2.2.1

variable {p : Progress}

theorem decodeProgress_valid (h : decodeProgress rec l = .ok p) : p.descriptor.Valid l :=
  FrameDescriptor.validate_eq_ok.mp ((progress_lawful l).decodes.mp h).2.2.1

/-- An encoded fragment arrives on the video channel as itself. -/
theorem decodeFragment_encodeFragment (hf : f.descriptor.Fits) (hb : b < 256^4)
    (h : encodeFragment f b l room = .ok bytes) :
    ∃ rec, Record.decode bytes l b .video = .ok rec ∧ decodeFragment rec l = .ok f :=
  ((fragment_lawful l).exact rfl).decoded f b room bytes hf hb h

/-- An encoded chunk arrives on the recovery channel as itself. -/
theorem decodeRecovery_encodeRecovery (hf : c.frame < 256^8) (hc : c.captureMicros < 256^8)
    (hb : b < 256^4) (h : encodeRecovery c b l room = .ok bytes) :
    ∃ rec, Record.decode bytes l b .recovery = .ok rec ∧ decodeRecovery rec l = .ok c :=
  ((recovery_lawful l).exact rfl).decoded c b room bytes ⟨hf,hc⟩ hb h

/-- An encoded announcement arrives on the configuration channel as itself. -/
theorem decodeProgress_encodeProgress (hf : p.descriptor.Fits) (ho : p.observedMicros < 256^8)
    (hb : b < 256^4) (h : encodeProgress p b l room = .ok bytes) :
    ∃ rec, Record.decode bytes l b .mediaConfig = .ok rec ∧ decodeProgress rec l = .ok p :=
  ((progress_lawful l).exact rfl).decoded p b room bytes ⟨hf,ho⟩ hb h

theorem media_codecs_exact (l : MediaLimits) (fragmentCount : ℕ) :
    (fragmentCodec l).Exact l .video ∧ (recoveryCodec l).Exact l .recovery ∧
    (progressCodec l).Exact l .mediaConfig ∧ (repairCodec l fragmentCount).Exact l .control :=
  ⟨(fragment_lawful l).exact rfl,(recovery_lawful l).exact rfl,(progress_lawful l).exact rfl,
    (repair_lawful l fragmentCount).exact rfl⟩

/-- A block of so many empty extensions. -/
def sampleBlock (n : ℕ) (h : n ≤ 256^2) : List Extension :=
  List.ofFn fun i : Fin n => ⟨i,[],i.isLt.trans_le h,by decide⟩

def sampleMediaLimits : MediaLimits :=
  ⟨sampleProtocolLimits,2048,64,8,by decide,by decide,by decide,by decide,by decide,by decide⟩

/-- A record within the limit that has one extension too many. -/
theorem long_extension_block_refused : ∃ (c : RecoveryChunk) (rec : Record),
      Record.decode (withExtensions .recovery 5 c.fields []) sampleMediaLimits 5 .recovery =
        .ok rec ∧
      decodeRecovery rec sampleMediaLimits = .ok c ∧ Ascending (sampleBlock 129 (by decide)) ∧
      (withExtensions .recovery 5 c.fields (sampleBlock 129 (by decide))).length ≤
        sampleMediaLimits.recordBytes ∧
      Record.decode (withExtensions .recovery 5 c.fields (sampleBlock 129 (by decide)))
        sampleMediaLimits 5 .recovery = .error .resourceLimit := by
  refine ⟨⟨0,1,0,0,[7]⟩,⟨.recovery,5,RecoveryChunk.fields ⟨0,1,0,0,[7]⟩⟩,
    rfl,by decide +kernel,?_,by decide +kernel,?_⟩
  · exact pairwise_ofFn.mpr fun i j h => h
  · decide +kernel

/-! Sizes. -/

theorem length_encodeRecord {p kind fields} (h : encodeRecord room l b kind p fields = .ok bytes) :
    bytes.length = headerBytes+p := by
  obtain ⟨_,_,_,_,hlen,rfl⟩ := encodeBounded_eq_ok.mp h
  rw [length_append,length_encodeHeader,hlen]

/-- A record that the limits and the room admit is written. -/
theorem encodeRecord_ok {kind} {fields : List Byte} (hb : b ≠ 0)
    (hl : headerBytes+fields.length ≤ l.recordBytes) (hroom : l.recordBytes ≤ room) :
    ∃ bytes, encodeRecord room l b kind fields.length fields = .ok bytes := by
  have hr := l.recordBytes_le
  exact ⟨_,encodeBounded_eq_ok.mpr ⟨fun h => hb h.1,hl,hl.trans hroom,by omega,rfl,rfl⟩⟩

theorem encodedLen_le (d : FrameDescriptor) : d.encodedLen ≤ 33 := by
  unfold FrameDescriptor.encodedLen
  split <;> omega

section Encodable

variable {l : MediaLimits} {b room : ℕ} (hb : b ≠ 0)
  (hroom : l.recordBytes ≤ room)
include hb hroom

theorem MediaCodec.Lawful.encodable {α : Type} {k : MediaCodec α} {fields valid a}
    (h : k.Lawful l fields valid) (ha : valid a) (hl : 24 + (fields a).length ≤ l.recordBytes) :
    ∃ bytes, k.encode a b room = .ok bytes := by
  obtain ⟨bytes,hby⟩ := encodeRecord_ok hb hl hroom
  exact ⟨bytes,h.encodes.mpr ⟨ha,hby⟩⟩

theorem encodeProgress_ok (hv : p.descriptor.Valid l) :
    ∃ bytes, encodeProgress p b l room = .ok bytes := by
  have hlen := encodedLen_le p.descriptor
  have hr : 73 < l.recordBytes := l.record_gt
  refine (progress_lawful l).encodable hb hroom (FrameDescriptor.validate_eq_ok.mpr hv) ?_
  rw [Progress.length_fields]
  omega

theorem encodeFragment_ok {f : Fragment} (hv : f.validate l = .ok ()) :
    ∃ bytes, encodeFragment f b l room = .ok bytes := by
  obtain ⟨hva,_,hlen⟩ := Fragment.validate_eq_ok.mp hv
  have hs : f.bytes.length ≤ l.recordBytes - 73 := by
    rw [hlen]
    exact (min_le_left _ _).trans hva.stride_le
  have hd := encodedLen_le f.descriptor
  have hr : 73 < l.recordBytes := l.record_gt
  refine (fragment_lawful l).encodable hb hroom hv ?_
  rw [Fragment.length_fields]
  omega

theorem encodeRecovery_ok {c : RecoveryChunk} (hv : c.validate l = .ok ())
    (hlen : c.bytes.length ≤ l.recordBytes - recoveryOverhead) :
    ∃ bytes, encodeRecovery c b l room = .ok bytes := by
  have hrec : 73 < l.recordBytes := l.record_gt
  have hr : recoveryOverhead = 52 := rfl
  refine (recovery_lawful l).encodable hb hroom hv ?_
  rw [RecoveryChunk.length_fields]
  omega

end Encodable

end FrankenRemote.Wire
