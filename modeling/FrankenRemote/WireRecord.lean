import FrankenRemote.Limits
import FrankenRemote.Procedure

/-! Allocation-free record framing: one header, one payload, skippable extensions. -/
namespace FrankenRemote.Wire

open Bytes List

inductive Kind
  | clientHello | hostCapabilities | selectedConfiguration | refused | approvalRequired
  | sessionOpened | controlRequest | leaseGranted | leaseRevoked | challenge | challengeResponse
  | inputTicket | channelTicket | channelAttach | channelAttached | streamBinding
  | bindingAccepted | closeRequest | closed | displayCatalog | selectDisplay
  | decoderConfiguration | decoderConfigured | recovery | firstFrameDecoded | fragment | repair
  | recoveryRequest | progress | cursorShape | cursorPosition | key | button | pointer | relative
  | scroll | text | heldState | inputMode | inputResult | clipboardBegin | clipboardChunk
  | clipboardCommit | clipboardCancel | clipboardReady | audioConfiguration | audioConfigured
  | audioPacket | audioStop | fileOffer | fileAccept | fileChunk | fileComplete | fileCancel
  | presentedState | stageMetrics | qualityDecision | clockProbe | clockReply
  deriving DecidableEq, Repr

namespace Kind

def code : Kind → ℕ
  | clientHello => 0x0001
  | hostCapabilities => 0x0002
  | selectedConfiguration => 0x0003
  | refused => 0x0004
  | approvalRequired => 0x0010
  | sessionOpened => 0x0011
  | controlRequest => 0x0012
  | leaseGranted => 0x0013
  | leaseRevoked => 0x0014
  | challenge => 0x0015
  | challengeResponse => 0x0016
  | inputTicket => 0x0017
  | channelTicket => 0x0018
  | channelAttach => 0x0019
  | channelAttached => 0x001a
  | streamBinding => 0x001b
  | bindingAccepted => 0x001c
  | closeRequest => 0x001d
  | closed => 0x001e
  | displayCatalog => 0x0020
  | selectDisplay => 0x0022
  | decoderConfiguration => 0x0030
  | decoderConfigured => 0x0031
  | recovery => 0x0032
  | firstFrameDecoded => 0x0033
  | fragment => 0x0034
  | repair => 0x0035
  | recoveryRequest => 0x0036
  | progress => 0x0037
  | cursorShape => 0x0038
  | cursorPosition => 0x0039
  | key => 0x0040
  | button => 0x0041
  | pointer => 0x0042
  | relative => 0x0043
  | scroll => 0x0044
  | text => 0x0045
  | heldState => 0x0046
  | inputMode => 0x0047
  | inputResult => 0x0048
  | clipboardBegin => 0x0050
  | clipboardChunk => 0x0051
  | clipboardCommit => 0x0052
  | clipboardCancel => 0x0053
  | clipboardReady => 0x0054
  | audioConfiguration => 0x0060
  | audioConfigured => 0x0061
  | audioPacket => 0x0062
  | audioStop => 0x0063
  | fileOffer => 0x0070
  | fileAccept => 0x0071
  | fileChunk => 0x0072
  | fileComplete => 0x0073
  | fileCancel => 0x0074
  | presentedState => 0x0080
  | stageMetrics => 0x0082
  | qualityDecision => 0x0083
  | clockProbe => 0x0084
  | clockReply => 0x0085

/-- Every implemented kind, in code order. -/
def all : List Kind :=
  [clientHello,hostCapabilities,selectedConfiguration,refused,approvalRequired,sessionOpened,
    controlRequest,leaseGranted,leaseRevoked,challenge,challengeResponse,inputTicket,channelTicket,
    channelAttach,channelAttached,streamBinding,bindingAccepted,closeRequest,closed,displayCatalog,
    selectDisplay,decoderConfiguration,decoderConfigured,recovery,firstFrameDecoded,fragment,repair,
    recoveryRequest,progress,cursorShape,cursorPosition,key,button,pointer,relative,scroll,text,
    heldState,inputMode,inputResult,clipboardBegin,clipboardChunk,clipboardCommit,clipboardCancel,
    clipboardReady,audioConfiguration,audioConfigured,audioPacket,audioStop,fileOffer,fileAccept,
    fileChunk,fileComplete,fileCancel,presentedState,stageMetrics,qualityDecision,clockProbe,
    clockReply]

/-- The kind with this code: the inverse of `code` on the implemented kinds. -/
def parse (value : ℕ) : Except WireError Kind :=
  match all.find? (·.code = value) with
  | some kind => .ok kind
  | none => .error .unsupportedKind

theorem parse_code (k : Kind) : parse k.code = .ok k := by
  cases k <;> rfl

theorem code_lt (k : Kind) : k.code < 256^2 := by
  cases k <;> decide

/-- Kinds of an unbound startup stream. -/
def initial : Kind → Bool
  | clientHello | hostCapabilities | selectedConfiguration | refused | approvalRequired
  | sessionOpened => true
  | _ => false

end Kind

inductive Channel
  | video | recovery | control | mediaConfig
  deriving DecidableEq, Repr

def Kind.channel : Kind → Option Channel
  | .recovery => some .recovery
  | .fragment | .cursorPosition => some .video
  | .repair => some .control
  | .progress | .decoderConfiguration | .decoderConfigured | .firstFrameDecoded
  | .cursorShape => some .mediaConfig
  | _ => none

structure Record where
  kind : Kind
  binding : ℕ
  payload : List Byte
  deriving DecidableEq, Repr

abbrev Reader := Parser WireError

namespace Reader

abbrev take (n : ℕ) : Reader (List Byte) := takeBytes .truncated n

abbrev u8 : Reader ℕ := takeNat .truncated 1
abbrev u16 : Reader ℕ := takeNat .truncated 2
abbrev u32 : Reader ℕ := takeNat .truncated 4
abbrev u64 : Reader ℕ := takeNat .truncated 8

def optionalU64 : Reader (Option ℕ) := do
  match ← u8 with
  | 0 => pure none
  | 1 => do
    let v ← u64
    pure (some v)
  | _ => throw .invalidValue

/-- A length-prefixed byte string. -/
def data : Reader (List Byte) := do
  let len ← u32
  take len

abbrev finish : Reader Unit := atEnd .trailingBytes

end Reader

/-- One skipped extension; tags strictly increase and nothing may require support. -/
def extension (previous : Option ℕ) : Reader ℕ := do
  let tag ← Reader.u16
  let flags ← Reader.u16
  let len ← Reader.u32
  rejectIf (previous.any (tag ≤ ·) ∨ 1 < flags) .invalidExtension
  let _ ← Reader.take len
  rejectIf (flags % 2 ≠ 0) .requiredExtension
  pure tag

/-- Up to `n` more extensions. -/
def validateExtensions : ℕ → Option ℕ → List Byte → Except WireError Unit
  | _, _, [] => .ok ()
  | 0, _, _::_ => .error .resourceLimit
  | n+1, previous, b::bs =>
    match parse (extension previous) (b::bs) with
    | .error e => .error e
    | .ok (tag,rest) => validateExtensions n (some tag) rest

/-- The fixed header: kind, payload length, binding and extension length. -/
def recordHeader : Reader (Kind × ℕ × ℕ × ℕ) := do
  let found ← Reader.take 4
  rejectIf (found ≠ magic) .badMagic
  let version ← Reader.u16
  rejectIf (version ≠ 0) .unsupportedVersion
  let code ← Reader.u16
  let kind ← checked (Kind.parse code)
  let flags ← Reader.u16
  rejectIf (flags ≠ 0) .invalidFlags
  let reserved ← Reader.u16
  rejectIf (reserved ≠ 0) .invalidFlags
  let payloadLen ← Reader.u32
  let binding ← Reader.u32
  let extLen ← Reader.u32
  pure (kind,payloadLen,binding,extLen)

/-- Exactly one record for an admitted binding and channel. -/
def recordBody (binding : ℕ) (channel : Option Channel) : Reader Record := do
  let (kind,payloadLen,received,extLen) ← recordHeader
  rejectIf ((binding = 0 ∧ ¬kind.initial) ∨ received ≠ binding) .invalidBinding
  rejectIf (kind.channel ≠ channel) .wrongChannel
  rejectIf (payloadLen < extLen) .invalidExtension
  let payload ← Reader.take payloadLen
  Reader.finish
  checked (validateExtensions 128 none (payload.drop (payloadLen - extLen)))
  pure ⟨kind,binding,payload.take (payloadLen - extLen)⟩

namespace Record

def decodeBounded (bytes : List Byte) (maximum binding : ℕ) (channel : Option Channel) :
    Except WireError Record :=
  if maximum < bytes.length then .error .resourceLimit
  else (parse (recordBody binding channel) bytes).map Prod.fst

def decode (bytes : List Byte) (limits : MediaLimits) (binding : ℕ) (channel : Channel) :
    Except WireError Record := decodeBounded bytes limits.recordBytes binding (some channel)

/-- Run a field parser over the whole payload of a record of the expected kind. -/
def read {α : Type} (record : Record) (expected : Kind) (fields : Reader α) : Except WireError α :=
  if record.kind ≠ expected then .error .unsupportedKind
  else (parse (do let a ← fields; Reader.finish; pure a) record.payload).map Prod.fst

end Record

/-! Writing. A record is written into `room` bytes of caller storage; its fields must
fill the declared payload exactly. -/

/-- Header of a record without extensions. -/
def encodeHeader (kind : Kind) (binding payload : ℕ) : List Byte :=
  magic ++ beBytes 2 0 ++ beBytes 2 kind.code ++ beBytes 2 0 ++ beBytes 2 0 ++ beBytes 4 payload ++
    beBytes 4 binding ++ beBytes 4 0

/-- `Writer::record_bounded` and the field writes after it: the checks on the declared
payload, then the bytes, which must fill it. -/
def encodeBounded (room maximum binding : ℕ) (kind : Kind) (payload : ℕ) (fields : List Byte) :
    Except WireError (List Byte) :=
  if binding = 0 ∧ ¬kind.initial then .error .invalidBinding
  else if maximum < headerBytes+payload then .error .resourceLimit
  else if room < headerBytes+payload then .error .bufferTooSmall
  else if 256^4 ≤ payload then .error .arithmeticOverflow
  else if payload < fields.length then .error .bufferTooSmall
  else if fields.length ≠ payload then .error .invalidValue
  else .ok (encodeHeader kind binding payload ++ fields)

/-- `Writer::record`. -/
def encodeRecord (room : ℕ) (limits : MediaLimits) (binding : ℕ) (kind : Kind) (payload : ℕ)
    (fields : List Byte) : Except WireError (List Byte) :=
  encodeBounded room limits.recordBytes binding kind payload fields

def encodeOptionalU64 : Option ℕ → List Byte
  | none => beBytes 1 0
  | some v => beBytes 1 1 ++ beBytes 8 v

def encodeData (bytes : List Byte) : List Byte := beBytes 4 bytes.length ++ bytes

/-! What was written is read back. -/

theorem length_encodeHeader (kind : Kind) (b p : ℕ) :
    (encodeHeader kind b p).length = headerBytes := by
  simp [encodeHeader,magic,headerBytes]

variable {α : Type} {bytes fields rest : List Byte} {kind : Kind} {b p room m : ℕ}

variable {bs : List Byte} {r : Record}

theorem parse_optionalU64_eq_ok {v} : parse Reader.optionalU64 bs = .ok (v,rest) ↔
      (∀ x, v = some x → x < 256^8) ∧ bs = encodeOptionalU64 v ++ rest := by
  rw [Reader.optionalU64,parse_bind_eq_ok]
  constructor
  · rintro ⟨_,_,hflag,h⟩
    obtain ⟨-,rfl⟩ := parse_takeNat_eq_ok.mp hflag
    split at h
    · obtain ⟨rfl,rfl⟩ := parse_pure_eq_ok.mp h
      exact ⟨nofun,rfl⟩
    · obtain ⟨x,_,hx,hv⟩ := parse_bind_eq_ok.mp h
      obtain ⟨hlt,rfl⟩ := parse_takeNat_eq_ok.mp hx
      obtain ⟨rfl,rfl⟩ := parse_pure_eq_ok.mp hv
      exact ⟨fun y hy => Option.some.inj hy ▸ hlt,(append_assoc ..).symm⟩
    · cases h
  · rintro ⟨hlt,rfl⟩
    cases v with
    | none => exact ⟨0,rest,parse_takeNat_eq_ok.mpr ⟨by decide,rfl⟩,rfl⟩
    | some x =>
      refine ⟨1,_,parse_takeNat_eq_ok.mpr ⟨by decide,append_assoc ..⟩,parse_bind_eq_ok.mpr
        ⟨x,rest,?_,rfl⟩⟩
      exact parse_takeNat_eq_ok.mpr ⟨hlt x rfl,rfl⟩

theorem parse_data_bind (h : bytes.length < 256^4) (f : List Byte → Reader α) (rest : List Byte) :
    parse (Reader.data >>= f) (encodeData bytes ++ rest) = parse (f bytes) rest := by
  apply parse_bind_ok
  rw [encodeData,append_assoc,Reader.data,parse_takeNat_bind h]
  exact parse_takeBytes_append rfl

/-- A record is written if it fits, and then all of it. -/
theorem encodeBounded_eq_ok : encodeBounded room m b kind p fields = .ok bytes ↔
      ¬(b = 0 ∧ ¬kind.initial) ∧ headerBytes+p ≤ m ∧ headerBytes+p ≤ room ∧
        p < 256^4 ∧ fields.length = p ∧ encodeHeader kind b p ++ fields = bytes := by
  unfold encodeBounded
  split_ifs with hbind hm hr hsi hs hlong
  · simp [hbind]
  · simp only [false_iff]
    omega
  · simp only [false_iff]
    omega
  · simp only [false_iff]
    omega
  · simp only [false_iff]
    omega
  · simp [hlong]
  · rw [Except.ok.injEq]
    refine ⟨fun h => ⟨hbind,by omega,by omega,by omega,by omega,h⟩,fun h => h.2.2.2.2.2⟩

/-- The room decides whether a record is written, not what is written. -/
theorem encodeBounded_room {room' bytes'} (h : encodeBounded room m b kind p fields = .ok bytes)
    (h' : encodeBounded room' m b kind p fields = .ok bytes') : bytes = bytes' := by
  obtain ⟨_,_,_,_,_,rfl⟩ := encodeBounded_eq_ok.mp h
  exact (encodeBounded_eq_ok.mp h').2.2.2.2.2

theorem read_payload {p : List Byte} {fields : Reader α} {a : α} (h : parse fields p = .ok (a,[])) :
    (⟨kind,b,p⟩ : Record).read kind fields = .ok a := by
  rw [Record.read,if_neg (not_not.mpr rfl),parse_bind_ok h,parse_atEnd_bind,parse_pure]
  rfl

/-- Fields are read from the whole payload of a record of their kind. -/
theorem read_eq_ok {fields : Reader α} {a : α} :
    r.read kind fields = .ok a ↔ r.kind = kind ∧ parse fields r.payload = .ok (a,[]) := by
  constructor
  · intro h
    have hkind : r.kind = kind := by
      by_contra hne
      rw [Record.read,if_pos hne] at h
      cases h
    rw [Record.read,if_neg (not_not.mpr hkind)] at h
    rcases hp : parse (do let a ← fields; Reader.finish; pure a) r.payload with e | ⟨b,rest⟩
    · rw [hp] at h
      cases h
    rw [hp] at h
    cases h
    simp only [parse_bind_eq_ok,parse_atEnd_eq_ok,parse_pure_eq_ok] at hp
    obtain ⟨c,_,hf,_,_,⟨rfl,rfl⟩,rfl,rfl⟩ := hp
    exact ⟨hkind,hf⟩
  · rintro ⟨rfl,hf⟩
    exact read_payload hf

/-! What a record is made of. -/

theorem parse_data_eq_ok {data} :
    parse Reader.data bs = .ok (data,rest) ↔ data.length < 256^4 ∧
    bs = encodeData data ++ rest := by
  simp only [Reader.data,parse_bind_eq_ok,parse_takeNat_eq_ok,parse_takeBytes_eq_ok,encodeData]
  constructor
  · rintro ⟨_,_,⟨hlt,rfl⟩,rfl,rfl⟩
    exact ⟨hlt,(append_assoc ..).symm⟩
  · rintro ⟨hlt,rfl⟩
    exact ⟨_,_,⟨hlt,append_assoc ..⟩,rfl,rfl⟩

/-- An extension that a reader skips. -/
structure Extension where
  tag : ℕ
  body : List Byte
  tag_lt : tag < 256^2
  body_lt : body.length < 256^4

def Extension.encode (e : Extension) : List Byte :=
  beBytes 2 e.tag ++ beBytes 2 0 ++ encodeData e.body

def encodeExtensions (es : List Extension) : List Byte := es.flatMap Extension.encode

/-- The tags of a block strictly increase. -/
def Ascending (es : List Extension) : Prop := es.Pairwise (·.tag < ·.tag)

theorem parse_extension_eq_ok {pr tag} : parse (extension pr) bs = .ok (tag,rest) ↔
      ∃ e : Extension, e.tag = tag ∧ (∀ p, pr = some p → p < tag) ∧ bs = e.encode ++ rest := by
  simp only [extension,parse_bind_eq_ok,parse_takeNat_eq_ok,parse_takeBytes_eq_ok,
    parse_rejectIf_eq_ok,parse_pure_eq_ok]
  constructor
  · rintro ⟨_,_,⟨htag,rfl⟩,flags,_,⟨_,rfl⟩,_,_,⟨hlen,rfl⟩,_,_,⟨ho,rfl⟩,body,_,⟨rfl,rfl⟩,_,_,
      ⟨_,rfl⟩,rfl,rfl⟩
    obtain rfl : flags = 0 := by omega
    refine ⟨⟨_,body,htag,hlen⟩,rfl,?_,by simp [Extension.encode,encodeData]⟩
    rintro p rfl
    simp at ho
    omega
  · rintro ⟨⟨tag,body,htag,hlen⟩,rfl,ho,rfl⟩
    refine ⟨_,_,⟨htag,by simp [Extension.encode,encodeData]⟩,0,_,⟨by decide,rfl⟩,_,_,⟨hlen,rfl⟩,(),
      _,⟨?_,rfl⟩,_,_,⟨rfl,rfl⟩,(),_,⟨by decide,rfl⟩,rfl,rfl⟩
    cases pr with
    | none => simp
    | some p => simpa using ho p rfl

/-- Blocks of at most `n` extensions with increasing tags are accepted, and nothing else. -/
theorem validateExtensions_eq_ok {n pr} :
    validateExtensions n pr bs = .ok () ↔ ∃ es : List Extension, es.length ≤ n ∧ Ascending es ∧
      (∀ p, pr = some p → ∀ e ∈ es, p < e.tag) ∧ bs = encodeExtensions es := by
  have hn (n : ℕ) (pr : Option ℕ) :
    validateExtensions n pr [] = .ok () := by simp [validateExtensions]
  constructor
  · intro h
    induction n generalizing pr bs with
    | zero =>
      cases bs with
      | nil => exact ⟨[],by simp [Ascending,encodeExtensions]⟩
      | cons b bs => cases h
    | succ n ih =>
      cases bs with
      | nil => exact ⟨[],by simp [Ascending,encodeExtensions]⟩
      | cons b bs =>
        simp only [validateExtensions] at h
        rcases hpar : parse (extension pr) (b::bs) with e | ⟨tag,rest⟩ <;> rw [hpar] at h
        · cases h
        obtain ⟨e,rfl,hpre,hb⟩ := parse_extension_eq_ok.mp hpar
        obtain ⟨es,hlen,ha,hf,rfl⟩ := ih h
        refine ⟨e::es,by simpa,pairwise_cons.mpr ⟨hf _ rfl,ha⟩,fun p hp e' he' => ?_,hb⟩
        rcases mem_cons.mp he' with rfl | he'
        · exact hpre p hp
        · exact (hpre p hp).trans (hf _ rfl e' he')
  · rintro ⟨es,hlen,ha,hpre,rfl⟩
    induction es generalizing n pr with
    | nil => exact hn n pr
    | cons e es ih =>
      obtain ⟨hf,ha⟩ := pairwise_cons.mp ha
      obtain ⟨n,rfl⟩ : ∃ k, n = k+1 := ⟨n-1,by simp at hlen; omega⟩
      have hpar : parse (extension pr) (encodeExtensions (e::es)) =
          .ok (e.tag,encodeExtensions es) :=
        parse_extension_eq_ok.mpr ⟨e,rfl,fun p hp => hpre p hp e mem_cons_self,rfl⟩
      have hr : validateExtensions n (some e.tag) (encodeExtensions es) = .ok () :=
        ih (by simpa using hlen) ha fun p hp => by cases hp; exact hf
      generalize encodeExtensions (e::es) = bs at hpar
      cases bs with
      | nil => exact hn _ _
      | cons b bs =>
        simp only [validateExtensions,hpar]
        exact hr

/-- Header of a record whose last `extLen` payload bytes are extensions. -/
def extendedHeader (kind : Kind) (binding payload extLen : ℕ) : List Byte :=
  magic ++ beBytes 2 0 ++ beBytes 2 kind.code ++ beBytes 2 0 ++ beBytes 2 0 ++ beBytes 4 payload ++
    beBytes 4 binding ++ beBytes 4 extLen

/-- A record whose payload ends with these extensions. -/
def withExtensions (kind : Kind) (binding : ℕ) (fields : List Byte) (es : List Extension) :
    List Byte :=
  extendedHeader kind binding (fields.length + (encodeExtensions es).length)
    (encodeExtensions es).length ++ fields ++ encodeExtensions es

theorem length_withExtensions (kind : Kind) (b : ℕ) (fields : List Byte) (es : List Extension) :
    (withExtensions kind b fields es).length = headerBytes + fields.length +
      (encodeExtensions es).length := by
  simp [withExtensions,extendedHeader,magic,headerBytes]
  omega

theorem Kind.parse_eq_ok {v} : Kind.parse v = .ok kind ↔ v = kind.code := by
  refine ⟨fun h => ?_,fun h => h ▸ kind.parse_code⟩
  unfold Kind.parse at h
  split at h
  · rename_i found hfind
    cases h
    have hcode := List.find?_some hfind
    exact (of_decide_eq_true hcode).symm
  · cases h

theorem recordHeader_eq_ok {e} :
    parse recordHeader bs = .ok ((kind,p,b,e),rest) ↔ p < 256^4 ∧ b < 256^4 ∧
      e < 256^4 ∧ bs = extendedHeader kind b p e ++ rest := by
  simp only [recordHeader,parse_bind_eq_ok,parse_takeBytes_eq_ok,parse_takeNat_eq_ok,
    parse_rejectIf_eq_ok,parse_checked_eq_ok,parse_pure_eq_ok,not_not,Kind.parse_eq_ok]
  constructor
  · rintro ⟨_,_,⟨_,rfl⟩,_,_,⟨rfl,rfl⟩,_,_,⟨_,rfl⟩,_,_,⟨rfl,rfl⟩,_,_,⟨_,rfl⟩,_,_,⟨rfl,rfl⟩,
      _,_,⟨_,rfl⟩,_,_,⟨rfl,rfl⟩,_,_,⟨_,rfl⟩,_,_,⟨rfl,rfl⟩,_,_,⟨hp,rfl⟩,_,_,⟨hb,rfl⟩,_,_,
        ⟨hlt,rfl⟩,heq,rfl⟩
    cases heq
    exact ⟨hp,hb,hlt,by simp [extendedHeader]⟩
  · rintro ⟨hp,hb,hlt,hbs⟩
    refine ⟨magic,_,⟨rfl,by simp [hbs,extendedHeader]⟩,(),_,⟨rfl,rfl⟩,0,_,⟨by decide,rfl⟩,(),_,
      ⟨rfl,rfl⟩,_,_,
      ⟨kind.code_lt,rfl⟩,_,_,⟨rfl,rfl⟩,0,_,⟨by decide,rfl⟩,(),_,⟨rfl,rfl⟩,0,_,⟨by decide,rfl⟩,(),_,
        ⟨rfl,rfl⟩,_,_,
      ⟨hp,rfl⟩,_,_,⟨hb,rfl⟩,_,_,⟨hlt,rfl⟩,rfl,rfl⟩

theorem map_fst_eq_ok {ε β γ : Type} {x : Except ε (β × γ)} {b} :
    x.map Prod.fst = .ok b ↔ ∃ c, x = .ok (b,c) := by
  rcases x with e | ⟨b',c⟩ <;> simp [Except.map]

/-- Exactly the records that are accepted, with what each decodes to. -/
theorem decodeBounded_eq_ok {ch} : Record.decodeBounded bytes m b ch = .ok r ↔
      r.binding = b ∧ b < 256^4 ∧ ¬(b = 0 ∧ ¬r.kind.initial) ∧
        r.kind.channel = ch ∧ bytes.length ≤ m ∧ ∃ es, Ascending es ∧ es.length ≤ 128 ∧
          r.payload.length + (encodeExtensions es).length < 256^4 ∧
          bytes = withExtensions r.kind b r.payload es := by
  rw [Record.decodeBounded]
  by_cases hm : m < bytes.length
  · rw [if_pos hm]
    exact ⟨nofun,fun h => absurd hm (not_lt.mpr h.2.2.2.2.1)⟩
  rw [if_neg hm,map_fst_eq_ok]
  simp only [recordBody,parse_bind_eq_ok,Prod.exists,recordHeader_eq_ok,parse_rejectIf_eq_ok,
    parse_takeBytes_eq_ok,parse_atEnd_eq_ok,parse_checked_eq_ok,parse_pure_eq_ok]
  constructor
  · rintro ⟨_,kind,p,_,extLen,_,⟨hp,hr,_,rfl⟩,_,_,⟨hbi,rfl⟩,_,_,⟨hc,rfl⟩,_,_,
      ⟨hle,rfl⟩,all,_,⟨rfl,rfl⟩,_,_,⟨rfl,rfl⟩,_,_,⟨hv,rfl⟩,rfl,-⟩
    obtain ⟨es,hlen,ha,-,he⟩ := validateExtensions_eq_ok.mp hv
    obtain ⟨hi,hs⟩ := not_or.mp hbi
    cases not_not.mp hs
    have hl : (encodeExtensions es).length = extLen := by
      rw [← he,length_drop]
      omega
    have hsum : (all.take (all.length-extLen)).length + (encodeExtensions es).length =
        all.length := by
      rw [hl,length_take]
      omega
    refine ⟨rfl,hr,hi,not_not.mp hc,not_lt.mp hm,es,ha,hlen,hsum.trans_lt hp,?_⟩
    rw [withExtensions,hsum,hl,append_assoc,← he,take_append_drop,append_nil]
  · rintro ⟨rfl,hb,hi,rfl,-,es,ha,hlen,hsi,hby⟩
    refine ⟨[],r.kind,_,_,_,_,⟨hsi,hb,(Nat.le_add_left _ _).trans_lt hsi,
      hby.trans (append_assoc ..)⟩,(),_,⟨?_,rfl⟩,(),_,
      ⟨not_not.mpr rfl,rfl⟩,(),_,⟨by omega,rfl⟩,_,_,⟨length_append,(append_nil _).symm⟩,(),_,⟨rfl,
        rfl⟩,(),_,⟨?_,rfl⟩,?_,rfl⟩
    · exact not_or.mpr ⟨hi,not_not.mpr rfl⟩
    · exact validateExtensions_eq_ok.mpr ⟨es,hlen,ha,nofun,by simp⟩
    · simp

/-- A record without extensions is accepted on its own channel with its fields. -/
theorem decode_encodeBounded (hb : b < 256^4)
    (h : encodeBounded room m b kind p fields = .ok bytes) :
    Record.decodeBounded bytes m b kind.channel = .ok ⟨kind,b,fields⟩ := by
  obtain ⟨hbind,_,_,hs,hlen,rfl⟩ := encodeBounded_eq_ok.mp h
  subst hlen
  refine decodeBounded_eq_ok.mpr ⟨rfl,hb,hbind,rfl,?_,[],.nil,by simp,hs,(append_nil _).symm⟩
  rwa [length_append,length_encodeHeader]

theorem decode_encodeRecord {l ch} (hb : b < 256^4)
    (hc : kind.channel = some ch) (h : encodeRecord room l b kind p fields = .ok bytes) :
    Record.decode bytes l b ch = .ok ⟨kind,b,fields⟩ := by
  rw [Record.decode,← hc]
  exact decode_encodeBounded hb h

/-- The extension length that the header of these bytes declares. -/
def declaredExtension (bytes : List Byte) : ℕ := beNat ((bytes.drop 20).take 4)

/-- The only record without extensions that decodes like this. -/
theorem encodeBounded_decodeBounded {ch}
    (h : Record.decodeBounded bytes m b ch = .ok r) (hn : declaredExtension bytes = 0)
    (hr : bytes.length ≤ room) :
    encodeBounded room m b r.kind r.payload.length r.payload = .ok bytes := by
  obtain ⟨-,_,hi,-,hm,es,-,-,hs,rfl⟩ := decodeBounded_eq_ok.mp h
  have he : encodeExtensions es = [] := by
    rw [declaredExtension,withExtensions,extendedHeader,append_assoc,append_assoc,drop_left'
      (by simp [magic]),
      take_left' (length_beBytes 4 _),beNat_beBytes_of_lt ((Nat.le_add_left _ _).trans_lt hs)] at hn
    exact length_eq_zero_iff.mp hn
  have hp : withExtensions r.kind b r.payload es =
      encodeHeader r.kind b r.payload.length ++ r.payload := by
    rw [withExtensions,he,append_nil]
    rfl
  rw [length_withExtensions,he] at hm hr
  rw [he] at hs
  exact encodeBounded_eq_ok.mpr ⟨hi,hm,hr,hs,rfl,hp.symm⟩

end FrankenRemote.Wire
