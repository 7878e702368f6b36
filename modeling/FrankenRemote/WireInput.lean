import FrankenRemote.Input
import FrankenRemote.WireRecord

/-! Input records. Parsing grants no authority; the receiver passes the authenticated
direction, never a flag of the sender. -/
namespace FrankenRemote.Wire

open Bytes Input List

inductive InputDirection
  | viewerToHost | hostToViewer
  deriving DecidableEq, Repr

inductive InputDelivery
  | reliable | datagram
  deriving DecidableEq, Repr

/-- `INPUT_PREFIX_BYTES`: credentials, four generations and the sequence. -/
def inputPrefixBytes : ℕ := 88

def keyboardUsagePage : ℕ := 7

/-- `kind`. -/
def inputKind : InputEvent → Kind
  | .key .. => .key
  | .button .. => .button
  | .pointer .. => .pointer
  | .relative .. => .relative
  | .scroll .. => .scroll
  | .text .. => .text
  | .mode .. => .inputMode

def validateRoute (direction : InputDirection) (delivery : InputDelivery) (kind : Kind) :
    Except WireError Unit :=
  if direction ≠ .viewerToHost then .error .wrongRole
  else if delivery = .datagram ∧ kind ≠ .pointer then .error .wrongChannel
  else .ok ()

/-! Enumerations travel as small codes. -/

/-- The member with this code, of all that there are. -/
def ofCode {α : Type} (members : List α) (code : α → ℕ) (v : ℕ) : Except WireError α :=
  match members.find? (code · = v) with
  | some a => .ok a
  | none => .error .invalidValue

variable {v : ℕ} {bytes : List Byte}

theorem ofCode_eq_ok {α : Type} {m : List α} {code : α → ℕ}
    (hcode : ∀ a, ofCode m code (code a) = .ok a) {a : α} :
    ofCode m code v = .ok a ↔ v = code a := by
  constructor
  · intro h
    unfold ofCode at h
    split at h
    · rename_i b hb
      cases h
      have hf := List.find?_some hb
      exact (of_decide_eq_true hf).symm
    · cases h
  · rintro rfl
    exact hcode a

def keyTransitionCode : KeyTransition → ℕ
  | .release => 0
  | .press => 1
  | .repeat_ => 2

def keyTransition : ℕ → Except WireError KeyTransition :=
  ofCode [.release,.press,.repeat_] keyTransitionCode

def pointerButtonCode : PointerButton → ℕ
  | .primary => 1
  | .secondary => 2
  | .middle => 3
  | .back => 4
  | .forward => 5

def pointerButton : ℕ → Except WireError PointerButton :=
  ofCode [.primary,.secondary,.middle,.back,.forward] pointerButtonCode

def scrollUnitCode : ScrollUnit → ℕ
  | .pixels => 0
  | .lines => 1

def scrollUnit : ℕ → Except WireError ScrollUnit := ofCode [.pixels,.lines] scrollUnitCode

def pointerModeCode : PointerMode → ℕ
  | .absolute => 0
  | .relative => 1

def pointerMode : ℕ → Except WireError PointerMode := ofCode [.absolute,.relative] pointerModeCode

def boolean : ℕ → Except WireError Bool := ofCode [false,true] Bool.toNat

theorem keyTransition_eq_ok {t : KeyTransition} :
    keyTransition v = .ok t ↔ v = keyTransitionCode t :=
  ofCode_eq_ok fun a => by cases a <;> rfl

theorem pointerButton_eq_ok {b : PointerButton} :
    pointerButton v = .ok b ↔ v = pointerButtonCode b :=
  ofCode_eq_ok fun a => by cases a <;> rfl

theorem scrollUnit_eq_ok {u : ScrollUnit} : scrollUnit v = .ok u ↔ v = scrollUnitCode u :=
  ofCode_eq_ok fun a => by cases a <;> rfl

theorem pointerMode_eq_ok {m : PointerMode} : pointerMode v = .ok m ↔ v = pointerModeCode m :=
  ofCode_eq_ok fun a => by cases a <;> rfl

theorem boolean_eq_ok {b : Bool} : boolean v = .ok b ↔ v = b.toNat :=
  ofCode_eq_ok fun a => by cases a <;> rfl

/-! Signed integers travel as their two's complement, text as UTF-8. -/

/-- `u32::cast_signed`. -/
def signed32 (v : ℕ) : Int32 := (UInt32.ofNat v).toInt32

/-- `i32::cast_unsigned`. -/
def unsigned32 (v : Int32) : ℕ := v.toUInt32.toNat

def signed64 (v : ℕ) : Int64 := (UInt64.ofNat v).toInt64

def unsigned64 (v : Int64) : ℕ := v.toUInt64.toNat

theorem unsigned32_lt (v : Int32) : unsigned32 v < 256^4 := v.toUInt32.toNat_lt

theorem unsigned64_lt (v : Int64) : unsigned64 v < 256^8 := v.toUInt64.toNat_lt

theorem signed32_unsigned32 (x : Int32) : signed32 (unsigned32 x) = x := by
  rw [signed32,unsigned32,UInt32.ofNat_toNat,Int32.toInt32_toUInt32]

theorem unsigned32_signed32 (hv : v < 256^4) : unsigned32 (signed32 v) = v := by
  rw [unsigned32,signed32,UInt32.toUInt32_toInt32,UInt32.toNat_ofNat_of_lt' hv]

theorem signed64_unsigned64 (x : Int64) : signed64 (unsigned64 x) = x := by
  rw [signed64,unsigned64,UInt64.ofNat_toNat,Int64.toInt64_toUInt64]

theorem unsigned64_signed64 (hv : v < 256^8) : unsigned64 (signed64 v) = v := by
  rw [unsigned64,signed64,UInt64.toUInt64_toInt64,UInt64.toNat_ofNat_of_lt' hv]

/-- `str::as_bytes`. -/
def textBytes (s : String) : List Byte := s.toUTF8.data.toList

/-- `str::from_utf8`. -/
def fromUtf8 (bytes : List Byte) : Except WireError String :=
  match String.fromUTF8? ⟨bytes.toArray⟩ with
  | some s => .ok s
  | none => .error .invalidValue

theorem fromUtf8_eq_ok {s} : fromUtf8 bytes = .ok s ↔ bytes = textBytes s := by
  unfold fromUtf8 String.fromUTF8?
  constructor
  · intro h
    split at h
    · rename_i t ht
      cases h
      split at ht
      · cases ht
        simp [textBytes,String.fromUTF8]
      · cases ht
    · cases h
  · rintro rfl
    have hb : (⟨(textBytes s).toArray⟩ : ByteArray) = s.toUTF8 := by
      simp [textBytes]
    have hv : s.toUTF8.IsValidUTF8 := s.isValidUTF8
    rw [hb,dif_pos hv]
    rfl

/-! Fields. -/

def point : Reader DesktopPoint := do
  let x ← Reader.u32
  let y ← Reader.u32
  pure ⟨signed32 x,signed32 y⟩

def encodePoint (p : DesktopPoint) : List Byte :=
  beBytes 4 (unsigned32 p.x) ++ beBytes 4 (unsigned32 p.y)

abbrev u128 : Reader ℕ := takeNat .truncated 16

def inputCredentials : Reader InputCredentials := do
  let session ← u128
  let lease ← u128
  let ticket ← u128
  let geometry ← Reader.u64
  let viewport ← Reader.u64
  let configuration ← Reader.u64
  let recovery ← Reader.u64
  pure ⟨⟨session⟩,⟨lease⟩,⟨ticket⟩,⟨geometry,viewport,configuration,⟨recovery⟩⟩⟩

def encodeCredentials (c : InputCredentials) : List Byte :=
  beBytes 16 c.session.raw ++ beBytes 16 c.lease.raw ++ beBytes 16 c.ticket.raw ++
    beBytes 8 c.view.geometry ++ beBytes 8 c.view.viewport ++ beBytes 8 c.view.configuration ++
    beBytes 8 c.view.recovery.raw

/-- `PhysicalKey::new(usage).ok_or(InvalidValue)`. -/
def physicalKey (usage : ℕ) : Except WireError PhysicalKey :=
  match PhysicalKey.new usage with
  | some key => .ok key
  | none => .error .invalidValue

/-- The fields of an action, by the kind of its record. -/
def inputEvent : Kind → Reader InputEvent
  | .key => do
    let page ← Reader.u16
    rejectIf (page ≠ keyboardUsagePage) .invalidValue
    let usage ← Reader.u16
    let key ← checked (physicalKey usage)
    let code ← Reader.u8
    let transition ← checked (keyTransition code)
    pure (.key key transition)
  | .button => do
    let code ← Reader.u8
    let button ← checked (pointerButton code)
    let flag ← Reader.u8
    let pressed ← checked (boolean flag)
    let position ← point
    let barrier ← Reader.u64
    pure (.button button pressed position barrier)
  | .pointer => do
    let position ← point
    pure (.pointer position)
  | .relative => do
    let modeEpoch ← Reader.u64
    let x ← Reader.u64
    let y ← Reader.u64
    pure (.relative modeEpoch (signed64 x) (signed64 y))
  | .scroll => do
    let position ← point
    let barrier ← Reader.u64
    let x ← Reader.u32
    let y ← Reader.u32
    let code ← Reader.u8
    let unit ← checked (scrollUnit code)
    pure (.scroll position barrier (signed32 x) (signed32 y) unit)
  | .text => do
    let bytes ← Reader.data
    rejectIf (bytes = [] ∨ maxCommittedTextBytes < bytes.length) .resourceLimit
    let text ← checked (fromUtf8 bytes)
    pure (.text text)
  | .inputMode => do
    let code ← Reader.u8
    let mode ← checked (pointerMode code)
    let epoch ← Reader.u64
    pure (.mode mode epoch)
  | _ => throw .unsupportedKind

def inputRequest (kind : Kind) : Reader InputRequest := do
  let credentials ← inputCredentials
  let sequence ← Reader.u64
  let event ← inputEvent kind
  pure ⟨credentials,sequence,event⟩

def encodeEvent : InputEvent → List Byte
  | .key key transition =>
    beBytes 2 keyboardUsagePage ++ beBytes 2 key.usage ++ beBytes 1 (keyTransitionCode transition)
  | .button button pressed position barrier =>
    beBytes 1 (pointerButtonCode button) ++ beBytes 1 pressed.toNat ++ encodePoint position ++
      beBytes 8 barrier
  | .pointer position => encodePoint position
  | .relative modeEpoch x y =>
    beBytes 8 modeEpoch ++ beBytes 8 (unsigned64 x) ++ beBytes 8 (unsigned64 y)
  | .scroll position barrier x y unit =>
    encodePoint position ++ beBytes 8 barrier ++ beBytes 4 (unsigned32 x) ++
      beBytes 4 (unsigned32 y) ++ beBytes 1 (scrollUnitCode unit)
  | .text text => encodeData (textBytes text)
  | .mode mode epoch => beBytes 1 (pointerModeCode mode) ++ beBytes 8 epoch

/-- Bytes of an action after the common fields; text must be neither empty nor too long. -/
def inputSize : InputEvent → Except WireError ℕ
  | .key .. => .ok 5
  | .button .. => .ok 18
  | .pointer .. => .ok 8
  | .relative .. => .ok 24
  | .scroll .. => .ok 25
  | .mode .. => .ok 9
  | .text text =>
    if textBytes text = [] ∨ maxCommittedTextBytes < (textBytes text).length then
      .error .resourceLimit
    else .ok (4+(textBytes text).length)

def decodeInput (bytes : List Byte) (limits : ProtocolLimits) (binding : ℕ)
    (direction : InputDirection) (delivery : InputDelivery) : Except WireError InputRequest := do
  if direction ≠ .viewerToHost then .error .wrongRole
  else
    let record ← Record.decodeBounded bytes limits.maxControlMessageBytes binding none
    validateRoute direction delivery record.kind
    record.read record.kind (inputRequest record.kind)

def encodeInput (request : InputRequest) (room : ℕ) (limits : ProtocolLimits) (binding : ℕ)
    (direction : InputDirection) (delivery : InputDelivery) : Except WireError (List Byte) := do
  validateRoute direction delivery (inputKind request.event)
  let size ← inputSize request.event
  encodeBounded room limits.maxControlMessageBytes binding (inputKind request.event)
    (inputPrefixBytes+size) (encodeCredentials request.credentials ++ beBytes 8 request.sequence ++
      encodeEvent request.event)

/-! Widths. A request of the source fits them by its types. -/

structure InputCredentials.Sized (c : InputCredentials) : Prop where
  session : c.session.raw < 256^16
  lease : c.lease.raw < 256^16
  ticket : c.ticket.raw < 256^16
  geometry : c.view.geometry < 256^8
  viewport : c.view.viewport < 256^8
  configuration : c.view.configuration < 256^8
  recovery : c.view.recovery.raw < 256^8

def InputEvent.Sized : InputEvent → Prop
  | .button _ _ _ barrier | .scroll _ barrier .. => barrier < 256^8
  | .relative modeEpoch .. => modeEpoch < 256^8
  | .mode _ epoch => epoch < 256^8
  | _ => True

structure InputRequest.Sized (r : InputRequest) : Prop where
  credentials : InputCredentials.Sized r.credentials
  sequence : r.sequence < 256^8
  event : InputEvent.Sized r.event

/-- Text within the limits of an action. -/
def TextFits : InputEvent → Prop
  | .text text => ¬(textBytes text = [] ∨ maxCommittedTextBytes < (textBytes text).length)
  | _ => True

/-! Fields that were written are read back. -/

section Written

variable {α : Type} {rest : List Byte}

theorem parse_point_bind (p : DesktopPoint) (f : DesktopPoint → Reader α) :
    parse (point >>= f) (encodePoint p ++ rest) = parse (f p) rest := by
  apply parse_bind_ok
  rw [point,encodePoint,append_assoc,parse_takeNat_bind (unsigned32_lt p.x),
    parse_takeNat_bind (unsigned32_lt p.y),parse_pure,signed32_unsigned32,signed32_unsigned32]

theorem parse_inputCredentials_bind {c} (h : InputCredentials.Sized c)
    (f : InputCredentials → Reader α) :
    parse (inputCredentials >>= f) (encodeCredentials c ++ rest) = parse (f c) rest := by
  apply parse_bind_ok
  simp only [encodeCredentials,append_assoc]
  rw [inputCredentials,parse_takeNat_bind h.session,parse_takeNat_bind h.lease,
    parse_takeNat_bind h.ticket,parse_takeNat_bind h.geometry,parse_takeNat_bind h.viewport,
    parse_takeNat_bind h.configuration,parse_takeNat_bind h.recovery,parse_pure]

theorem parse_code_bind {β : Type} {m code b} (hlt : code b < 256^1)
    (hcode : ofCode m code (code b) = .ok b) (f : β → Reader α) :
    parse (Reader.u8 >>= fun v => checked (ofCode m code v) >>= f) (beBytes 1 (code b) ++ rest) =
      parse (f b) rest := by
  rw [parse_takeNat_bind hlt,parse_checked_bind_ok hcode]

theorem parse_inputEvent {e} (hs : InputEvent.Sized e) (hf : TextFits e) :
    parse (inputEvent (inputKind e)) (encodeEvent e ++ rest) = .ok (e,rest) := by
  cases e with
  | key key t =>
    have hk : physicalKey key.usage = .ok key := by
      rw [physicalKey,PhysicalKey.new_eq_some.mpr rfl]
    have hu : key.usage < 256^2 := key.usage_lt.trans (by decide)
    simp only [inputKind,inputEvent,encodeEvent,append_assoc]
    rw [parse_takeNat_bind (by decide),parse_rejectIf_bind,if_neg (not_not.mpr rfl),
      parse_takeNat_bind hu,parse_checked_bind_ok hk,keyTransition,
      parse_code_bind (by cases t <;> decide) (by cases t <;> rfl),parse_pure]
  | button b pressed p barrier =>
    simp only [inputKind,inputEvent,encodeEvent,append_assoc]
    rw [pointerButton,parse_code_bind (by cases b <;> decide) (by cases b <;> rfl),boolean,
      parse_code_bind (by cases pressed <;> decide) (by cases pressed <;> rfl),parse_point_bind,
      parse_takeNat_bind hs,parse_pure]
  | pointer p =>
    rw [inputKind,inputEvent,encodeEvent,parse_point_bind,parse_pure]
  | relative modeEpoch x y =>
    simp only [inputKind,inputEvent,encodeEvent,append_assoc]
    rw [parse_takeNat_bind hs,parse_takeNat_bind (unsigned64_lt x),
      parse_takeNat_bind (unsigned64_lt y),parse_pure,signed64_unsigned64,signed64_unsigned64]
  | scroll p barrier x y unit =>
    simp only [inputKind,inputEvent,encodeEvent,append_assoc]
    rw [parse_point_bind,parse_takeNat_bind hs,parse_takeNat_bind (unsigned32_lt x),
      parse_takeNat_bind (unsigned32_lt y),scrollUnit,
      parse_code_bind (by cases unit <;> decide) (by cases unit <;> rfl),parse_pure,
      signed32_unsigned32,signed32_unsigned32]
  | text text =>
    have hlen : (textBytes text).length < 256^4 := by
      have hle := not_lt.mp (not_or.mp hf).2
      exact lt_of_le_of_lt hle (by decide)
    rw [inputKind,inputEvent,encodeEvent,parse_data_bind hlen,parse_rejectIf_bind,if_neg hf,
      parse_checked_bind_ok (fromUtf8_eq_ok.mpr rfl),parse_pure]
  | mode mode epoch =>
    simp only [inputKind,inputEvent,encodeEvent,append_assoc]
    rw [pointerMode,parse_code_bind (by cases mode <;> decide) (by cases mode <;> rfl),
      parse_takeNat_bind hs,parse_pure]

theorem parse_inputRequest {r} (hs : InputRequest.Sized r) (hf : TextFits r.event) :
    parse (inputRequest (inputKind r.event))
      (encodeCredentials r.credentials ++ beBytes 8 r.sequence ++ encodeEvent r.event) = .ok
        (r,[]) := by
  rw [← append_nil (encodeEvent r.event)]
  simp only [append_assoc]
  rw [inputRequest,parse_inputCredentials_bind hs.credentials,parse_takeNat_bind hs.sequence,
    parse_bind_ok (parse_inputEvent hs.event hf),parse_pure]

end Written

/-! And fields that were read are written back. -/

section Read

variable {bs rest : List Byte}

theorem point_eq_ok {p} (h : parse point bs = .ok (p,rest)) : bs = encodePoint p ++ rest := by
  simp only [point,parse_bind_eq_ok,parse_takeNat_eq_ok,parse_pure_eq_ok] at h
  obtain ⟨x,_,⟨hx,rfl⟩,y,_,⟨hy,rfl⟩,rfl,rfl⟩ := h
  rw [encodePoint,unsigned32_signed32 hx,unsigned32_signed32 hy,append_assoc]

theorem inputCredentials_eq_ok {c} (h : parse inputCredentials bs = .ok (c,rest)) :
    bs = encodeCredentials c ++ rest := by
  simp only [inputCredentials,parse_bind_eq_ok,parse_takeNat_eq_ok,parse_pure_eq_ok] at h
  obtain ⟨_,_,⟨_,hs⟩,_,_,⟨_,hl⟩,_,_,⟨_,ht⟩,_,_,⟨_,hg⟩,_,_,⟨_,hv⟩,_,_,⟨_,hc⟩,_,_,⟨_,hr⟩,rfl,rfl⟩ := h
  simp only [encodeCredentials,append_assoc,hs,hl,ht,hg,hv,hc,hr]

theorem physicalKey_eq_ok {u key} (h : physicalKey u = .ok key) : u = key.usage := by
  unfold physicalKey at h
  split at h
  · cases h
    exact PhysicalKey.new_eq_some.mp ‹_›
  · cases h

theorem inputEvent_eq_ok {kind e} (h : parse (inputEvent kind) bs = .ok (e,rest)) :
    inputKind e = kind ∧ TextFits e ∧ bs = encodeEvent e ++ rest := by
  unfold inputEvent at h
  split at h
  · simp only [parse_bind_eq_ok,parse_takeNat_eq_ok,parse_rejectIf_eq_ok,parse_checked_eq_ok,
      parse_pure_eq_ok,not_not,keyTransition_eq_ok] at h
    obtain ⟨_,_,⟨_,rfl⟩,_,_,⟨rfl,rfl⟩,_,_,⟨_,rfl⟩,_,_,⟨hk,rfl⟩,_,_,⟨_,rfl⟩,_,_,⟨rfl,rfl⟩,rfl,rfl⟩ :=
      h
    cases physicalKey_eq_ok hk
    exact ⟨rfl,trivial,by simp only [encodeEvent,append_assoc]⟩
  · simp only [parse_bind_eq_ok,parse_takeNat_eq_ok,parse_checked_eq_ok,parse_pure_eq_ok,
      pointerButton_eq_ok,boolean_eq_ok] at h
    obtain ⟨_,_,⟨_,rfl⟩,_,_,⟨rfl,rfl⟩,_,_,⟨_,rfl⟩,_,_,⟨rfl,rfl⟩,_,_,hp,_,_,⟨_,rfl⟩,rfl,rfl⟩ := h
    cases point_eq_ok hp
    exact ⟨rfl,trivial,by simp only [encodeEvent,append_assoc]⟩
  · simp only [parse_bind_eq_ok,parse_pure_eq_ok] at h
    obtain ⟨_,_,hp,rfl,rfl⟩ := h
    exact ⟨rfl,trivial,point_eq_ok hp⟩
  · simp only [parse_bind_eq_ok,parse_takeNat_eq_ok,parse_pure_eq_ok] at h
    obtain ⟨_,_,⟨_,rfl⟩,x,_,⟨hx,rfl⟩,y,_,⟨hy,rfl⟩,rfl,rfl⟩ := h
    refine ⟨rfl,trivial,?_⟩
    simp only [encodeEvent,unsigned64_signed64 hx,unsigned64_signed64 hy,append_assoc]
  · simp only [parse_bind_eq_ok,parse_takeNat_eq_ok,parse_checked_eq_ok,parse_pure_eq_ok,
      scrollUnit_eq_ok] at h
    obtain ⟨_,_,hp,_,_,⟨_,rfl⟩,x,_,⟨hx,rfl⟩,y,_,⟨hy,rfl⟩,_,_,⟨_,rfl⟩,_,_,⟨rfl,rfl⟩,rfl,rfl⟩ := h
    cases point_eq_ok hp
    refine ⟨rfl,trivial,?_⟩
    simp only [encodeEvent,unsigned32_signed32 hx,unsigned32_signed32 hy,append_assoc]
  · simp only [parse_bind_eq_ok,parse_data_eq_ok,parse_rejectIf_eq_ok,parse_checked_eq_ok,
      parse_pure_eq_ok,fromUtf8_eq_ok] at h
    obtain ⟨_,_,⟨_,rfl⟩,_,_,⟨hf,rfl⟩,_,_,⟨rfl,rfl⟩,rfl,rfl⟩ := h
    exact ⟨rfl,hf,rfl⟩
  · simp only [parse_bind_eq_ok,parse_takeNat_eq_ok,parse_checked_eq_ok,parse_pure_eq_ok,
      pointerMode_eq_ok] at h
    obtain ⟨_,_,⟨_,rfl⟩,_,_,⟨rfl,rfl⟩,_,_,⟨_,rfl⟩,rfl,rfl⟩ := h
    exact ⟨rfl,trivial,by simp only [encodeEvent,append_assoc]⟩
  · cases h

theorem inputRequest_eq_ok {kind r} (h : parse (inputRequest kind) bs = .ok (r,rest)) :
    inputKind r.event = kind ∧ TextFits r.event ∧
      bs = encodeCredentials r.credentials ++ beBytes 8 r.sequence ++
        encodeEvent r.event ++ rest := by
  simp only [inputRequest,parse_bind_eq_ok,parse_takeNat_eq_ok,parse_pure_eq_ok] at h
  obtain ⟨_,_,hc,_,_,⟨_,hs⟩,_,_,he,rfl,rfl⟩ := h
  obtain ⟨hkind,hf,he⟩ := inputEvent_eq_ok he
  refine ⟨hkind,hf,?_⟩
  rw [inputCredentials_eq_ok hc,hs,he]
  simp only [append_assoc]

end Read

/-! Sizes. -/

theorem inputSize_eq_ok {e n} : inputSize e = .ok n ↔ TextFits e ∧ (encodeEvent e).length = n := by
  cases e with
  | text text =>
    rw [inputSize,TextFits]
    split
    · simp [*]
    · rename_i hf
      simp [hf,encodeEvent,encodeData]
  | _ => simp [inputSize,TextFits,encodeEvent,encodePoint]

theorem length_encodeCredentials (c : InputCredentials) : (encodeCredentials c).length = 80 := by
  simp [encodeCredentials]

theorem decodeInput_encodeInput {r room b l d de} (hb : b < 256^4) (hs : InputRequest.Sized r)
    (h : encodeInput r room l b d de = .ok bytes) : decodeInput bytes l b d de = .ok r := by
  obtain ⟨_,hr,h⟩ := bind_eq_ok.mp h
  obtain ⟨_,hsi,h⟩ := bind_eq_ok.mp h
  obtain ⟨hf,rfl⟩ := inputSize_eq_ok.mp hsi
  have hd : d = .viewerToHost := by
    by_contra hne
    rw [validateRoute,if_pos hne] at hr
    cases hr
  have hc : (inputKind r.event).channel = none := by
    cases r.event <;> rfl
  have hrec := decode_encodeBounded hb h
  rw [hc] at hrec
  rw [decodeInput,if_neg (not_not.mpr hd)]
  refine bind_eq_ok.mpr ⟨_,hrec,bind_eq_ok.mpr ⟨_,hr,?_⟩⟩
  exact read_eq_ok.mpr ⟨rfl,parse_inputRequest hs hf⟩

/-- What was accepted without extensions is encoded to the same bytes. -/
theorem encodeInput_decodeInput {r room b l d de} (h : decodeInput bytes l b d de = .ok r)
    (hn : declaredExtension bytes = 0) (hro : bytes.length ≤ room) :
    encodeInput r room l b d de = .ok bytes := by
  unfold decodeInput at h
  split at h
  · cases h
  obtain ⟨rec,hrec,h⟩ := bind_eq_ok.mp h
  obtain ⟨_,hr,hread⟩ := bind_eq_ok.mp h
  obtain ⟨hkind,hf,hp⟩ := inputRequest_eq_ok (read_eq_ok.mp hread).2
  rw [append_nil] at hp
  rw [← hkind] at hr
  refine bind_eq_ok.mpr ⟨_,hr,bind_eq_ok.mpr ⟨_,inputSize_eq_ok.mpr ⟨hf,rfl⟩,?_⟩⟩
  have hlen : rec.payload.length = inputPrefixBytes + (encodeEvent r.event).length := by
    rw [hp,length_append,length_append,length_encodeCredentials,length_beBytes,inputPrefixBytes]
  rw [hkind,← hlen,← hp]
  exact encodeBounded_decodeBounded hrec hn hro

end FrankenRemote.Wire
