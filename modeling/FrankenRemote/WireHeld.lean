import FrankenRemote.HeldState
import FrankenRemote.WireInput

/-! The held-state record, on the ordered input stream. -/
namespace FrankenRemote.Wire

open Bytes Input

def heldStatePayload : ℕ := 16+16+8+8+keyBitmapBytes+1

def heldRole (direction : InputDirection) (delivery : InputDelivery) : Except WireError Unit :=
  if direction ≠ .viewerToHost then .error .wrongRole
  else if delivery ≠ .reliable then .error .wrongChannel
  else .ok ()

/-- `valid`. -/
def heldValid (request : HeldStateRequest) (binding : ℕ) : Except WireError Unit :=
  if binding = 0 ∨ request.session.raw = 0 ∨ request.lease.raw = 0 then .error .invalidBinding
  else .ok ()

/-- `HeldState::from_bits(keys, buttons).ok_or(InvalidValue)`. -/
def heldBits (keys : List Byte) (buttons : ℕ) : Except WireError HeldState :=
  match HeldState.fromBits keys (UInt8.ofNat buttons) with
  | some held => .ok held
  | none => .error .invalidValue

def heldStateFields : Reader HeldStateRequest := do
  let session ← u128
  let lease ← u128
  let sequence ← Reader.u64
  let nextAction ← Reader.u64
  let keys ← Reader.take keyBitmapBytes
  let buttons ← Reader.u8
  let held ← checked (heldBits keys buttons)
  pure ⟨⟨session⟩,⟨lease⟩,sequence,nextAction,held⟩

def encodeHeldFields (r : HeldStateRequest) : List Byte :=
  beBytes 16 r.session.raw ++ beBytes 16 r.lease.raw ++ beBytes 8 r.sequence ++
    beBytes 8 r.nextAction ++ r.held.keys ++ beBytes 1 r.held.buttons.toNat

def encodeHeldState (request : HeldStateRequest) (room : ℕ) (limits : ProtocolLimits) (binding : ℕ)
    (direction : InputDirection) (delivery : InputDelivery) : Except WireError (List Byte) := do
  heldRole direction delivery
  heldValid request binding
  encodeBounded room limits.maxControlMessageBytes binding .heldState heldStatePayload
    (encodeHeldFields request)

def decodeHeldState (bytes : List Byte) (limits : ProtocolLimits) (binding : ℕ)
    (direction : InputDirection) (delivery : InputDelivery) :
    Except WireError HeldStateRequest := do
  heldRole direction delivery
  let record ← Record.decodeBounded bytes limits.maxControlMessageBytes binding none
  let request ← record.read .heldState heldStateFields
  heldValid request binding
  .ok request

/-- The widths of the source's types. -/
structure HeldStateRequest.Sized (r : HeldStateRequest) : Prop where
  session : r.session.raw < 256^16
  lease : r.lease.raw < 256^16
  sequence : r.sequence < 256^8
  nextAction : r.nextAction < 256^8

theorem heldBits_eq_ok {keys b} (hlt : b < 256) {held} :
    heldBits keys b = .ok held ↔ keys = held.keys ∧ b = held.buttons.toNat := by
  have hc : heldBits keys b = .ok held ↔ HeldState.fromBits keys (UInt8.ofNat b) = some held := by
    unfold heldBits
    cases HeldState.fromBits keys (UInt8.ofNat b) <;> simp
  rw [hc,HeldState.fromBits_eq_some]
  constructor
  · rintro ⟨rfl,hb⟩
    refine ⟨rfl,?_⟩
    rw [← hb,UInt8.toNat_ofNat_of_lt' hlt]
  · rintro ⟨rfl,rfl⟩
    exact ⟨rfl,UInt8.ofNat_toNat⟩

theorem length_encodeHeldFields (r : HeldStateRequest) :
    (encodeHeldFields r).length = heldStatePayload := by
  have hkeys := r.held.length_keys
  simp only [encodeHeldFields,List.length_append,length_beBytes,hkeys,heldStatePayload]

variable {r : HeldStateRequest}

theorem parse_heldStateFields (h : HeldStateRequest.Sized r) :
    parse heldStateFields (encodeHeldFields r) = .ok (r,[]) := by
  have hb : r.held.buttons.toNat < 256^1 := r.held.buttons.toNat_lt
  rw [encodeHeldFields,← List.append_nil (beBytes 1 _)]
  simp only [List.append_assoc]
  rw [heldStateFields,parse_takeNat_bind h.session,parse_takeNat_bind h.lease,
    parse_takeNat_bind h.sequence,
    parse_takeNat_bind h.nextAction,parse_takeBytes_bind r.held.length_keys,parse_takeNat_bind hb,
    parse_checked_bind_ok ((heldBits_eq_ok hb).mpr ⟨rfl,rfl⟩),parse_pure]

theorem heldStateFields_eq_ok {bs rest}
    (h : parse heldStateFields bs = .ok (r,rest)) : bs = encodeHeldFields r ++ rest := by
  simp only [heldStateFields,parse_bind_eq_ok,parse_takeNat_eq_ok,parse_takeBytes_eq_ok,
    parse_checked_eq_ok,parse_pure_eq_ok] at h
  obtain ⟨_,_,⟨_,hses⟩,_,_,⟨_,hl⟩,_,_,⟨_,hs⟩,_,_,⟨_,hn⟩,_,_,⟨_,hkeys⟩,_,_,⟨hlt,hb⟩,
    _,_,⟨hh,he⟩,rfl,rfl⟩ := h
  obtain ⟨rfl,rfl⟩ := (heldBits_eq_ok hlt).mp hh
  rw [encodeHeldFields,hses,hl,hs,hn,hkeys,hb,he]
  simp only [List.append_assoc]

theorem decodeHeldState_encodeHeldState {room b l d de bs} (hb : b < 256^4)
    (hs : HeldStateRequest.Sized r)
    (h : encodeHeldState r room l b d de = .ok bs) : decodeHeldState bs l b d de = .ok r := by
  obtain ⟨_,hrole,h⟩ := bind_eq_ok.mp h
  obtain ⟨_,hv,h⟩ := bind_eq_ok.mp h
  have hr := decode_encodeBounded hb h
  refine bind_eq_ok.mpr ⟨_,hrole,bind_eq_ok.mpr ⟨_,hr,?_⟩⟩
  refine bind_eq_ok.mpr ⟨r,read_eq_ok.mpr ⟨rfl,parse_heldStateFields hs⟩,?_⟩
  exact bind_eq_ok.mpr ⟨_,hv,rfl⟩

theorem encodeHeldState_decodeHeldState {room b l d de bs}
    (h : decodeHeldState bs l b d de = .ok r)
    (hn : declaredExtension bs = 0) (hro : bs.length ≤ room) :
    encodeHeldState r room l b d de = .ok bs := by
  obtain ⟨_,hrole,h⟩ := bind_eq_ok.mp h
  obtain ⟨rec,hr,h⟩ := bind_eq_ok.mp h
  obtain ⟨_,hread,h⟩ := bind_eq_ok.mp h
  obtain ⟨_,hv,h⟩ := bind_eq_ok.mp h
  cases h
  obtain ⟨hkind,hf⟩ := read_eq_ok.mp hread
  have hp := heldStateFields_eq_ok hf
  rw [List.append_nil] at hp
  have hlen : rec.payload.length = heldStatePayload := by
    rw [hp,length_encodeHeldFields]
  refine bind_eq_ok.mpr ⟨_,hrole,bind_eq_ok.mpr ⟨_,hv,?_⟩⟩
  rw [← hp,← hlen,← hkind]
  exact encodeBounded_decodeBounded hr hn hro

/-- Both codecs of the input stream lose nothing: what is encoded is decoded again, and what is
accepted without extensions is encoded to the same bytes. -/
theorem input_codec (limits : ProtocolLimits) {binding : ℕ} (hb : binding < 2^32)
    (direction : InputDirection) (delivery : InputDelivery) :
    (∀ request room bytes, InputRequest.Sized request →
      encodeInput request room limits binding direction delivery = .ok bytes →
      decodeInput bytes limits binding direction delivery = .ok request) ∧
    (∀ request room bytes, decodeInput bytes limits binding direction delivery = .ok request →
      declaredExtension bytes = 0 → bytes.length ≤ room →
      encodeInput request room limits binding direction delivery = .ok bytes) ∧
    (∀ request room bytes, HeldStateRequest.Sized request →
      encodeHeldState request room limits binding direction delivery = .ok bytes →
      decodeHeldState bytes limits binding direction delivery = .ok request) ∧
    (∀ request room bytes, decodeHeldState bytes limits binding direction delivery = .ok request →
      declaredExtension bytes = 0 → bytes.length ≤ room →
      encodeHeldState request room limits binding direction delivery = .ok bytes) := by
  refine ⟨?_,?_,?_,?_⟩
  · intro request room bytes hs h
    exact decodeInput_encodeInput hb hs h
  · intro request room bytes h hn hr
    exact encodeInput_decodeInput h hn hr
  · intro request room bytes hs h
    exact decodeHeldState_encodeHeldState hb hs h
  · intro request room bytes h hn hr
    exact encodeHeldState_decodeHeldState h hn hr

/-- A button press at a negative position. -/
def sampleAction : InputRequest :=
  ⟨⟨⟨1⟩,⟨2⟩,⟨3⟩,⟨1,1,1,⟨1⟩⟩⟩,0,.button .secondary true ⟨-5,7⟩ 9⟩

/-- One key and one button held. -/
def sampleHeld : HeldStateRequest where
  session := ⟨1⟩
  lease := ⟨2⟩
  sequence := 4
  nextAction := 1
  held := ⟨[0x10] ++ List.replicate 31 0,2,rfl,by decide +kernel⟩

theorem input_codec_sampleAction : ∃ bytes held,
    encodeInput sampleAction 256 sampleProtocolLimits 5 .viewerToHost .reliable = .ok bytes ∧
    decodeInput bytes sampleProtocolLimits 5 .viewerToHost .reliable = .ok sampleAction ∧
    encodeInput sampleAction 130 sampleProtocolLimits 5 .viewerToHost .reliable = .ok bytes ∧
    encodeHeldState sampleHeld 256 sampleProtocolLimits 5 .viewerToHost .reliable = .ok held ∧
    decodeHeldState held sampleProtocolLimits 5 .viewerToHost .reliable = .ok sampleHeld ∧
    encodeHeldState sampleHeld 105 sampleProtocolLimits 5 .viewerToHost .reliable = .ok held := by
  have ha : ∃ bytes, encodeInput sampleAction 256 sampleProtocolLimits 5 .viewerToHost .reliable =
      .ok bytes ∧ declaredExtension bytes = 0 ∧ bytes.length = 130 :=
        ⟨_,rfl,by decide +kernel,by decide +kernel⟩
  have hh : ∃ bytes, encodeHeldState sampleHeld 256 sampleProtocolLimits 5 .viewerToHost .reliable =
      .ok bytes ∧ declaredExtension bytes = 0 ∧ bytes.length = 105 :=
        ⟨_,rfl,by decide +kernel,by decide +kernel⟩
  obtain ⟨bytes,hby,hn,hlen⟩ := ha
  obtain ⟨held,hh,hn',hlen'⟩ := hh
  have hb : 5 < 2^32 := by decide
  have hbar : InputEvent.Sized sampleAction.event := (by decide : 9 < 256^8)
  obtain ⟨hread,hw,hread',hw'⟩ := input_codec sampleProtocolLimits hb .viewerToHost .reliable
  have hd := hread _ _ _ ⟨by constructor <;> decide,by decide,hbar⟩ hby
  have hd' := hread' _ _ _ (by constructor <;> decide) hh
  exact ⟨bytes,held,hby,hd,hw _ _ _ hd hn hlen.le,hh,hd',hw' _ _ _ hd' hn' hlen'.le⟩

end FrankenRemote.Wire
