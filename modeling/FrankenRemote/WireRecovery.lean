import FrankenRemote.WireInput

/-! Viewer requests to abandon a failed reference chain, bound to one installed view. -/
namespace FrankenRemote.Wire

open Bytes

/-- The initial connection-control tuple. -/
structure ControlBinding where
  id : ℕ
  hostBoot : ℕ
  osSession : ℕ
  remoteSession : ℕ
  deriving DecidableEq

/-- The installed media-config tuple; `parent.id` is this channel's compact binding. -/
structure DecoderBinding where
  parent : ControlBinding
  display : ℕ
  geometry : ℕ
  configuration : ℕ
  recovery : ℕ
  viewport : ℕ
  deriving DecidableEq

def DecoderBinding.validate (b : DecoderBinding) : Except WireError Unit :=
  if b.parent.id = 0 ∨ b.parent.hostBoot = 0 ∨ b.parent.osSession = 0 ∨ b.parent.remoteSession = 0 ∨
      b.display = 0 then .error .invalidBinding
  else .ok ()

def encodeBinding (b : DecoderBinding) : List Byte :=
  beBytes 16 b.parent.hostBoot ++ beBytes 16 b.parent.osSession ++
    beBytes 16 b.parent.remoteSession ++
    beBytes 16 b.display ++ beBytes 8 b.geometry ++ beBytes 8 b.configuration ++
      beBytes 8 b.recovery ++
    beBytes 8 b.viewport

/-- Require these bytes next. -/
def expectBytes (expected : List Byte) : Reader Unit := do
  let found ← Reader.take expected.length
  rejectIf (found ≠ expected) .invalidBinding

def checkBinding (b : DecoderBinding) : Reader Unit := do
  expectBytes (beBytes 16 b.parent.hostBoot)
  expectBytes (beBytes 16 b.parent.osSession)
  expectBytes (beBytes 16 b.parent.remoteSession)
  expectBytes (beBytes 16 b.display)
  expectBytes (beBytes 8 b.geometry)
  expectBytes (beBytes 8 b.configuration)
  expectBytes (beBytes 8 b.recovery)
  expectBytes (beBytes 8 b.viewport)

inductive RecoveryReason
  | referenceExpired | recoveryExpired | decodeFailed
  deriving DecidableEq, Repr

def RecoveryReason.code : RecoveryReason → ℕ
  | referenceExpired => 1
  | recoveryExpired => 2
  | decodeFailed => 3

def RecoveryReason.parse : ℕ → Except WireError RecoveryReason
  | 1 => .ok referenceExpired
  | 2 => .ok recoveryExpired
  | 3 => .ok decodeFailed
  | _ => .error .invalidValue

structure RecoveryRequest where
  reason : RecoveryReason
  /-- Successful decode, not receipt or visible output. -/
  lastUsefulFrame : Option ℕ
  deriving DecidableEq

def recoveryRole (direction : InputDirection) (delivery : InputDelivery) : Except WireError Unit :=
  if delivery ≠ .reliable then .error .wrongChannel
  else if direction ≠ .viewerToHost then .error .wrongRole
  else .ok ()

/-- The frame field is zero when no frame is known. -/
def usefulFrame : ℕ → ℕ → Except WireError (Option ℕ)
  | 0, 0 => .ok none
  | 1, value => .ok (some value)
  | _, _ => .error .invalidValue

def recoveryRequestFields (b : DecoderBinding) : Reader RecoveryRequest := do
  checkBinding b
  let version ← Reader.u8
  rejectIf (version ≠ 1) .unsupportedVersion
  let code ← Reader.u8
  let reason ← checked (RecoveryReason.parse code)
  let known ← Reader.u8
  let frame ← Reader.u64
  let lastUsefulFrame ← checked (usefulFrame known frame)
  pure ⟨reason,lastUsefulFrame⟩

/-- `recovery_request::encode`; the payload is `REQUEST_BYTES - HEADER_BYTES`. -/
def encodeRecoveryRequest (request : RecoveryRequest) (room : ℕ) (b : DecoderBinding)
    (limits : ProtocolLimits) (direction : InputDirection) (delivery : InputDelivery) :
    Except WireError (List Byte) := do
  b.validate
  recoveryRole direction delivery
  encodeBounded room limits.maxControlMessageBytes b.parent.id .recoveryRequest 107
    (encodeBinding b ++ beBytes 1 1 ++ beBytes 1 request.reason.code ++
      beBytes 1 (if request.lastUsefulFrame.isSome then 1 else 0) ++
      beBytes 8 (request.lastUsefulFrame.getD 0))

/-- `recovery_request::decode`. -/
def decodeRecoveryRequest (bytes : List Byte) (b : DecoderBinding) (limits : ProtocolLimits)
    (direction : InputDirection) (delivery : InputDelivery) : Except WireError RecoveryRequest := do
  b.validate
  recoveryRole direction delivery
  let record ← Record.decodeBounded bytes limits.maxControlMessageBytes b.parent.id none
  record.read .recoveryRequest (recoveryRequestFields b)

end FrankenRemote.Wire
