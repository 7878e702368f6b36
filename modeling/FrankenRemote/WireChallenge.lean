import FrankenRemote.WireInput

/-! Authority challenges and their responses. Identifiers are bindings, not authentication. -/
namespace FrankenRemote.Wire

open Bytes Input

def observationChallengePayload : ℕ := 42

/-- `MAX_AUTHORITY_BYTES - HEADER_BYTES`. -/
def maxAuthorityPayload : ℕ := observationChallengePayload+16

structure AuthorityBinding where
  channel : ℕ
  session : RemoteSessionId
  deriving DecidableEq

inductive Scope
  | observation
  | control (lease : InputLeaseId)
  deriving DecidableEq

/-- `Message`. The deadline is an opaque host deadline to a viewer. -/
inductive AuthorityMessage
  | challenge (scope : Scope) (nonce deadline : ℕ)
  | response (scope : Scope) (nonce : ℕ)
  deriving DecidableEq

/-- A control scope names its lease. -/
def Scope.named : Scope → Bool
  | observation => true
  | control lease => lease.raw ≠ 0

def Scope.isControl : Scope → Bool
  | observation => false
  | control _ => true

namespace AuthorityMessage

def scope : AuthorityMessage → Scope
  | challenge scope _ _ | response scope _ => scope

def nonce : AuthorityMessage → ℕ
  | challenge _ nonce _ | response _ nonce => nonce

def kind : AuthorityMessage → Kind
  | challenge .. => .challenge
  | response .. => .challengeResponse

/-- Only a challenge has a deadline, and then it is not zero. -/
def timed : AuthorityMessage → Bool
  | challenge _ _ deadline => deadline ≠ 0
  | response .. => true

def validate (m : AuthorityMessage) : Except WireError Unit :=
  if m.nonce = 0 ∨ m.scope.named = false ∨ m.timed = false then .error .invalidValue
  else .ok ()

end AuthorityMessage

/-- `role`. -/
def authorityRole (kind : Kind) (direction : InputDirection) (delivery : InputDelivery) :
    Except WireError Unit :=
  if delivery ≠ .reliable then .error .wrongChannel
  else match kind with
    | .challenge => if direction ≠ .hostToViewer then .error .wrongRole else .ok ()
    | .challengeResponse => if direction ≠ .viewerToHost then .error .wrongRole else .ok ()
    | _ => .error .unsupportedKind

/-- `validate_binding`. -/
def AuthorityBinding.validate (b : AuthorityBinding) : Except WireError Unit :=
  if b.channel = 0 ∨ b.session.raw = 0 then .error .invalidBinding else .ok ()

def controlScope : Reader Scope := do
  let lease ← u128
  pure (.control ⟨lease⟩)

/-- The scope is written twice. -/
def scopeBy : ℕ → ℕ → Reader Scope
  | 0,0 => pure .observation
  | 1,1 => controlScope
  | _,_ => throw .invalidValue

def authorityScope : Reader Scope := do
  let first ← Reader.u8
  let second ← Reader.u8
  scopeBy first second

def encodeScope : Scope → List Byte
  | .observation => beBytes 1 0 ++ beBytes 1 0
  | .control lease => beBytes 1 1 ++ beBytes 1 1 ++ beBytes 16 lease.raw

def authorityFields (binding : AuthorityBinding) (kind : Kind) : Reader AuthorityMessage := do
  let session ← u128
  rejectIf (session ≠ binding.session.raw) .invalidBinding
  let scope ← authorityScope
  let nonce ← u128
  if kind = .challenge then
    let deadline ← Reader.u64
    pure (.challenge scope nonce deadline)
  else pure (.response scope nonce)

def encodeAuthorityFields (binding : AuthorityBinding) : AuthorityMessage → List Byte
  | .challenge scope nonce deadline =>
    beBytes 16 binding.session.raw ++ encodeScope scope ++ beBytes 16 nonce ++ beBytes 8 deadline
  | .response scope nonce => beBytes 16 binding.session.raw ++ encodeScope scope ++ beBytes 16 nonce

def authorityPayload (m : AuthorityMessage) : ℕ :=
  34 + (if m.scope.isControl then 16 else 0) + (if m.kind = .challenge then 8 else 0)

/-- `encode`. -/
def encodeMessage (message : AuthorityMessage) (binding : AuthorityBinding)
    (limits : ProtocolLimits) (room : ℕ) (direction : InputDirection) (delivery : InputDelivery) :
    Except WireError (List Byte) := do
  binding.validate
  message.validate
  authorityRole message.kind direction delivery
  encodeBounded room limits.maxControlMessageBytes binding.channel message.kind
    (authorityPayload message) (encodeAuthorityFields binding message)

/-- `decode`. -/
def decodeMessage (bytes : List Byte) (binding : AuthorityBinding) (limits : ProtocolLimits)
    (direction : InputDirection) (delivery : InputDelivery) :
    Except WireError AuthorityMessage := do
  binding.validate
  let record ← Record.decodeBounded bytes limits.maxControlMessageBytes binding.channel none
  authorityRole record.kind direction delivery
  let message ← record.read record.kind (authorityFields binding record.kind)
  message.validate
  .ok message

end FrankenRemote.Wire
