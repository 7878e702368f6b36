import FrankenRemote.WireChallenge

/-! The viewer's answers to authority challenges: at most one that is not sent yet. An answer
keeps a grant alive; it shows neither a fresh view nor input authority. -/
namespace FrankenRemote.Client

open Bytes Procedure Wire

/-- Microseconds on the viewer's monotonic clock. -/
abbrev ClientInstant := ℕ

inductive ResponderError
  | invalidConfiguration | stopped | clock | expired | backpressure | staleChallenge | wrongScope
  | wire (error : WireError)
  deriving DecidableEq

structure ObservationResponder where
  binding : AuthorityBinding
  scope : Scope
  limits : ProtocolLimits
  clock : ClientInstant
  nonce : Option ℕ
  hostDeadline : ℕ
  until_ : Option ClientInstant
  stopped : Bool
  bytes : List Byte
  deriving DecidableEq

namespace ObservationResponder

abbrev Responder := Proc ObservationResponder ResponderError

/-- A local retention bound: the longest that a reliable delivery may take. -/
def responseAllowance : ℕ := 2000000

def withScope (binding : AuthorityBinding) (scope : Scope) (limits : ProtocolLimits)
    (now : ClientInstant) : Except ResponderError ObservationResponder :=
  let required := headerBytes + if scope.isControl then
    maxAuthorityPayload else observationChallengePayload
  if binding.channel = 0 ∨ binding.session.raw = 0 ∨ limits.maxControlMessageBytes < required then
    .error .invalidConfiguration
  else .ok
    { binding, scope, limits
      clock := now
      nonce := none
      hostDeadline := 0
      until_ := none
      stopped := false
      bytes := [] }

def new (binding : AuthorityBinding) (limits : ProtocolLimits) (now : ClientInstant) :
    Except ResponderError ObservationResponder := withScope binding .observation limits now

def forControl (binding : AuthorityBinding) (lease : InputLeaseId) (limits : ProtocolLimits)
    (now : ClientInstant) : Except ResponderError ObservationResponder :=
  if lease.raw = 0 then .error .invalidConfiguration
  else withScope binding (.control lease) limits now

def stop (r : ObservationResponder) : ObservationResponder :=
  {r with stopped := true, until_ := none, bytes := []}

def fail {α : Type} (error : ResponderError) : Responder α := do
  modify stop
  throw error

def failIf (c : Prop) [Decidable c] (error : ResponderError) : Responder Unit :=
  if c then fail error else pure ()

def tick (now : ClientInstant) : Responder Unit := do
  refuseIf ((← get).stopped = true) .stopped
  failIf (now < (← get).clock) .clock
  modify ({· with clock := now})
  failIf ((← get).until_.any (· ≤ now) = true) .expired

/-- What a received challenge says. -/
def challengeOf : Except WireError AuthorityMessage → Responder (Scope × ℕ × ℕ)
  | .ok (.challenge scope nonce deadline) => pure (scope,nonce,deadline)
  | .ok (.response ..) => fail .wrongScope
  | .error error => fail (.wire error)

/-- The host's deadlines advance, so an earlier challenge cannot replace an answer. -/
def accept (bytes : List Byte) (now : ClientInstant) : Responder Unit := do
  tick now
  let r ← get
  refuseIf (r.until_.isSome = true) .backpressure
  let (scope,nonce,deadline) ← challengeOf
    (decodeMessage bytes r.binding r.limits .hostToViewer .reliable)
  failIf (scope ≠ r.scope) .wrongScope
  failIf (r.nonce = some nonce ∨ deadline ≤ r.hostDeadline) .staleChallenge
  match checkedAdd now responseAllowance with
  | none => fail .clock
  | some until_ => do
    let response ← ofResult ((encodeMessage (.response r.scope nonce) r.binding r.limits
      (headerBytes+maxAuthorityPayload) .viewerToHost .reliable).mapError .wire)
    modify ({· with
      bytes := response, nonce := some nonce, hostDeadline := deadline, until_ := some until_})

def pending (now : ClientInstant) : Responder (Option (List Byte)) := do
  tick now
  let r ← get
  pure (r.until_.map fun _ => r.bytes)

/-- Called only once the transport has the bytes. -/
def sent (now : ClientInstant) : Responder Unit := do
  tick now
  let r ← get
  modify ({· with until_ := none})
  failIf (r.until_ = none) .staleChallenge
  modify ({· with bytes := []})

end ObservationResponder

end FrankenRemote.Client
