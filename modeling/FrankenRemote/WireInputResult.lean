import FrankenRemote.InputSession
import FrankenRemote.WireInput

/-! Terminal input receipts on the wire. They carry no ticket, coordinate, key or text, and
parsing one neither authorizes nor retries input. -/
namespace FrankenRemote.Wire

open Bytes Input

def inputResultPayload : ℕ := 50

/-- What the receiver expects. The identifiers alone grant nothing. -/
structure ResultBinding where
  channel : ℕ
  session : RemoteSessionId
  lease : InputLeaseId
  deriving DecidableEq

inductive SequenceSpace
  | action | pointer
  deriving DecidableEq, Repr

/-- `Stage`: how far an acknowledgement goes. -/
inductive ResultStage
  | admitted | submittedToOs | observed
  deriving DecidableEq, Repr

/-- Refusal categories. Internal details of an error never cross the wire. -/
inductive Reason
  | invalidState | observationExpired | noLease | staleLease | leaseExpired | viewUnready
  | controllerBusy | controllerCleanupRequired | ticketInvalid | ticketExpired | challengeMismatch
  | challengePending | challengeExpired | clockRegression | deadlineOverflow
  | invalidReceiptCapacity | sequenceFenced | previousActionPending | sequenceGap | notPending
  | staleSession | staleView | outOfBounds | unsupported | invalidTransition | relativeOverflow
  | modeMismatch | revoked | permissionMissing | platformGeometryChanged | platformUnavailable
  | unknownEffect | authorityUnavailable
  deriving DecidableEq, Repr

namespace Reason

def all : List Reason :=
  [invalidState,observationExpired,noLease,staleLease,leaseExpired,viewUnready,controllerBusy,
    controllerCleanupRequired,ticketInvalid,ticketExpired,challengeMismatch,challengePending,
    challengeExpired,clockRegression,deadlineOverflow,invalidReceiptCapacity,sequenceFenced,
    previousActionPending,sequenceGap,notPending,staleSession,staleView,outOfBounds,unsupported,
    invalidTransition,relativeOverflow,modeMismatch,revoked,permissionMissing,
    platformGeometryChanged,platformUnavailable,unknownEffect,authorityUnavailable]

def code (r : Reason) : ℕ := all.idxOf r + 1

/-- Zero is no reason at all. -/
def optionCode : Option Reason → ℕ
  | none => 0
  | some r => r.code

/-- `parse`. -/
def ofOptionCode (v : ℕ) : Except WireError (Option Reason) :=
  ofCode (none :: all.map some) optionCode v

def isExpiry : Reason → Bool
  | observationExpired | leaseExpired | ticketExpired => true
  | _ => false

def ofAuthority : Authority.AuthorityError → Except WireError Reason
  | .invalidState _ => .ok invalidState
  | .observationExpired => .ok observationExpired
  | .noLease => .ok noLease
  | .staleLease => .ok staleLease
  | .leaseExpired => .ok leaseExpired
  | .viewUnready => .ok viewUnready
  | .controllerBusy => .ok controllerBusy
  | .controllerCleanupRequired => .ok controllerCleanupRequired
  | .ticketInvalid => .ok ticketInvalid
  | .ticketExpired => .ok ticketExpired
  | .challengeMismatch => .ok challengeMismatch
  | .challengePending => .ok challengePending
  | .challengeExpired => .ok challengeExpired
  | .clockRegression => .ok clockRegression
  | .deadlineOverflow => .ok deadlineOverflow
  | _ => .error .unsupportedKind

def ofSequence : InputSequenceError → Except WireError Reason
  | .invalidCapacity _ => .ok invalidReceiptCapacity
  | .staleLease => .ok staleLease
  | .fenced => .ok sequenceFenced
  | .previousActionPending _ => .ok previousActionPending
  | .sequenceGap _ _ => .ok sequenceGap
  | .notPending => .ok notPending

/-- `try_from`. Some refusals have no category. -/
def ofRefusal : Refusal → Except WireError Reason
  | .authority error => ofAuthority error
  | .sequence error => ofSequence error
  | .staleSession => .ok staleSession
  | .staleLease => .ok staleLease
  | .staleView => .ok staleView
  | .outOfBounds => .ok outOfBounds
  | .unsupported | .platform .unsupported => .ok unsupported
  | .invalidTransition => .ok invalidTransition
  | .relativeOverflow => .ok relativeOverflow
  | .modeMismatch => .ok modeMismatch
  | .revoked => .ok revoked
  | .platform .permission => .ok permissionMissing
  | .platform .geometryChanged => .ok platformGeometryChanged
  | .platform .unavailable => .ok platformUnavailable
  | .unknownEffect => .ok unknownEffect
  | .authorityUnavailable => .ok authorityUnavailable
  -- Another executor enforced the deadline of the ticket, which is all that a client can act on.
  | .expiredAtBoundary => .ok ticketExpired

end Reason

structure InputResult where
  binding : ResultBinding
  sequence : ℕ
  space : SequenceSpace
  stage : ResultStage
  outcome : InputOutcome
  submittedOperations : ℕ
  unknownNextOperation : Bool
  reason : Option Reason
  deriving DecidableEq

namespace InputResult

/-- What an outcome says about its prefix and its reason. -/
def Consistent (r : InputResult) : Prop :=
  match r.outcome with
  | .submittedToOs => r.submittedOperations ≠ 0 ∧ r.reason = none
  | .appliedLocally => r.submittedOperations = 0 ∧ r.reason = none
  | .rejectedBeforeSubmission => r.submittedOperations = 0 ∧
      r.reason.any (fun x => !x.isExpiry && x ≠ .revoked && x ≠ .unknownEffect) = true
  | .expiredBeforeSubmission => r.submittedOperations = 0 ∧ r.reason.any Reason.isExpiry = true
  | .cancelledBeforeSubmission => r.submittedOperations = 0 ∧ r.reason = some .revoked
  | .partiallySubmittedToOs => r.submittedOperations ≠ 0 ∧ r.reason.any (· ≠ .unknownEffect) = true
  | .effectUnknown => r.reason = some .unknownEffect

instance (r : InputResult) : Decidable r.Consistent := by
  unfold Consistent
  split <;> infer_instance

def validate (r : InputResult) : Except WireError Unit :=
  if r.binding.channel = 0 then .error .invalidBinding
  else if maxCommittedTextBytes < r.submittedOperations ∨
      ((r.unknownNextOperation = true ∨ r.outcome = .partiallySubmittedToOs) ∧
        r.submittedOperations = maxCommittedTextBytes) then .error .resourceLimit
  else if r.space = .pointer ∧ (1 < r.submittedOperations ∨
      (r.outcome = .effectUnknown ∧ r.submittedOperations ≠ 0) ∨ r.outcome = .appliedLocally ∨
      r.outcome = .partiallySubmittedToOs) then .error .invalidValue
  else if r.unknownNextOperation ≠ decide (r.outcome = .effectUnknown) ∨
      (r.stage = .admitted ↔ r.submittedOperations ≠ 0) ∨
      (r.stage = .observed ∧ r.outcome ≠ .submittedToOs) then .error .invalidValue
  else if r.Consistent then .ok ()
  else .error .invalidValue

/-- `receipt.refusal.map(Reason::try_from).transpose()`. -/
def reasonOf : Option Refusal → Except WireError (Option Reason)
  | none => .ok none
  | some refusal => (Reason.ofRefusal refusal).map some

def fromReceipt (binding : ResultBinding) (space : SequenceSpace) (receipt : Receipt) :
    Except WireError InputResult := do
  let reason ← reasonOf receipt.refusal
  let result : InputResult :=
    { binding
      sequence := receipt.sequence
      space
      stage := if receipt.submittedOperations = 0 then .admitted else .submittedToOs
      outcome := receipt.outcome
      submittedOperations := receipt.submittedOperations
      unknownNextOperation := receipt.outcome = .effectUnknown
      reason }
  result.validate
  .ok result

end InputResult

/-! The record. -/

/-- `route`. -/
def resultRoute (direction : InputDirection) (delivery : InputDelivery) : Except WireError Unit :=
  if direction ≠ .hostToViewer then .error .wrongRole
  else if delivery ≠ .reliable then .error .wrongChannel
  else .ok ()

def sequenceSpaceCode : SequenceSpace → ℕ
  | .action => 0
  | .pointer => 1

def sequenceSpace : ℕ → Except WireError SequenceSpace :=
  ofCode [.action,.pointer] sequenceSpaceCode

def resultStageCode : ResultStage → ℕ
  | .admitted => 0
  | .submittedToOs => 1
  | .observed => 2

def resultStage : ℕ → Except WireError ResultStage :=
  ofCode [.admitted,.submittedToOs,.observed] resultStageCode

def inputOutcomeCode : InputOutcome → ℕ
  | .submittedToOs => 0
  | .appliedLocally => 1
  | .rejectedBeforeSubmission => 2
  | .expiredBeforeSubmission => 3
  | .cancelledBeforeSubmission => 4
  | .partiallySubmittedToOs => 5
  | .effectUnknown => 6

def inputOutcome : ℕ → Except WireError InputOutcome :=
  ofCode [.submittedToOs,.appliedLocally,.rejectedBeforeSubmission,.expiredBeforeSubmission,
    .cancelledBeforeSubmission,.partiallySubmittedToOs,.effectUnknown] inputOutcomeCode

/-- The identifiers must be the expected ones before anything else is read. -/
def inputResultFields (binding : ResultBinding) : Reader InputResult := do
  let session ← u128
  rejectIf (session ≠ binding.session.raw) .invalidBinding
  let lease ← u128
  rejectIf (lease ≠ binding.lease.raw) .invalidBinding
  let sequence ← Reader.u64
  let space ← Reader.u8
  let space ← checked (sequenceSpace space)
  let stage ← Reader.u8
  let stage ← checked (resultStage stage)
  let outcome ← Reader.u8
  let outcome ← checked (inputOutcome outcome)
  let submittedOperations ← Reader.u32
  let unknownNextOperation ← Reader.u8
  let unknownNextOperation ← checked (boolean unknownNextOperation)
  let reason ← Reader.u16
  let reason ← checked (Reason.ofOptionCode reason)
  pure {binding, sequence, space, stage, outcome, submittedOperations, unknownNextOperation, reason}

def encodeResultFields (r : InputResult) : List Byte :=
  beBytes 16 r.binding.session.raw ++ beBytes 16 r.binding.lease.raw ++ beBytes 8 r.sequence ++
    beBytes 1 (sequenceSpaceCode r.space) ++ beBytes 1 (resultStageCode r.stage) ++
    beBytes 1 (inputOutcomeCode r.outcome) ++ beBytes 4 r.submittedOperations ++
    beBytes 1 r.unknownNextOperation.toNat ++ beBytes 2 (Reason.optionCode r.reason)

def decodeInputResult (bytes : List Byte) (limits : ProtocolLimits) (binding : ResultBinding)
    (direction : InputDirection) (delivery : InputDelivery) : Except WireError InputResult := do
  resultRoute direction delivery
  let record ← Record.decodeBounded bytes limits.maxControlMessageBytes binding.channel none
  let result ← record.read .inputResult (inputResultFields binding)
  result.validate
  .ok result

def encodeInputResult (result : InputResult) (room : ℕ) (limits : ProtocolLimits)
    (direction : InputDirection) (delivery : InputDelivery) : Except WireError (List Byte) := do
  resultRoute direction delivery
  result.validate
  encodeBounded room limits.maxControlMessageBytes result.binding.channel .inputResult
    inputResultPayload (encodeResultFields result)

/-- The widths of the source's types. -/
structure InputResult.Sized (r : InputResult) : Prop where
  channel : r.binding.channel < 256^4
  session : r.binding.session.raw < 256^16
  lease : r.binding.lease.raw < 256^16
  sequence : r.sequence < 256^8
  operations : r.submittedOperations < 256^4

section Codec

variable {v : ℕ} {r : InputResult}

theorem sequenceSpace_eq_ok {s} : sequenceSpace v = .ok s ↔ v = sequenceSpaceCode s :=
  ofCode_eq_ok fun a => by cases a <;> rfl

theorem resultStage_eq_ok {s} : resultStage v = .ok s ↔ v = resultStageCode s :=
  ofCode_eq_ok fun a => by cases a <;> rfl

theorem inputOutcome_eq_ok {o} : inputOutcome v = .ok o ↔ v = inputOutcomeCode o :=
  ofCode_eq_ok fun a => by cases a <;> rfl

theorem reason_eq_ok {o} : Reason.ofOptionCode v = .ok o ↔ v = Reason.optionCode o :=
  ofCode_eq_ok fun a => by
    rcases a with _ | a
    · rfl
    · cases a <;> rfl

theorem reason_code_lt (o : Option Reason) : Reason.optionCode o < 256^2 := by
  rcases o with _ | a
  · decide
  · cases a <;> decide

theorem length_encodeResultFields (r : InputResult) :
    (encodeResultFields r).length = inputResultPayload := by
  simp [encodeResultFields,inputResultPayload]

theorem parse_inputResultFields (h : r.Sized) :
    parse (inputResultFields r.binding) (encodeResultFields r) = .ok (r,[]) := by
  have hs : sequenceSpaceCode r.space < 256^1 := by cases r.space <;> decide
  have hstate : resultStageCode r.stage < 256^1 := by cases r.stage <;> decide
  have ho : inputOutcomeCode r.outcome < 256^1 := by cases r.outcome <;> decide
  have hu : r.unknownNextOperation.toNat < 256^1 := by cases r.unknownNextOperation <;> decide
  rw [encodeResultFields,← List.append_nil (beBytes 2 _)]
  simp only [List.append_assoc]
  rw [inputResultFields,parse_takeNat_bind h.session,parse_rejectIf_bind,if_neg (not_not.mpr rfl),
    parse_takeNat_bind h.lease,parse_rejectIf_bind,if_neg (not_not.mpr rfl),
      parse_takeNat_bind h.sequence,
    parse_takeNat_bind hs,parse_checked_bind_ok (sequenceSpace_eq_ok.mpr rfl),
      parse_takeNat_bind hstate,
    parse_checked_bind_ok (resultStage_eq_ok.mpr rfl),parse_takeNat_bind ho,
    parse_checked_bind_ok (inputOutcome_eq_ok.mpr rfl),parse_takeNat_bind h.operations,
    parse_takeNat_bind hu,parse_checked_bind_ok (boolean_eq_ok.mpr rfl),
    parse_takeNat_bind (reason_code_lt r.reason),parse_checked_bind_ok
      (reason_eq_ok.mpr rfl),parse_pure]

theorem decodeInputResult_encodeInputResult {room l d de b} (hs : r.Sized)
    (h : encodeInputResult r room l d de = .ok b) :
    decodeInputResult b l r.binding d de = .ok r := by
  obtain ⟨_,hr,h⟩ := bind_eq_ok.mp h
  obtain ⟨_,hv,h⟩ := bind_eq_ok.mp h
  have hrec := decode_encodeBounded hs.channel h
  refine bind_eq_ok.mpr ⟨_,hr,bind_eq_ok.mpr ⟨_,hrec,?_⟩⟩
  refine bind_eq_ok.mpr ⟨r,read_eq_ok.mpr ⟨rfl,parse_inputResultFields hs⟩,?_⟩
  exact bind_eq_ok.mpr ⟨_,hv,rfl⟩

end Codec

end FrankenRemote.Wire
