import FrankenRemote.ClientInput
import FrankenRemote.WireMedia

/-! Presentation reports: the exact source identity of a visible picture and the viewer's
conservative age of it, or that nothing qualified is visible. -/
namespace FrankenRemote.Wire

open Bytes Input Client

structure Stamp where
  frame : ℕ
  captured : ℕ
  observed : ℕ
  source : SourceObservation
  deriving DecidableEq

structure Sample where
  stamp : Stamp
  ageUpper : ℕ
  deriving DecidableEq

def Sample.validate (s : Sample) : Except WireError Unit :=
  if s.stamp.observed < s.stamp.captured ∨ s.stamp.source = .unknown ∨
      (s.stamp.source = .captured ∧ s.stamp.observed ≠ s.stamp.captured) ∨
          maxSourceAge ≤ s.ageUpper then
    .error .invalidValue
  else .ok ()

/-- Nothing visible suspends readiness. -/
structure Report where
  sequence : ℕ
  visible : Option Sample
  deriving DecidableEq

/-- `BINDING_BYTES`. -/
def reportBindingBytes : ℕ := 96

/-- `BYTES - HEADER_BYTES`. -/
def presentedPayload : ℕ := reportBindingBytes+43

def reportBindingValid (b : ReportBinding) : Except WireError Unit :=
  if b.parent.id = 0 ∨ b.parent.hostBoot.raw = 0 ∨ b.parent.osSession = 0 ∨
      b.parent.remoteSession.raw = 0 ∨ b.display = 0 then .error .invalidBinding
  else .ok ()

/-- `role`. -/
def presentedRole (direction : InputDirection) (delivery : InputDelivery) : Except WireError Unit :=
  if direction ≠ .viewerToHost then .error .wrongRole
  else if delivery ≠ .reliable then .error .wrongChannel
  else .ok ()

/-- `write_binding`. -/
def writeReportBinding (b : ReportBinding) : List Byte :=
  beBytes 16 b.parent.hostBoot.raw ++ beBytes 16 b.parent.osSession ++
    beBytes 16 b.parent.remoteSession.raw ++
    beBytes 16 b.display ++ beBytes 8 b.geometry ++ beBytes 8 b.configuration ++
      beBytes 8 b.recovery.raw ++
    beBytes 8 b.viewport

/-- `check_binding`: the identifiers must be the expected ones before anything else is read. -/
def checkReportBinding (b : ReportBinding) : Reader Unit := do
  let hostBoot ← u128
  rejectIf (hostBoot ≠ b.parent.hostBoot.raw) .invalidBinding
  let osSession ← u128
  rejectIf (osSession ≠ b.parent.osSession) .invalidBinding
  let remoteSession ← u128
  rejectIf (remoteSession ≠ b.parent.remoteSession.raw) .invalidBinding
  let display ← u128
  rejectIf (display ≠ b.display) .invalidBinding
  let geometry ← Reader.u64
  rejectIf (geometry ≠ b.geometry) .invalidBinding
  let configuration ← Reader.u64
  rejectIf (configuration ≠ b.configuration) .invalidBinding
  let recovery ← Reader.u64
  rejectIf (recovery ≠ b.recovery.raw) .invalidBinding
  let viewport ← Reader.u64
  rejectIf (viewport ≠ b.viewport) .invalidBinding

/-- The fields of a report without a picture. -/
def Sample.blank : Sample := ⟨⟨0,0,0,.unknown⟩,0⟩

def writeReport (r : Report) : List Byte :=
  let s := r.visible.getD .blank
  beBytes 1 1 ++ beBytes 8 r.sequence ++ beBytes 1 (if r.visible.isSome then 1 else 0) ++
    beBytes 8 s.stamp.frame ++
    beBytes 8 s.stamp.captured ++ beBytes 8 s.stamp.observed ++ beBytes 1 s.stamp.source.code ++
      beBytes 8 s.ageUpper

/-- The picture of a report, by its stage. -/
def presentedVisible (stage : ℕ) (s : Sample) : Except WireError (Option Sample) :=
  if stage = 0 ∧ s = .blank then .ok none
  else if stage = 1 then do
    s.validate
    .ok (some s)
  else .error .invalidValue

def reportFields (b : ReportBinding) : Reader Report := do
  checkReportBinding b
  let version ← Reader.u8
  rejectIf (version ≠ 1) .unsupportedVersion
  let sequence ← Reader.u64
  rejectIf (sequence = 0) .invalidValue
  let stage ← Reader.u8
  let frame ← Reader.u64
  let captured ← Reader.u64
  let observed ← Reader.u64
  let source ← Reader.u8
  let source ← checked (SourceObservation.parse source)
  let ageUpper ← Reader.u64
  let visible ← checked (presentedVisible stage ⟨⟨frame,captured,observed,source⟩,ageUpper⟩)
  pure ⟨sequence,visible⟩

def Report.checkVisible (r : Report) : Except WireError Unit :=
  match r.visible with
  | some s => s.validate
  | none => .ok ()

def encodePresented (report : Report) (b : ReportBinding) (limits : ProtocolLimits) (room : ℕ)
    (direction : InputDirection) (delivery : InputDelivery) : Except WireError (List Byte) := do
  reportBindingValid b
  presentedRole direction delivery
  if report.sequence = 0 then .error .invalidValue
  else
    report.checkVisible
    encodeBounded room limits.maxControlMessageBytes b.parent.id .presentedState presentedPayload
      (writeReportBinding b ++ writeReport report)

def decodePresented (bytes : List Byte) (b : ReportBinding) (limits : ProtocolLimits)
    (direction : InputDirection) (delivery : InputDelivery) : Except WireError Report := do
  reportBindingValid b
  presentedRole direction delivery
  if bytes.length < headerBytes+presentedPayload then .error .truncated
  else if headerBytes+presentedPayload < bytes.length then .error .trailingBytes
  else
    let record ← Record.decodeBounded bytes limits.maxControlMessageBytes b.parent.id none
    record.read .presentedState (reportFields b)

/-! What was written is read back. -/

structure ReportBindingSized (b : ReportBinding) : Prop where
  id : b.parent.id < 256^4
  hostBoot : b.parent.hostBoot.raw < 256^16
  osSession : b.parent.osSession < 256^16
  remoteSession : b.parent.remoteSession.raw < 256^16
  display : b.display < 256^16
  geometry : b.geometry < 256^8
  configuration : b.configuration < 256^8
  recovery : b.recovery.raw < 256^8
  viewport : b.viewport < 256^8

structure Sample.Sized (s : Sample) : Prop where
  frame : s.stamp.frame < 256^8
  captured : s.stamp.captured < 256^8
  observed : s.stamp.observed < 256^8
  ageUpper : s.ageUpper < 256^8

structure Report.Sized (r : Report) : Prop where
  sequence : r.sequence < 256^8
  visible : ∀ s, r.visible = some s → s.Sized

theorem Sample.blank_sized : Sample.blank.Sized := by
  constructor <;> simp [blank]

section Written

variable {α : Type} {rest : List Byte}

theorem parse_checkReportBinding_bind {b} (h : ReportBindingSized b) (f : Unit → Reader α) :
    parse (checkReportBinding b >>= f) (writeReportBinding b ++ rest) = parse (f ()) rest := by
  apply parse_bind_ok
  simp only [writeReportBinding,List.append_assoc,checkReportBinding,u128,Reader.u64]
  simp only [parse_takeNat_bind h.hostBoot,parse_takeNat_bind h.osSession,
    parse_takeNat_bind h.remoteSession,
    parse_takeNat_bind h.display,parse_takeNat_bind h.geometry,parse_takeNat_bind h.configuration,
    parse_takeNat_bind h.recovery,parse_takeNat_bind h.viewport,parse_rejectIf_bind,ne_eq,
      not_true_eq_false,
    if_false]
  simp [rejectIf]

theorem SourceObservation.code_lt (o : SourceObservation) : o.code < 256^1 := by
  cases o <;> simp [code]

theorem presentedVisible_written {v} (h : ∀ s, v = some s → s.validate = .ok ()) :
    presentedVisible (if v.isSome then 1 else 0) (v.getD .blank) = .ok v := by
  cases v with
  | none => rfl
  | some s =>
    simp only [presentedVisible,Option.isSome_some,if_true,Option.getD_some,one_ne_zero,false_and,
      if_false,h s rfl]
    rfl

theorem parse_reportFields {b} {r : Report} (hb : ReportBindingSized b) (hr : r.Sized)
    (hsq : r.sequence ≠ 0) (hva : ∀ s, r.visible = some s → s.validate = .ok ()) :
    parse (reportFields b) (writeReportBinding b ++ writeReport r) = .ok (r,[]) := by
  have hs : (r.visible.getD .blank).Sized := by
    cases hv : r.visible with
    | none => exact Sample.blank_sized
    | some s => exact hr.visible s hv
  have hstate : (if r.visible.isSome then 1 else 0) < 256^1 := by split <;> decide
  rw [reportFields,parse_checkReportBinding_bind hb]
  simp only [writeReport,List.append_assoc,Reader.u8,Reader.u64]
  rw [← List.append_nil (beBytes 8 (r.visible.getD .blank).ageUpper)]
  rw [parse_takeNat_bind (by decide),parse_rejectIf_bind,if_neg (by simp),
    parse_takeNat_bind hr.sequence,
    parse_rejectIf_bind,if_neg hsq,parse_takeNat_bind hstate,parse_takeNat_bind hs.frame,
    parse_takeNat_bind hs.captured,parse_takeNat_bind hs.observed,
    parse_takeNat_bind (SourceObservation.code_lt _),parse_checked_bind_ok
      (SourceObservation.parse_eq_ok.mpr rfl),
    parse_takeNat_bind hs.ageUpper,parse_checked_bind_ok (presentedVisible_written hva),parse_pure]

end Written

theorem encodePresented_eq_ok {r b l room d de bs}
    (h : encodePresented r b l room d de = .ok bs) :
    reportBindingValid b = .ok () ∧ presentedRole d de = .ok () ∧ r.sequence ≠ 0 ∧
      (∀ s, r.visible = some s → s.validate = .ok ()) ∧
      encodeBounded room l.maxControlMessageBytes b.parent.id .presentedState presentedPayload
        (writeReportBinding b ++ writeReport r) = .ok bs := by
  obtain ⟨_,hb,h⟩ := bind_eq_ok.mp h
  obtain ⟨_,hrole,h⟩ := bind_eq_ok.mp h
  split at h
  · cases h
  rename_i hsq
  obtain ⟨_,hv,h⟩ := bind_eq_ok.mp h
  refine ⟨hb,hrole,hsq,fun s hs => ?_,h⟩
  simpa only [Report.checkVisible,hs] using hv

theorem decodePresented_encodePresented {r : Report} {b l room d de bs} (hb : ReportBindingSized b)
    (hr : r.Sized)
    (h : encodePresented r b l room d de = .ok bs) : decodePresented bs b l d de = .ok r := by
  obtain ⟨hbi,hrole,hs,hv,h⟩ := encodePresented_eq_ok h
  have hlen : bs.length = headerBytes+presentedPayload := by
    obtain ⟨_,_,_,_,hlen,rfl⟩ := encodeBounded_eq_ok.mp h
    rw [List.length_append,length_encodeHeader,hlen]
  have hrec := decode_encodeBounded hb.id h
  rw [show Kind.presentedState.channel = none from rfl] at hrec
  have hread : Record.read ⟨.presentedState,b.parent.id,writeReportBinding b ++ writeReport r⟩
      .presentedState (reportFields b) = .ok r :=
    read_eq_ok.mpr ⟨rfl,parse_reportFields hb hr hs hv⟩
  refine bind_eq_ok.mpr ⟨(),hbi,bind_eq_ok.mpr ⟨(),hrole,?_⟩⟩
  rw [if_neg (by omega),if_neg (by omega)]
  exact bind_eq_ok.mpr ⟨_,hrec,hread⟩

def sampleReportBinding : ReportBinding := ⟨⟨9,⟨1⟩,2,⟨3⟩⟩,4,5,6,⟨7⟩,8⟩

theorem sampleReportBinding_sized : ReportBindingSized sampleReportBinding := by
  constructor <;> decide

end FrankenRemote.Wire
