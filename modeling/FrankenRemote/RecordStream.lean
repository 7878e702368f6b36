import FrankenRemote.Wire
import FrankenRemote.Procedure
import FrankenRemote.Primitives

/-! Incremental framing of one reliable stream. The owner keeps at most one bounded
record across arbitrary read boundaries; what it hands out is a function of the
byte string alone. -/
namespace FrankenRemote.Framing

open Bytes Wire Procedure

inductive StreamError
  | wire (e : WireError)
  | invalidPolicy | allocation | expired | clockRegression | closed
  deriving DecidableEq, Repr

/-- `header` holds the header bytes received so far and `capacity` is that of the one
record allocation, which survives `clear`. -/
structure RecordStream where
  maximum : ℕ
  lifetime : ℕ
  binding : ℕ
  header : List Byte
  record : List Byte
  capacity : ℕ
  total : Option ℕ
  until_ : Option ℕ
  lastNow : Option ℕ
  failure : Option StreamError
  closed : Bool
  deriving DecidableEq, Repr

/-- `ProtocolLimits::ABSOLUTE.max_control_message_bytes()`. -/
def maxControlMessageBytes : ℕ := 64*1024

/-- `negotiation::MAX_RECORD`. -/
def maxNegotiationRecord : ℕ := 4096

def newInner (maximum binding lifetime : ℕ) : Except StreamError RecordStream :=
  if ¬(headerBytes ≤ maximum ∧ maximum ≤ maxControlMessageBytes) ∨
      ¬(1 ≤ lifetime ∧ lifetime ≤ 5000000) then .error .invalidPolicy
  else .ok ⟨maximum,lifetime,binding,[],[],0,none,none,none,none,false⟩

def new (maximum binding lifetime : ℕ) : Except StreamError RecordStream :=
  if binding = 0 then .error .invalidPolicy else newInner maximum binding lifetime

def negotiation (maximum lifetime : ℕ) : Except StreamError RecordStream :=
  newInner (min maximum maxNegotiationRecord) 0 lifetime

/-- `usize` growth of the record buffer: `alloc capacity needed` is the capacity the
allocator answers with, or a refusal. It is asked only when the buffer is too small. -/
abbrev Allocator := ℕ → ℕ → Option ℕ

/-- `try_reserve_exact`, then the charge of the capacity against `maximum`. -/
def reserve (alloc : Allocator) (maximum capacity needed : ℕ) : Option ℕ :=
  (if needed ≤ capacity then some capacity else alloc capacity needed).filter (· ≤ maximum)

/-- Big-endian word of the header at byte `i`. -/
def word (h : List Byte) (i : ℕ) : ℕ := beNat ((h.drop i).take 4)

def kindCode (h : List Byte) : ℕ := beNat ((h.drop 6).take 2)

/-- Kinds an unbound stream admits. -/
def initialKind (kind : ℕ) : Bool :=
  (0x0001 ≤ kind && kind ≤ 0x0004) || kind = 0x0010 || kind = 0x0011 || kind =
    0x001d || kind = 0x001e

/-- Exact payload of a bootstrap close, `REQUEST_BYTES` and `CLOSED_BYTES` without header. -/
def fixedPayload (kind : ℕ) : Option ℕ :=
  if kind = 0x001d then some 19 else if kind = 0x001e then some 28 else none

/-- The complete header decides the record's total length. -/
def validateHeader (binding maximum : ℕ) (h : List Byte) : Except WireError ℕ := do
  if h.take 4 ≠ magic then throw .badMagic
  if (h.drop 4).take 2 ≠ [0,0] then throw .unsupportedVersion
  if (h.drop 8).take 4 ≠ [0,0,0,0] then throw .invalidFlags
  if binding = 0 ∧ ¬initialKind (kindCode h) then throw .unsupportedKind
  if word h 16 ≠ binding then throw .invalidBinding
  if binding = 0 ∧ (fixedPayload (kindCode h)).any (fun n => word h 12 ≠ n ∨ word h 20 ≠ 0) then
    throw .invalidValue
  if word h 12 < word h 20 then throw .invalidExtension
  if maximum < headerBytes + word h 12 then throw .resourceLimit
  pure (headerBytes + word h 12)

namespace RecordStream

def close (s : RecordStream) : RecordStream :=
  {s with closed := true, header := [], record := [], capacity := 0, total := none, until_ := none}

def ready (s : RecordStream) : Bool := s.total.any (s.record.length = ·)

def bufferedBytes (s : RecordStream) : ℕ :=
  if s.total.isSome then s.record.length else s.header.length

end RecordStream

open RecordStream

abbrev Call := Proc RecordStream StreamError

def fail {α : Type} (e : StreamError) : Call α := do
  modify fun s => {s.close with failure := some e}
  throw e

def tick (now : ℕ) : Call Unit := do
  let s ← get
  match s.failure with
  | some e => throw e
  | none => do
    refuseIf s.closed .closed
    if s.lastNow.any (now < ·) then fail .clockRegression
    else do
      modify ({· with lastNow := some now})
      if s.until_.any (· ≤ now) then fail .expired

/-- Start the record's deadline at its first byte. -/
def startDeadline (now : ℕ) : Call Unit := do
  let s ← get
  if s.until_ = none then
    match checkedAdd now s.lifetime with
    | some until_ => modify ({· with until_ := some until_})
    | none => fail (.wire .arithmeticOverflow)

/-- A complete header is validated before anything is allocated for its record. -/
def acceptHeader (alloc : Allocator) : Call Unit := do
  let s ← get
  match validateHeader s.binding s.maximum s.header with
  | .error e => fail (.wire e)
  | .ok total =>
    match reserve alloc s.maximum s.capacity (s.record.length+total) with
    | none => fail .allocation
    | some capacity =>
      modify ({· with capacity := capacity, record := s.record++s.header, total := some total})

/-- Take header bytes. The answer is the number taken and whether the header is complete. -/
def pushHeader (alloc : Allocator) (bytes : List Byte) : Call (ℕ × Bool) := do
  let s ← get
  if s.header.length < headerBytes then do
    let n := min (headerBytes - s.header.length) bytes.length
    modify ({· with header := s.header ++ bytes.take n})
    if s.header.length + n < headerBytes then pure (n,false)
    else do
      acceptHeader alloc
      pure (n,true)
  else pure (0,true)

def pushBody (bytes : List Byte) (consumed : ℕ) : Call ℕ := do
  let s ← get
  let remaining := s.total.getD 0 - s.record.length
  let n := min remaining (bytes.length - consumed)
  modify ({· with record := s.record ++ (bytes.drop consumed).take n})
  pure (consumed+n)

/-- Consume at most one record. -/
def push (alloc : Allocator) (bytes : List Byte) (now : ℕ) : Call ℕ := do
  tick now
  let s ← get
  if bytes = [] ∨ s.ready then pure 0
  else do
    startDeadline now
    let (consumed,complete) ← pushHeader alloc bytes
    if complete then pushBody bytes consumed else pure consumed

def frame (now : ℕ) : Call (Option (List Byte)) := do
  tick now
  let s ← get
  pure (if s.ready then some s.record else none)

def consume (now : ℕ) : Call Unit := do
  tick now
  let s ← get
  refuseIf (¬s.ready) (.wire .truncated)
  modify ({· with header := [], record := [], total := none, until_ := none})

def finish (now : ℕ) : Call Unit := do
  tick now
  let s ← get
  if s.header.length ≠ 0 then fail (.wire .truncated)
  else modify close

end FrankenRemote.Framing
