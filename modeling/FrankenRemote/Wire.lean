import FrankenRemote.Bytes

/-! Errors and fixed sizes shared by every record codec. -/
namespace FrankenRemote.Wire

inductive WireError
  | truncated | trailingBytes | badMagic | unsupportedVersion | unsupportedKind | invalidFlags
  | invalidBinding | wrongChannel | wrongRole | invalidLimits | resourceLimit | arithmeticOverflow
  | invalidValue | invalidFragment | invalidDependency | invalidExtension | requiredExtension
  | invalidRanges | bufferTooSmall
  deriving DecidableEq, Repr

def headerBytes : ℕ := 24

/-- `b"FRD0"`. -/
def magic : List Bytes.Byte := [0x46,0x52,0x44,0x30]

end FrankenRemote.Wire
