import FrankenRemote.Wire

/-! Negotiated ceilings. Both structures are only built validated, so their bounds are
fields. -/
namespace FrankenRemote

/-- The negotiated ceilings that media delivery reads. -/
structure ProtocolLimits where
  maxControlMessageBytes : ℕ
  maxEncodedAccessUnitBytes : ℕ
  reassemblyWindowPictures : ℕ
  perViewerCompressedBytes : ℕ
  control_le : maxControlMessageBytes ≤ 64*1024
  unit_le : maxEncodedAccessUnitBytes ≤ 16*1024*1024
  window_floor : 2 ≤ reassemblyWindowPictures
  window_ceiling : reassemblyWindowPictures ≤ 12
  compressed_le : perViewerCompressedBytes ≤ 32*1024*1024
  deriving DecidableEq

/-- Absolute ceiling for fragments in one picture. -/
def maxFragmentsCeiling : ℕ := 16384

/-- Absolute ceiling for missing ranges in one request. -/
def maxRepairRangesCeiling : ℕ := 64

/-- Worst-case complete fragment overhead, including a predicted reference. -/
def fragmentOverhead : ℕ := 73

/-- Complete reliable recovery-chunk overhead. -/
def recoveryOverhead : ℕ := 52

/-- The selected caps of one media transport. -/
structure MediaLimits where
  protocol : ProtocolLimits
  recordBytes : ℕ
  maxFragments : ℕ
  maxRepairRanges : ℕ
  record_gt : fragmentOverhead < recordBytes
  record_le : recordBytes ≤ protocol.maxControlMessageBytes
  fragments_pos : 0 < maxFragments
  fragments_le : maxFragments ≤ maxFragmentsCeiling
  ranges_pos : 0 < maxRepairRanges
  ranges_le : maxRepairRanges ≤ maxRepairRangesCeiling
  deriving DecidableEq

namespace MediaLimits

def new (protocol : ProtocolLimits) (recordBytes fragments repairRanges : ℕ) :
    Except Wire.WireError MediaLimits :=
  if h : fragmentOverhead < recordBytes ∧ recordBytes ≤ protocol.maxControlMessageBytes ∧
      0 < fragments ∧ fragments ≤ maxFragmentsCeiling ∧ 0 < repairRanges ∧
      repairRanges ≤ maxRepairRangesCeiling then
    .ok ⟨protocol,recordBytes,fragments,repairRanges,h.1,h.2.1,h.2.2.1,h.2.2.2.1,h.2.2.2.2.1,
      h.2.2.2.2.2⟩
  else .error .invalidLimits

def fragmentStride (l : MediaLimits) : ℕ := l.recordBytes - fragmentOverhead

theorem recordBytes_le (l : MediaLimits) : l.recordBytes ≤ 64*1024 :=
  l.record_le.trans l.protocol.control_le

end MediaLimits

def sampleProtocolLimits : ProtocolLimits :=
  ⟨65536,4096,2,65536,by decide,by decide,by decide,by decide,by decide⟩

end FrankenRemote
