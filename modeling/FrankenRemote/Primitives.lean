import Mathlib.Tactic

/-! Identifiers, generations and host time. Instants and durations are `u64`
microsecond counts; arithmetic on them is checked and never wraps. -/
namespace FrankenRemote

/-- `u64::checked_add`. The test is written so that it does not unfold on open terms. -/
def checkedAdd (a b : ℕ) : Option ℕ := if b < 2^64 - a then some (a+b) else none

theorem checkedAdd_eq_some {a b c} : checkedAdd a b = some c ↔ a+b = c ∧ c < 2^64 := by
  unfold checkedAdd
  constructor
  · intro h
    split at h
    · cases h
      exact ⟨rfl,by omega⟩
    · cases h
  · rintro ⟨rfl,_⟩
    exact if_pos (by omega)

/-- Microseconds on the host's monotonic authority clock. -/
abbrev HostInstant := ℕ

abbrev HostDuration := ℕ

structure RemoteSessionId where
  raw : ℕ
  deriving DecidableEq, Repr

structure InputLeaseId where
  raw : ℕ
  deriving DecidableEq, Repr

structure InputTicketId where
  raw : ℕ
  deriving DecidableEq, Repr

structure RecoveryGeneration where
  raw : ℕ
  deriving DecidableEq, Repr

def RecoveryGeneration.supersedes (g other : RecoveryGeneration) : Bool := other.raw < g.raw

end FrankenRemote
