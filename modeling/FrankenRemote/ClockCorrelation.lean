import FrankenRemote.Primitives
import Mathlib.Data.Real.Basic

/-! Host and viewer clocks have unrelated origins. One authenticated exchange brackets the
offset without assuming symmetric delay; all of its latency is uncertainty. -/
namespace FrankenRemote.Freshness

structure HostBootId where
  raw : ℕ
  deriving DecidableEq, Repr

inductive FreshnessError
  | invalidClock | clockExpired | clockRegression | clockOverflow | futureObservation | staleBinding
  | invalidProgress | obsolete | notSubmitted | queueExpired | sourceUnknown | sourceStale | closed
  deriving DecidableEq, Repr

/-- The host sampled its clock after the viewer sent the request and before it had the answer. -/
structure ClockSample where
  hostBoot : HostBootId
  clientSent : ℕ
  hostSample : ℕ
  clientReceived : ℕ
  deriving DecidableEq

structure ClockPolicy where
  maxExchange : ℕ
  validFor : ℕ
  driftPpm : ℕ
  deriving DecidableEq

instance : Inhabited ClockPolicy := ⟨1000000,10000000,1000⟩

/-- A sample that the policy takes. -/
structure Correlates (s : ClockSample) (p : ClockPolicy) : Prop where
  boot : s.hostBoot.raw ≠ 0
  ordered : s.clientSent ≤ s.clientReceived
  exchange_pos : 1 ≤ p.maxExchange
  exchange_le : p.maxExchange ≤ 10000000
  valid_pos : 1 ≤ p.validFor
  valid_le : p.validFor ≤ 60000000
  drift_le : p.driftPpm ≤ 10000
  latency_le : s.clientReceived - s.clientSent ≤ p.maxExchange

instance (s : ClockSample) (p : ClockPolicy) : Decidable (Correlates s p) :=
  decidable_of_iff (s.hostBoot.raw ≠ 0 ∧ s.clientSent ≤ s.clientReceived ∧ 1 ≤ p.maxExchange ∧
      p.maxExchange ≤ 10000000 ∧ 1 ≤ p.validFor ∧ p.validFor ≤ 60000000 ∧ p.driftPpm ≤ 10000 ∧
      s.clientReceived - s.clientSent ≤ p.maxExchange)
    ⟨fun ⟨h₁,h₂,h₃,h₄,h₅,h₆,h₇,h₈⟩ => ⟨h₁,h₂,h₃,h₄,h₅,h₆,h₇,h₈⟩,
      fun ⟨h₁,h₂,h₃,h₄,h₅,h₆,h₇,h₈⟩ => ⟨h₁,h₂,h₃,h₄,h₅,h₆,h₇,h₈⟩⟩

structure ClockCorrelation where
  sample : ClockSample
  policy : ClockPolicy
  validUntil : ℕ
  correlates : Correlates sample policy
  until_eq : sample.clientReceived+policy.validFor = validUntil
  until_lt : validUntil < 2^64

namespace ClockCorrelation

def new (sample : ClockSample) (policy : ClockPolicy) : Except FreshnessError ClockCorrelation :=
  if hc : Correlates sample policy then
    match hv : checkedAdd sample.clientReceived policy.validFor with
    | some validUntil =>
      have hsum := checkedAdd_eq_some.mp hv
      .ok ⟨sample,policy,validUntil,hc,hsum.1,hsum.2⟩
    | none => .error .clockOverflow
  else .error .invalidClock

def hostBoot (c : ClockCorrelation) : HostBootId := c.sample.hostBoot

def receivedAt (c : ClockCorrelation) : ℕ := c.sample.clientReceived

/-- The latest that the host's clock can show when the viewer's shows `now`. -/
def latestHost (c : ClockCorrelation) (now : ℕ) : ℕ :=
  let elapsed := now - c.sample.clientSent
  c.sample.hostSample + elapsed + (elapsed*c.policy.driftPpm + 999999)/1000000

/-- A conservative upper bound of the age of a host time. -/
def ageUpper (c : ClockCorrelation) (hostObserved now : ℕ) : Except FreshnessError ℕ :=
  if now < c.sample.clientReceived then .error .clockRegression
  else if c.validUntil ≤ now then .error .clockExpired
  else if 2^64 ≤ c.latestHost now then .error .clockOverflow
  else if c.latestHost now < hostObserved then .error .futureObservation
  else .ok (c.latestHost now - hostObserved)

/-- A conservative local expiry for a host deadline. Receipt starts no new lifetime. -/
def deadlineLower (c : ClockCorrelation) (hostDeadline now : ℕ) : Except FreshnessError ℕ := do
  let latest ← c.ageUpper 0 now
  let delta := (hostDeadline - latest)*1000000/(1000000+c.policy.driftPpm)
  if 2^64 ≤ delta then .error .clockOverflow
  else match checkedAdd now delta with
    | some until_ => .ok (min until_ c.validUntil)
    | none => .error .clockOverflow

/-- A host clock over the viewer's time: it showed the sample while the exchange was open, and
runs no faster than the drift allows. -/
structure HostClock (c : ClockCorrelation) (H : ℝ → ℝ) : Prop where
  sampled : ∃ τ, (c.sample.clientSent : ℝ) ≤ τ ∧ τ ≤ c.sample.clientReceived ∧
    H τ = c.sample.hostSample
  rate : ∀ s t, s ≤ t → H t - H s ≤ (1 + c.policy.driftPpm/1000000)*(t-s)

section Projection

variable {c : ClockCorrelation} {H : ℝ → ℝ} {now age u : ℕ}

theorem le_latestHost (c : ClockCorrelation) (hn : c.sample.clientReceived ≤ now) :
    (c.sample.hostSample : ℝ) + (1 + c.policy.driftPpm/1000000)*(now - c.sample.clientSent) ≤
      c.latestHost now := by
  have hs := c.correlates.ordered.trans hn
  have hr : (now - c.sample.clientSent)*c.policy.driftPpm ≤
      ((now - c.sample.clientSent)*c.policy.driftPpm + 999999)/1000000*1000000 := by
    omega
  have hcast : ((now : ℝ) - c.sample.clientSent)*c.policy.driftPpm ≤
      (((now - c.sample.clientSent)*c.policy.driftPpm + 999999)/1000000 : ℕ)*1000000 := by
    rw [← Nat.cast_sub hs]
    exact_mod_cast hr
  simp only [latestHost,Nat.cast_add,Nat.cast_sub hs]
  linarith

theorem ageUpper_eq_ok {host} (h : c.ageUpper host now = .ok age) :
    c.sample.clientReceived ≤ now ∧ host ≤ c.latestHost now ∧ age = c.latestHost now - host := by
  unfold ageUpper at h
  split_ifs at h with hr _ _ hf
  cases h
  exact ⟨not_lt.mp hr,not_lt.mp hf,rfl⟩

theorem HostClock.le_latestHost (hH : HostClock c H) (hn : c.sample.clientReceived ≤ now) :
    H now ≤ c.latestHost now := by
  obtain ⟨τ,_,hr,hτ⟩ := hH.sampled
  have hl : τ ≤ now := hr.trans (by exact_mod_cast hn)
  have hd : (0 : ℝ) ≤ c.policy.driftPpm/1000000 := by positivity
  have hwide : (1 + (c.policy.driftPpm : ℝ)/1000000)*(now - τ) ≤
      (1 + c.policy.driftPpm/1000000)*(now - c.sample.clientSent) := by
    gcongr
  have hrate := hH.rate τ now hl
  have hlater := ClockCorrelation.le_latestHost c hn
  linarith

theorem deadlineLower_eq_ok {d} (h : c.deadlineLower d now = .ok u) :
    c.sample.clientReceived ≤ now ∧
      (u - now)*(1000000+c.policy.driftPpm) ≤ (d - c.latestHost now)*1000000 := by
  unfold deadlineLower at h
  cases ha : c.ageUpper 0 now with
  | error =>
    rw [ha] at h
    cases h
  | ok latest =>
    obtain ⟨hn,_,hl⟩ := ageUpper_eq_ok ha
    simp only [ha,bind,Except.bind] at h
    split_ifs at h
    split at h
    · next _ sum hsum =>
      cases h
      rw [Nat.sub_zero] at hl
      rw [hl] at hsum
      have hd := Nat.div_mul_le_self ((d - c.latestHost now)*1000000) (1000000+c.policy.driftPpm)
      refine ⟨hn,le_trans (Nat.mul_le_mul_right _ ?_) hd⟩
      rw [← (checkedAdd_eq_some.mp hsum).1]
      exact Nat.sub_le_iff_le_add'.mpr (min_le_left _ _)
    · cases h

/-- What the correlation projects is conservative for every such host clock. -/
theorem projection_conservative (hH : HostClock c H) (now : ℕ) :
    (∀ host age : ℕ, c.ageUpper host now = .ok age → H now - host ≤ age) ∧
      ∀ deadline u : ℕ, c.deadlineLower deadline now = .ok u →
        ∀ t : ℝ, now ≤ t → t < u → H t < deadline := by
  constructor
  · intro host age h
    obtain ⟨hnow,hhost,rfl⟩ := ageUpper_eq_ok h
    have hl := hH.le_latestHost hnow
    push_cast [hhost]
    linarith
  · intro deadline u h t ht hu
    obtain ⟨hnow,hs⟩ := deadlineLower_eq_ok h
    have hlt : now < u := by exact_mod_cast ht.trans_lt hu
    have ho : c.latestHost now < deadline := by
      by_contra hpast
      have hn := Nat.sub_eq_zero_of_le (not_lt.mp hpast)
      rw [hn,Nat.zero_mul,Nat.le_zero,mul_eq_zero] at hs
      omega
    have hcast : ((u : ℝ) - now)*(1000000+c.policy.driftPpm) ≤
        (deadline - c.latestHost now)*1000000 := by
      rw [← Nat.cast_sub hlt.le,← Nat.cast_sub ho.le]
      exact_mod_cast hs
    have hl := hH.le_latestHost hnow
    have hrate := hH.rate now t ht
    have hd : (0 : ℝ) < 1 + c.policy.driftPpm/1000000 := by positivity
    have hshort := mul_lt_mul_of_pos_left (sub_lt_sub_right hu now) hd
    linarith

theorem projection_conservative_steady :
    ∃ c : ClockCorrelation, c.ageUpper 110 20 = .ok 11 ∧ c.deadlineLower 1000 20 = .ok 898 ∧
      (20+100 : ℝ) - 110 ≤ 11 ∧ ∀ t : ℝ, 20 ≤ t → t < 898 → t+100 < 1000 := by
  let c : ClockCorrelation := ⟨⟨⟨1⟩,0,100,10⟩,⟨10,1000,1000⟩,1010,by decide,by decide,by decide⟩
  have hH : HostClock c (· + 100) := by
    refine ⟨⟨0,by simp [c],by simp [c],by simp [c]⟩,fun s t hs => ?_⟩
    have hd : 0 ≤ (c.policy.driftPpm : ℝ)/1000000*(t-s) :=
      mul_nonneg (by positivity) (sub_nonneg.mpr hs)
    linarith
  have ha : c.ageUpper 110 20 = .ok 11 := by simp [ageUpper,latestHost,c]
  have hdl : c.deadlineLower 1000 20 = .ok 898 := by
    simp [deadlineLower,ageUpper,latestHost,c,checkedAdd,bind,Except.bind]
  have h := projection_conservative hH 20
  exact ⟨c,ha,hdl,by exact_mod_cast h.1 110 11 ha,by exact_mod_cast h.2 1000 898 hdl⟩

end Projection

end ClockCorrelation

end FrankenRemote.Freshness
