import FrankenRemote.TokenBucket
import FrankenRemote.Transition

/-! Token buckets of the denial-of-service bounds. Tokens are counted in millionths, so that one
microsecond refills as many of them as the bucket has tokens a second. -/
namespace FrankenRemote.Flood

open TokenBucket Transition Nat

variable {Field : Type}

inductive DosRefusal (Field : Type)
  | rateLimitExceeded (field : Field) (retryAfter : ℕ)
  deriving DecidableEq

structure TokenBucket where
  ratePerSec : ℕ
  capacity : ℕ
  scaledTokens : ℕ
  lastLeak : ℕ
  deriving DecidableEq

def scale : ℕ := 1000000

/-- `u64::saturating_mul`. -/
def saturatingMul (a b : ℕ) : ℕ := min (a*b) (2^64-1)

/-- The arguments of one call; tokens are a `u32`. -/
structure Demand (Field : Type) where
  now : ℕ
  tokens : Fin (2^32)
  field : Field

namespace TokenBucket

def new (ratePerSec capacity : ℕ) (start : ℕ) : TokenBucket :=
  ⟨ratePerSec,capacity,saturatingMul capacity scale,start⟩

def newPerMin (ratePerMin capacity : ℕ) (start : ℕ) : TokenBucket :=
  new (max ((ratePerMin+59)/60) 1) capacity start

def replenish (b : TokenBucket) (now : ℕ) : TokenBucket :=
  if now < b.lastLeak then b
  else
    let added := saturatingMul (now-b.lastLeak) b.ratePerSec
    {b with
      scaledTokens := min (min (b.scaledTokens+added) (2^64-1)) (saturatingMul b.capacity scale)
      lastLeak := now}

def tryConsume (b : TokenBucket) (x : Demand Field) :
    Except (DosRefusal Field) Unit × TokenBucket :=
  let b := b.replenish x.now
  let needed := saturatingMul x.tokens scale
  if needed ≤ b.scaledTokens then (.ok (),{b with scaledTokens := b.scaledTokens-needed})
  else
    let missing := needed-b.scaledTokens
    let retryMicros := if 0 < b.ratePerSec then missing/b.ratePerSec else 1000000
    (.error (.rateLimitExceeded x.field (max retryMicros 1)),b)

variable {b : TokenBucket}

theorem replenish_config (now : ℕ) :
    (b.replenish now).ratePerSec = b.ratePerSec ∧ (b.replenish now).capacity = b.capacity ∧
      now ≤ (b.replenish now).lastLeak := by
  unfold replenish
  split
  · exact ⟨rfl,rfl,by omega⟩
  · exact ⟨rfl,rfl,le_rfl⟩

/-- Saturation never shows: the capacity is reached first. -/
theorem replenish_eq {now} (h : b.lastLeak ≤ now) : b.replenish now = {b with
    scaledTokens := refilled (saturatingMul b.capacity scale) b.ratePerSec b.scaledTokens
      (now-b.lastLeak)
    lastLeak := now} := by
  rw [replenish,if_neg (not_lt.mpr h)]
  simp only [refilled,saturatingMul]
  generalize b.capacity*scale = full
  congr 1
  omega

/-- Counted from an instant before the last refill, no refill is larger than the rate allows. -/
theorem replenish_le {last} (now : ℕ) (hlast : last ≤ b.lastLeak)
    (ht : b.scaledTokens ≤ b.capacity*scale) : (b.replenish now).scaledTokens ≤
      refilled (b.capacity*scale) b.ratePerSec b.scaledTokens (now-last) := by
  rcases lt_or_ge now b.lastLeak with hn | hn
  · rw [replenish,if_pos hn]
    exact le_min (le_add_right _ _) ht
  · rw [replenish_eq hn]
    refine min_le_min (Nat.add_le_add_left (Nat.mul_le_mul_right _ ?_) _) (Nat.min_le_left _ _)
    omega

/-- Refilling on the way changes nothing. -/
theorem replenish_replenish {t u} (h : t ≤ u) : (b.replenish t).replenish u = b.replenish u := by
  rcases lt_or_ge t b.lastLeak with ht | ht
  · congr 1
    exact if_pos ht
  · have hmul : (u-b.lastLeak)*b.ratePerSec = (t-b.lastLeak)*b.ratePerSec + (u-t)*b.ratePerSec := by
      rw [← add_mul]
      congr 1
      omega
    rw [replenish_eq ht,replenish_eq h,replenish_eq (ht.trans h)]
    simp only [refilled,hmul]
    congr 1
    omega

abbrev Attempt (Field : Type) := Event TokenBucket (Demand Field) (Except (DosRefusal Field) Unit)

/-- What a call took. -/
def consumed (e : Attempt Field) : ℕ :=
  match e.reply with
  | .ok _ => e.input.tokens
  | .error _ => 0

/-- The tokens taken from `a` to `b`. -/
def consumedIn (events : List (Attempt Field)) (a b : ℕ) : ℕ :=
  spentIn (events.map fun e => (e.input.now,consumed e)) a b

theorem needed_eq (tokens : Fin (2^32)) : saturatingMul tokens scale = tokens*scale :=
  min_eq_left (by have := tokens.isLt; unfold scale; omega)

/-- A call refills and then pays exactly for what it took. -/
theorem tryConsume_pays (b : TokenBucket) (x : Demand Field) :
    (b.tryConsume x).2 = {b.replenish x.now with
      scaledTokens := (b.replenish x.now).scaledTokens - consumed ⟨b,x,(b.tryConsume x).1⟩*scale} ∧
    consumed ⟨b,x,(b.tryConsume x).1⟩*scale ≤ (b.replenish x.now).scaledTokens := by
  simp only [tryConsume,needed_eq]
  split
  · exact ⟨rfl,‹_›⟩
  · simp [consumed]

/-- The bucket of a run, with what its calls cost up to the last of them. -/
structure Runs (r c : ℕ) (past : List (Attempt Field)) (b : TokenBucket) : Prop where
  rate : b.ratePerSec = r
  capacity : b.capacity = c
  metered : past.Pairwise (fun e f => e.input.now ≤ f.input.now) → ∃ last ≤ b.lastLeak,
    (∀ t, (∀ e ∈ past, e.input.now ≤ t) → last ≤ t) ∧
    Metered (c*scale) r b.scaledTokens last (past.map fun e => (e.input.now,consumed e*scale))

theorem runs_new (r c start : ℕ) : @Runs Field r c [] (new r c start) := by
  have hfull : (new r c start).scaledTokens ≤ c*scale := Nat.min_le_left _ _
  exact ⟨rfl,rfl,fun _ => ⟨0,zero_le _,fun _ _ => zero_le _,(Metered.full _ _ _).mono hfull⟩⟩

theorem Runs.tryConsume {r c past} (x : Demand Field) (h : Runs r c past b) :
    Runs r c (past++[⟨b,x,(b.tryConsume x).1⟩]) (b.tryConsume x).2 := by
  obtain ⟨hr,hc,hl⟩ := b.replenish_config x.now
  obtain ⟨hs,hp⟩ := tryConsume_pays b x
  rw [hs]
  refine ⟨hr.trans h.rate,hc.trans h.capacity,fun hmono => ?_⟩
  obtain ⟨hpast,hx⟩ := pairwise_snoc.mp hmono
  obtain ⟨last,hleak,hlast,hm⟩ := h.metered hpast
  have hle := replenish_le x.now hleak (h.capacity ▸ hm.tokens_le)
  rw [h.rate,h.capacity] at hle
  refine ⟨x.now,hl,fun t ht => (forall_mem_snoc.mp ht).2,?_⟩
  rw [List.map_append]
  exact ((hm.refill (hlast _ hx)).mono hle).spend hp

/-- No interval sees more than the capacity and what its length refills. -/
theorem consumedIn_le (rate cap start : ℕ) {calls : List (Demand Field)}
    (hmono : calls.Pairwise fun x y => x.now ≤ y.now) (a span : ℕ) :
    consumedIn (trace tryConsume (new rate cap start) calls) a (a+span) ≤
      cap + rate*span/scale := by
  have hrun := history_invariant tryConsume (runs_new rate cap start)
    (fun _ _ x h => h.tryConsume x) calls
  rw [← map_input_trace tryConsume (new rate cap start) calls,List.pairwise_map] at hmono
  obtain ⟨_,_,_,hm⟩ := hrun.metered hmono
  have hl := hm.limited a span
  have hpos : 0 < scale := by decide
  rw [add_comm cap,← add_mul_div_left _ _ hpos,le_div_iff_mul_le hpos,consumedIn,
    ← spentIn_scaled,List.map_map]
  rw [add_comm (cap*scale),mul_comm cap] at hl
  exact hl

/-- A bucket never lets more through than its configuration says, for rates a second and for
rates a minute that are whole rates a second. -/
theorem rate_held (capacity start : ℕ) {calls : List (Demand Field)}
    (hmono : calls.Pairwise fun x y => x.now ≤ y.now) (a span : ℕ) :
    (∀ rate, consumedIn (trace tryConsume (new rate capacity start) calls) a (a+span) ≤
      capacity + rate*span/10^6) ∧
    ∀ perMin, 60 ∣ perMin → 0 < perMin →
      consumedIn (trace tryConsume (newPerMin perMin capacity start) calls) a (a+span) ≤
        capacity + perMin*span/(60*10^6) := by
  refine ⟨fun rate => consumedIn_le rate capacity start hmono a span,?_⟩
  rintro _ ⟨rate,rfl⟩ hpos
  have hrate : max ((60*rate+59)/60) 1 = rate := by omega
  rw [newPerMin,hrate,Nat.mul_assoc,Nat.mul_div_mul_left _ _ (by decide)]
  exact consumedIn_le rate capacity start hmono a span

/-- Three workers are restarted at once and a fourth a second later, under ten restarts a minute. -/
def restarts : List (Demand Unit) := [⟨0,3,()⟩,⟨10^6,1,()⟩]

theorem rate_held_restarts : restarts.Pairwise (fun x y => x.now ≤ y.now) ∧
    consumedIn (trace tryConsume (newPerMin 60 3 0) restarts) 0 (0+10^6) ≤ 3 + 60*10^6/(60*10^6) :=
  ⟨by simp [restarts],(rate_held 3 0 (by simp [restarts]) 0 (10^6)).2 60 (by decide) (by decide)⟩

theorem restarts_exceed : ¬ ∀ (perMin capacity start : ℕ) (calls : List (Demand Unit)),
    (calls.Pairwise fun x y => x.now ≤ y.now) → ∀ a span,
      consumedIn (trace tryConsume (newPerMin perMin capacity start) calls) a (a+span) ≤
        capacity + perMin*span/(60*10^6) := by
  intro h
  exact absurd (h 10 3 0 restarts (by simp [restarts]) 0 (10^6)) (by decide)

/-! Retry hints. -/

/-- A call that takes nothing only refills. -/
theorem tryConsume_idle {x : Demand Field} (h : consumed ⟨b,x,(b.tryConsume x).1⟩ = 0) :
    (b.tryConsume x).2 = b.replenish x.now := by
  rw [(tryConsume_pays b x).1,h,Nat.zero_mul,Nat.sub_zero]

/-- Calls that take nothing leave no trace once the bucket is refilled. -/
theorem replenish_idle {calls : List (Demand Field)} {u} (hu : ∀ x ∈ calls, x.now ≤ u)
    (h : ∀ e ∈ trace tryConsume b calls, consumed e = 0) :
    (final tryConsume b calls).replenish u = b.replenish u := by
  induction calls generalizing b with
  | nil => rfl
  | cons x calls ih =>
    obtain ⟨hx,hu⟩ := List.forall_mem_cons.mp hu
    obtain ⟨hz,h⟩ := List.forall_mem_cons.mp h
    rw [final,ih hu h,tryConsume_idle hz,replenish_replenish hx]

theorem tryConsume_refused {b' d} {x : Demand Field} {field}
    (h : b.tryConsume x = (.error (.rateLimitExceeded field d),b')) (hrate : 0 < b.ratePerSec) :
    b' = b.replenish x.now ∧ b'.scaledTokens < x.tokens*scale ∧
      d = max ((x.tokens*scale - b'.scaledTokens)/b.ratePerSec) 1 := by
  simp only [tryConsume,needed_eq,(b.replenish_config x.now).1,hrate,if_true] at h
  split at h
  · cases h
  · cases h
    exact ⟨rfl,not_le.mp ‹_›,rfl⟩

/-- What a rounded hint covers. -/
theorem missing_le {missing rate late} (hrate : 0 < rate)
    (hround : rate ∣ missing ∨ missing ≤ rate ∨ 0 < late) :
    missing ≤ (max (missing/rate) 1 + late)*rate := by
  rcases hround with hdvd | hle | hlate
  · calc missing = missing/rate*rate := (Nat.div_mul_cancel hdvd).symm
      _ ≤ _ := Nat.mul_le_mul_right _ (by omega)
  · calc missing ≤ 1*rate := by omega
      _ ≤ _ := Nat.mul_le_mul_right _ (by omega)
  · calc missing ≤ (missing/rate+1)*rate := by
          rw [add_mul,one_mul]
          exact (lt_div_mul_add hrate).le
      _ ≤ _ := Nat.mul_le_mul_right _ (by omega)

/-- A hint that covers what is missing was not rounded down, or is the one microsecond of a small
deficit. -/
theorem hint_exact {missing rate} (h : missing ≤ max (missing/rate) 1*rate) :
    rate ∣ missing ∨ missing ≤ rate := by
  rcases le_total (missing/rate) 1 with hone | hone
  · rw [max_eq_right hone,one_mul] at h
    exact .inr h
  · rw [max_eq_left hone] at h
    exact .inl ⟨missing/rate,by rw [mul_comm]; exact le_antisymm h (Nat.div_mul_le_self _ _)⟩

/-- A refill adds at most the rate for the time since the last one. -/
theorem replenish_tokens_le (u : ℕ) :
    (b.replenish u).scaledTokens ≤ b.scaledTokens + (u-b.lastLeak)*b.ratePerSec := by
  rcases lt_or_ge u b.lastLeak with hu | hu
  · rw [replenish,if_pos hu]
    exact le_add_right _ _
  · rw [replenish_eq hu]
    exact Nat.min_le_left _ _

/-- Once the hint of a refusal has passed the same call succeeds, unless the missing tokens were
rounded down; one microsecond later it always does. -/
theorem retry_succeeds {b b' : TokenBucket} {x : Demand Field} {field : Field} {d : ℕ}
    (h : b.tryConsume x = (.error (.rateLimitExceeded field d),b')) (hrate : 0 < b.ratePerSec)
    (hcap : x.tokens ≤ b.capacity) (hclock : b.lastLeak ≤ x.now) (late : ℕ)
    (hround : b.ratePerSec ∣ x.tokens*scale - b'.scaledTokens ∨
      x.tokens*scale - b'.scaledTokens ≤ b.ratePerSec ∨ 0 < late)
    (between : List (Demand Field)) (hb : ∀ y ∈ between, y.now ≤ x.now+d+late)
    (hnone : ∀ e ∈ trace tryConsume b' between, consumed e = 0) :
    ((final tryConsume b' between).tryConsume {x with now := x.now+d+late}).1 = .ok () := by
  obtain ⟨hs,-,hd⟩ := tryConsume_refused h hrate
  have hc := missing_le hrate hround
  rw [← hd] at hc
  have hfull : x.tokens*scale ≤ saturatingMul b.capacity scale := by
    rw [← needed_eq]
    exact min_le_min_right _ (Nat.mul_le_mul_right _ hcap)
  have hleak : b'.lastLeak = x.now := by rw [hs,replenish_eq hclock]
  have hle : x.tokens*scale ≤ (b'.replenish (x.now+d+late)).scaledTokens := by
    rw [replenish_eq (by omega),hs,(b.replenish_config _).1,(b.replenish_config _).2.1,← hs,hleak]
    refine le_min ?_ hfull
    rw [Nat.add_assoc,Nat.add_sub_cancel_left]
    omega
  simp only [tryConsume,replenish_idle hb hnone,needed_eq,if_pos hle]

/-- At the end of the hint itself, exactly where nothing was rounded away and the clock of the
refused call had not gone back. -/
theorem retry_succeeds_iff {b b' : TokenBucket} {x : Demand Field} {field : Field} {d : ℕ}
    (h : b.tryConsume x = (.error (.rateLimitExceeded field d),b')) (hrate : 0 < b.ratePerSec)
    (hcap : x.tokens ≤ b.capacity) (between : List (Demand Field))
    (hb : ∀ y ∈ between, y.now ≤ x.now+d)
    (hnone : ∀ e ∈ trace tryConsume b' between, consumed e = 0) :
    ((final tryConsume b' between).tryConsume {x with now := x.now+d}).1 = .ok () ↔
      b.lastLeak ≤ x.now ∧ (b.ratePerSec ∣ x.tokens*scale - b'.scaledTokens ∨
        x.tokens*scale - b'.scaledTokens ≤ b.ratePerSec) := by
  obtain ⟨hs,hlt,hd⟩ := tryConsume_refused h hrate
  constructor
  · intro hok
    have hle : x.tokens*scale ≤ b'.scaledTokens + (x.now+d-b'.lastLeak)*b.ratePerSec := by
      simp only [tryConsume,replenish_idle hb hnone,needed_eq] at hok
      split at hok
      · refine (‹_› : _ ≤ _).trans ?_
        have hadd := b'.replenish_tokens_le (x.now+d)
        rwa [show b'.ratePerSec = b.ratePerSec by rw [hs,(b.replenish_config _).1]] at hadd
      · cases hok
    have hleak : x.now ≤ b'.lastLeak := hs ▸ (b.replenish_config _).2.2
    have hc : x.tokens*scale - b'.scaledTokens ≤ d*b.ratePerSec := by
      have := Nat.mul_le_mul_right b.ratePerSec (show x.now+d-b'.lastLeak ≤ d by omega)
      omega
    refine ⟨?_,hint_exact (hd ▸ hc)⟩
    -- with an earlier clock the bucket refills for less than the hint
    by_contra hback
    have hsame : b' = b := hs.trans (if_pos (not_le.mp hback))
    have hshort : (x.now+d-b'.lastLeak)*b.ratePerSec + b.ratePerSec ≤ d*b.ratePerSec := by
      rw [← succ_mul]
      exact Nat.mul_le_mul_right _ (by rw [hsame]; omega)
    rcases max_choice ((x.tokens*scale - b'.scaledTokens)/b.ratePerSec) 1 with hm | hm
    · have hfloor : d*b.ratePerSec ≤ x.tokens*scale - b'.scaledTokens := by
        rw [hd,hm]
        exact Nat.div_mul_le_self _ _
      omega
    · rw [hd.trans hm] at hshort hle
      omega
  · rintro ⟨hclock,hround⟩
    exact retry_succeeds h hrate hcap hclock 0 (hround.imp_right .inl) between hb hnone

theorem retry_succeeds_empty : ∃ b' d, (⟨4,1,0,0⟩ : TokenBucket).tryConsume ⟨0,1,()⟩ =
    (.error (.rateLimitExceeded () d),b') ∧ (b'.tryConsume ⟨d,1,()⟩).1 = .ok () := by
  have hr : (⟨4,1,0,0⟩ : TokenBucket).tryConsume ⟨0,1,()⟩ =
      (.error (.rateLimitExceeded () 250000),⟨4,1,0,0⟩) := by decide +kernel
  exact ⟨_,_,hr,(retry_succeeds_iff hr (by decide) (by decide) [] (by simp)
    (by simp [trace])).mpr ⟨by decide,.inl (by decide)⟩⟩

/-- A bucket with three tokens a second promises one too early. -/
theorem retry_rounded : ¬ ∀ (rate capacity start : ℕ) (calls : List (Demand Unit)) (x : Demand Unit)
    (d : ℕ) (b' : TokenBucket), 0 < rate → x.tokens ≤ capacity →
    (final tryConsume (new rate capacity start) calls).tryConsume x =
      (.error (.rateLimitExceeded () d),b') →
    (b'.tryConsume {x with now := x.now+d}).1 = .ok () := by
  intro h
  have hno := h 3 1 0 [⟨0,1,()⟩] ⟨0,1,()⟩ 333333 ⟨3,1,0,0⟩ (by decide) (by decide)
    (by decide +kernel)
  revert hno
  decide +kernel

end TokenBucket
end FrankenRemote.Flood
