import FrankenRemote.Transition

/-! The sender's account of a channel's receive memory. Consumption and release are cumulative, so
release reports may arrive late, twice and in any order. -/
namespace FrankenRemote.Wss

structure ReleasedCredit where
  creditEpoch : ℕ
  releasedBytes : ℕ
  releasedFrames : ℕ

inductive CreditUpdate
  | applied | ignored

inductive WssError
  | invalidCreditWindow | invalidCreditCharge | creditCounterExhausted
  | creditStarvation (outstandingBytes maxBytes outstandingFrames maxFrames : ℕ)
  | creditEpochMismatch (expected received : ℕ)
  | creditReleaseExceedsConsumption

/-- Nothing is released before it is consumed, and what is outstanding fits the allowance. Each
subtraction of the source is one of these two differences, or of a consumption that has grown. -/
@[ext] structure ReceiverCreditWindow where
  creditEpoch : ℕ
  maxBytes : ℕ
  maxFrames : ℕ
  consumedBytes : ℕ
  consumedFrames : ℕ
  releasedBytes : ℕ
  releasedFrames : ℕ
  bytes_fit : releasedBytes ≤ consumedBytes ∧ consumedBytes-releasedBytes ≤ maxBytes
  frames_fit : releasedFrames ≤ consumedFrames ∧ consumedFrames-releasedFrames ≤ maxFrames

namespace ReceiverCreditWindow

def new (creditEpoch maxBytes maxFrames : ℕ) : Except WssError ReceiverCreditWindow :=
  if creditEpoch = 0 ∨ maxBytes = 0 ∨ maxFrames = 0 then .error .invalidCreditWindow
  else .ok ⟨creditEpoch,maxBytes,maxFrames,0,0,0,0,by simp,by simp⟩

def outstandingBytes (w : ReceiverCreditWindow) : ℕ := w.consumedBytes-w.releasedBytes

def outstandingFrames (w : ReceiverCreditWindow) : ℕ := w.consumedFrames-w.releasedFrames

/-- The window with one more frame, where both dimensions leave room for it. -/
def reservation (w : ReceiverCreditWindow) (bytes : ℕ) : Except WssError ReceiverCreditWindow :=
  if bytes = 0 then .error .invalidCreditCharge
  else if 2^64 ≤ w.consumedBytes+bytes ∨ 2^64 ≤ w.consumedFrames+1 then
    .error .creditCounterExhausted
  else if h : w.maxBytes < w.consumedBytes+bytes-w.releasedBytes ∨
      w.maxFrames < w.consumedFrames+1-w.releasedFrames then
    .error (.creditStarvation w.outstandingBytes w.maxBytes w.outstandingFrames w.maxFrames)
  else .ok {w with
    consumedBytes := w.consumedBytes+bytes
    consumedFrames := w.consumedFrames+1
    bytes_fit := by have := w.bytes_fit; omega
    frames_fit := by have := w.frames_fit; omega}

def tryReserve (w : ReceiverCreditWindow) (bytes : ℕ) :
    Except WssError Unit × ReceiverCreditWindow :=
  match w.reservation bytes with
  | .ok t => (.ok (),t)
  | .error e => (.error e,w)

def returnCredit (w : ReceiverCreditWindow) (release : ReleasedCredit) :
    Except WssError CreditUpdate × ReceiverCreditWindow :=
  if release.creditEpoch ≠ w.creditEpoch then
    (.error (.creditEpochMismatch w.creditEpoch release.creditEpoch),w)
  else if h : w.consumedBytes < release.releasedBytes ∨
      w.consumedFrames < release.releasedFrames then
    (.error .creditReleaseExceedsConsumption,w)
  else if max w.releasedBytes release.releasedBytes = w.releasedBytes ∧
      max w.releasedFrames release.releasedFrames = w.releasedFrames then (.ok .ignored,w)
  else (.ok .applied,{w with
    releasedBytes := max w.releasedBytes release.releasedBytes
    releasedFrames := max w.releasedFrames release.releasedFrames
    bytes_fit := by have := w.bytes_fit; omega
    frames_fit := by have := w.frames_fit; omega})

/-! Runs. -/

inductive Input
  | reserve (bytes : ℕ)
  | release (report : ReleasedCredit)

def step (w : ReceiverCreditWindow) : Input → Except WssError
    (Option CreditUpdate) × ReceiverCreditWindow
  | .reserve bytes => (w.tryReserve bytes).map (·.map fun _ => none) id
  | .release report => (w.returnCredit report).map (·.map some) id

/-- The counters of `t` are the least that cover those of `w` and every report. -/
structure Covers (w : ReceiverCreditWindow) (reports : List ReleasedCredit)
    (t : ReceiverCreditWindow) : Prop where
  epoch : t.creditEpoch = w.creditEpoch
  maxBytes : t.maxBytes = w.maxBytes
  maxFrames : t.maxFrames = w.maxFrames
  consumedBytes : t.consumedBytes = w.consumedBytes
  consumedFrames : t.consumedFrames = w.consumedFrames
  bytes : ∀ n, t.releasedBytes ≤ n ↔ w.releasedBytes ≤ n ∧ ∀ r ∈ reports, r.releasedBytes ≤ n
  frames : ∀ n, t.releasedFrames ≤ n ↔ w.releasedFrames ≤ n ∧ ∀ r ∈ reports, r.releasedFrames ≤ n

/-- A report that the window does not refuse. -/
def Valid (w : ReceiverCreditWindow) (r : ReleasedCredit) : Prop :=
  r.creditEpoch = w.creditEpoch ∧ r.releasedBytes ≤ w.consumedBytes ∧
    r.releasedFrames ≤ w.consumedFrames

variable {w t t' : ReceiverCreditWindow} {reports reports' : List ReleasedCredit}

theorem Covers.unique (h : Covers w reports t) (h' : Covers w reports' t')
    (hs : ∀ r, r ∈ reports ↔ r ∈ reports') : t = t' := by
  refine ReceiverCreditWindow.ext (h.epoch.trans h'.epoch.symm) (h.maxBytes.trans h'.maxBytes.symm)
    (h.maxFrames.trans h'.maxFrames.symm) (h.consumedBytes.trans h'.consumedBytes.symm)
    (h.consumedFrames.trans h'.consumedFrames.symm) ?_ ?_
  · exact eq_of_forall_ge_iff fun n => by simp only [h.bytes,h'.bytes,hs]
  · exact eq_of_forall_ge_iff fun n => by simp only [h.frames,h'.frames,hs]

theorem Covers.cons {r} (h : Covers w [r] t) (h' : Covers t reports t') :
    Covers w (r::reports) t' := by
  refine ⟨h'.epoch.trans h.epoch,h'.maxBytes.trans h.maxBytes,h'.maxFrames.trans h.maxFrames,
    h'.consumedBytes.trans h.consumedBytes,h'.consumedFrames.trans h.consumedFrames,fun n =>
      ?_,fun n => ?_⟩
  · simp [h'.bytes,h.bytes,and_assoc]
  · simp [h'.frames,h.frames,and_assoc]

theorem returnCredit_invalid {r} (h : ¬Valid w r) : ∃ e, w.returnCredit r = (.error e,w) := by
  unfold returnCredit
  split
  · exact ⟨_,rfl⟩
  · rename_i he
    rw [dif_pos]
    · exact ⟨_,rfl⟩
    · by_contra hle
      exact h ⟨not_not.mp he,by omega⟩

theorem returnCredit_valid {r} (h : Valid w r) :
    ∃ u t, w.returnCredit r = (.ok u,t) ∧ Covers w [r] t := by
  obtain ⟨he,hle⟩ := h
  rw [returnCredit,if_neg (not_not.mpr he),dif_neg (by omega)]
  split
  · rename_i hsame
    exact ⟨_,w,rfl,rfl,rfl,rfl,rfl,rfl,fun n => by simp; omega,fun n => by simp; omega⟩
  · exact ⟨_,_,rfl,rfl,rfl,rfl,rfl,rfl,by simp,by simp⟩

theorem step_refused (w : ReceiverCreditWindow) {i e} (h : (step w i).1 = .error e) :
    (step w i).2 = w := by
  cases i with
  | reserve n =>
    simp only [step,tryReserve] at h ⊢
    split at h
    · cases h
    · simp [*]
  | release r =>
    by_cases hv : Valid w r
    · obtain ⟨u,t,hr,_⟩ := returnCredit_valid hv
      simp [step,hr,Except.map] at h
    · obtain ⟨e,hr⟩ := returnCredit_invalid hv
      simp [step,hr]

/-- Each report of a set that was valid at the start is accepted where its turn comes. -/
theorem release_run (hv : ∀ r ∈ reports, Valid w r) :
    (∀ e ∈ Transition.trace step w (reports.map .release), ∃ u, e.reply = .ok u) ∧
      Covers w reports (Transition.final step w (reports.map .release)) := by
  induction reports generalizing w with
  | nil => exact ⟨nofun,rfl,rfl,rfl,rfl,rfl,by simp [Transition.final],by simp [Transition.final]⟩
  | cons r rs ih =>
    obtain ⟨u,t,hr,hc⟩ := returnCredit_valid (hv r (.head _))
    obtain ⟨hok,hfin⟩ := ih (w := t) fun r' hr' => by
      have := hv r' (.tail _ hr')
      rwa [Valid,hc.epoch,hc.consumedBytes,hc.consumedFrames]
    simp only [List.map_cons,Transition.trace,Transition.final,step,hr,List.forall_mem_cons]
    exact ⟨⟨⟨_,rfl⟩,hok⟩,hc.cons hfin⟩

/-- Every state of a run is such a window `w`. -/
theorem credit_order_independent (w : ReceiverCreditWindow) :
    (w.releasedBytes ≤ w.consumedBytes ∧ w.consumedBytes-w.releasedBytes ≤ w.maxBytes) ∧
    (w.releasedFrames ≤ w.consumedFrames ∧ w.consumedFrames-w.releasedFrames ≤ w.maxFrames) ∧
    (∀ i e, (step w i).1 = .error e → (step w i).2 = w) ∧
    ∀ reports reports' :
    List ReleasedCredit, (∀ r ∈ reports, ∃ u, (step w (.release r)).1 = .ok u) →
      (∀ r, r ∈ reports ↔ r ∈ reports') →
      Transition.final step w (reports.map .release) = Transition.final step w
        (reports'.map .release) ∧
      ∀ e ∈ Transition.trace step w (reports.map .release), ∃ u, e.reply = .ok u := by
  refine ⟨w.bytes_fit,w.frames_fit,fun i e => step_refused w,fun reports reports' hok hs => ?_⟩
  have hv : ∀ r ∈ reports, Valid w r := fun r hr => by
    by_contra hv
    obtain ⟨e,he⟩ := returnCredit_invalid hv
    obtain ⟨u,hu⟩ := hok r hr
    simp [step,he,Except.map] at hu
  obtain ⟨ht,hfin⟩ := release_run hv
  obtain ⟨_,hfin'⟩ := release_run fun r hr => hv r ((hs r).mpr hr)
  exact ⟨hfin.unique hfin' hs,ht⟩

end ReceiverCreditWindow
end FrankenRemote.Wss
