import FrankenRemote.Primitives
import FrankenRemote.Procedure
import FrankenRemote.Ring

/-! Lease-scoped accounting of irreversible submissions. A sequence is consumed before its
effect, and forgetting an old result does not make its action executable again. -/
namespace FrankenRemote.Input

open Procedure

def maxRetainedInputReceipts : ℕ := 32

inductive InputOutcome
  | submittedToOs | appliedLocally | rejectedBeforeSubmission | expiredBeforeSubmission
  | cancelledBeforeSubmission | partiallySubmittedToOs | effectUnknown
  deriving DecidableEq, Repr

/-- The two outcomes that let the next action follow. -/
def InputOutcome.succeeded : InputOutcome → Bool
  | submittedToOs | appliedLocally => true
  | _ => false

inductive InputAdmission
  | admitted | inFlight | completed (outcome : InputOutcome) | consumedWithoutReceipt
  deriving DecidableEq, Repr

inductive InputSequenceError
  | invalidCapacity (requested : ℕ)
  | staleLease | fenced
  | previousActionPending (sequence : ℕ)
  | sequenceGap (expected received : ℕ)
  | notPending
  deriving DecidableEq, Repr

structure LedgerReceipt where
  sequence : ℕ
  outcome : InputOutcome
  deriving DecidableEq

structure InputSequenceLedger where
  lease : InputLeaseId
  /-- `none` once the last sequence is consumed. -/
  nextSequence : Option ℕ
  pending : Option ℕ
  receipts : ℕ → Option LedgerReceipt
  receiptCapacity : ℕ
  receiptCursor : ℕ
  fenced : Bool

namespace InputSequenceLedger

abbrev Call := Proc InputSequenceLedger InputSequenceError

def new (lease : InputLeaseId) (receiptCapacity : ℕ) :
    Except InputSequenceError InputSequenceLedger :=
  if ¬(1 ≤ receiptCapacity ∧ receiptCapacity ≤ maxRetainedInputReceipts) then
    .error (.invalidCapacity receiptCapacity)
  else .ok ⟨lease,some 0,none,fun _ => none,receiptCapacity,0,false⟩

def fence (l : InputSequenceLedger) : InputSequenceLedger := {l with fenced := true}

def find (l : InputSequenceLedger) (sequence : ℕ) : Option LedgerReceipt :=
  (Ring.recent l.receiptCapacity l.receipts).find? (·.sequence = sequence)

/-- `admit`. -/
def admitAction (lease : InputLeaseId) (sequence : ℕ) : Call InputAdmission := do
  let l ← get
  refuseIf (lease ≠ l.lease) .staleLease
  if l.pending = some sequence then pure .inFlight
  else
    match l.find sequence with
    | some receipt => pure (.completed receipt.outcome)
    | none =>
      match l.nextSequence with
      | none => pure .consumedWithoutReceipt
      | some next =>
        if sequence < next then pure .consumedWithoutReceipt
        else do
          refuseIf (l.fenced = true) .fenced
          match l.pending with
          | some pending => throw (.previousActionPending pending)
          | none =>
            if sequence ≠ next then
              modify fence
              throw (.sequenceGap next sequence)
            else
              modify ({· with nextSequence := checkedAdd sequence 1, pending := some sequence})
              pure .admitted

def recordOutcome (lease : InputLeaseId) (sequence : ℕ) (outcome : InputOutcome) : Call Unit := do
  let l ← get
  refuseIf (lease ≠ l.lease) .staleLease
  refuseIf (l.pending ≠ some sequence) .notPending
  modify fun l =>
    {l with
      pending := none
      receipts := Function.update l.receipts l.receiptCursor (some ⟨sequence,outcome⟩)
      receiptCursor := (l.receiptCursor+1) % l.receiptCapacity
      fenced := l.fenced || !outcome.succeeded}

end InputSequenceLedger

/-! The ledger of a lease that has consumed one sequence after the other. -/

/-- The sequence that `n` consumed ones leave. -/
def sequenceAfter (n : ℕ) : Option ℕ := if n < 2^64 then some n else none

/-- What the ledger remembers: the latest outcomes of `log`, which are in the order of their
sequences. -/
structure Remembers (l : InputSequenceLedger) (log : List LedgerReceipt) : Prop where
  capacity : 0 < l.receiptCapacity
  ring : Ring.Holds l.receiptCapacity l.receiptCursor l.receipts log
  numbered : ∀ p, ∀ r : LedgerReceipt, log[p]? = some r → r.sequence = p

/-- Nothing is in flight. -/
structure Accounts (l : InputSequenceLedger) (log : List LedgerReceipt) :
    Prop extends Remembers l log where
  next : l.nextSequence = sequenceAfter log.length
  idle : l.pending = none

/-- The sequence after those of `log` is in flight. -/
structure InFlight (l : InputSequenceLedger) (log : List LedgerReceipt) :
    Prop extends Remembers l log where
  next : l.nextSequence = sequenceAfter (log.length+1)
  pending : l.pending = some log.length

section Ledger

variable {l : InputSequenceLedger} {log : List LedgerReceipt} {n : ℕ}

theorem accounts_new {le c} (h : InputSequenceLedger.new le c = .ok l) : Accounts l [] := by
  unfold InputSequenceLedger.new at h
  split at h
  · cases h
  · rename_i hc
    cases h
    have hpos : 0 < c := by omega
    exact ⟨⟨hpos,.nil,by simp⟩,rfl,rfl⟩

theorem Remembers.find_eq (h : Remembers l log) (n : ℕ) :
    l.find n = if log.length ≤ n+l.receiptCapacity then log[n]? else none :=
  h.ring.find?_recent h.capacity h.numbered n

/-- Every answer to a request for a sequence, when nothing is in flight. -/
inductive Admission (l : InputSequenceLedger) (log : List LedgerReceipt) (sequence : ℕ) :
    Except InputSequenceError InputAdmission → InputSequenceLedger → Prop
  | replayed {r} (hlog : log[sequence]? = some r)
      (hrecent : log.length ≤ sequence+l.receiptCapacity) :
      Admission l log sequence (.ok (.completed r.outcome)) l
  | forgotten (hold : sequence+l.receiptCapacity < log.length ∨
      (2^64 ≤ log.length ∧ log.length ≤ sequence)) :
      Admission l log sequence (.ok .consumedWithoutReceipt) l
  | fenced (hnew : log.length ≤ sequence) (hfenced : l.fenced = true) :
      Admission l log sequence (.error .fenced) l
  | gap (hgap : log.length < sequence) :
      Admission l log sequence (.error (.sequenceGap log.length sequence)) l.fence
  | admitted (hnext : sequence = log.length) (hopen : l.fenced = false)
      (hflight : InFlight {l with nextSequence := checkedAdd sequence 1, pending := some sequence}
        log) :
      Admission l log sequence (.ok .admitted)
        {l with nextSequence := checkedAdd sequence 1, pending := some sequence}

theorem checkedAdd_sequence {n} (h : n < 2^64) : checkedAdd n 1 = sequenceAfter (n+1) := by
  unfold checkedAdd sequenceAfter
  by_cases hl : n+1 < 2^64
  · rw [if_pos (by omega),if_pos hl]
  · rw [if_neg (by omega),if_neg hl]

theorem admitAction_ensures (h : Accounts l log) (n : ℕ) :
    Ensures (InputSequenceLedger.admitAction l.lease n) l (Admission l log n) := by
  refine .get_bind (.refuseIf_bind (fun hne => absurd rfl hne) fun _ => ?_)
  refine .ite (fun hp => by cases h.idle.symm.trans hp) fun _ => ?_
  have hfind := h.find_eq n
  cases hf : l.find n with
  | some r =>
    rw [hf] at hfind
    split at hfind
    · rename_i hr
      exact .pure (.replayed hfind.symm hr)
    · cases hfind
  | none =>
    rw [hf] at hfind
    simp only [h.next,h.idle,sequenceAfter]
    by_cases he : 2^64 ≤ log.length
    · rw [if_neg (not_lt.mpr he)]
      refine .pure (.forgotten ?_)
      split at hfind
      · exact .inr ⟨he,List.getElem?_eq_none_iff.mp hfind.symm⟩
      · exact .inl (by omega)
    · rw [if_pos (not_le.mp he)]
      refine .ite (fun hc => .pure (.forgotten ?_)) fun hnew => ?_
      · split at hfind
        · simp [hc] at hfind
        · left
          omega
      · refine .refuseIf_bind (.fenced (not_lt.mp hnew)) fun ho => .ite (fun hne => ?_) fun hn => ?_
        · exact .modify_bind (.throw (.gap (by omega)))
        · have hn : n = log.length := not_not.mp hn
          subst hn
          refine .modify_bind (.pure (.admitted rfl (by simpa using ho) ⟨{h with},?_,rfl⟩))
          exact checkedAdd_sequence (not_le.mp he)

theorem recordOutcome_exec (h : InFlight l log) (o : InputOutcome) :
    ∃ l', exec (InputSequenceLedger.recordOutcome l.lease log.length o) l = (.ok (),l') ∧
      Accounts l' (log++[⟨log.length,o⟩]) ∧ l'.lease = l.lease ∧
      l'.receiptCapacity = l.receiptCapacity ∧ l'.fenced = (l.fenced || !o.succeeded) := by
  have hx : exec (InputSequenceLedger.recordOutcome l.lease log.length o) l = (.ok (),{l with
      pending := none
      receipts := Function.update l.receipts l.receiptCursor (some ⟨log.length,o⟩)
      receiptCursor := (l.receiptCursor+1) % l.receiptCapacity
      fenced := l.fenced || !o.succeeded}) := by
    simp [InputSequenceLedger.recordOutcome,h.pending]
  refine ⟨_,hx,⟨⟨h.capacity,h.ring.push _,fun p r hr => ?_⟩,?_,rfl⟩,rfl,rfl,rfl⟩
  · rcases List.getElem?_eq_some_iff.mp hr with ⟨hlt,_⟩
    simp only [List.length_append,List.length_singleton] at hlt
    by_cases hold : p < log.length
    · rw [List.getElem?_append_left hold] at hr
      exact h.numbered p r hr
    · obtain rfl : p = log.length := by omega
      simp at hr
      rw [← hr]
  · rw [List.length_append,List.length_singleton]
    exact h.next

end Ledger
end FrankenRemote.Input
