import FrankenRemote.ClientOrder
import FrankenRemote.InputReceipt

/-! Viewer and host on receipts. What the host records for an action has a form on the wire, and
the viewer accepts it for the action that it sent. -/
namespace FrankenRemote.Client

open Bytes Procedure Relation SlotTable Wire Input Transition List Option Frames

/-! The wire form of a receipt that conforms. -/

section Form

variable {totals : List ℕ} {rc : Receipt} {binding : ResultBinding}

theorem consistent_of_named {refusal re} (h : Reason.ofRefusal refusal = .ok re)
    (hne : re ≠ .unknownEffect) (binding : ResultBinding) (k : ℕ) (space : SequenceSpace)
    (stage : ResultStage) (unknown : Bool) :
    (⟨binding,k,space,stage,Attempt.outcome ⟨0,false⟩ (some refusal),0,unknown,some re⟩ :
      InputResult).Consistent := by
  cases refusal with
  | authority error | sequence error | platform error => cases error <;> cases h <;> exact ⟨rfl,rfl⟩
  | unknownEffect =>
    cases h
    exact absurd rfl hne
  | _ =>
    cases h
    exact ⟨rfl,rfl⟩

def resultOf (binding : ResultBinding) (receipt : Receipt) (reason : Option Reason) :
    InputResult where
  binding
  sequence := receipt.sequence
  space := .action
  stage := if receipt.submittedOperations = 0 then .admitted else .submittedToOs
  outcome := receipt.outcome
  submittedOperations := receipt.submittedOperations
  unknownNextOperation := receipt.outcome = .effectUnknown
  reason

@[simp] theorem resultOf_binding (binding : ResultBinding) (rc : Receipt) (re : Option Reason) :
    (resultOf binding rc re).binding = binding := rfl

/-- What `validate` asks of an action's result, beside its reason. -/
theorem validate_resultOf {re} (hc : binding.channel ≠ 0)
    (hle : rc.submittedOperations ≤ maxCommittedTextBytes)
    (hlt : rc.outcome = .effectUnknown ∨ rc.outcome = .partiallySubmittedToOs →
      rc.submittedOperations < maxCommittedTextBytes) (hcon : (resultOf binding rc re).Consistent) :
    (resultOf binding rc re).validate = .ok () := by
  have hb : ¬(resultOf binding rc re).binding.channel = 0 := hc
  unfold InputResult.validate
  rw [if_neg hb,if_neg,if_neg,if_neg,if_pos hcon]
  · rintro (hu | hs | ⟨hs,_⟩)
    · exact hu rfl
    · by_cases hz : rc.submittedOperations = 0 <;> simp [resultOf,hz] at hs
    · by_cases hz : rc.submittedOperations = 0 <;> simp [resultOf,hz] at hs
  · rintro ⟨hspace,_⟩
    cases hspace
  · rintro (hlong | ⟨hf,hall⟩)
    · exact absurd hle (not_le.mpr hlong)
    · exact absurd hall (hlt (hf.imp_left of_decide_eq_true)).ne

/-- A conforming receipt is of a whole action, or of one that an unknown effect or a named refusal
cut short. -/
theorem conforms_elim {P : InputOutcome → ℕ → Option Refusal → Prop} (h : rc.Conforms totals)
    (hpos : 0 ∉ totals) (hwhole : ∀ n ∈ totals, n ≠ 0 → P .submittedToOs n none)
    (hunknown : ∀ n ∈ totals, ∀ k < n, P .effectUnknown k (some .unknownEffect))
    (hc : ∀ n ∈ totals, ∀ k < n, k ≠ 0 → ∀ refusal : Refusal, refusal.Named →
      P .partiallySubmittedToOs k (some refusal))
    (hnone : ∀ refusal : Refusal, refusal.Named → P (Attempt.outcome ⟨0,false⟩ (some refusal)) 0
      (some refusal)) :
    P rc.outcome rc.submittedOperations rc.refusal := by
  obtain ⟨_,o,count,refusal⟩ := rc
  obtain ⟨⟨submitted,uncertain⟩,hr,hw,hf⟩ := h
  obtain rfl : o = Attempt.outcome ⟨submitted,uncertain⟩ refusal := congrArg Receipt.outcome hr
  obtain rfl : count = submitted := congrArg Receipt.submittedOperations hr
  cases refusal with
  | none =>
    obtain ⟨rfl,hm⟩ := hw rfl
    have hne : count ≠ 0 := fun hz => hpos (hz ▸ hm)
    have hs : Attempt.outcome ⟨count,false⟩ none = .submittedToOs := if_neg hne
    exact hs ▸ hwhole count hm hne
  | some refusal =>
    obtain ⟨⟨n,hn,hlt⟩,hb⟩ := hf refusal rfl
    cases uncertain with
    | true =>
      cases hb
      exact hunknown n hn count hlt
    | false =>
      by_cases hz : count = 0
      · subst hz
        exact hnone refusal hb
      · have hp : Attempt.outcome ⟨count,false⟩ (some refusal) = .partiallySubmittedToOs :=
          if_pos (Nat.pos_of_ne_zero hz)
        exact hp ▸ hc n hn count hlt hz refusal hb

theorem fromReceipt_of_conforms (h : rc.Conforms totals) (hchan : binding.channel ≠ 0)
    (hpos : 0 ∉ totals) (hm : ∀ n ∈ totals, n ≤ maxCommittedTextBytes) :
    rc.submittedOperations ≤ maxCommittedTextBytes ∧ ∃ reason,
      InputResult.fromReceipt binding .action rc = .ok (resultOf binding rc reason) ∧
      (resultOf binding rc reason).validate = .ok () := by
  have hval {o k refusal reason} (hlt : k < maxCommittedTextBytes)
      (hc : (resultOf binding ⟨rc.sequence,o,k,refusal⟩ reason).Consistent) :=
    validate_resultOf hchan hlt.le (fun _ => hlt) hc
  obtain ⟨hle,reason,hr,hv⟩ :=
    conforms_elim (P := fun o k refusal => k ≤ maxCommittedTextBytes ∧ ∃ reason,
      InputResult.reasonOf refusal = .ok reason ∧
      (resultOf binding ⟨rc.sequence,o,k,refusal⟩ reason).validate = .ok ()) h hpos
    (fun n hn hne => ⟨hm n hn,none,rfl,validate_resultOf hchan (hm n hn)
      (fun h => by rcases h with h | h <;> cases h) ⟨hne,rfl⟩⟩)
    (fun n hn k hk => ⟨(hk.trans_le (hm n hn)).le,some .unknownEffect,rfl,
      hval (hk.trans_le (hm n hn)) rfl⟩)
    (fun n hn k hk hz refusal ⟨reason,hr,hne⟩ => ⟨(hk.trans_le (hm n hn)).le,some reason,
      by rw [InputResult.reasonOf,hr]; rfl,hval (hk.trans_le (hm n hn)) ⟨hz,decide_eq_true hne⟩⟩)
    fun refusal ⟨reason,hr,hne⟩ => ⟨Nat.zero_le _,some reason,by rw [InputResult.reasonOf,hr]; rfl,
      hval (by decide) (consistent_of_named hr hne ..)⟩
  exact ⟨hle,reason,bind_eq_ok.mpr ⟨reason,hr,bind_eq_ok.mpr ⟨(),hv,rfl⟩⟩,hv⟩

theorem accepts_of_conforms {p : Pending} (h : rc.Conforms totals) (hpos : 0 ∉ totals)
    (hw : ∀ n ∈ totals, (n = p.minimum ∨ n = p.maximum) ∧ n ≤ p.maximum) :
    p.accepts rc.outcome rc.submittedOperations = true := by
  refine conforms_elim (P := fun o k _ => p.accepts o k = true) h hpos (fun n hn _ => ?_)
    (fun n hn k hk => decide_eq_true (hk.trans_le (hw n hn).2))
    (fun n hn k hk _ _ _ => decide_eq_true (hk.trans_le (hw n hn).2)) fun refusal _ => ?_
  · simpa [Pending.accepts] using (hw n hn).1
  · cases refusal with
    | authority error => cases error <;> rfl
    | _ => rfl

end Form

/-! The window of an action. -/

section Windows

variable {a : Action} {b : ℕ}

theorem compoundScroll_bounds (x y : Int32) (unit : ScrollUnit) :
    compoundScroll x y unit ≠ 0 ∧ compoundScroll x y unit ≤ 65 := by
  cases unit with
  | pixels => exact ⟨Nat.two_pos.ne',Nat.le_add_right 2 63⟩
  | lines =>
    unfold compoundScroll
    cases hnew : LineScroll.new x y with
    | none => exact ⟨by decide,by decide⟩
    | some d =>
      have hle : d.horizontal+d.vertical ≤ maxSteps := by
        unfold LineScroll.new at hnew
        split at hnew
        · cases hnew
        · simp only [] at hnew
          split at hnew
          · cases hnew
          · next hle =>
            cases hnew
            exact not_lt.mp hle
      simp only [map_some,getD_some,LineScroll.nativeOperations]
      unfold maxSteps at hle
      omega

/-- The totals of the host are the ends of the viewer's window. -/
theorem totals_window (n : ℕ) (hn : n ∈ (a.event b).totals) :
    (n = a.window.1 ∨ n = a.window.2) ∧ n ≤ a.window.2 := by
  cases a with
  | key k t =>
    cases t with
    | press | release => simp_all [Action.event,InputEvent.totals,Action.window]
    | repeat_ =>
      simp only [Action.event,InputEvent.totals,Action.window,mem_cons,not_mem_nil,or_false] at hn ⊢
      omega
  | button | text s => simp_all [Action.event,InputEvent.totals,Action.window]
  | scroll position x y unit =>
    cases unit with
    | pixels => simp_all [Action.event,InputEvent.totals,Action.window,compoundScroll]
    | lines =>
      cases hnew : LineScroll.new x y with
      | none => simp_all [Action.event,InputEvent.totals,Action.window,compoundScroll]
      | some d =>
        simp only [Action.event,InputEvent.totals,Action.window,compoundScroll,hnew,map_some,
          toList_some,getD_some,mem_cons,not_mem_nil,or_false] at hn ⊢
        omega

theorem length_le_size_utf8Encode (l : List Char) : l.length ≤ l.utf8Encode.size := by
  induction l with
  | nil => exact Nat.zero_le _
  | cons c l ih =>
    have hc := c.utf8Size_pos
    have hs : [c].utf8Encode.size = c.utf8Size := by simp [List.utf8Encode]
    rw [utf8Encode_cons,ByteArray.size_append,length_cons]
    omega

theorem length_le_textBytes (s : String) : s.length ≤ (textBytes s).length := by
  have hs := length_le_size_utf8Encode s.toList
  rw [String.utf8Encode_toList,String.length_toList] at hs
  exact hs

theorem length_pos_of_fits {s} (hf : TextFits (.text s)) : 0 < s.length := by
  rw [Nat.pos_iff_ne_zero,ne_eq,String.length_eq_zero_iff]
  rintro rfl
  exact hf (.inl rfl)

/-- An action that has a wire form is one that the host counts. -/
theorem sendable_of_fits (hf : TextFits (a.event b)) : (a.event b).Sendable := by
  cases a with
  | key | button | scroll => trivial
  | text s => exact length_pos_of_fits hf

theorem totals_bounds (hf : TextFits (a.event b)) (n : ℕ) (hn : n ∈ (a.event b).totals) :
    n ≠ 0 ∧ n ≤ maxCommittedTextBytes := by
  obtain ⟨_,_⟩ := totals_window n hn
  cases a with
  | key k t =>
    cases t with
    | press | release => simp_all [Action.event,InputEvent.totals,maxCommittedTextBytes]
    | repeat_ =>
      simp only [Action.window,maxCommittedTextBytes] at *
      omega
  | button => simp_all [Action.event,InputEvent.totals,maxCommittedTextBytes]
  | scroll position x y unit =>
    obtain ⟨_,_⟩ := compoundScroll_bounds x y unit
    simp only [Action.window,maxCommittedTextBytes] at *
    omega
  | text s =>
    cases mem_singleton.mp hn
    have hlen := length_le_textBytes s
    have hs := not_lt.mp (not_or.mp hf).2
    exact ⟨(length_pos_of_fits hf).ne',hlen.trans hs⟩

end Windows

/-! What the viewer keeps about an action until its receipt was seen. -/

/-- The sequence of the next action, or the end of the sequences. -/
def InputClient.next (c : InputClient) : ℕ := c.nextAction.getD (2^64)

/-- Retained receipts are of earlier actions that are not pending. -/
def Retains (c : InputClient) : Prop :=
  ∀ i old, c.receipts i = some old → old.sequence < c.next ∧ ∀ j p, c.pending j = some p →
    p.sequence ≠ old.sequence

/-- Since the action `n` was sent with this window, and has at most this result. -/
structure Awaits (n : ℕ) (window : ℕ × ℕ) (result : InputResult) (c : InputClient) : Prop where
  sent : n < c.next
  pending : ∀ i p, c.pending i = some p → p.sequence = n → p.minimum = window.1 ∧
    p.maximum = window.2
  receipts : ∀ i old, c.receipts i = some old → old.sequence = n → old = result

section Waiting

variable {pol : Policy} {h : List Event} {c c' : InputClient} {op : Op}
  {r : Except ClientError Answer} {n : ℕ} {w : ℕ × ℕ} {res : InputResult}

theorem Ordered.pending_lt (ho : Ordered pol h c) {i p} (hp : c.pending i = some p) :
    p.sequence < c.next := by
  obtain ⟨k,hk,_,hn,hb⟩ := ho.kept
  have hlt := hb i p hp
  rw [InputClient.next,hn]
  split_ifs
  · exact hlt
  · exact hlt.trans_le hk

theorem next_checkedAdd {k} (hk : k < 2^64) : (checkedAdd k 1).getD (2^64) = k+1 := by
  rw [checkedAdd_one]
  split_ifs
  · rfl
  · exact (by omega : 2^64 = k+1)

/-- One call, as far as pending actions and retained receipts go. -/
inductive Changes (c : InputClient) : Op → Except ClientError Answer → InputClient → Prop
  | same {op : Op} {r : Except ClientError Answer} {c' : InputClient} (hnext : c'.next = c.next)
    (hreceipts : c'.receipts = c.receipts) (hpending : c'.pending = c.pending) : Changes c op r c'
  | sent {a room now record c'}
    (hnext : c.next = record.sequence) (hnext' : c'.next = record.sequence+1)
      (hreceipts : c'.receipts = c.receipts)
    (hpending : ∀ i p, c'.pending i = some p →
      (p.sequence = record.sequence ∧ p.minimum = a.window.1 ∧ p.maximum = a.window.2) ∨
        c.pending i = some p) :
    Changes c (.action a room now) (.ok (.encoded record)) c'
  | abandoned {n slot p c'} (hnext : c.next = n+1)
    (hnext' : c'.next = n) (hreceipts : c'.receipts = c.receipts) (hold : c.pending slot = some p)
      (hp : p.sequence = n)
    (hpending : ∀ i p, c'.pending i = some p → c.pending i = some p) :
    Changes c (.abandonUnsent (.action n)) (.ok .done) c'
  | completed {bytes now result slot p c'}
    (hdecoded : decodeInputResult bytes c.limits c.binding .hostToViewer .reliable = .ok result)
    (hspace : result.space = .action) (hnext : c'.next = c.next) (hold : c.pending slot = some p)
    (hp : p.sequence = result.sequence)
    (hreceipts : ∀ i old, c'.receipts i = some old → old = result ∨ c.receipts i = some old)
    (hpending : ∀ i p, c'.pending i = some p → c.pending i = some p ∧
      p.sequence ≠ result.sequence) :
    Changes c (.result bytes now) (.ok (.result (.completed result))) c'

variable {now : ClientInstant}

theorem SentAction.changes {d a room rec slot b} (ho : Ordered pol h c)
    (hs : SentAction c d a room now rec slot b c') :
    c.next = rec.sequence ∧ c'.next = rec.sequence+1 ∧ c'.receipts = c.receipts ∧
      ∀ i p, c'.pending i = some p →
        (p.sequence = rec.sequence ∧ p.minimum = a.window.1 ∧ p.maximum = a.window.2) ∨
          c.pending i = some p := by
  have hf := of_serviced hs.ticked.serviced
  have hn : c.nextAction = some rec.sequence := hf.nextAction ▸ hs.next
  have hlt : rec.sequence < 2^64 := by
    obtain ⟨k,_,_,hk,_⟩ := ho.kept
    rw [hn] at hk
    split_ifs at hk with hlt
    cases hk
    exact hlt
  refine ⟨by rw [InputClient.next,hn]; rfl,?_,?_,fun i p hp => ?_⟩
  · rw [InputClient.next,hs.after]
    exact next_checkedAdd hlt
  · rw [hs.after,← hf.receipts]
    unfold InputClient.remember
    split <;> rfl
  · rw [hs.after] at hp
    rcases store_eq_some.mp hp with ⟨_,rfl⟩ | ⟨_,hold⟩
    · exact .inl ⟨rfl,rfl,rfl⟩
    · exact .inr (hf.pending ▸ hold)

theorem Sequenced.changes (hs : Sequenced c op r c') (ho : Ordered pol h c) :
    Changes c op r c' := by
  cases hs with
  | frames hf | held _ hf =>
    exact .same (congrArg (Option.getD · _) hf.nextAction) hf.receipts hf.pending
  | action hs =>
    obtain ⟨hn,hn',hr,hpd⟩ := hs.changes ho
    exact .sent hn hn' hr hpd
  | pointer hs =>
    have hf := of_serviced hs.ticked.serviced
    rw [hs.after]
    exact .same (congrArg (Option.getD · _) hf.nextAction) hf.receipts hf.pending
  | @abandon n slot p _ hn hpd hp =>
    obtain ⟨hlt,_⟩ := ho.last hn hpd hp
    refine .abandoned ?_ rfl rfl hpd hp fun i q hq => (erase_eq_some.mp hq).2
    rw [InputClient.next,hn]
    exact next_checkedAdd hlt
  | @completed _ _ _ d _ slot p hs hd hspace =>
    have hf := of_serviced hs.serviced
    have howed : c.pending slot = some p := hf.pending ▸ hs.owed
    refine .completed hd hspace
      (congrArg (Option.getD · _) (hs.after.nextAction.trans hf.nextAction)) howed hs.sequence
      (fun i old hold => ?_) fun i q hq => ?_
    · rw [hs.after.receipts] at hold
      rcases store_eq_some.mp hold with ⟨_,hold⟩ | ⟨_,hold⟩
      · exact .inl hold.symm
      · exact .inr (hf.receipts ▸ hold)
    · rw [hs.after.pending] at hq
      obtain ⟨hne,hq⟩ := erase_eq_some.mp hq
      have hq' : c.pending i = some q := hf.pending ▸ hq
      exact ⟨hq',fun heq => hne (ho.distinct i slot q p hq' howed (heq.trans hs.sequence.symm))⟩

theorem Retains.step (hr : Retains c) (ho : Ordered pol h c) (hs : Changes c op r c') :
    Retains c' := by
  intro i old hold
  cases hs with
  | same hn hreceipts hpd =>
    rw [hn,hpd]
    exact hr i old (hreceipts ▸ hold)
  | sent hn hn' hreceipts hpd =>
    obtain ⟨hlt,hne⟩ := hr i old (hreceipts ▸ hold)
    refine ⟨by omega,fun j p hp => ?_⟩
    rcases hpd j p hp with ⟨_,_⟩ | hp
    · omega
    · exact hne j p hp
  | abandoned hn hn' hreceipts hsl hp hpd =>
    obtain ⟨hlt,hne⟩ := hr i old (hreceipts ▸ hold)
    have hother := hne _ _ hsl
    exact ⟨by omega,fun j q hq => hne j q (hpd j q hq)⟩
  | completed _ _ hn hsl hp hreceipts hpd =>
    rw [hn]
    rcases hreceipts i old hold with rfl | hold
    · exact ⟨hp ▸ ho.pending_lt hsl,fun j q hq => (hpd j q hq).2⟩
    · obtain ⟨hlt,hne⟩ := hr i old hold
      exact ⟨hlt,fun j q hq => hne j q (hpd j q hq).1⟩

/-- Nothing that the owner is told later touches an action that it keeps, but its own result. -/
theorem Awaits.step (ha : Awaits n w res c) (hs : Changes c op r c')
    (hkeep : op = .abandonUnsent (.action n) → r ≠ .ok .done)
    (hres : ∀ bs now other, op = .result bs now →
      decodeInputResult bs c.limits c.binding .hostToViewer .reliable = .ok other →
      other.space = .action → other.sequence = n → other = res) : Awaits n w res c' := by
  have hse := ha.sent
  cases hs with
  | same hn hr hpd =>
    exact ⟨by omega,hpd ▸ ha.pending,hr ▸ ha.receipts⟩
  | sent hn hn' hr hpd =>
    refine ⟨by omega,fun i p hp hsq => ?_,hr ▸ ha.receipts⟩
    rcases hpd i p hp with ⟨_,_⟩ | hp
    · omega
    · exact ha.pending i p hp hsq
  | @abandoned m _ p _ hn hn' hr hsl hp hpd =>
    have hne : m ≠ n := by
      rintro rfl
      exact hkeep rfl rfl
    exact ⟨by omega,fun i q hq => ha.pending i q (hpd i q hq),hr ▸ ha.receipts⟩
  | completed hd hspace hn hsl hp hr hpd =>
    refine ⟨by omega,fun i q hq => ha.pending i q (hpd i q hq).1,fun i old hold hsq => ?_⟩
    rcases hr i old hold with rfl | hold
    · exact hres _ _ _ rfl hd hspace hsq
    · exact ha.receipts i old hold hsq

theorem Awaits.of_sent {d a room rec slot b} (hr : Retains c) (ho : Ordered pol h c)
    (hs : SentAction c d a room now rec slot b c') (res : InputResult) :
    Awaits rec.sequence a.window res c' := by
  obtain ⟨_,_,hreceipts,hpd⟩ := hs.changes ho
  refine ⟨by omega,fun i p hp hsq => ?_,fun i old hold hsq => ?_⟩
  · rcases hpd i p hp with ⟨_,hw⟩ | hp
    · exact hw
    · have hlt := ho.pending_lt hp
      omega
  · have hlt := (hr i old (hreceipts ▸ hold)).1
    omega

/-! The result itself. -/

/-- The owner accepts the result that it awaits, and its replays. -/
theorem actionResult_awaited (ha : Awaits n w res c) (hs : res.sequence = n)
    (haccept : ∀ p : Pending, p.minimum = w.1 → p.maximum = w.2 →
      p.accepts res.outcome res.submittedOperations = true) :
    Ensures (actionResult res) c fun r t => (∃ ev, r = .ok ev) ∧ Trusts c t := by
  refine .get_bind ?_
  cases hold : (entries c.receipts).find? (·.sequence = res.sequence) with
  | some old =>
    -- a retained receipt of this action is the same one
    obtain ⟨i,hi⟩ := mem_entries.mp (mem_of_find?_eq_some hold)
    have hf := List.find?_some hold
    have hsm : old = res := ha.receipts i old hi ((of_decide_eq_true hf).trans hs)
    exact failIf_bind (fun hne => absurd hsm hne) fun _ => .pure ⟨⟨_,rfl⟩,id⟩
  | none =>
    cases howed : c.owed res.sequence with
    | some found =>
      obtain ⟨slot,p⟩ := found
      have hmem : c.pending slot = some p := mem_indexed.mp (mem_of_find?_eq_some howed)
      have hf := List.find?_some howed
      obtain ⟨hmin,hmax⟩ := ha.pending slot p hmem ((of_decide_eq_true hf).trans hs)
      refine failIf_bind (fun hbad => ?_) fun _ => .modify_bind
        (.bind (Q := fun r t => r = .ok () ∧ Trusts _ t) ?_
        (fun _ t ht => .pure ⟨⟨_,rfl⟩,ht.2⟩) fun _ _ h => ?_)
      · rw [haccept p hmin hmax] at hbad
        cases hbad
      · exact .ite (fun _ => .pure ⟨rfl,id⟩) fun _ => .of_exec rfl ⟨rfl,trusts_stop (by decide) _⟩
      · cases h.1
    | none =>
      refine failIf_bind (fun hbad => ?_) fun _ => .pure ⟨⟨_,rfl⟩,id⟩
      obtain ⟨m,hm,hle⟩ := (Option.any_eq_true ..).mp hbad
      have hse := ha.sent
      rw [InputClient.next,hm] at hse
      have hle := of_decide_eq_true hle
      exact absurd (hs ▸ hle) (not_le.mpr hse)

theorem result_awaited {b} (ha : Awaits n w res c)
    (hd : decodeInputResult b c.limits c.binding .hostToViewer .reliable = .ok res)
    (hs : res.space = .action) (hsq : res.sequence = n)
    (haccept : ∀ p : Pending, p.minimum = w.1 → p.maximum = w.2 →
      p.accepts res.outcome res.submittedOperations = true) :
    Ensures (Client.result b now) c fun r t => (∃ ev, r = .ok ev) ∧ Trusts c t := by
  refine .get_bind ?_
  rw [hd]
  refine .ofResult_bind (fun _ h => by cases h) fun decoded hdd => ?_
  cases hdd
  refine .caught_bind (Q := fun _ t => ReflTransGen Serviced c t ∧ Trusts c t)
    (tick_ensures (fun _ _ _ h h' => ⟨h,h'⟩) fun t h => ⟨h.serviced,fun h' => ?_⟩) fun _ t ht => ?_
  · cases h.live.running.symm.trans h'
  rw [hs]
  have hf := of_serviced ht.1
  have ha' : Awaits n w res t := by
    refine ⟨?_,hf.pending ▸ ha.pending,hf.receipts ▸ ha.receipts⟩
    rw [InputClient.next,hf.nextAction]
    exact ha.sent
  exact (actionResult_awaited ha' hsq haccept).mono fun r u hu => ⟨hu.1,ht.2 ∘ hu.2⟩

/-- The limits and the identity of a grant are fixed. -/
theorem Sequenced.constants (hs : Sequenced c op r c') :
    c'.limits = c.limits ∧ c'.binding = c.binding := by
  cases hs with
  | frames hf | held _ hf => exact ⟨hf.limits,hf.binding⟩
  | @action a _ _ _ d _ _ b hs =>
    have hf := of_serviced hs.ticked.serviced
    have hr : (d.remember (a.event b)).limits = d.limits ∧
        (d.remember (a.event b)).binding = d.binding := by
      unfold InputClient.remember
      split <;> exact ⟨rfl,rfl⟩
    rw [hs.after]
    exact ⟨hr.1.trans hf.limits,hr.2.trans hf.binding⟩
  | pointer hs =>
    have hf := of_serviced hs.ticked.serviced
    rw [hs.after]
    exact ⟨hf.limits,hf.binding⟩
  | abandon => exact ⟨rfl,rfl⟩
  | completed hs =>
    have hf := of_serviced hs.serviced
    exact ⟨hs.after.limits.trans hf.limits,hs.after.binding.trans hf.binding⟩

theorem constants_run (c : InputClient) (ops : List Op) :
    (final c ops).limits = c.limits ∧ (final c ops).binding = c.binding :=
  final_invariant (I := fun t : InputClient => t.limits = c.limits ∧ t.binding = c.binding) step
    (fun t op ht => ⟨(call_sequenced t op).constants.1.trans ht.1,
      (call_sequenced t op).constants.2.trans ht.2⟩)
    ops ⟨rfl,rfl⟩

theorem retains_run (hc : Starts c) (ops : List Op) : Retains (final c ops) := by
  have hrun := history_invariant (I := fun h t => Ordered c.policy h t ∧ Retains t) step (s := c)
    ⟨ordered_of_starts hc,?_⟩ (fun _ t op ⟨ho,hr⟩ =>
      ⟨ho.step (call_sequenced t op),hr.step ho ((call_sequenced t op).changes ho)⟩) ops
  · exact hrun.2
  · obtain ⟨_,_,_,_,_,pol,_,hnew⟩ := hc
    unfold InputClient.new at hnew
    split at hnew
    · cases hnew
    · cases hnew
      exact fun i old h => by cases h

end Waiting

/-- The action was not taken back in these calls. -/
def Keeps (n : ℕ) (events : List Event) : Prop :=
  ∀ e ∈ events, e.input = .abandonUnsent (.action n) → e.reply ≠ .ok .done

/-- Every result of the action that these calls delivered is this one. -/
def Delivers (n : ℕ) (result : InputResult) (events : List Event) : Prop :=
  ∀ e ∈ events, ∀ bytes now other, e.input = .result bytes now →
    decodeInputResult bytes e.before.limits e.before.binding .hostToViewer .reliable = .ok other →
    other.space = .action → other.sequence = n → other = result

section Runs

variable {pol : Policy} {past : List Event} {c : InputClient} {n : ℕ} {w : ℕ × ℕ}
    {res : InputResult}

theorem awaits_run (ho : Ordered pol past c) (ha : Awaits n w res c) (ops : List Op)
    (hk : Keeps n (trace c ops)) (hd : Delivers n res (trace c ops)) :
    Awaits n w res (final c ops) := by
  have hrun := history_invariant (I := fun h t => Ordered pol (past ++ h) t ∧
      (Keeps n h → Delivers n res h → Awaits n w res t)) step (s := c)
    ⟨by rwa [append_nil],fun _ _ => ha⟩ ?_ ops
  · exact hrun.2 hk hd
  · rintro h t op ⟨ho,ha⟩
    have hs := call_sequenced t op
    refine ⟨by rw [← append_assoc]; exact ho.step hs,fun hk hd => ?_⟩
    have hl : (⟨t,op,(step t op).1⟩ : Event) ∈ h ++ [⟨t,op,(step t op).1⟩] :=
      mem_concat_self
    exact (ha (fun e he => hk e (mem_append_left _ he)) fun e he =>
      hd e (mem_append_left _ he)).step (hs.changes ho) (hk _ hl) (hd _ hl)

theorem sent_of_encoded {a room now rec c'}
    (h : Sequenced c (.action a room now) (.ok (.encoded rec)) c') :
    ∃ d slot b, SentAction c d a room now rec slot b c' := by
  cases h with
  | frames _ hr _ => exact hr.elim
  | action hs => exact ⟨_,_,_,hs⟩

/-- The request that was written has the widths of the source. -/
theorem SentAction.sized {d c' a room now rec slot b} (hs : SentAction c d a room now rec slot b c')
    (ho : Ordered pol past c) (hc : InputCredentials.Sized c.credentials) :
    InputRequest.Sized ⟨d.credentials,rec.sequence,a.event b⟩ := by
  have hf := of_serviced hs.ticked.serviced
  have hsq : rec.sequence < 256^8 := by
    obtain ⟨k,_,_,hk,_⟩ := ho.kept
    rw [← hf.nextAction,hs.next] at hk
    split_ifs at hk with hlt
    cases hk
    exact hlt
  have hp := hs.place
  unfold Action.barrier at hp
  refine ⟨(keeps_of_serviced hs.ticked.serviced).1 ▸ hc,hsq,?_⟩
  cases a with
  | key | text => trivial
  | button | scroll => exact ho.pointer b (hf.nextPointer ▸ hp)

end Runs

/-! Both sides. -/

structure ResultBinding.Sized (b : ResultBinding) : Prop where
  channel : b.channel < 256^4
  session : b.session.raw < 256^16
  lease : b.lease.raw < 256^16

/-- The host dispatches under this sequence only what was sent with it. -/
def Relays (calls : List SessionCall) (request : InputRequest) : Prop :=
  ∀ other, .dispatch other ∈ calls → other.event.isPointer = false →
    other.sequence = request.sequence → other.event = request.event

/-- The results of this action that the viewer was given are answers of this host. -/
def Reports (w : World) (calls : List SessionCall) (binding : ResultBinding) (n : ℕ)
    (events : List Event) : Prop :=
  ∀ e ∈ events, ∀ bytes now other, e.input = .result bytes now →
    decodeInputResult bytes e.before.limits binding .hostToViewer .reliable = .ok other →
    other.space = .action → other.sequence = n →
    ∃ receipt, Answered (Input.trace w calls) n receipt ∧
      InputResult.fromReceipt binding .action receipt = .ok other

section Agreement

variable {c : InputClient} {ops : List Op} {past later : List Event} {e : Event}

theorem binding_channel (hc : Starts c) : c.binding.channel ≠ 0 := by
  obtain ⟨_,channel,_,_,_,_,_,hnew⟩ := hc
  unfold InputClient.new at hnew
  split at hnew
  · cases hnew
  · next h =>
    cases hnew
    exact fun hz => h (.inl hz)

/-- A valid result has a record wherever an input request has one. -/
theorem encodeInputResult_of_valid {res : InputResult} {re room room' binding l d di b}
    (hv : res.validate = .ok ()) (hc : res.binding.channel ≠ 0)
    (hi : encodeInput re room l binding di d = .ok b)
    (hr : headerBytes+inputResultPayload ≤ room') :
    ∃ b', encodeInputResult res room' l .hostToViewer .reliable = .ok b' := by
  obtain ⟨_,_,hi⟩ := bind_eq_ok.mp hi
  obtain ⟨_,_,hi⟩ := bind_eq_ok.mp hi
  obtain ⟨_,hm,_⟩ := encodeBounded_eq_ok.mp hi
  have hf : headerBytes+inputResultPayload ≤ l.maxControlMessageBytes := by
    unfold inputPrefixBytes at hm
    unfold inputResultPayload
    omega
  exact ⟨_,bind_eq_ok.mpr ⟨(),rfl,bind_eq_ok.mpr ⟨(),hv,encodeBounded_eq_ok.mpr
    ⟨fun h => hc h.1,hf,hr,by decide,length_encodeResultFields res,rfl⟩⟩⟩⟩

/-- An action that was sent in a run, and the rest of the run from there. -/
theorem sent_run {a room now rec} (hc : Starts c)
    (ht : trace c ops = past ++ e :: later) (hi : e.input = .action a room now)
    (hr : e.reply = .ok (.encoded rec)) :
    ∃ d slot b c' rest, SentAction e.before d a room now rec slot b c' ∧
      Ordered c.policy past e.before ∧ Ordered c.policy (past ++ [e]) c' ∧ Retains e.before ∧
      e.before.limits = c.limits ∧ e.before.binding = c.binding ∧ later = trace c' rest ∧
      final c ops = final c' rest := by
  obtain ⟨before,_,rest,rfl,rfl,rfl,rfl⟩ := trace_split step ht
  cases hi
  have ho := ordered_run hc before
  have hs : Sequenced (final c before) (.action a room now)
    (step (final c before) (.action a room now)).1
      (step (final c before) (.action a room now)).2 := call_sequenced _ _
  have ha := ho.step hs
  rw [show (step (final c before) (.action a room now)).1 = .ok (.encoded rec) from hr] at hs
  obtain ⟨d,slot,b,hse⟩ := sent_of_encoded hs
  exact ⟨d,slot,b,_,rest,hse,ho,ha,retains_run hc before,(constants_run c before).1,
    (constants_run c before).2,rfl,final_append step c before _⟩

/-- Deliveries of the host's answers are deliveries of one result. -/
theorem Reports.delivers {w ca au n rc res} {c' : InputClient} {rest} (hops : Opens au w)
    (ha : Answered (Input.trace w ca) n rc)
    (hr : InputResult.fromReceipt c.binding .action rc = .ok res) (hsm : c'.binding = c.binding)
    (h : Reports w ca c.binding n (trace c' rest)) : Delivers n res (trace c' rest) := by
  intro e he bs now other hi hd hs hsq
  have hb : e.before.binding = c.binding := by
    obtain ⟨_,_,ht⟩ := append_of_mem he
    obtain ⟨before,_,_,_,_,rfl,_⟩ := trace_split step ht
    exact (constants_run c' before).2.trans hsm
  rw [hb] at hd
  obtain ⟨_,ha',ho⟩ := h e he bs now other hi hd hs hsq
  rw [ha.unique hops ha',ho] at hr
  exact Except.ok.inj hr

theorem receipts_agree {a : Action} {room : ℕ} {now : ClientInstant} {record : Encoded}
    (hc : Starts c) (hbinding : ResultBinding.Sized c.binding)
    (hcredentials : InputCredentials.Sized e.before.credentials)
    (htrace : trace c ops = past ++ e :: later) (hinput : e.input = .action a room now)
    (hreply : e.reply = .ok (.encoded record)) :
    ∃ request, decodeInput record.bytes c.limits c.binding.channel .viewerToHost .reliable =
      .ok request ∧ ∀ authority w calls rc, Opens authority w → Relays calls request →
        Answered (Input.trace w calls) request.sequence rc → Explains (Input.final w calls).trail →
        ∃ res, InputResult.fromReceipt c.binding .action rc = .ok res ∧
          (∀ p : Pending, p.minimum = a.window.1 → p.maximum = a.window.2 →
            p.accepts res.outcome res.submittedOperations = true) ∧
          ∀ room', headerBytes+inputResultPayload ≤ room' → ∃ bytes,
            encodeInputResult res room' c.limits .hostToViewer .reliable = .ok bytes ∧
            decodeInputResult bytes c.limits c.binding .hostToViewer .reliable = .ok res ∧
            (Keeps record.sequence later → Reports w calls c.binding record.sequence later → ∀ now',
              (∃ event, (step (final c ops) (.result bytes now')).1 = .ok (.result event)) ∧
              Trusts (final c ops) (step (final c ops) (.result bytes now')).2) := by
  obtain ⟨d,_,b,c',rest,hse,ho,ho',hret,hl,hs,rfl,hfin⟩ := sent_run hc htrace hinput hreply
  have hf := of_serviced hse.ticked.serviced
  have hsz := hse.sized ho hcredentials
  have henc := hse.bytes
  rw [hf.limits,hf.binding,hl,hs] at henc
  refine ⟨_,decodeInput_encodeInput hbinding.channel hsz henc,?_⟩
  intro authority w calls rc hops hrel hans hexp
  have hfi : TextFits (a.event b) := by
    obtain ⟨_,_,h⟩ := bind_eq_ok.mp henc
    obtain ⟨_,hsi,_⟩ := bind_eq_ok.mp h
    exact (inputSize_eq_ok.mp hsi).1
  have hse' : ∀ e ∈ Input.trace w calls, ∀ request, e.input = .dispatch request →
      request.event.isPointer = false → request.sequence = record.sequence →
          request.event = a.event b := by
    intro e he request hinput
    have hm := mem_map_of_mem (f := Transition.Event.input) he
    rw [Input.trace,map_input_trace,hinput] at hm
    exact hrel request hm
  have hcon := hans.conforms hops hse' (sendable_of_fits hfi) hexp
  have hpos : 0 ∉ (a.event b).totals := fun hz => (totals_bounds hfi 0 hz).1 rfl
  obtain ⟨hle,reason,hres,hv⟩ := fromReceipt_of_conforms hcon (binding_channel hc) hpos
    fun n hn => (totals_bounds hfi n hn).2
  have ha : ∀ p : Pending, p.minimum = a.window.1 → p.maximum = a.window.2 →
      p.accepts rc.outcome rc.submittedOperations = true := by
    intro p hmin hmax
    refine accepts_of_conforms hcon hpos fun n hn => ?_
    rw [hmin,hmax]
    exact totals_window n hn
  refine ⟨resultOf c.binding rc reason,hres,ha,fun room' hro => ?_⟩
  obtain ⟨bytes,hb⟩ := encodeInputResult_of_valid hv (binding_channel hc) henc hro
  have hsq : rc.sequence = record.sequence := (hans.recorded_ hops).2
  have hd := decodeInputResult_encodeInputResult (r := resultOf c.binding rc reason)
    {hbinding with sequence := hsq.trans_lt hsz.sequence,operations := hle.trans_lt (by decide)} hb
  rw [resultOf_binding] at hd
  refine ⟨bytes,hb,hd,fun hk hr now' => ?_⟩
  -- the owner still awaits this result, or replays it
  obtain ⟨hl',hs'⟩ := constants_run c' rest
  have hc' := (Sequenced.action hse).constants
  rw [hc'.1,hl] at hl'
  rw [hc'.2,hs] at hs'
  have hawait := awaits_run ho' (.of_sent hret ho hse (resultOf c.binding rc reason)) rest hk
    (hr.delivers hops hans hres (hc'.2.trans hs))
  rw [hfin]
  have hd' : decodeInputResult bytes (final c' rest).limits (final c' rest).binding
      .hostToViewer .reliable = .ok (resultOf c.binding rc reason) := by
    rw [hl',hs']
    exact hd
  have hanswer : Ensures (call (.result bytes now')) (final c' rest) fun r t =>
      (∃ event, r = .ok (.result event)) ∧ Trusts (final c' rest) t :=
    Ensures.bind (result_awaited hawait hd' rfl hsq ha)
      (fun event _ ht => .pure ⟨⟨event,rfl⟩,ht.2⟩) fun _ _ ht => by
        obtain ⟨_,hok⟩ := ht.1
        cases hok
  exact hanswer

end Agreement

/-! A press on both sides. -/

def presser : Except ClientError InputClient :=
  InputClient.new sampleCredentials 7 sampleBounds ⟨fun _ => true⟩ sampleProtocolLimits
    ⟨250000,2000000⟩ 0

def presenting : List Op := [.confirmMapping ⟨1⟩ ⟨0,0,0,⟨0⟩⟩ 1,.presented ⟨⟨1⟩,1,⟨0,0,0,⟨0⟩⟩,1,0⟩ 1]

def keyPress : Op := .action (.key sampleKey .press) 4096 2

def pressRecord : Encoded where
  bytes := (encodeInput (samplePress 0) 4096 sampleProtocolLimits 7 .viewerToHost
    .reliable).toOption.getD []
  sequence := 0
  space := .action

/-- A host whose sink calls back this often and then answers so. -/
def answering (callbacks : ℕ) (authorized : Except Refusal Submission) : World :=
  sampleWorld [] (List.replicate 4 ⟨5,.ok (),.submitted,callbacks,authorized,false,false,false⟩)

/-- A sink that authorized what it submits. -/
def authorizes : Occurrence → Bool
  | .report _ warranted result => warranted && result.isOk
  | _ => true

theorem explains_of_authorized {t : List Occurrence} (h : t.all authorizes = true) :
    Explains t := by
  intro op warranted res hm
  obtain ⟨hw,hok⟩ := Bool.and_eq_true_iff.mp (all_eq_true.mp h _ hm)
  refine ⟨fun refusal her => ?_,fun _ => hw⟩
  rw [her] at hok
  cases hok

theorem presser_presses {c} (hc : presser = .ok c) :
    (step (final c presenting) keyPress).1 = .ok (.encoded pressRecord) ∧
    c.limits = sampleProtocolLimits ∧
      c.binding = ⟨7,⟨1⟩,⟨7⟩⟩ ∧ InputCredentials.Sized (final c presenting).credentials := by
  cases hc
  exact ⟨rfl,rfl,rfl,by decide,by decide,by decide,by decide,by decide,by decide,by decide⟩

theorem pressRecord_decodes :
    decodeInput pressRecord.bytes sampleProtocolLimits 7 .viewerToHost .reliable = .ok
      (samplePress 0) := by
  decide +kernel

/-- Refusals without a wire reason, and an unknown effect of nothing that was authorized. -/
theorem receipts_disagree : ∃ c, presser = .ok c ∧
    (step (final c presenting) keyPress).1 = .ok (.encoded pressRecord) ∧
    decodeInput pressRecord.bytes c.limits c.binding.channel .viewerToHost .reliable = .ok
      (samplePress 0) ∧
    (∃ rc, Opens sampleAuthority (answering 1 (.error (.authority .releasePending))) ∧
      (Input.step (answering 1 (.error (.authority .releasePending)))
        (.dispatch (samplePress 0))).1 = .dispatched (.ok (.completed rc)) ∧
      InputResult.fromReceipt c.binding .action rc = .error .unsupportedKind) ∧
    ∃ rc, Opens sampleAuthority (answering 0 (.ok .unknown)) ∧
      (Input.step (answering 0 (.ok .unknown)) (.dispatch (samplePress 0))).1 =
        .dispatched (.ok (.completed rc)) ∧
      InputResult.fromReceipt c.binding .action rc = .error .invalidValue := by
  obtain ⟨c,hc⟩ : ∃ c, presser = .ok c := ⟨_,rfl⟩
  obtain ⟨hp,hl,hb,_⟩ := presser_presses hc
  refine ⟨c,hc,hp,?_,?_⟩
  · rw [hl,hb]
    exact pressRecord_decodes
  rw [hb]
  exact ⟨⟨⟨0,.rejectedBeforeSubmission,0,some (.authority .releasePending)⟩,
    sampleWorld_opens _ _,rfl,rfl⟩,
    ⟨0,.rejectedBeforeSubmission,0,some .unknownEffect⟩,sampleWorld_opens _ _,rfl,rfl⟩

theorem receipts_agree_pressed : ∃ c rc res bytes event, presser = .ok c ∧
    (Input.step (answering 1 (.ok .submitted)) (.dispatch (samplePress 0))).1 =
      .dispatched (.ok (.completed rc)) ∧ InputResult.fromReceipt c.binding .action rc = .ok res ∧
    decodeInputResult bytes c.limits c.binding .hostToViewer .reliable = .ok res ∧
    (step (final c (presenting ++ [keyPress])) (.result bytes 3)).1 = .ok (.result event) := by
  have hhost : (Input.step (answering 1 (.ok .submitted)) (.dispatch (samplePress 0))).1 =
    .dispatched (.ok (.completed ⟨0,.submittedToOs,1,none⟩)) := rfl
  have he : Explains
      (Input.final (answering 1 (.ok .submitted)) [.dispatch (samplePress 0)]).trail :=
    explains_of_authorized (by decide +kernel)
  obtain ⟨c,hc⟩ : ∃ c, presser = .ok c := ⟨_,rfl⟩
  obtain ⟨hp,hl,hbi,hs⟩ := presser_presses hc
  have ht : trace c (presenting ++ [keyPress]) = trace c presenting ++
      [⟨final c presenting,keyPress,(step (final c presenting) keyPress).1⟩] :=
    trace_append step c presenting [keyPress]
  obtain ⟨_,hr,ha⟩ := receipts_agree ⟨_,_,_,_,_,_,_,hc⟩
    (by rw [hbi]; exact ⟨by decide,by decide,by decide⟩) hs ht rfl hp
  have hd := pressRecord_decodes
  rw [hl,hbi,hd] at hr
  cases hr
  obtain ⟨res,hres,_,hrec⟩ := ha sampleAuthority (answering 1 (.ok .submitted))
    [.dispatch (samplePress 0)] ⟨0,.submittedToOs,1,none⟩ (sampleWorld_opens _ _)
    (fun other ho _ _ => by cases mem_singleton.mp ho; rfl)
    ⟨_,mem_singleton_self _,samplePress 0,rfl,rfl,rfl,hhost⟩ he
  obtain ⟨bytes,_,hb,haccept⟩ := hrec 4096 (by decide)
  obtain ⟨⟨event,hev⟩,_⟩ := haccept (by simp [Keeps]) (by simp [Reports]) 3
  exact ⟨c,_,res,bytes,event,hc,hhost,hres,hb,hev⟩

end FrankenRemote.Client
