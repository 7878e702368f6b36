import FrankenRemote.StagingRoot

/-! Conservation of the reservations of a drop directory: whatever the file system answers and
however the owners interleave, the account is the sum over the objects that are alive or could
not be removed. -/
namespace FrankenRemote.Files

open Bytes Procedure Transition ObjectTable Option

section Staging

variable {M : Type} [DecidableEq M] {env : Portability M}

inductive Phase
  | opening
  | active (state : ObjectState)
  | retained
  deriving DecidableEq

namespace Slot

def phase : Slot env → Phase
  | .opening _ _ _ => .opening
  | .file p => .active p.state
  | .directory p => .active p.state
  | .retained _ => .retained

def size : Slot env → ℕ
  | .opening r _ _ => r.size
  | .file p => p.reservation.size
  | .directory p => p.reservation.size
  | .retained size => size

end Slot

structure Pending.Sound {σ : Type} (p : Pending σ) : Prop where
  release : p.reservation.release = true
  hidden : Hidden p.unlinked

def Slot.Sound : Slot env → Prop
  | .opening r _ _ => r.release = true
  | .file p => p.Sound
  | .directory p => p.Sound
  | .retained _ => True

namespace StagingInput

def owner : StagingInput env → Option ℕ
  | .beginFile _ _ _ _ | .beginDirectory _ _ => none
  | .openFile k _ | .openDirectory k _ _ _ | .writeChunk k _ _ _ | .writeEntry k _ _ _ _ |
    .verifyFile k _
  | .verifyDirectory k _ _ | .publish k _ _ _ | .cancel k _ _ | .drop k _ => some k

/-- Writes and verifications, with the state that a success leaves. -/
def works : StagingInput env → Option (ℕ × ObjectState)
  | .writeChunk k _ _ _ | .writeEntry k _ _ _ _ => some (k,.receiving)
  | .verifyFile k _ | .verifyDirectory k _ _ => some (k,.verified)
  | _ => none

def publishes : StagingInput env → Option ℕ
  | .publish k _ _ _ => some k
  | _ => none

end StagingInput

def Succeeds (i : StagingInput env) (reply : StagingReply) (k : ℕ) : Prop :=
  (∃ goal, i.works = some (k,goal) ∧ reply.outcome = .done) ∨
    (i.publishes = some k ∧ ∃ object, reply.outcome = .published object)

namespace DropRoot

def phase (w : DropRoot env) (k : ℕ) : Option Phase := (w.objects.slot k).map Slot.phase

/-- The account and the objects agree. -/
structure Balanced (w : DropRoot env) : Prop where
  bytes : w.reserved.bytes = w.objects.weigh Slot.size
  transfers : w.reserved.transfers = w.objects.weigh fun _ => 1
  bytes_le : w.reserved.bytes ≤ w.limits.maxReservedBytes
  transfers_le : w.reserved.transfers ≤ w.limits.maxTransfers
  sound : ∀ k a, w.objects.slot k = some a → a.Sound

/-- The directory after an object has gone. -/
def settled (w : DropRoot env) (k size : ℕ) (cleaned : Bool) : DropRoot env :=
  {w with
    reserved := if cleaned then ⟨w.reserved.bytes-size,w.reserved.transfers-1⟩ else w.reserved
    objects := w.objects.set k (if cleaned then none else some (.retained size))}

/-! What one call can do. -/

inductive Turn (w : DropRoot env) (i : StagingInput env) : StagingReply → DropRoot env → Prop
  | refused (e : FileError) (howner : i.owner = none) : Turn w i ⟨.refused e,[],none⟩ w
  | absent : Turn w i ⟨.absent,[],none⟩ w
  | began {slot reserved} (hphase : slot.phase = .opening) (hsound : slot.Sound)
      (howner : i.owner = none) (hreserve : w.reserved.reserve w.limits slot.size = .ok reserved) :
      Turn w i ⟨.begun w.objects.fresh,[],none⟩ {w with reserved, objects := w.objects.add slot}
  | opened {k a b} (hslot : w.objects.slot k = some a) (ha : a.phase = .opening)
      (hb : b.phase = .active .receiving) (hsize : b.size = a.size) (hsound : b.Sound) :
      Turn w i ⟨.opened,[],none⟩ {w with objects := w.objects.set k (some b)}
  | worked {k a b goal s t r}
      (hslot : w.objects.slot k = some a) (hworks : i.works = some (k,goal))
      (ha : a.phase = .active s)
      (hb : b.phase = .active t) (hwork : Worked goal s r t) (hsize : b.size = a.size)
      (hsound : b.Sound) :
      Turn w i ⟨.ofResult r,[],none⟩ {w with objects := w.objects.set k (some b)}
  | gone {k a outcome removed cleaned}
      (hslot : w.objects.slot k = some a) (hlive : a.phase ≠ .retained) (howner : i.owner = some k)
      (hworks : i.works = none) (hunderflow : outcome ≠ .underflow) (hhidden : Hidden removed)
      (hpublished : ∀ object, outcome = .published object → a.phase = .active .verified ∧
        cleaned = true) :
      Turn w i ⟨outcome,removed,some ⟨k,cleaned,cleaned⟩⟩ (w.settled k a.size cleaned)

section Steps

variable {w : DropRoot env} {i : StagingInput env} {k : ℕ} {a : Slot env} (hw : w.Balanced)
  (hk : w.objects.slot k = some a)

include hw hk in
theorem settle_eq (o : StagingOutcome) (removed : List Place) (cleaned : Bool) :
    w.settle k ⟨a.size,cleaned⟩ o removed cleaned =
      (⟨o,removed,some ⟨k,cleaned,cleaned⟩⟩,w.settled k a.size cleaned) := by
  have hb : a.size ≤ w.reserved.bytes := by
    rw [hw.bytes]
    exact le_weigh hk
  have ht : 1 ≤ w.reserved.transfers := by
    rw [hw.transfers]
    exact le_weigh (w := fun _ => 1) hk
  cases cleaned with
  | false => rfl
  | true => simp [settle,settled,Reserved.giveBack,hb,ht]

variable {r : Reservation} {σ : Type} {unlink : Place → Call}

include hw hk in
theorem settle_turn {o re cl} (hr : r = ⟨a.size,cl⟩) (hl : a.phase ≠ .retained)
    (ho : i.owner = some k) (hwk : i.works = none) (hu : o ≠ .underflow) (hh : Hidden re)
    (hp : ∀ object, o = .published object → a.phase = .active .verified ∧ cl = true) :
    Turn w i (w.settle k r o re cl).1 (w.settle k r o re cl).2 := by
  rw [hr,settle_eq hw hk]
  exact .gone hk hl ho hwk hu hh hp

variable {p : Pending σ} {c : Custody σ}

include hw hk in
theorem dropObject_turn {o} (hsi : p.reservation.size = a.size) (hs : Settled p)
    (hh : Hidden p.unlinked)
    (hl : a.phase ≠ .retained) (ho : i.owner = some k) (hwk : i.works = none) (hu : o ≠ .underflow)
    (hpub : ∀ object, o = .published object → a.phase = .active .verified ∧ p.state = .published) :
    Turn w i (w.dropObject k c o unlink p).1 (w.dropObject k c o unlink p).2 := by
  have hc := cleanup_cleaned c unlink hs
  apply settle_turn hw hk _ hl ho hwk hu (hc.hidden hh)
  · intro object hob
    obtain ⟨ha,hp⟩ := hpub object hob
    refine ⟨ha,?_⟩
    simp [cleanup,hp,Except.isOk,Except.toBool]
  · rw [← hsi,← hc.size,← hc.release]

theorem reserve_turn (slot : Slot env) (hp : slot.phase = .opening) (hs : slot.Sound)
    (ho : i.owner = none) : Turn w i (w.reserve slot.size slot).1 (w.reserve slot.size slot).2 := by
  unfold reserve
  cases h : w.reserved.reserve w.limits slot.size with
  | error e => exact .refused e ho
  | ok reserved => exact .began hp hs ho h

include hw hk in
theorem openFile_turn {pol name n ex} (fs : FileCalls) (ha : a = .opening r pol (.file name n ex))
    (ho : i.owner = some k) (hwk : i.works = none) :
    Turn w i (w.openFile k r pol name n ex fs).1 (w.openFile k r pol name n ex fs).2 := by
  subst ha
  have hr : r.release = true := hw.sound k _ hk
  have hfail (e : FileError) :
      Turn w i (w.settle k r (.refused e) [] true).1 (w.settle k r (.refused e) [] true).2 :=
    settle_turn hw hk (by rw [← hr]; rfl) nofun ho hwk nofun .nil nofun
  unfold openFile
  cases fs.random with
  | none => exact hfail _
  | some nonce =>
    dsimp only
    cases createStaging fs.procfs fs.tmpfile fs.create (stagingLabel nonce) with
    | error e => exact hfail _
    | ok location => exact .opened hk rfl rfl rfl ⟨hr,.nil⟩

include hw hk in
theorem openDirectory_turn {pol m} (ra : Option ℕ)
    (fs : TreeCalls) (unlink : Place → Call) (ha : a = .opening r pol (.directory m))
    (ho : i.owner = some k) (hwk : i.works = none) :
    Turn w i (w.openDirectory k r pol m ra fs unlink).1
      (w.openDirectory k r pol m ra fs unlink).2 := by
  subst ha
  have hr : r.release = true := hw.sound k _ hk
  have hfail (e : FileError) :
      Turn w i (w.settle k r (.refused e) [] true).1 (w.settle k r (.refused e) [] true).2 :=
    settle_turn hw hk (by rw [← hr]; rfl) nofun ho hwk nofun .nil nofun
  unfold openDirectory
  cases ra with
  | none => exact hfail _
  | some nonce =>
    dsimp only
    cases fs.mkdir ⟨none,(stagingLabel nonce).1⟩ with
    | some e => exact hfail _
    | none =>
      dsimp only
      cases fs.openDirectory ⟨none,(stagingLabel nonce).1⟩ with
      | some e =>
        refine settle_turn hw hk rfl nofun ho hwk nofun ?_ nofun
        intro place hp _
        rw [List.mem_singleton.mp hp]
        exact (stagingLabel nonce).2
      | none =>
        dsimp only
        have hb := createEntries_hidden env fs m.manifest.entries
          (b := ⟨⟨[],stagingLabel nonce,[],m.manifest.root⟩,[([],0)],[]⟩) .nil
        unfold Ensures at hb
        split
        · exact .opened hk rfl rfl rfl ⟨hr,hb⟩
        · exact dropObject_turn hw hk rfl (fun _ => hr) hb nofun ho hwk nofun nofun

include hw hk in
theorem work_turn {slot m goal} (ha : a = slot p) (hs : ∀ p, (slot p).phase = .active p.state ∧
      (slot p).size = p.reservation.size ∧ (slot p).Sound = p.Sound)
    (hwk : i.works = some (k,goal)) (hm : Ensures m p (WorkDone goal p)) :
    Turn w i (w.work k slot m p).1 (w.work k slot m p).2 := by
  subst ha
  have hsound := hw.sound k _ hk
  rw [(hs _).2.2] at hsound
  refine .worked hk hwk (hs p).1 (hs _).1 hm.state ?_ ?_
  · rw [(hs _).2.1,(hs _).2.1,hm.reservation]
  · rw [(hs _).2.2]
    exact ⟨hm.reservation ▸ hsound.release,hm.unlinked ▸ hsound.hidden⟩

include hw hk in
theorem publish_turn {rename f}
    (hp : a.phase = .active p.state) (hsi : p.reservation.size = a.size) (hs : p.Sound)
    (ho : i.owner = some k) (hwk : i.works = none) :
    Turn w i (w.publish k c rename f unlink p).1 (w.publish k c rename f unlink p).2 := by
  have hdone := publishNamed_done (p := p) c rename f
  apply dropObject_turn hw hk
  · rw [hdone.reservation,hsi]
  · intro _
    rw [hdone.reservation]
    exact hs.release
  · rw [hdone.unlinked]
    exact hs.hidden
  · simp [hp]
  · exact ho
  · exact hwk
  · cases (exec (publishNamed c rename f) p).1 <;> simp [StagingOutcome.ofPublication]
  · intro object hob
    have hok : (exec (publishNamed c rename f) p).1.isOk = true := by
      cases hr : (exec (publishNamed c rename f) p).1 with
      | ok o => rfl
      | error e => simp [hr,StagingOutcome.ofPublication] at hob
    refine ⟨?_,?_⟩
    · rw [hp,hdone.verified hok]
    · rw [hdone.state,if_pos hok]

include hw hk in
theorem cancel_turn {first s}
    (hp : a.phase = .active p.state) (hsi : p.reservation.size = a.size) (hs : p.Sound)
    (ho : i.owner = some k) (hwk : i.works = none) :
    Turn w i (w.cancel k c first s p).1 (w.cancel k c first s p).2 := by
  have hc := cleanup_cleaned (p := p) c first fun _ => hs.release
  apply dropObject_turn hw hk
  · rw [hc.size,hsi]
  · exact hc.settled
  · exact hc.hidden hs.hidden
  · simp [hp]
  · exact ho
  · exact hwk
  · cases (exec (cleanup c first) p).1 <;> simp [StagingOutcome.ofResult]
  · intro object hob
    cases hr : (exec (cleanup c first) p).1 <;> simp [hr,StagingOutcome.ofResult] at hob

include hw hk in
theorem drop_turn (hp : a.phase = .active p.state) (hsi : p.reservation.size = a.size)
    (hs : p.Sound) (ho : i.owner = some k) (hwk : i.works = none) :
    Turn w i (w.dropObject k c .done unlink p).1 (w.dropObject k c .done unlink p).2 :=
  dropObject_turn hw hk hsi (fun _ => hs.release) hs.hidden (by simp [hp]) ho hwk nofun nofun

end Steps

variable {w w' : DropRoot env} {i : StagingInput env}

theorem step_turn (d : Digests) (hw : w.Balanced) (i : StagingInput env) :
    Turn w i (w.step d i).1 (w.step d i).2 := by
  cases i with
  | beginFile name n e pol =>
    simp only [step]
    split
    · rename_i hname
      exact reserve_turn (.opening ⟨n,true⟩ pol (.file ⟨name,validateName_public hname⟩ n e)) rfl
        rfl rfl
    · exact .refused _ rfl
  | beginDirectory m pol =>
    exact reserve_turn (.opening ⟨m.manifest.size,true⟩ pol (.directory m)) rfl rfl rfl
  | openFile k fs =>
    simp only [step]
    split
    · rename_i hk
      exact openFile_turn hw hk fs rfl rfl rfl
    · exact .absent
  | openDirectory k random fs unlink =>
    simp only [step]
    split
    · rename_i hk
      exact openDirectory_turn hw hk random fs unlink rfl rfl rfl
    · exact .absent
  | writeChunk k o bs write =>
    simp only [step]
    split
    · rename_i p hk
      exact work_turn hw hk rfl (fun _ => ⟨rfl,rfl,rfl⟩) rfl (writeChunk_workDone p o bs write)
    · exact .absent
  | writeEntry k index o bs write =>
    simp only [step]
    split
    · rename_i p hk
      exact work_turn hw hk rfl (fun _ => ⟨rfl,rfl,rfl⟩) rfl
        (writeEntry_workDone p index o bs write)
    · exact .absent
  | verifyFile k sync =>
    simp only [step]
    split
    · rename_i p hk
      exact work_turn hw hk rfl (fun _ => ⟨rfl,rfl,rfl⟩) rfl (verifyFile_workDone d p sync)
    · exact .absent
  | verifyDirectory k sync fsync =>
    simp only [step]
    split
    · rename_i p hk
      exact work_turn hw hk rfl (fun _ => ⟨rfl,rfl,rfl⟩) rfl
        (verifyDirectory_workDone d p sync fsync)
    · exact .absent
  | publish k rename fsync unlink =>
    simp only [step]
    split
    · rename_i hk
      exact publish_turn hw hk rfl rfl (hw.sound k _ hk) rfl rfl
    · rename_i hk
      exact publish_turn hw hk rfl rfl (hw.sound k _ hk) rfl rfl
    · exact .absent
  | cancel k first second =>
    simp only [step]
    split
    · rename_i hk
      exact cancel_turn hw hk rfl rfl (hw.sound k _ hk) rfl rfl
    · rename_i hk
      exact cancel_turn hw hk rfl rfl (hw.sound k _ hk) rfl rfl
    · exact .absent
  | drop k unlink =>
    simp only [step]
    split
    · rename_i hk
      exact drop_turn hw hk rfl rfl (hw.sound k _ hk) rfl rfl
    · rename_i hk
      exact drop_turn hw hk rfl rfl (hw.sound k _ hk) rfl rfl
    · exact .absent

/-! What a run preserves. -/

/-- The phases that one call can change, for any object. -/
inductive Advance : Option Phase → Option Phase → Prop
  | stay (phase : Option Phase) : Advance phase phase
  | begin : Advance none (some .opening)
  | opened : Advance (some .opening) (some (.active .receiving))
  | verified : Advance (some (.active .receiving)) (some (.active .verified))
  | failed : Advance (some (.active .receiving)) (some (.active .failed))
  | gone (phase : Phase) : Advance (some phase) none
  | retained (phase : Phase) : Advance (some phase) (some .retained)

/-- No call on the object can succeed again. -/
def Finished (w : DropRoot env) (k : ℕ) : Prop :=
  k < w.objects.fresh ∧
    (w.phase k = none ∨ w.phase k = some .retained ∨ w.phase k = some (.active .failed))

/-- The call gave the charge of the object back. -/
def Releases (k : ℕ) (reply : StagingReply) : Bool :=
  reply.dropped.any fun d => d.object = k ∧ d.released

section Turn

variable {w w' : DropRoot env} {i : StagingInput env} {reply : StagingReply} {k : ℕ} {a : Slot env}

theorem phase_set (hk : w.objects.slot k = some a) (v : Option (Slot env)) (reserved : Reserved)
    (j : ℕ) : phase {w with reserved, objects := w.objects.set k v} j =
      if j = k then v.map Slot.phase else w.phase j := by
  by_cases h : j = k
  · subst h
    simp [phase,slot_set_self hk]
  · simp [phase,slot_set_of_ne h,h]

theorem reserve_eq_ok {l} {held reserved : Reserved} {n} (h : held.reserve l n = .ok reserved) :
    reserved = ⟨held.bytes+n,held.transfers+1⟩ ∧ held.bytes+n ≤ l.maxReservedBytes ∧
      held.transfers+1 ≤ l.maxTransfers := by
  unfold Reserved.reserve at h
  split at h
  · cases h
  · rename_i total ht
    obtain ⟨rfl,_⟩ := checkedAdd_eq_some.mp ht
    split_ifs at h with hbad
    cases h
    simp only [not_or,not_lt,not_le] at hbad
    exact ⟨rfl,hbad.2.1,hbad.2.2⟩

theorem Balanced.set {b : Slot env} (hw : w.Balanced) (hk : w.objects.slot k = some a)
    (hsi : b.size = a.size)
    (hs : b.Sound) : Balanced {w with objects := w.objects.set k (some b)} := by
  have hb := weigh_set (v := some b) Slot.size hk
  have ht := weigh_set (v := some b) (fun _ => 1) hk
  simp only [elim_some,hsi,Nat.add_right_cancel_iff] at hb ht
  refine ⟨hw.bytes.trans hb.symm,hw.transfers.trans ht.symm,hw.bytes_le,hw.transfers_le,?_⟩
  intro j c hj
  by_cases h : j = k
  · subst h
    rw [slot_set_self hk] at hj
    cases hj
    exact hs
  · rw [slot_set_of_ne h] at hj
    exact hw.sound j c hj

theorem Balanced.add {slot : Slot env} {reserved} (hw : w.Balanced) (hs : slot.Sound)
    (h : w.reserved.reserve w.limits slot.size = .ok reserved) :
    Balanced {w with reserved, objects := w.objects.add slot} := by
  obtain ⟨rfl,hb,ht⟩ := reserve_eq_ok h
  refine ⟨?_,?_,hb,ht,?_⟩
  · simp only [weigh_add,hw.bytes]
  · simp only [weigh_add,hw.transfers]
  · intro j c hj
    rcases Nat.lt_trichotomy j w.objects.fresh with hlt | rfl | hlt
    · rw [slot_add_of_lt hlt] at hj
      exact hw.sound j c hj
    · rw [slot_add_fresh] at hj
      cases hj
      exact hs
    · rw [(w.objects.add slot).unborn j hlt] at hj
      cases hj

theorem Balanced.settled (hw : w.Balanced) (hk : w.objects.slot k = some a) (cl : Bool) :
    (w.settled k a.size cl).Balanced := by
  cases cl with
  | false => exact hw.set (b := .retained a.size) hk rfl trivial
  | true =>
    have hby := weigh_set (v := none) Slot.size hk
    have htf := weigh_set (v := none) (fun _ => 1) hk
    simp only [elim_none] at hby htf
    have hb := hw.bytes
    have ht := hw.transfers
    have hbl := hw.bytes_le
    have htl := hw.transfers_le
    constructor
    case sound =>
      intro j c hj
      simp only [DropRoot.settled,if_true] at hj
      by_cases h : j = k
      · subst h
        rw [slot_set_self hk] at hj
        cases hj
      · rw [slot_set_of_ne h] at hj
        exact hw.sound j c hj
    all_goals
      simp only [DropRoot.settled,if_true]
      omega

theorem Turn.balanced (h : Turn w i reply w') (hw : w.Balanced) : w'.Balanced := by
  cases h with
  | refused | absent => exact hw
  | began hp hs ho hr => exact hw.add hs hr
  | opened hk ha hb hsi hs | worked hk hwk ha hb hwork hsi hs =>
    exact hw.set hk hsi hs
  | gone hk hl ho hwk hu hh hpub => exact hw.settled hk _

theorem Turn.limits_eq (h : Turn w i reply w') : w'.limits = w.limits := by
  cases h <;> rfl

theorem Turn.fresh_le (h : Turn w i reply w') : w.objects.fresh ≤ w'.objects.fresh := by
  cases h <;> simp [DropRoot.settled]

theorem phase_settled (hk : w.objects.slot k = some a) (n : ℕ) (cl : Bool) (j : ℕ) :
    (w.settled k n cl).phase j = if j = k then
      (if cl then none else some .retained) else w.phase j := by
  rw [DropRoot.settled,phase_set hk]
  cases cl <;> rfl

theorem phase_add (slot : Slot env) (reserved : Reserved) (j : ℕ) :
    phase {w with reserved, objects := w.objects.add slot} j =
      if j = w.objects.fresh then some slot.phase else w.phase j := by
  by_cases h : j = w.objects.fresh
  · subst h
    simp [phase,slot_add_fresh]
  · simp [phase,add,h]

theorem Turn.advance (h : Turn w i reply w') (k : ℕ) : Advance (w.phase k) (w'.phase k) := by
  cases h with
  | refused | absent => exact .stay _
  | @began _ _ hp hsound ho _ =>
    rw [phase_add]
    split_ifs with hk
    · have hn : w.phase k = none := by simp [phase,w.objects.unborn k hk.ge]
      rw [hn,hp]
      exact .begin
    · exact .stay _
  | @opened j a b hslot ha hb hsi hsound =>
    rw [phase_set hslot]
    split_ifs with hk
    · subst hk
      simp only [phase,hslot,map_some,ha,hb]
      exact .opened
    · exact .stay _
  | @worked j a b goal s t r hslot hwk ha hb hwork hsi hsound =>
    rw [phase_set hslot]
    split_ifs with hk
    · subst hk
      simp only [phase,hslot,map_some,ha,hb]
      cases hwork with
      | done =>
        have hgoal : goal = .receiving ∨ goal = .verified := by
          cases i <;> simp [StagingInput.works] at hwk <;> simp [← hwk.2]
        rcases hgoal with rfl | rfl
        · exact .stay _
        · exact .verified
      | failed e => exact .failed
      | refused hs => exact .stay _
    · exact .stay _
  | @gone j a _ _ _ hslot _ ho hwk _ _ _ =>
    rw [phase_settled hslot]
    split_ifs with hk hc
    · subst hk
      simp only [phase,hslot,map_some]
      exact .gone _
    · subst hk
      simp only [phase,hslot,map_some]
      exact .retained _
    · exact .stay _

variable {goal : ObjectState}

theorem owner_of_works (h : i.works = some (k,goal)) : i.owner = some k := by
  cases i <;> simp_all [StagingInput.works,StagingInput.owner]

theorem owner_of_publishes (h : i.publishes = some k) : i.owner = some k := by
  cases i <;> simp_all [StagingInput.publishes,StagingInput.owner]

section

variable (h : Turn w i reply w')

include h

theorem Turn.done (hwk : i.works = some (k,goal)) (hdone : reply.outcome = .done) :
    w.phase k = some (.active .receiving) ∧ w'.phase k = some (.active goal) := by
  cases h with
  | refused | absent | began | opened => cases hdone
  | worked hk hwk' ha hb hwork hsi hsound =>
    obtain ⟨rfl,rfl⟩ : _ = k ∧ _ = goal := by simpa [hwk'] using hwk
    rw [phase_set hk,if_pos rfl]
    cases hwork with
    | done => simp [phase,hk,ha,hb]
    | failed e | refused hs => cases hdone
  | gone hk hl ho hwk' hu hh hp =>
    rw [hwk'] at hwk
    cases hwk

theorem Turn.failed (hwk : i.works = some (k,goal))
    (hp : w.phase k = some (.active .receiving)) {e} (her : reply.outcome = .refused e) :
    w'.phase k = some (.active .failed) := by
  cases h with
  | refused e ho =>
    rw [owner_of_works hwk] at ho
    cases ho
  | absent | began | opened => cases her
  | worked hk hwk' ha hb hwork hsi hsound =>
    obtain ⟨rfl,rfl⟩ : _ = k ∧ _ = goal := by simpa [hwk'] using hwk
    rw [phase_set hk,if_pos rfl]
    cases hwork with
    | done => cases her
    | failed e => simp [hb]
    | refused hs => simp [phase,hk,ha,hs] at hp
  | gone hk hl ho hwk' hu hh hpub =>
    rw [hwk'] at hwk
    cases hwk

theorem Turn.published (hp : i.publishes = some k) {o} (hob : reply.outcome = .published o) :
    w.phase k = some (.active .verified) ∧ w'.phase k = none := by
  cases h with
  | refused | absent | began | opened => cases hob
  | @worked j a b _ s t r hk hwk ha _ hwork _ _ => cases hwork <;> cases hob
  | gone hk hl ho hwk hu hh hpub =>
    obtain rfl : _ = k := by simpa [ho] using owner_of_publishes hp
    obtain ⟨ha,rfl⟩ := hpub o hob
    rw [phase_settled hk]
    simp [phase,hk,ha]

theorem Turn.dropped {d} (hd : reply.dropped = some d) :
    d.released = d.cleaned ∧ w.phase d.object ≠ none ∧
      w'.phase d.object = if d.released then none else some .retained := by
  cases h <;> cases hd
  rename_i hk _ _ _ _ _ _
  refine ⟨rfl,by simp [phase,hk],?_⟩
  rw [phase_settled hk,if_pos rfl]

/-- An identity is not used again, and only a release ends one. -/
theorem Turn.phase_eq_none (hlt : k < w.objects.fresh) :
    w'.phase k = none ↔ w.phase k = none ∨ Releases k reply = true := by
  have hne {j : ℕ} {a : Slot env} (hslot : w.objects.slot j = some a) : w.phase j ≠ none := by
    simp [phase,hslot]
  cases h with
  | refused | absent => simp [Releases]
  | began hp hs ho hr =>
    rw [phase_add,if_neg hlt.ne]
    simp [Releases]
  | opened hslot ha hb hsi hs | worked hslot hwk ha hb hwork hsi hs =>
    rw [phase_set hslot]
    split_ifs with hk
    · simp [hk,hne hslot,Releases]
    · simp [Releases]
  | gone hslot hl ho hwk hu hh hpub =>
    rw [phase_settled hslot]
    split_ifs with hk hc
    · simp [hk,Releases,hc]
    · simp [hk,hne hslot,Releases,hc]
    · simp [Ne.symm hk,Releases]

theorem Turn.finished (hk : w.Finished k) : w'.Finished k := by
  refine ⟨hk.1.trans_le h.fresh_le,?_⟩
  have ha := h.advance k
  rcases hk.2 with hp | hp | hp
  · exact .inl ((h.phase_eq_none hk.1).mpr (.inl hp))
  all_goals
    rw [hp] at ha
    cases hx : w'.phase k with
    | none => exact .inl rfl
    | some phase => rw [hx] at ha; cases ha <;> simp

theorem Turn.hidden : Hidden reply.removed := by
  cases h <;> first | exact .nil | assumption

theorem Turn.no_underflow : reply.outcome ≠ .underflow := by
  cases h with
  | @worked j a b _ s t r hk hwk _ _ hwork _ _ => cases hwork <;> exact nofun
  | gone hk hl ho hwk hu hh hp => exact hu
  | _ => exact nofun

end

end Turn

/-! Runs. -/

/-- What a call does to the objects, and what its success says about them. -/
structure Lawful (w : DropRoot env) (i : StagingInput env) (reply : StagingReply)
    (w' : DropRoot env) : Prop where
  advance : ∀ k, Advance (w.phase k) (w'.phase k)
  done : ∀ k goal, i.works = some (k,goal) → reply.outcome = .done →
    w.phase k = some (.active .receiving) ∧ w'.phase k = some (.active goal)
  failed : ∀ k goal e, i.works = some (k,goal) → w.phase k = some (.active .receiving) →
    reply.outcome = .refused e → w'.phase k = some (.active .failed)
  published : ∀ k object, i.publishes = some k → reply.outcome = .published object →
    w.phase k = some (.active .verified) ∧ w'.phase k = none
  /-- The charge stays exactly if the last cleanup failed. -/
  dropped : ∀ d, reply.dropped = some d → d.released = d.cleaned ∧ w.phase d.object ≠ none ∧
    w'.phase d.object = if d.released then none else some .retained
  no_underflow : reply.outcome ≠ .underflow

variable {reply : StagingReply} {k : ℕ}

theorem Turn.lawful (h : Turn w i reply w') : Lawful w i reply w' :=
  ⟨h.advance,fun _ _ => h.done,fun _ _ _ hwk hp => h.failed hwk hp,
    fun _ _ hpub => h.published hpub,fun _ => h.dropped,h.no_underflow⟩

abbrev StagingEvent (env : Portability M) :=
  Transition.Event (DropRoot env) (StagingInput env) StagingReply

/-- The object has gone and its charge with it. -/
def Ended (w : DropRoot env) (k : ℕ) : Prop := k < w.objects.fresh ∧ w.phase k = none

instance (w : DropRoot env) (k : ℕ) : Decidable (w.Ended k) := inferInstanceAs (Decidable (_ ∧ _))

variable (d : Digests)

structure Traced (limits : StagingLimits) (past : List (StagingEvent env)) (w : DropRoot env) :
    Prop where
  balanced : w.Balanced
  limits_eq : w.limits = limits
  lawful : ∀ e ∈ past, Lawful e.before e.input e.reply (e.before.step d e.input).2
  released : ∀ k, past.countP (fun e => Releases k e.reply) = if w.Ended k then 1 else 0

theorem releases_iff :
    Releases k reply = true ↔ ∃ d, reply.dropped = some d ∧ d.object = k ∧ d.released = true := by
  cases h : reply.dropped <;> simp [Releases,h]

theorem lt_fresh_of_phase (h : w.phase k ≠ none) : k < w.objects.fresh := by
  by_contra hk
  simp [phase,w.objects.unborn k (by omega)] at h

theorem Turn.born (h : Turn w i reply w') (hk : w'.Ended k) : k < w.objects.fresh := by
  obtain ⟨hlt,hp⟩ := hk
  cases h with
  | @began _ _ _ _ _ _ =>
    rw [phase_add] at hp
    split_ifs at hp with hf
    simp only [fresh_add] at hlt
    omega
  | _ => exact hlt

theorem Turn.released (h : Turn w i reply w')
    (k : ℕ) : (if w.Ended k then 1 else 0) +
      (if Releases k reply then 1 else 0) = if w'.Ended k then 1 else 0 := by
  by_cases hr : Releases k reply = true
  · obtain ⟨d,hd,rfl,hreleased⟩ := releases_iff.mp hr
    obtain ⟨_,hb,ha⟩ := h.dropped hd
    rw [if_pos hreleased] at ha
    have he : w'.Ended d.object := ⟨(lt_fresh_of_phase hb).trans_le h.fresh_le,ha⟩
    have hal : ¬w.Ended d.object := fun he => hb he.2
    rw [if_neg hal,if_pos hr,if_pos he]
  · have hk : w'.Ended k ↔ w.Ended k := by
      constructor
      · intro he
        have hlt := h.born he
        exact ⟨hlt,((h.phase_eq_none hlt).mp he.2).resolve_right hr⟩
      · intro he
        exact ⟨he.1.trans_le h.fresh_le,(h.phase_eq_none he.1).mpr (.inl he.2)⟩
    simp only [hk,if_neg hr,Nat.add_zero]

/-- The calls after a publication leave the published name and its owner's places alone. -/
def Untouched (k : ℕ) (name : PublicName) (e : StagingEvent env) : Prop :=
  (e.input.owner = some k → e.reply.removed = []) ∧
    ∀ place ∈ e.reply.removed, place.directory = none → place.name ≠ name.1

end DropRoot
end Staging

end FrankenRemote.Files
