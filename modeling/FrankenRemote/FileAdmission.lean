import FrankenRemote.FileReceiver

/-! Admission of received files: the rate over every interval, the order and the quotas of
transfers, the check in front of every publication, and the lane that stays closed. -/
namespace FrankenRemote.Files

open Bytes Procedure Transition List Ensures

namespace LaneAction

def spend : LaneAction → Option (ℕ × ℕ)
  | .charged bytes time _ => some (time,micro*bytes)
  | _ => none

def admission : LaneAction → Option (ℕ × ℕ)
  | .began id _ size => some (id,size)
  | _ => none

/-- No subtraction went below zero: neither the time since the last check nor the tokens. -/
def Exact : LaneAction → Prop
  | .passed s since => since ≤ s.now
  | .charged bytes _ tokens => micro*bytes ≤ tokens
  | _ => True

end LaneAction

/-- The times and microbytes of all charges. -/
def spends (log : List LaneAction) : List (ℕ × ℕ) := log.filterMap LaneAction.spend

/-- The identities and sizes of all accepted transfers. -/
def admissions (log : List LaneAction) : List (ℕ × ℕ) := log.filterMap LaneAction.admission

theorem spends_snoc (log : List LaneAction) (x : LaneAction) :
    spends (log++[x]) = spends log ++ x.spend.toList := by
  cases h : x.spend <;> simp [spends,h]

theorem admissions_snoc (log : List LaneAction) (x : LaneAction) :
    admissions (log++[x]) = admissions log ++ x.admission.toList := by
  cases h : x.admission <;> simp [admissions,h]

/-- Identities increase, and the counters are those of all transfers ever accepted. -/
structure Accounted (policy : ReceivePolicy) (floor : Option ℕ) (usage : FileUsage)
    (accepted : List (ℕ × ℕ)) : Prop where
  increasing : (accepted.map Prod.fst).Pairwise (· < ·)
  floor : ∀ x ∈ accepted, ∃ f, floor = some f ∧ x.1 ≤ f
  transfers : usage.transfers = accepted.length
  declared : usage.declaredBytes = (accepted.map Prod.snd).sum
  transfers_le : usage.transfers ≤ policy.maxSessionTransfers
  declared_le : usage.declaredBytes ≤ policy.maxSessionBytes

theorem Accounted.start (p : ReceivePolicy) : Accounted p none ⟨0,0⟩ [] := by
  constructor <;> simp

theorem Accounted.admitted {p fl u accepted}
    (h : Accounted p fl u accepted) {id n} (hfloor : ∀ f, fl = some f → f < id)
    (ht : u.transfers < p.maxSessionTransfers) (hb : u.declaredBytes+n ≤ p.maxSessionBytes) :
    Accounted p (some id) ⟨u.transfers+1,u.declaredBytes+n⟩ (accepted++[(id,n)]) := by
  have hbl : ∀ x ∈ accepted, x.1 < id := by
    intro x hx
    obtain ⟨f,hf,hle⟩ := h.floor x hx
    exact hle.trans_lt (hfloor f hf)
  constructor
  · rw [map_append,pairwise_append]
    refine ⟨h.increasing,by simp,?_⟩
    simpa using fun a b ha => hbl (a,b) ha
  · simp only [forall_mem_snoc]
    exact ⟨fun x hx => ⟨id,rfl,(hbl x hx).le⟩,id,rfl,le_rfl⟩
  · simp [h.transfers]
  · simp [h.declared]
  · exact ht
  · exact hb

/-- The check in front of a publication: sampled last, passed, and within the lifetime of
the transfer. -/
def Warranted (lifetime : HostDuration) (log : List LaneAction) (id : ℕ) : Prop :=
  ∃ before s since start size, log = before ++ [.passed s since] ∧ since ≤ s.now ∧
    s.approved = true ∧
    (∃ limit, s.authority = .ok limit) ∧ .began id start size ∈ before ∧ s.now < start+lifetime

def Sanctioned (lifetime : HostDuration) (log : List LaneAction) : Prop :=
  ∀ before id after, log = before ++ .published id :: after → Warranted lifetime before id

theorem Sanctioned.snoc {lifetime log x}
    (h : Sanctioned lifetime log) (hx : ∀ id, x = .published id → Warranted lifetime log id) :
    Sanctioned lifetime (log++[x]) := by
  intro before id after hs
  rcases snoc_split hs with ⟨rfl,hla,_⟩ | ⟨rest,_,hl⟩
  · exact hx id hla.symm
  · exact h before id rest hl

/-- Errors of a failed sample. -/
def ReceiveError.FailsCheck : ReceiveError → Prop
  | .clock | .permission | .expired | .closed | .authority _ => True
  | _ => False

/-- The calls that bring a transfer forward. -/
def LaneInput.Works {M : Type} : LaneInput M → Prop
  | .begin .. | .writeEntry .. | .complete .. => True
  | _ => False

namespace HostReceiver

section Lane

variable {M : Type} {r r' : HostReceiver M} {s : Sample}

/-- The sample passes every test. -/
structure Sampled (r : HostReceiver M) (s : Sample) : Prop where
  isOpen : r.closed = false
  forward : r.lastTime ≤ s.now
  approved : s.approved = true
  authorized : ∃ limit, s.authority = .ok limit
  timely : ∀ a, r.active = some a → s.now < a.deadline

def passed (r : HostReceiver M) (s : Sample) : HostReceiver M :=
  {r with
    tokens := TokenBucket.refilled (micro*r.policy.burstBytes) r.policy.bytesPerSecond r.tokens
      (s.now-r.lastTime)
    lastTime := s.now
    log := r.log ++ [.passed s r.lastTime]}

def charged (r : HostReceiver M) (bytes : ℕ) : HostReceiver M :=
  {r with tokens := r.tokens-micro*bytes, log := r.log ++ [.charged bytes r.lastTime r.tokens]}

/-! The calls inside a call. -/

theorem objection_none (h : r.objection s = none) (ho : r.closed = false) : r.Sampled s := by
  cases hl : s.authority with
  | error e =>
    simp only [objection,hl] at h
    split_ifs at h
  | ok limit =>
    simp only [objection,hl] at h
    split_ifs at h with hc happ he
    refine ⟨ho,not_lt.mp hc,happ,⟨limit,hl⟩,?_⟩
    intro a ha
    simpa [ha] using he

variable {e : ReceiveError}

theorem objection_some (h : r.objection s = some e) : e.FailsCheck := by
  cases hl : s.authority <;> simp only [objection,hl] at h <;> split_ifs at h <;>
    cases h <;> trivial

variable {Q : Except ReceiveError Unit → HostReceiver M → Prop}

theorem check_ensures
    (her : ∀ e : ReceiveError, e.FailsCheck → Q (.error e) {r with closed := true})
    (hok : r.Sampled s → Q (.ok ()) (r.passed s)) : Ensures (check s) r Q := by
  refine .get_bind (.refuseIf_bind (fun hc => ?_) fun hc => ?_)
  · rw [← show {r with closed := true} = r by rw [← hc]]
    exact her .closed trivial
  · cases h : r.objection s with
    | none => exact hok (objection_none h (by simpa using hc))
    | some e => exact .modify_bind (.throw (her e (objection_some h)))

theorem checkOrDrop_ensures
    (her : ∀ e : ReceiveError, e.FailsCheck → Q (.error e) {r with closed := true, active := none})
    (hok : r.Sampled s → Q (.ok ()) (r.passed s)) : Ensures (checkOrDrop s) r Q :=
  .of_tryCatch (check_ensures (fun e he => .modify_bind (.throw (her e he))) fun h => .pure (hok h))

variable {α : Type} {P : Except ReceiveError α → HostReceiver M → Prop}

variable {f : Unit → Proc (HostReceiver M) ReceiveError α}

theorem check_bind (her : ∀ e : ReceiveError, e.FailsCheck → P (.error e) {r with closed := true})
    (hok : r.Sampled s → Ensures (f ()) (r.passed s) P) : Ensures (check s >>= f) r P :=
  .of_bind (check_ensures (fun e he => .throw (her e he)) hok)

theorem checkOrDrop_bind
    (her : ∀ e : ReceiveError, e.FailsCheck → P (.error e) {r with closed := true, active := none})
    (hok : r.Sampled s → Ensures (f ()) (r.passed s) P) : Ensures (checkOrDrop s >>= f) r P :=
  .of_bind (checkOrDrop_ensures (fun e he => .throw (her e he)) hok)

theorem charge_bind {b} (hl : P (.error .rateLimited) r)
    (hok : micro*b ≤ r.tokens → Ensures (f ()) (r.charged b) P) : Ensures (charge b >>= f) r P :=
  .of_bind (.get_bind (.refuseIf_bind (fun _ => .throw hl)
    fun h => .of_exec (exec_modify _ _) (hok (not_lt.mp h))))

theorem bindingCheck_bind {b}
    (hw : P (.error .wrongBinding) r) (hok : Ensures (f ()) r P) :
    Ensures (bindingCheck b >>= f) r P :=
  .of_bind (.get_bind (.refuseIf (fun _ => .throw hw) fun _ => hok))

theorem activeCheck_bind {f id}
    (hn : P (.error .noTransfer) r) (hok : ∀ a, r.active = some a → a.id = id → Ensures (f a) r P) :
    Ensures (activeCheck id >>= f) r P := by
  refine .of_bind (.get_bind ?_)
  cases h : r.active.filter fun a => a.id = id with
  | none => exact .throw (.throw hn)
  | some a =>
    obtain ⟨ha,hi⟩ := Option.filter_eq_some_iff.mp h
    exact .pure (hok a ha (by simpa using hi))

/-! What a call can change. -/

/-- No transfer can begin or go on. -/
def Dead (r : HostReceiver M) : Prop :=
  r.closed = true ∨ (r.active = none ∧ 2^64 ≤ r.lastTime + r.policy.transferLifetime)

/-- The transfer began when its deadline says. -/
def Dated (r : HostReceiver M) (a : ActiveTransfer M) : Prop :=
  ∃ start size, .began a.id start size ∈ r.log ∧ a.deadline = start + r.policy.transferLifetime

inductive Act (r : HostReceiver M) : HostReceiver M → Prop
  | pass (s : Sample) (h : r.Sampled s) : Act r (r.passed s)
  | shut : Act r {r with closed := true}
  | drop : Act r {r with active := none}
  | charge (bytes : ℕ) (h : micro*bytes ≤ r.tokens) : Act r (r.charged bytes)
  | admitted (id size : ℕ) (hfloor : ∀ floor, r.floor = some floor → floor < id)
      (htransfers : r.usage.transfers < r.policy.maxSessionTransfers)
      (hbytes : r.usage.declaredBytes+size ≤ r.policy.maxSessionBytes) :
      Act r {r with
        floor := some id
        usage := ⟨r.usage.transfers+1,r.usage.declaredBytes+size⟩
        log := r.log ++ [.began id r.lastTime size]}
  | open_ (a : ActiveTransfer M) (h : r.Dated a) (hlive : ¬r.Dead) : Act r {r with active := some a}
  | publish (id : ℕ) (h : Warranted r.policy.transferLifetime r.log id) :
      Act r {r with log := r.log ++ [.published id]}

theorem Act.dead (h : Act r r') (hr : r.Dead) : r'.Dead := by
  cases h with
  | pass s h =>
    rcases hr with hcl | ⟨ha,hc⟩
    · rw [h.isOpen] at hcl
      cases hcl
    · exact .inr ⟨ha,hc.trans (Nat.add_le_add_right h.forward _)⟩
  | shut => exact .inl rfl
  | drop => exact hr.imp id fun h => ⟨rfl,h.2⟩
  | charge | admitted | publish => exact hr
  | open_ a h hl => exact absurd hr hl

theorem Dated.mono {a} (h : r.Dated a) (hp : r'.policy = r.policy) (hl : r.log ⊆ r'.log) :
    r'.Dated a := by
  obtain ⟨start,n,hb,hd⟩ := h
  exact ⟨start,n,hl hb,by rw [hd,hp]⟩

structure Kept (policy : ReceivePolicy) (r : HostReceiver M) : Prop where
  policy_eq : r.policy = policy
  metered : TokenBucket.Metered (micro*policy.burstBytes) policy.bytesPerSecond r.tokens r.lastTime
    (spends r.log)
  exact_ : ∀ x ∈ r.log, x.Exact
  accounted : Accounted policy r.floor r.usage (admissions r.log)
  active : ∀ a, r.active = some a → r.Dated a
  sanctioned : Sanctioned policy.transferLifetime r.log

theorem Kept.act {p} (hr : Kept p r) (h : Act r r') : Kept p r' := by
  obtain ⟨rfl,hm,he,haccepted,hact,hsanc⟩ := hr
  have hl (x : LaneAction) (hx : x.Exact) : ∀ y ∈ r.log++[x], y.Exact := by
    simp only [forall_mem_snoc]
    exact ⟨he,hx⟩
  have hd (x : LaneAction) (a : ActiveTransfer M) (ha : r.active = some a) :
      Dated {r with log := r.log++[x]} a :=
    (hact a ha).mono rfl (subset_append_left _ _)
  cases h with
  | pass s h =>
    refine ⟨rfl,?_,hl _ h.forward,?_,hd _,hsanc.snoc nofun⟩
    · simpa [passed,spends_snoc,LaneAction.spend] using hm.refill h.forward
    · simpa [passed,admissions_snoc,LaneAction.admission] using haccepted
  | shut => exact ⟨rfl,hm,he,haccepted,hact,hsanc⟩
  | drop => exact ⟨rfl,hm,he,haccepted,nofun,hsanc⟩
  | charge bytes h =>
    refine ⟨rfl,?_,hl _ h,?_,hd _,hsanc.snoc nofun⟩
    · simpa [charged,spends_snoc,LaneAction.spend] using hm.spend h
    · simpa [charged,admissions_snoc,LaneAction.admission] using haccepted
  | admitted id size hf ht hb =>
    refine ⟨rfl,?_,hl _ trivial,?_,hd _,hsanc.snoc nofun⟩
    · simpa [spends_snoc,LaneAction.spend] using hm
    · simpa [admissions_snoc,LaneAction.admission] using haccepted.admitted hf ht hb
  | open_ a h hli =>
    refine ⟨rfl,hm,he,haccepted,?_,hsanc⟩
    rintro b ⟨⟩
    exact h
  | publish id h =>
    refine ⟨rfl,?_,hl _ trivial,?_,hd _,hsanc.snoc ?_⟩
    · simpa [spends_snoc,LaneAction.spend] using hm
    · simpa [admissions_snoc,LaneAction.admission] using haccepted
    · rintro _ ⟨⟩
      exact h

theorem Act.usage_le (h : Act r r') :
    r.usage.transfers ≤ r'.usage.transfers ∧ r.usage.declaredBytes ≤ r'.usage.declaredBytes := by
  cases h with
  | admitted id size hf ht hb => exact ⟨Nat.le_succ _,Nat.le_add_right _ _⟩
  | _ => exact ⟨le_rfl,le_rfl⟩

/-- A call moves the lane by acts, and a failed sample leaves it dead. -/
structure Served (r : HostReceiver M) {α : Type} (res : Except ReceiveError α)
    (r' : HostReceiver M) : Prop where
  moves : Relation.ReflTransGen Act r r'
  failed : ∀ e, res = .error e → e.FailsCheck → r'.Dead

/-- The same for the calls that a dead lane refuses. -/
structure Worked (r : HostReceiver M) {α : Type} (res : Except ReceiveError α)
    (r' : HostReceiver M) : Prop extends Served r res r' where
  live : ∀ a, res = .ok a → ¬r.Dead

theorem Served.refuse (h : Relation.ReflTransGen Act r r') (he : ¬e.FailsCheck) :
    Served r (.error e : Except ReceiveError α) r' := by
  refine ⟨h,?_⟩
  rintro _ ⟨⟩ hf
  exact absurd hf he

theorem Worked.refuse (h : Relation.ReflTransGen Act r r') (he : ¬e.FailsCheck) :
    Worked r (.error e : Except ReceiveError α) r' := ⟨.refuse h he,nofun⟩

theorem Worked.fail (h : Relation.ReflTransGen Act r r') (hd : r'.Dead) :
    Worked r (.error e : Except ReceiveError α) r' := ⟨⟨h,fun _ _ _ => hd⟩,nofun⟩

theorem Worked.done {a} (h : Relation.ReflTransGen Act r r') (hl : ¬r.Dead) :
    Worked r (.ok a : Except ReceiveError α) r' := ⟨⟨h,nofun⟩,fun _ _ => hl⟩

theorem le_of_checkedAdd_eq_none {a b} (h : checkedAdd a b = none) : 2^64 ≤ a+b := by
  by_contra hlt
  rw [checkedAdd,if_pos (by omega)] at h
  cases h

theorem beginVerified_worked (env : Portability M) (offer : VerifiedOffer M) (first se : Sample)
    (o : Except FileError (PendingObject M)) : Ensures (beginVerified env offer first se o) r
      (Worked r) := by
  apply bindingCheck_bind (.refuse .refl id)
  apply check_bind (fun e _ => .fail (.single .shut) (.inl rfl))
  intro hfirst
  have hpass : Relation.ReflTransGen Act r (r.passed first) := .single (.pass first hfirst)
  apply get_bind
  apply refuseIf_bind (fun _ => .refuse hpass id)
  intro hi
  have hact : r.active = none := Option.not_isSome_iff_eq_none.mp hi
  apply refuseIf_bind (fun _ => .refuse hpass id)
  intro hfloor
  apply ofResult_bind
  · intro e he
    cases hname : validateName env offer.name <;> rw [hname] at he <;> cases he
    exact .refuse hpass id
  intro _ _
  apply okOr_bind (fun _ => .refuse hpass id)
  intro declaredBytes hdec
  obtain ⟨rfl,_⟩ := checkedAdd_eq_some.mp hdec
  apply refuseIf_bind (fun _ => .refuse hpass id)
  intro hq
  simp only [not_or,not_le,not_lt] at hq
  apply charge_bind (.refuse hpass id)
  intro ht
  have hcg := hpass.tail (.charge _ ht)
  apply okOr_bind
  · intro hc
    exact .fail hcg (.inr ⟨hact,le_of_checkedAdd_eq_none hc⟩)
  intro deadline hd
  obtain ⟨rfl,hc⟩ := checkedAdd_eq_some.mp hd
  have hli : ¬r.Dead := by
    rintro (hcl | ⟨_,hl⟩)
    · rw [hfirst.isOpen] at hcl
      cases hcl
    · exact absurd (hl.trans (Nat.add_le_add_right hfirst.forward _)) (not_le.mpr hc)
  apply modify_bind
  have ha := hcg.tail (.admitted offer.id offer.size (fun f hf => by
    simpa using fun hle => hfloor ⟨f,hf,hle⟩) hq.1 hq.2)
  apply ofResult_bind
  · intro e he
    cases o <;> cases he
    exact .refuse ha id
  intro file _
  apply modify_bind
  have ho := ha.tail (.open_ ⟨offer.id,offer.size,_,file⟩
    ⟨first.now,offer.size,mem_concat_self,rfl⟩ (by
    rintro (hcl | ⟨_,hl⟩)
    · exact absurd hcl (by simp [charged,passed,hfirst.isOpen])
    · exact absurd hl (not_le.mpr hc)))
  apply checkOrDrop_bind
  · intro e _
    exact .fail ((ho.tail .shut).tail .drop) (.inl rfl)
  · intro hs
    exact .done (ho.tail (.pass se hs)) hli

theorem Sampled.not_dead {a} (h : r.Sampled s) (ha : r.active = some a) : ¬r.Dead := by
  rintro (hc | ⟨hn,_⟩)
  · rw [h.isOpen] at hc
    cases hc
  · rw [ha] at hn
    cases hn

theorem writeEntry_worked (hr : ∀ a, r.active = some a → r.Dated a) (b : FileBinding)
    (t i o : ℕ) (bs : List Byte) (first se : Sample) (w : Call) :
    Ensures (writeEntry b t i o bs first se w) r (Worked r) := by
  apply bindingCheck_bind (.refuse .refl id)
  apply activeCheck_bind (.refuse .refl id)
  intro a ha _
  apply check_bind (fun e _ => .fail (.single .shut) (.inl rfl))
  intro hf
  have hl := hf.not_dead ha
  have hpass : Relation.ReflTransGen Act r (r.passed first) := .single (.pass first hf)
  apply Ensures.ite
  · intro _
    exact .refuse (hpass.tail .drop) id
  intro _
  apply charge_bind (.refuse hpass id)
  intro ht
  have hc := hpass.tail (.charge _ ht)
  rcases a.file.writeEntry i o bs w with ⟨e | _,file⟩
  · exact .refuse (hc.tail .drop) id
  · apply modify_bind
    have hd : Dated ((r.passed first).charged (recordCost + bs.length)) {a with file} :=
      (hr a ha).mono rfl fun x hx => mem_append_left _ (mem_append_left _ hx)
    have ho := hc.tail (.open_ {a with file} hd (by
      rintro (hcl | ⟨hn,_⟩)
      · exact absurd hcl (by simp [charged,passed,hf.isOpen])
      · exact absurd hn (by simp [charged,passed,ha])))
    apply checkOrDrop_bind
    · intro e _
      exact .fail ((ho.tail .shut).tail .drop) (.inl rfl)
    · intro hs
      exact .done (ho.tail (.pass se hs)) hl

theorem complete_worked (d : Digests) (hr : ∀ a, r.active = some a → r.Dated a) (b : FileBinding)
    (t : ℕ) (first second : Sample) (fs : VerifyCalls) (rename : ℕ → Call) (fsy : Call) :
    Ensures (complete d b t first second fs rename fsy) r (Worked r) := by
  apply bindingCheck_bind (.refuse .refl id)
  apply activeCheck_bind (.refuse .refl id)
  rintro a ha rfl
  apply check_bind (fun e _ => .fail (.single .shut) (.inl rfl))
  intro hf
  have hl := hf.not_dead ha
  have hpass : Relation.ReflTransGen Act r (r.passed first) := .single (.pass first hf)
  apply charge_bind (.refuse hpass id)
  intro ht
  apply modify_bind
  have htake := (hpass.tail (.charge _ ht)).tail .drop
  apply ofResult_bind
  · intro e he
    cases hv : (a.file.verify d fs).1 <;> rw [hv] at he <;> cases he
    exact .refuse htake id
  intro _ _
  apply check_bind (fun e _ => .fail (htake.tail .shut) (.inl rfl))
  intro hs
  have hc := htake.tail (.pass second hs)
  apply Ensures.ite
  · intro _
    exact .fail (hc.tail .shut) (.inl rfl)
  intro hb
  apply modify_bind
  obtain ⟨start,n,hbegin,hd⟩ := hr a ha
  have hp := hc.tail (.publish a.id ⟨_,second,_,start,n,rfl,hs.forward,hs.approved,hs.authorized,
      mem_append_left _ (mem_append_left _ hbegin),hd ▸ not_le.mp hb⟩)
  apply ofResult_bind
  · intro e he
    cases hres : (a.file.verify d fs).2.publish rename fsy <;> rw [hres] at he <;> cases he
    exact .refuse hp id
  · intro publication _
    exact .done hp hl

theorem service_served (s : Sample) : Ensures (service s) r (Served r) :=
  checkOrDrop_ensures
    (fun _ _ => ⟨(Relation.ReflTransGen.single .shut).tail .drop,fun _ _ _ => .inl rfl⟩)
    fun h => ⟨.single (.pass s h),nofun⟩

theorem cancel_served (b : FileBinding) (t : ℕ) (u : Place → Call) : Ensures (cancel b t u) r
    (Served r) := by
  apply bindingCheck_bind (.refuse .refl id)
  apply activeCheck_bind (.refuse .refl id)
  intro a _ _
  apply modify_bind
  cases a.file.cancel u with
  | error e => exact .refuse (.single .drop) id
  | ok _ => exact ⟨.single .drop,nofun⟩

theorem close_served (u : Place → Call) : Ensures (close u) r (Served r) := by
  apply modify_bind
  apply get_bind
  apply modify_bind
  have hc : Relation.ReflTransGen Act r {r with closed := true, active := none} :=
    (Relation.ReflTransGen.single .shut).tail .drop
  cases r.active with
  | none => exact ⟨hc,nofun⟩
  | some a => exact .of_exec (exec_ofResult _ _) ⟨hc,fun _ _ _ => .inl rfl⟩

end Lane

/-! Runs. -/

section Runs

variable {M : Type} (env : Portability M) (d : Digests) {p : ReceivePolicy} {r r' : HostReceiver M}

structure Turn (r : HostReceiver M) (i : LaneInput M) (reply : LaneReply) (r' : HostReceiver M) :
    Prop where
  moves : Relation.ReflTransGen Act r r'
  failed : ∀ e, reply = .refused e → e.FailsCheck → r'.Dead
  refused : i.Works → r.Dead → ∃ e, reply = .refused e

theorem Served.turn {α : Type} {res : Except ReceiveError α} {i : LaneInput M} {f : α → LaneReply}
    (h : Served r res r') (hf : ∀ a e, f a ≠ .refused e)
    (hi : i.Works → ∀ a, res = .ok a → ¬r.Dead) :
    Turn r i (answer f (res,r')).1 (answer f (res,r')).2 := by
  cases res with
  | error e =>
    refine ⟨h.moves,?_,fun _ _ => ⟨e,rfl⟩⟩
    rintro _ ⟨⟩ he
    exact h.failed e rfl he
  | ok a => exact ⟨h.moves,fun e he => absurd he (hf a e),fun hw hd => absurd hd (hi hw a rfl)⟩

theorem Worked.turn {α : Type} {res : Except ReceiveError α} {i : LaneInput M} {f : α → LaneReply}
    (h : Worked r res r') (hf : ∀ a e, f a ≠ .refused e) :
    Turn r i (answer f (res,r')).1 (answer f (res,r')).2 := h.toServed.turn hf fun _ => h.live

theorem step_turn (hr : Kept p r) (i : LaneInput M) : Turn r i (r.step env d i).1
    (r.step env d i).2 := by
  cases i with
  | begin offer first second opened =>
    exact (beginVerified_worked env offer first second opened).turn nofun
  | writeEntry b id k o bs first second write =>
    exact (writeEntry_worked hr.active b id k o bs first second write).turn nofun
  | complete b id first second fs rename fsync =>
    exact (complete_worked d hr.active b id first second fs rename fsync).turn nofun
  | service s => exact (service_served s).turn nofun nofun
  | cancel b transfer unlink => exact (cancel_served b transfer unlink).turn nofun nofun
  | close unlink => exact (close_served unlink).turn nofun nofun

theorem Kept.moves (h : Kept p r) (hm : Relation.ReflTransGen Act r r') : Kept p r' := by
  induction hm with
  | refl => exact h
  | tail _ ha ih => exact ih.act ha

theorem Dead.moves (h : r.Dead) (hm : Relation.ReflTransGen Act r r') : r'.Dead := by
  induction hm with
  | refl => exact h
  | tail _ ha ih => exact ha.dead ih

/-- Nothing is refunded. -/
def UsageLe (r r' : HostReceiver M) : Prop :=
  r.usage.transfers ≤ r'.usage.transfers ∧ r.usage.declaredBytes ≤ r'.usage.declaredBytes

theorem usageLe_of_moves (hm : Relation.ReflTransGen Act r r') : UsageLe r r' := by
  induction hm with
  | refl => exact ⟨le_rfl,le_rfl⟩
  | tail _ ha ih => exact ⟨ih.1.trans ha.usage_le.1,ih.2.trans ha.usage_le.2⟩

theorem withAuthority_kept {b s} (h : withAuthority b p s = .ok r) : Kept p r := by
  obtain ⟨valid,hv,hchecked⟩ := bind_eq_ok.mp h
  have hp : valid = p := by
    unfold ReceivePolicy.validate at hv
    split_ifs at hv
    exact (Except.ok.inj hv).symm
  subst hp
  have hs : Kept valid (fresh b valid s.now : HostReceiver M) :=
    ⟨rfl,.full _ _ _,by
      simp [fresh],.start valid,nofun,by intro before id after h; simp [fresh] at h⟩
  have hc := check_ensures (r := fresh b valid s.now) (s := s) (Q :=
    fun res t => res = .ok () → Kept valid t) (fun _ _ => nofun) fun h _ => hs.act (.pass s h)
  unfold Ensures at hc
  rcases hx : exec (check s)
    (fresh b valid s.now : HostReceiver M) with ⟨e | _,t⟩ <;> rw [hx] at hc hchecked <;>
    cases hchecked
  exact hc rfl

abbrev LaneEvent (M : Type) := Transition.Event (HostReceiver M) (LaneInput M) LaneReply

theorem kept_run (hr : Kept p r) (is : List (LaneInput M)) : Kept p (final (step env d) r is) :=
  final_invariant (step env d) (fun _ i h => h.moves (step_turn env d h i).moves) is hr

theorem trace_usage (hr : Kept p r) (is : List (LaneInput M)) :
    ∀ e ∈ trace (step env d) r is, UsageLe e.before (e.before.step env d e.input).2 := by
  refine trace_invariant (I := Kept p) (step env d) (fun r i h => ?_) is hr
  have ht := step_turn env d h i
  exact ⟨h.moves ht.moves,usageLe_of_moves ht.moves⟩

/-- A dead lane refuses whatever would bring a transfer forward. -/
theorem trace_dead (hr : Kept p r) (hd : r.Dead) (is : List (LaneInput M)) :
    ∀ e ∈ trace (step env d) r is, e.input.Works → ∃ error, e.reply = .refused error := by
  refine trace_invariant (I := fun r => Kept p r ∧ r.Dead) (step env d) (fun r i h => ?_) is ⟨hr,hd⟩
  have ht := step_turn env d h.1 i
  exact ⟨⟨h.1.moves ht.moves,h.2.moves ht.moves⟩,fun hw => ht.refused hw h.2⟩

/-- Over any run of a lane: the charges of every interval are within the burst and the refill of
the interval, and no subtraction goes below zero; accepted identities increase; the counters are
those of all accepted transfers, never go back and keep to the policy; in front of every
publication stands a check that passed, before the lifetime of its transfer was over; and after a
failed check no transfer begins, goes on or completes. -/
theorem file_admission {binding : FileBinding} {s : Sample}
    (hnew : withAuthority binding p s = .ok r) (is : List (LaneInput M)) :
    let events := trace (step env d) r is
    let t := final (step env d) r is
    (∀ a span, TokenBucket.spentIn (spends t.log) a (a+span) ≤
      micro*p.burstBytes + p.bytesPerSecond*span) ∧
    (∀ x ∈ t.log, x.Exact) ∧
    ((admissions t.log).map Prod.fst).Pairwise (· < ·) ∧
    (t.usage = ⟨(admissions t.log).length,((admissions t.log).map Prod.snd).sum⟩ ∧
      t.usage.transfers ≤ p.maxSessionTransfers ∧ t.usage.declaredBytes ≤ p.maxSessionBytes) ∧
    (∀ e ∈ events, UsageLe e.before (e.before.step env d e.input).2) ∧
    Sanctioned p.transferLifetime t.log ∧
    ∀ past e later error, events = past ++ e :: later → e.reply = .refused error →
      error.FailsCheck → ∀ e' ∈ later, e'.input.Works → ∃ error', e'.reply = .refused error' := by
  intro events t
  have hr := withAuthority_kept hnew
  have hk := kept_run env d hr is
  obtain ⟨hi,_,htf,hdecl,ht,hd⟩ := hk.accounted
  refine ⟨hk.metered.limited,hk.exact_,hi,⟨?_,ht,hd⟩,trace_usage env d hr is,hk.sanctioned,?_⟩
  · rw [← htf,← hdecl]
  · intro past e later error hs hrp hf
    obtain ⟨is₁,i,is₂,_,rfl,rfl,rfl⟩ := trace_split _ hs
    have hb := kept_run env d hr is₁
    have htu := step_turn env d hb i
    exact trace_dead env d (hb.moves htu.moves) (htu.failed error hrp hf) is₂

end Runs
end HostReceiver

def sampleAt (now : HostInstant) : Sample := ⟨now,true,.ok 1000000⟩

def conservativePolicy : ReceivePolicy :=
  ⟨8*1024*1024,2*(65536+128),1800000000,16*1024*1024*1024,1024⟩

def sampleObject : PendingObject Bool :=
  .file ⟨⟨true,none,2,.content 7,some []⟩,⟨2,true⟩,⟨['a'],by decide⟩,.reject,5,0,.receiving,[]⟩

/-- A file is received; then the clock goes back, and another offer comes too late. -/
def sampleLane : List (LaneInput Bool) :=
  [.begin ⟨⟨1,1⟩,3,['a'],2,.content 7⟩ (sampleAt 10) (sampleAt 11) (.ok sampleObject),
    .writeEntry ⟨1,1⟩ 3 0 0 [1,2] (sampleAt 12) (sampleAt 13) none,
    .complete ⟨1,1⟩ 3 (sampleAt 14) (sampleAt 15) ⟨fun _ => none,fun _ => none⟩
      (fun _ => none) none,
    .service (sampleAt 4),.begin ⟨⟨1,1⟩,4,['b'],2,.content 7⟩ (sampleAt 20) (sampleAt 21)
      (.ok sampleObject)]

theorem file_admission_sample :
    let d : Digests := ⟨fun _ => [],fun _ => [],fun _ _ => true⟩
    let start := (HostReceiver.fresh ⟨1,1⟩ conservativePolicy 9).passed (sampleAt 9)
    let t := final (HostReceiver.step samplePortability d) start sampleLane
    HostReceiver.withAuthority ⟨1,1⟩ conservativePolicy (sampleAt 9) = .ok start ∧
      (t.log.any fun x => match x with | .published id => id = 3 | _ => false) = true ∧
      t.usage = ⟨1,2⟩ ∧ TokenBucket.spentIn (spends t.log) 10 14 ≤ 1000000*131328 + 8388608*4 := by
  intro d start t
  have hnew : HostReceiver.withAuthority ⟨1,1⟩ conservativePolicy (sampleAt 9) = .ok start := rfl
  have hl : admissions t.log = [(3,2)] := by decide +kernel
  have h := HostReceiver.file_admission samplePortability d hnew sampleLane
  refine ⟨hnew,by decide +kernel,?_,h.1 10 4⟩
  rw [h.2.2.2.1.1,hl]
  rfl

end FrankenRemote.Files
