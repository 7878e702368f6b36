import Mathlib.Tactic

/-! Byte strings: big-endian integers, and parsers that consume a string from the
front. A writer of fields and the parser of the same fields meet in the append
lemmas at the end. -/
namespace FrankenRemote.Bytes

abbrev Byte := UInt8

/-- `v.to_be_bytes()` for an integer of `n` bytes. -/
def beBytes : ℕ → ℕ → List Byte
  | 0, _ => []
  | n+1, v => beBytes n (v/256) ++ [UInt8.ofNat v]

/-- `from_be_bytes`. -/
def beNat (bs : List Byte) : ℕ := bs.foldl (fun acc b => acc*256 + b.toNat) 0

@[simp] theorem length_beBytes (n v : ℕ) : (beBytes n v).length = n := by
  induction n generalizing v with
  | zero => rfl
  | succ n ih => simp [beBytes,ih]

theorem beNat_append_singleton (bs : List Byte) (b : Byte) :
    beNat (bs++[b]) = beNat bs*256 + b.toNat := by
  simp [beNat]

theorem beNat_beBytes (n v : ℕ) : beNat (beBytes n v) = v % 256^n := by
  induction n generalizing v with
  | zero => simp [beBytes,beNat,Nat.mod_one]
  | succ n ih =>
    rw [beBytes,beNat_append_singleton,ih,UInt8.toNat_ofNat']
    have h : v % 256^(n+1) = v % 256 + 256*(v/256 % 256^n) := by rw [pow_succ',Nat.mod_mul]
    rw [h]
    change v/256 % 256^n*256 + v % 256 = _
    omega

variable {bs rest : List Byte} {n v : ℕ}

theorem beNat_beBytes_of_lt (h : v < 256^n) : beNat (beBytes n v) = v := by
  rw [beNat_beBytes,Nat.mod_eq_of_lt h]

theorem beNat_lt (bs : List Byte) : beNat bs < 256^bs.length := by
  induction bs using List.reverseRecOn with
  | nil => simp [beNat]
  | append_singleton bs b ih =>
    have hb := b.toNat_lt
    rw [beNat_append_singleton,List.length_append,List.length_singleton,pow_succ]
    omega

theorem beBytes_beNat (bs : List Byte) : beBytes bs.length (beNat bs) = bs := by
  induction bs using List.reverseRecOn with
  | nil => rfl
  | append_singleton bs b ih =>
    have hb := b.toNat_lt
    have hdiv : (beNat bs*256 + b.toNat)/256 = beNat bs := by omega
    have hl : UInt8.ofNat (beNat bs*256 + b.toNat) = b := by
      apply UInt8.toNat_inj.mp
      rw [UInt8.toNat_ofNat']
      omega
    rw [beNat_append_singleton,List.length_append,List.length_singleton,beBytes,hdiv,ih,hl]

/-! Parsers. -/

abbrev Parser (ε : Type) := StateT (List Byte) (Except ε)

variable {ε α β : Type} {short : ε} {a : α}

def parse (p : Parser ε α) (bs : List Byte) : Except ε (α × List Byte) := p.run bs

@[simp] theorem parse_pure (a : α) (bs : List Byte) : parse (pure a : Parser ε α) bs = .ok (a,bs) :=
  (rfl)

@[simp] theorem parse_throw (e : ε) (bs : List Byte) : parse (throw e : Parser ε α) bs = .error e :=
  (rfl)

theorem parse_bind (p : Parser ε α) (f : α → Parser ε β) (bs : List Byte) :
    parse (p >>= f) bs = match parse p bs with
      | .ok (a,rest) => parse (f a) rest
      | .error e => .error e := by
  change (StateT.bind p f) bs = _
  simp only [StateT.bind,bind,Except.bind,parse,StateT.run]
  cases p bs <;> rfl

theorem parse_bind_ok {p : Parser ε α} {f : α → Parser ε β}
    (h : parse p bs = .ok (a,rest)) : parse (p >>= f) bs = parse (f a) rest := by
  rw [parse_bind,h]

theorem parse_bind_eq_ok {p : Parser ε α} {f : α → Parser ε β} {r : β × List Byte} :
    parse (p >>= f) bs = .ok r ↔ ∃ a rest, parse p bs = .ok (a,rest) ∧ parse
      (f a) rest = .ok r := by
  rw [parse_bind]
  rcases h : parse p bs with e | ⟨a,rest⟩ <;> simp

def rejectIf (c : Prop) [Decidable c] (e : ε) : Parser ε Unit := if c then throw e else pure ()

theorem parse_rejectIf_bind (c : Prop) [Decidable c] (e : ε) (f : Unit → Parser ε β)
    (bs : List Byte) : parse (rejectIf c e >>= f) bs = if c then .error e else parse (f ()) bs := by
  unfold rejectIf
  split <;> rfl

/-- A result that does not read the string. -/
def checked (r : Except ε α) : Parser ε α :=
  match r with
  | .ok a => pure a
  | .error e => throw e

theorem parse_checked_bind_ok {r} (h : r = .ok a) (f : α → Parser ε β)
    (bs : List Byte) : parse (checked r >>= f) bs = parse (f a) bs := by
  rw [h]
  rfl

theorem parse_checked_eq_ok {r : Except ε α} : parse (checked r) bs = .ok (a,rest) ↔ r = .ok a ∧
    bs = rest := by
  cases r <;> simp [checked]

theorem bind_eq_ok {x : Except ε α} {f : α → Except ε β} {b : β} :
    x >>= f = .ok b ↔ ∃ a, x = .ok a ∧ f a = .ok b := by
  cases x <;> simp [bind,Except.bind]

theorem bind_eq_error {x : Except ε α} {f : α → Except ε β} {e : ε} :
    x >>= f = .error e ↔ x = .error e ∨ ∃ a, x = .ok a ∧ f a = .error e := by
  cases x <;> simp [bind,Except.bind]

/-- Every error of the result is a `P`. -/
def Fails (P : ε → Prop) (x : Except ε α) : Prop := ∀ e, x = .error e → P e

namespace Fails

variable {P : ε → Prop}

theorem ok (a : α) : Fails P (.ok a : Except ε α) := nofun

theorem error {e} (h : P e) : Fails P (.error e : Except ε α) := by
  rintro _ ⟨⟩
  exact h

theorem bind {x} {f : α → Except ε β} (h : Fails P x) (hf : ∀ a, x = .ok a → Fails P (f a)) :
    Fails P (x >>= f) := by
  intro e he
  rcases bind_eq_error.mp he with he | ⟨a,ha,he⟩
  · exact h e he
  · exact hf a ha e he

theorem ite {c : Prop} [Decidable c] {x y : Except ε α} (hx : Fails P x) (hy : Fails P y) :
    Fails P (if c then x else y) := by
  split
  · exact hx
  · exact hy

theorem mapError {ε' : Type} {g : ε' → ε} {x : Except ε' α} (h : ∀ e, P (g e)) :
    Fails P (x.mapError g) := by
  cases x with
  | ok a => exact ok a
  | error e => exact error (h e)

end Fails

theorem mapError_eq_ok {ε ε' α : Type} {f : ε → ε'} {x : Except ε α} {a : α}
    (h : x.mapError f = .ok a) : x = .ok a := by
  cases x <;> cases h
  rfl

def takeBytes (short : ε) (n : ℕ) : Parser ε (List Byte) := do
  let bs ← get
  rejectIf (bs.length < n) short
  set (bs.drop n)
  pure (bs.take n)

def takeNat (short : ε) (n : ℕ) : Parser ε ℕ := do
  let bs ← takeBytes short n
  pure (beNat bs)

def atEnd (trailing : ε) : Parser ε Unit := do
  let bs ← get
  rejectIf (bs ≠ []) trailing

theorem parse_get_bind (f : List Byte → Parser ε β) (bs : List Byte) :
    parse (get >>= f) bs = parse (f bs) bs := (rfl)

theorem parse_set_bind (rest : List Byte) (f : PUnit → Parser ε β) (bs : List Byte) :
    parse (set rest >>= f) bs = parse (f ⟨⟩) rest := (rfl)

theorem parse_takeBytes (short : ε) (n : ℕ) (bs : List Byte) :
    parse (takeBytes short n) bs = if bs.length < n then .error short else .ok (bs.take n,
      bs.drop n) := by
  rw [takeBytes,parse_get_bind,parse_rejectIf_bind,parse_set_bind,parse_pure]

theorem parse_takeBytes_bind (h : bs.length = n) (f : List Byte → Parser ε β) (rest : List Byte) :
    parse (takeBytes short n >>= f) (bs++rest) = parse (f bs) rest := by
  subst h
  apply parse_bind_ok
  rw [parse_takeBytes,if_neg (by simp)]
  simp

theorem parse_takeBytes_append (h : bs.length = n) : parse (takeBytes short n) (bs++rest) = .ok
    (bs,rest) := by
  have hb : parse (takeBytes short n >>= pure) (bs++rest) = _ := parse_takeBytes_bind h pure rest
  rwa [bind_pure] at hb

theorem parse_takeNat_bind (h : v < 256^n) (f : ℕ → Parser ε β)
    (rest : List Byte) : parse (takeNat short n >>= f) (beBytes n v++rest) = parse (f v) rest := by
  apply parse_bind_ok
  rw [takeNat,parse_takeBytes_bind (length_beBytes n v),parse_pure,beNat_beBytes_of_lt h]

theorem parse_atEnd_bind (t : ε) (f : Unit → Parser ε β) : parse (atEnd t >>= f) [] = parse
    (f ()) [] := (rfl)

/-! What a parser accepts, in both directions. -/

theorem parse_pure_eq_ok {b} : parse (pure a : Parser ε α) bs = .ok
    (b,rest) ↔ a = b ∧ bs = rest := by
  simp

theorem parse_rejectIf_eq_ok {c : Prop} [Decidable c] {e : ε} {u : Unit} :
    parse (rejectIf c e) bs = .ok (u,rest) ↔ ¬c ∧ bs = rest := by
  unfold rejectIf
  split <;> simp [*]

theorem parse_takeBytes_eq_ok {w} :
    parse (takeBytes short n) bs = .ok (w,rest) ↔ w.length = n ∧ bs = w ++ rest := by
  constructor
  · intro h
    rw [parse_takeBytes] at h
    split at h
    · cases h
    · cases h
      exact ⟨by simp; omega,(List.take_append_drop n bs).symm⟩
  · rintro ⟨hlen,rfl⟩
    exact parse_takeBytes_append hlen

theorem parse_takeNat_eq_ok :
    parse (takeNat short n) bs = .ok (v,rest) ↔ v < 256^n ∧ bs = beBytes n v ++ rest := by
  rw [takeNat,parse_bind_eq_ok]
  simp only [parse_takeBytes_eq_ok,parse_pure_eq_ok]
  constructor
  · rintro ⟨w,_,⟨rfl,rfl⟩,rfl,rfl⟩
    exact ⟨beNat_lt w,by rw [beBytes_beNat]⟩
  · rintro ⟨hlt,rfl⟩
    exact ⟨_,_,⟨length_beBytes n v,rfl⟩,beNat_beBytes_of_lt hlt,rfl⟩

theorem parse_atEnd_eq_ok {t : ε} {u : Unit} : parse (atEnd t) bs = .ok (u,rest) ↔ bs = [] ∧
    rest = [] := by
  rw [atEnd,parse_get_bind,parse_rejectIf_eq_ok]
  constructor
  · rintro ⟨hnil,rfl⟩
    exact ⟨not_not.mp hnil,not_not.mp hnil⟩
  · rintro ⟨rfl,rfl⟩
    exact ⟨not_not.mpr rfl,rfl⟩

end FrankenRemote.Bytes
