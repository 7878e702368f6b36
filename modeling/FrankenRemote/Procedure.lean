import Mathlib.Tactic

/-! Fallible calls on one mutable owner. A refusal returns early but keeps every
mutation made before it, so each call yields a result and the state it leaves. -/
namespace FrankenRemote.Procedure

/-- Early return with `ε`, over a state that survives the return. -/
abbrev Proc (σ ε : Type) := ExceptT ε (StateM σ)

variable {σ ε α β : Type}

/-- The reply of a call together with the state it leaves behind. -/
def exec (m : Proc σ ε α) (s : σ) : Except ε α × σ := m.run.run s

@[simp] theorem exec_pure (a : α) (s : σ) : exec (pure a : Proc σ ε α) s = (.ok a,s) := (rfl)

@[simp] theorem exec_throw (e : ε) (s : σ) : exec (throw e : Proc σ ε α) s = (.error e,s) := (rfl)

@[simp] theorem exec_get (s : σ) : exec (get : Proc σ ε σ) s = (.ok s,s) := (rfl)

@[simp] theorem exec_modify (f : σ → σ) (s : σ) :
    exec (modify f : Proc σ ε PUnit) s = (.ok ⟨⟩,f s) := (rfl)

theorem exec_bind (m : Proc σ ε α) (f : α → Proc σ ε β) (s : σ) :
    exec (m >>= f) s = match exec m s with
      | (.ok a,t) => exec (f a) t
      | (.error e,t) => (.error e,t) := by
  rcases h : exec m s with ⟨r,t⟩
  have h' : m s = (r,t) := h
  change (ExceptT.bind m f) s = _
  simp only [ExceptT.bind,ExceptT.mk,bind,StateT.bind,h']
  cases r <;> rfl

theorem exec_bind_ok {m : Proc σ ε α} {f : α → Proc σ ε β} {s t : σ} {a : α}
    (h : exec m s = (.ok a,t)) : exec (m >>= f) s = exec (f a) t := by
  rw [exec_bind,h]

theorem exec_bind_error {m : Proc σ ε α} {f : α → Proc σ ε β} {s t : σ} {e : ε}
    (h : exec m s = (.error e,t)) : exec (m >>= f) s = (.error e,t) := by
  rw [exec_bind,h]

@[simp] theorem exec_get_bind (f : σ → Proc σ ε β) (s : σ) : exec (get >>= f) s = exec (f s) s :=
  (rfl)

@[simp] theorem exec_modify_bind (g : σ → σ) (f : PUnit → Proc σ ε β) (s : σ) :
    exec (modify g >>= f) s = exec (f ⟨⟩) (g s) := (rfl)

/-- `if c { return Err(e) }`. -/
def refuseIf (c : Prop) [Decidable c] (e : ε) : Proc σ ε Unit :=
  if c then throw e else pure ()

/-- `o.ok_or(e)?`. -/
def okOr (o : Option α) (e : ε) : Proc σ ε α :=
  match o with
  | some a => pure a
  | none => throw e

/-- `x?`. -/
def ofResult (x : Except ε α) : Proc σ ε α :=
  match x with
  | .ok a => pure a
  | .error e => throw e

/-- A call on other data, whose errors are this owner's by `f`. -/
def adapt {ε' : Type} (f : ε' → ε) (m : Proc σ ε' α) : Proc σ ε α := fun s =>
  ((exec m s).1.mapError f,(exec m s).2)

/-- The result of a call as a value, so that its owner can act on a refusal. -/
def caught (m : Proc σ ε α) : Proc σ ε (Except ε α) := fun s => (.ok (exec m s).1,(exec m s).2)

@[simp] theorem exec_adapt {ε' : Type} (f : ε' → ε) (m : Proc σ ε' α) (s : σ) :
    exec (adapt f m) s = ((exec m s).1.mapError f,(exec m s).2) := (rfl)

@[simp] theorem exec_caught (m : Proc σ ε α) (s : σ) :
    exec (caught m) s = (.ok (exec m s).1,(exec m s).2) := (rfl)

@[simp] theorem exec_refuseIf (c : Prop) [Decidable c] (e : ε) (s : σ) :
    exec (refuseIf c e : Proc σ ε Unit) s = if c then (.error e,s) else (.ok (),s) := by
  unfold refuseIf; split <;> rfl

@[simp] theorem exec_refuseIf_bind (c : Prop) [Decidable c] (e : ε) (f : Unit → Proc σ ε β)
    (s : σ) : exec (refuseIf c e >>= f) s = if c then (.error e,s) else exec (f ()) s := by
  unfold refuseIf; split <;> rfl

@[simp] theorem exec_okOr_some_bind (a : α) (e : ε) (f : α → Proc σ ε β) (s : σ) :
    exec (okOr (some a) e >>= f) s = exec (f a) s := (rfl)

@[simp] theorem exec_okOr_none_bind (e : ε) (f : α → Proc σ ε β) (s : σ) :
    exec (okOr none e >>= f) s = (.error e,s) := (rfl)

@[simp] theorem exec_ofResult (x : Except ε α) (s : σ) :
    exec (ofResult x : Proc σ ε α) s = (x,s) := by
  cases x <;> rfl

theorem exec_ofResult_error_bind {x e} (h : x = .error e)
    (f : α → Proc σ ε β) (s : σ) : exec (ofResult x >>= f) s = (.error e,s) := by
  rw [h]
  rfl

theorem exec_tryCatch (m : Proc σ ε α) (f : ε → Proc σ ε α) (s : σ) :
    exec (tryCatch m f) s = match exec m s with
      | (.ok a,t) => (.ok a,t)
      | (.error e,t) => exec (f e) t := by
  rcases h : exec m s with ⟨r,t⟩
  have h' : m s = (r,t) := h
  change (ExceptT.tryCatch m f) s = _
  simp only [ExceptT.tryCatch,ExceptT.mk,bind,StateT.bind,h']
  cases r <;> rfl

@[simp] theorem exec_ite (c : Prop) [Decidable c] (m n : Proc σ ε α) (s : σ) :
    exec (if c then m else n) s = if c then exec m s else exec n s := by
  split <;> rfl

/-! Rules. A postcondition speaks about the reply and the state it leaves. -/

def Ensures (m : Proc σ ε α) (s : σ) (P : Except ε α → σ → Prop) : Prop :=
  P (exec m s).1 (exec m s).2

namespace Ensures

variable {P : Except ε β → σ → Prop} {f : α → Proc σ ε β} {s : σ}

variable {m : Proc σ ε β} {Q : Except ε β → σ → Prop} {e : ε} {c : Prop}

theorem of_exec {r t} (h : exec m s = (r,t)) (hP : P r t) : Ensures m s P := by
  rw [Ensures,h]
  exact hP

theorem mono (h : Ensures m s Q) (hi : ∀ r t, Q r t → P r t) : Ensures m s P := hi _ _ h

theorem bind {m : Proc σ ε α} {Q : Except ε α → σ → Prop} (h : Ensures m s Q)
    (hok : ∀ a t, Q (.ok a) t → Ensures (f a) t P)
    (her : ∀ e t, Q (.error e) t → P (.error e) t) : Ensures (m >>= f) s P := by
  rcases hm : exec m s with ⟨e | a,t⟩
  · rw [Ensures,hm] at h
    exact of_exec (exec_bind_error hm) (her e t h)
  · rw [Ensures,hm] at h
    rw [Ensures,exec_bind_ok hm]
    exact hok a t h

/-- The rest of a call runs from every outcome of its start. -/
theorem of_bind {m : Proc σ ε α}
    (h : Ensures m s fun r t =>
      Ensures (match r with | .ok a => f a | .error e => MonadExcept.throw e) t P) :
    Ensures (m >>= f) s P :=
  bind h (fun _ _ h => h) fun _ _ h => h

theorem bind_of_exec {m : Proc σ ε α} {a : α} {t : σ} (hm : exec m s = (.ok a,t))
    (h : Ensures (f a) t P) : Ensures (m >>= f) s P := by
  rw [Ensures,exec_bind_ok hm]
  exact h

theorem pure {a} (h : P (.ok a) s) : Ensures (Pure.pure a : Proc σ ε β) s P :=
  of_exec (exec_pure a s) h

theorem throw (h : P (.error e) s) : Ensures (MonadExcept.throw e : Proc σ ε β) s P :=
  of_exec (exec_throw e s) h

theorem get_bind {g} (h : Ensures (g s) s P) : Ensures (get >>= g) s P := h

theorem modify_bind {g k} (h : Ensures (k ⟨⟩) (g s) P) : Ensures (modify g >>= k) s P := h

theorem refuseIf_bind [Decidable c] {k} (hbad : c → P (.error e) s)
    (hok : ¬c → Ensures (k ()) s P) : Ensures (refuseIf c e >>= k) s P := by
  by_cases hc : c
  · exact of_exec (by rw [exec_refuseIf_bind,if_pos hc]) (hbad hc)
  · rw [Ensures,exec_refuseIf_bind,if_neg hc]
    exact hok hc

theorem refuseIf [Decidable c] {P} (hbad : c → P (.error e) s) (hok : ¬c → P (.ok ()) s) :
    Ensures (Procedure.refuseIf c e) s P := by
  by_cases hc : c
  · exact of_exec (by rw [exec_refuseIf,if_pos hc]) (hbad hc)
  · exact of_exec (by rw [exec_refuseIf,if_neg hc]) (hok hc)

theorem okOr_bind {o} (hn : o = none → P (.error e) s)
    (hsome : ∀ a, o = some a → Ensures (f a) s P) : Ensures (okOr o e >>= f) s P := by
  cases o with
  | none => exact of_exec (exec_okOr_none_bind e f s) (hn rfl)
  | some a => exact hsome a rfl

theorem ofResult_bind {x} (her : ∀ e, x = .error e → P (.error e) s)
    (hok : ∀ a, x = .ok a → Ensures (f a) s P) : Ensures (ofResult x >>= f) s P := by
  cases x with
  | error e => exact of_exec (exec_ofResult_error_bind rfl f s) (her e rfl)
  | ok a => exact hok a rfl

theorem ite [Decidable c] {n} (ht : c → Ensures m s P)
    (hf : ¬c → Ensures n s P) : Ensures (if c then m else n) s P := by
  split
  · exact ht ‹c›
  · exact hf ‹¬c›

theorem tryCatch {k} (h : Ensures m s Q) (hok : ∀ a t, Q (.ok a) t → P (.ok a) t)
    (her : ∀ e t, Q (.error e) t → Ensures (k e) t P) : Ensures (MonadExcept.tryCatch m k) s P := by
  rcases hm : exec m s with ⟨e | a,t⟩
  · rw [Ensures,hm] at h
    rw [Ensures,exec_tryCatch,hm]
    exact her e t h
  · rw [Ensures,hm] at h
    exact of_exec (by rw [exec_tryCatch,hm]) (hok a t h)

theorem of_tryCatch {k}
    (h : Ensures m s fun r t =>
      Ensures (match r with | .ok a => Pure.pure a | .error e => k e) t P) :
    Ensures (MonadExcept.tryCatch m k) s P :=
  tryCatch h (fun _ _ h => h) fun _ _ h => h

theorem adapt_bind {ε' : Type} {g : ε' → ε} {m : Proc σ ε' α}
    (her : ∀ e t, exec m s = (.error e,t) → P (.error (g e)) t)
    (hok : ∀ a t, exec m s = (.ok a,t) → Ensures (f a) t P) : Ensures (adapt g m >>= f) s P := by
  rcases hm : exec m s with ⟨e | a,t⟩
  · exact of_exec (exec_bind_error (by rw [exec_adapt,hm]; rfl)) (her e t hm)
  · rw [Ensures,exec_bind_ok (t := t) (a := a) (by rw [exec_adapt,hm]; rfl)]
    exact hok a t hm

theorem caught_bind {m : Proc σ ε α} {k : Except ε α → Proc σ ε β} {Q : Except ε α → σ → Prop}
    (h : Ensures m s Q) (hk : ∀ r t, Q r t → Ensures (k r) t P) : Ensures (caught m >>= k) s P := by
  rw [Ensures,exec_bind_ok (exec_caught m s)]
  exact hk _ _ h

theorem trivial (m : Proc σ ε β) : Ensures m s fun _ _ => True := True.intro

theorem and (hP : Ensures m s P) (hQ : Ensures m s Q) : Ensures m s fun r t => P r t ∧ Q r t :=
  ⟨hP,hQ⟩

end Ensures

/-! What a procedure can change, as a sequence of steps. -/

/-- Whatever the reply, the state is reached by steps of `R`. -/
def Moves (R : σ → σ → Prop) (m : Proc σ ε α) (s : σ) : Prop :=
  Ensures m s fun _ t => Relation.ReflTransGen R s t

namespace Moves

variable {R : σ → σ → Prop} {m : Proc σ ε α} {f : α → Proc σ ε β} {s t : σ}

theorem trans (h : Relation.ReflTransGen R s t) (k : Moves R m t) :
    Ensures m t fun _ u => Relation.ReflTransGen R s u := h.trans k

theorem mono {R'} (h : Moves R m s) (hi : ∀ a b, R a b → R' a b) :
    Moves R' m s := Relation.ReflTransGen.mono hi _ _ h

theorem bind (h : Moves R m s) (k : ∀ a t, Moves R (f a) t) : Moves R (m >>= f) s :=
  Ensures.bind h (fun a t ht => trans ht (k a t)) fun _ _ => id

theorem pure (a : α) : Moves R (Pure.pure a : Proc σ ε α) s := .refl

theorem throw (e : ε) : Moves R (MonadExcept.throw e : Proc σ ε α) s := .refl

theorem get_bind {g : σ → Proc σ ε β} (h : Moves R (g s) s) : Moves R (get >>= g) s := h

theorem modify_bind {g : σ → σ} {k : PUnit → Proc σ ε β} (h : R s (g s))
    (hk : Moves R (k ⟨⟩) (g s)) : Moves R (modify g >>= k) s := .head h hk

theorem modify {g} (h : R s (g s)) : Moves R (modify g : Proc σ ε PUnit) s := .single h

theorem refuseIf_bind {c : Prop} [Decidable c] {e : ε} {k : Unit → Proc σ ε β}
    (h : ¬c → Moves R (k ()) s) : Moves R (Procedure.refuseIf c e >>= k) s :=
  Ensures.refuseIf_bind (fun _ => .refl) h

theorem refuseIf (c : Prop) [Decidable c] (e : ε) :
    Moves R (Procedure.refuseIf c e : Proc σ ε Unit) s := by
  unfold Procedure.refuseIf
  split
  · exact throw e
  · exact pure ()

theorem okOr (o : Option α) (e : ε) : Moves R (Procedure.okOr o e : Proc σ ε α) s := by
  cases o with
  | none => exact throw e
  | some a => exact pure a

theorem ofResult (x : Except ε α) : Moves R (Procedure.ofResult x : Proc σ ε α) s := by
  cases x with
  | error e => exact throw e
  | ok a => exact pure a

theorem okOr_bind {o e} (h : ∀ a, o = some a → Moves R (f a) s) :
    Moves R (Procedure.okOr o e >>= f) s := Ensures.okOr_bind (fun _ => .refl) h

theorem ofResult_bind {x} (h : ∀ a, x = .ok a → Moves R (f a) s) :
    Moves R (Procedure.ofResult x >>= f) s := Ensures.ofResult_bind (fun _ _ => .refl) h

theorem ite {c : Prop} [Decidable c] {n} (ht : c → Moves R m s) (hf : ¬c → Moves R n s) :
    Moves R (if c then m else n) s := Ensures.ite ht hf

theorem caught (h : Moves R m s) : Moves R (Procedure.caught m) s := h

end Moves

/-! Where an error can come from. -/

/-- An error `e` of the procedure leaves a state in `Q`. -/
def Raises (e : ε) (Q : σ → Prop) (m : Proc σ ε α) : Prop :=
  ∀ s, Ensures m s fun res t => res = .error e → Q t

namespace Raises

variable {e e' : ε} {Q : σ → Prop} {m : Proc σ ε α} {f : α → Proc σ ε β}

theorem bind (h : Raises e Q m) (k : ∀ a, Raises e Q (f a)) : Raises e Q (m >>= f) := by
  intro s
  refine Ensures.bind (h s) (fun a t _ => k a t) fun e' t ht her => ht ?_
  cases her
  rfl

theorem pure (a : α) : Raises e Q (Pure.pure a : Proc σ ε α) := fun _ => .pure nofun

theorem get : Raises e Q (get : Proc σ ε σ) := fun s => .of_exec (exec_get s) nofun

theorem modify (g : σ → σ) : Raises e Q (modify g : Proc σ ε PUnit) :=
  fun s => .of_exec (exec_modify g s) nofun

theorem throw (hne : e' ≠ e) : Raises e Q (MonadExcept.throw e' : Proc σ ε α) := by
  intro s
  refine .throw fun her => ?_
  cases her
  exact absurd rfl hne

theorem ite {c : Prop} [Decidable c] {n} (ht : Raises e Q m) (hf : Raises e Q n) :
    Raises e Q (if c then m else n) := by
  split
  · exact ht
  · exact hf

theorem refuseIf {c : Prop} [Decidable c] (hne : e' ≠ e) :
    Raises e Q (Procedure.refuseIf c e' : Proc σ ε Unit) :=
  ite (throw hne) (pure ())

theorem okOr {o} (hne : e' ≠ e) : Raises e Q (Procedure.okOr o e' : Proc σ ε α) := by
  cases o with
  | none => exact throw hne
  | some a => exact pure a

theorem ofResult {x} (hne : ∀ e', x = .error e' → e' ≠ e) :
    Raises e Q (Procedure.ofResult x : Proc σ ε α) := by
  cases x with
  | error e' => exact throw (hne e' rfl)
  | ok a => exact pure a

theorem ofMapped {ε' : Type} {x : Except ε' α} {g} (hne : ∀ a, g a ≠ e) :
    Raises e Q (Procedure.ofResult (x.mapError g) : Proc σ ε α) := by
  cases x with
  | error a => exact throw (hne a)
  | ok a => exact pure a

end Raises
end FrankenRemote.Procedure
