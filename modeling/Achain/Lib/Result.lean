import Mathlib.Data.List.Basic

/-!
# Computations that may throw

Checks and optional reads in `Except`, with the lemmas that take a computation that returned apart:
a bind returned exactly when both its parts did, a check exactly when its condition held.
-/

namespace Result

variable {ε α β σ : Type}

/-- Throws unless the condition holds. -/
def ensure (c : Bool) (e : ε) : Except ε Unit :=
  if c then .ok () else .error e

/-- Throws if there is no value. -/
def orThrow (o : Option α) (e : ε) : Except ε α :=
  match o with
  | some a => .ok a
  | none => .error e

/-- Whether the computation returned a value with the property. -/
def returns (x : Except ε α) (p : α → Bool) : Bool :=
  match x with
  | .ok a => p a
  | .error _ => false

/-- Whether the value has the property, if the computation returned one. -/
def onReturn (x : Except ε α) (p : α → Bool) : Bool :=
  match x with
  | .ok a => p a
  | .error _ => true

/-- What is listed of the value, if the computation returned one. -/
def orNil (x : Except ε α) (f : α → List β) : List β :=
  match x with
  | .ok a => f a
  | .error _ => []

@[simp] theorem orNil_ok {a : α} {f : α → List β} : orNil (.ok a : Except ε α) f = f a := rfl

theorem exists_of_returns {x : Except ε α} {p : α → Bool} (h : returns x p = true) :
    ∃ a, x = .ok a ∧ p a = true := by
  cases x with
  | ok a => exact ⟨a, rfl, h⟩
  | error e => simp [returns] at h

theorem bind_eq_ok {x : Except ε α} {f : α → Except ε β} {b : β} :
    (x >>= f) = .ok b ↔ ∃ a, x = .ok a ∧ f a = .ok b := by
  cases x <;> simp [bind, Except.bind]

theorem ensure_eq_ok {c : Bool} {e : ε} {u : Unit} : ensure c e = .ok u ↔ c = true := by
  cases c <;> simp [ensure]

theorem orThrow_eq_ok {o : Option α} {e : ε} {a : α} : orThrow o e = .ok a ↔ o = some a := by
  cases o <;> simp [orThrow]

theorem pure_eq_ok {a b : α} : (pure a : Except ε α) = .ok b ↔ a = b := by
  simp [pure, Except.pure]

theorem ok_eq_ok {a b : α} : (Except.ok a : Except ε α) = .ok b ↔ a = b := by
  simp

@[simp] theorem ok_bind {a : α} {f : α → Except ε β} : ((.ok a : Except ε α) >>= f) = f a := rfl

@[simp] theorem error_bind {e : ε} {f : α → Except ε β} :
    ((.error e : Except ε α) >>= f) = .error e := rfl

@[simp] theorem ensure_true {e : ε} : ensure true e = .ok () := rfl

@[simp] theorem orThrow_some {a : α} {e : ε} : orThrow (some a) e = .ok a := rfl

theorem if_error_eq_ok {c : Prop} [Decidable c] {e : ε} {x : Except ε α} {a : α} :
    (if c then .error e else x) = .ok a ↔ ¬c ∧ x = .ok a := by
  by_cases h : c <;> simp [h]

/-- A relation between the state before and after that every step keeps is kept by a fold. -/
theorem foldlM_rel {R : σ → σ → Prop} (hrefl : ∀ s, R s s)
    (htrans : ∀ a b c, R a b → R b c → R a c) {f : σ → α → Except ε σ} :
    ∀ {l : List α} {s s' : σ}, (∀ a ∈ l, ∀ s s', f s a = .ok s' → R s s') →
      l.foldlM f s = .ok s' → R s s'
  | [], s, s', _, h => by
    rw [List.foldlM_nil, pure_eq_ok] at h
    exact h ▸ hrefl s
  | a :: l, s, s', hf, h => by
    rw [List.foldlM_cons, bind_eq_ok] at h
    obtain ⟨t, ht, h⟩ := h
    exact htrans s t s' (hf a (List.mem_cons_self ..) s t ht)
      (foldlM_rel hrefl htrans (fun b hb => hf b (List.mem_cons_of_mem _ hb)) h)

/-! ## Computations that return where a condition holds -/

section Gated

/-- The computation returns the value if the condition holds, and throws if not. -/
def Gated (c : Bool) (x : Except ε α) (a : α) : Prop :=
  if c then x = .ok a else ∃ e, x = .error e

theorem Gated.ok {c : Bool} {x : Except ε α} {a : α} (h : Gated c x a) (hc : c = true) :
    x = .ok a := by
  rw [Gated, if_pos hc] at h
  exact h

theorem gated_true {x : Except ε α} {a : α} (h : x = .ok a) : Gated true x a := h

theorem gated_ensure {c : Bool} {e : ε} : Gated c (ensure c e) () := by
  cases c with
  | true => rfl
  | false => exact ⟨e, rfl⟩

theorem Gated.bind {c d : Bool} {x : Except ε α} {k : α → Except ε β} {a : α} {b : β}
    (hx : Gated c x a) (hk : Gated d (k a) b) : Gated (c && d) (x >>= k) b := by
  cases c with
  | true =>
    rw [hx.ok rfl, ok_bind, Bool.true_and]
    exact hk
  | false =>
    obtain ⟨e, he⟩ := hx
    rw [he]
    exact ⟨e, rfl⟩

/-- A gate followed by a computation that returns. -/
theorem Gated.bind_ok {c : Bool} {x : Except ε α} {k : α → Except ε β} {a : α} {b : β}
    (hx : Gated c x a) (hk : k a = .ok b) : Gated c (x >>= k) b :=
  Bool.and_true c ▸ hx.bind (gated_true hk)

end Gated

/-! ## Computations that commute with a map of the state -/

section Commute

variable {u : σ → σ}

/-- A value is read alike on both sides. -/
theorem bind_read {x : Except ε α} {k k' : α → Except ε σ} (hk : ∀ a, k a = u <$> k' a) :
    (x >>= k) = u <$> (x >>= k') := by
  cases x with
  | ok a => exact hk a
  | error e => rfl

/-- A step that commutes with the map is followed by one that does. -/
theorem bind_step {x y : Except ε σ} {k k' : σ → Except ε σ} (hx : x = u <$> y)
    (hk : ∀ s, k (u s) = u <$> k' s) : (x >>= k) = u <$> (y >>= k') := by
  subst hx
  cases y with
  | ok s => exact hk s
  | error e => rfl

theorem foldlM_step {f : σ → α → Except ε σ} (hf : ∀ s a, f (u s) a = u <$> f s a) :
    ∀ (l : List α) (s : σ), l.foldlM f (u s) = u <$> l.foldlM f s
  | [], s => rfl
  | a :: l, s => by
    rw [List.foldlM_cons, List.foldlM_cons]
    exact bind_step (hf s a) fun s' => foldlM_step hf l s'

end Commute

end Result
