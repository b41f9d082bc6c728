import Mathlib.Data.List.Basic

/-!
# Properties kept by stateful computations

A computation that changes a state and may throw keeps a property of the state if every run from a
state with the property ends in one, also where it throws. The rules follow the way computations are
put together.
-/

namespace Stateful

variable {ε σ α β : Type} {I : σ → Prop}

/-- The state a run ends in. -/
def final (x : EStateM ε σ α) (s : σ) : σ :=
  match x s with
  | .ok _ s' => s'
  | .error _ s' => s'

/-- Whether a run returns, with a value and in a state that have the property. -/
def yields (x : EStateM.Result ε σ α) (p : α → σ → Bool) : Bool :=
  match x with
  | .ok a s => p a s
  | .error _ _ => false

theorem exists_of_yields {x : EStateM.Result ε σ α} {p : α → σ → Bool} (h : yields x p = true) :
    ∃ a s, x = .ok a s ∧ p a s = true := by
  cases x with
  | ok a s => exact ⟨a, s, rfl, h⟩
  | error e s => cases h

/-- What follows a run that returns. -/
def onOk (x : EStateM.Result ε σ α) (f : α → σ → List β) : List β :=
  match x with
  | .ok a s => f a s
  | .error _ _ => []

theorem mem_onOk {x : EStateM.Result ε σ α} {f : α → σ → List β} {b : β} :
    b ∈ onOk x f ↔ ∃ a s, x = .ok a s ∧ b ∈ f a s := by
  cases x <;> simp [onOk]

/-- What follows a run that throws. -/
def onError (x : EStateM.Result ε σ α) (f : ε → σ → List β) : List β :=
  match x with
  | .ok _ _ => []
  | .error e s => f e s

theorem mem_onError {x : EStateM.Result ε σ α} {f : ε → σ → List β} {b : β} :
    b ∈ onError x f ↔ ∃ e s, x = .error e s ∧ b ∈ f e s := by
  cases x <;> simp [onError]

theorem final_tryCatch (x : EStateM ε σ α) (f : ε → EStateM ε σ α) (s : σ) :
    final (tryCatch x f) s = match x s with
      | .ok _ s' => s'
      | .error e s' => final (f e) s' := by
  show (match EStateM.tryCatch x f s with
    | .ok _ s' => s'
    | .error _ s' => s') = _
  unfold EStateM.tryCatch
  cases x s <;> rfl

/-! ## Runs, step by step -/

theorem bind_of_ok {x : EStateM ε σ α} {f : α → EStateM ε σ β} {s s' : σ} {a : α}
    (h : x s = .ok a s') : (x >>= f) s = f a s' := by
  show EStateM.bind x f s = _
  rw [EStateM.bind, h]

theorem bind_of_error {x : EStateM ε σ α} {f : α → EStateM ε σ β} {s s' : σ} {e : ε}
    (h : x s = .error e s') : (x >>= f) s = .error e s' := by
  show EStateM.bind x f s = _
  rw [EStateM.bind, h]

theorem bind_returns {x : EStateM ε σ α} {f : α → EStateM ε σ β} {s s'' : σ} {b : β} :
    (x >>= f) s = .ok b s'' ↔ ∃ a s', x s = .ok a s' ∧ f a s' = .ok b s'' := by
  cases hrun : x s with
  | ok a s' =>
    rw [bind_of_ok hrun]
    exact ⟨fun h => ⟨a, s', rfl, h⟩, by rintro ⟨_, _, ⟨⟩, h⟩; exact h⟩
  | error e s' =>
    rw [bind_of_error hrun]
    exact ⟨fun h => (nomatch h), by rintro ⟨_, _, h, _⟩; exact (nomatch h)⟩

theorem get_bind (f : σ → EStateM ε σ β) (s : σ) : ((get : EStateM ε σ σ) >>= f) s = f s s := rfl

theorem modify_bind (g : σ → σ) (f : PUnit → EStateM ε σ β) (s : σ) :
    ((modify g : EStateM ε σ PUnit) >>= f) s = f () (g s) := rfl

theorem forM_cons (f : α → EStateM ε σ PUnit) (a : α) (l : List α) :
    (a :: l).forM f = f a >>= fun _ => l.forM f := rfl

theorem tryCatch_of_ok {x : EStateM ε σ α} {f : ε → EStateM ε σ α} {s s' : σ} {a : α}
    (h : x s = .ok a s') : tryCatch x f s = .ok a s' := by
  show EStateM.tryCatch x f s = _
  rw [EStateM.tryCatch, h]

theorem tryCatch_of_error {x : EStateM ε σ α} {f : ε → EStateM ε σ α} {s s' : σ} {e : ε}
    (h : x s = .error e s') : tryCatch x f s = f e s' := by
  show EStateM.tryCatch x f s = _
  rw [EStateM.tryCatch, h]
  rfl

theorem filterAuxM_of_ok {f : α → EStateM ε σ Bool} {p : α → Bool} {s : σ} :
    ∀ l acc : List α, (∀ a ∈ l, f a s = .ok (p a) s) →
      List.filterAuxM f l acc s = .ok ((l.filter p).reverse ++ acc) s
  | [], _, _ => rfl
  | a :: l, acc, h => by
    rw [List.filterAuxM]
    refine (bind_of_ok (h a (List.mem_cons_self ..))).trans ?_
    rw [filterAuxM_of_ok l _ fun x hx => h x (List.mem_cons_of_mem _ hx)]
    cases hp : p a <;> simp [hp]

/-- A filter whose test reads the state alone. -/
theorem filterM_of_ok {f : α → EStateM ε σ Bool} {p : α → Bool} {s : σ} {l : List α}
    (h : ∀ a ∈ l, f a s = .ok (p a) s) : l.filterM f s = .ok (l.filter p) s := by
  refine (bind_of_ok (filterAuxM_of_ok l [] h)).trans ?_
  rw [List.append_nil, List.reverse_reverse]
  rfl

/-! ## Properties kept -/

def Keeps (I : σ → Prop) (x : EStateM ε σ α) : Prop := ∀ s, I s → I (final x s)

namespace Keeps

theorem pure (a : α) : Keeps I (pure a : EStateM ε σ α) := fun _ hs => hs

theorem throw (e : ε) : Keeps I (throw e : EStateM ε σ α) := fun _ hs => hs

theorem modify {f : σ → σ} (hf : ∀ s, I s → I (f s)) :
    Keeps I (modify f : EStateM ε σ PUnit) := hf

theorem bind {x : EStateM ε σ α} {f : α → EStateM ε σ β} (hx : Keeps I x)
    (hf : ∀ a, Keeps I (f a)) : Keeps I (x >>= f) := by
  intro s hs
  have hs' := hx s hs
  unfold final at hs' ⊢
  show I (match EStateM.bind x f s with
    | .ok _ s' => s'
    | .error _ s' => s')
  unfold EStateM.bind
  cases hrun : x s with
  | ok a s' =>
    rw [hrun] at hs'
    exact hf a s' hs'
  | error e s' =>
    rw [hrun] at hs'
    exact hs'

/-- What follows a read of the state may use what is known of the state read. -/
theorem get_bind {f : σ → EStateM ε σ β} (hf : ∀ s, I s → Keeps I (f s)) :
    Keeps I ((get : EStateM ε σ σ) >>= f) := fun s hs => hf s hs s hs

theorem tryCatch {x : EStateM ε σ α} {f : ε → EStateM ε σ α} (hx : Keeps I x)
    (hf : ∀ e, Keeps I (f e)) : Keeps I (tryCatch x f) := by
  intro s hs
  have hs' := hx s hs
  rw [final_tryCatch]
  rw [final] at hs'
  cases hrun : x s with
  | ok a s' =>
    rw [hrun] at hs'
    exact hs'
  | error e s' =>
    rw [hrun] at hs'
    exact hf e s' hs'

theorem ite {c : Prop} [Decidable c] {x y : EStateM ε σ α} (hx : Keeps I x) (hy : Keeps I y) :
    Keeps I (if c then x else y) := by
  split_ifs
  · exact hx
  · exact hy

theorem foldlM {γ : Type} {f : γ → α → EStateM ε σ γ} (hf : ∀ c a, Keeps I (f c a)) :
    ∀ (l : List α) (c : γ), Keeps I (l.foldlM f c)
  | [], c => pure c
  | a :: l, c => by
    rw [List.foldlM_cons]
    exact bind (hf c a) fun c => foldlM hf l c

theorem forM {f : α → EStateM ε σ PUnit} (hf : ∀ a, Keeps I (f a)) :
    ∀ l : List α, Keeps I (l.forM f)
  | [] => pure ()
  | a :: l => bind (hf a) fun _ => forM hf l

theorem filterAuxM {f : α → EStateM ε σ Bool} (hf : ∀ a, Keeps I (f a)) :
    ∀ l acc : List α, Keeps I (List.filterAuxM f l acc)
  | [], _ => pure _
  | a :: l, acc => bind (hf a) fun b => filterAuxM hf l (cond b (a :: acc) acc)

theorem filterM {f : α → EStateM ε σ Bool} (hf : ∀ a, Keeps I (f a)) (l : List α) :
    Keeps I (l.filterM f) :=
  bind (filterAuxM hf l []) fun _ => pure _

end Keeps

/-! ## Properties kept where nothing is thrown -/

/-- The computation takes states with `I` to states with `J`, and throws only in states with `E`. -/
def Ends (E I J : σ → Prop) (x : EStateM ε σ α) : Prop :=
  ∀ s, I s → match x s with
    | .ok _ s' => J s'
    | .error _ s' => E s'

namespace Ends

variable {E J : σ → Prop}

theorem pure (a : α) : Ends E I I (pure a : EStateM ε σ α) := fun _ hs => hs

theorem throw (hE : ∀ s, I s → E s) (e : ε) : Ends E I J (throw e : EStateM ε σ α) := hE

theorem modify {f : σ → σ} (hf : ∀ s, I s → J (f s)) :
    Ends E I J (modify f : EStateM ε σ PUnit) := hf

theorem modifyGet {f : σ → α × σ} (hf : ∀ s, I s → J (f s).2) :
    Ends E I J (modifyGet f : EStateM ε σ α) := hf

theorem get : Ends E I I (get : EStateM ε σ σ) := fun _ hs => hs

theorem bind {K : σ → Prop} {x : EStateM ε σ α} {f : α → EStateM ε σ β} (hx : Ends E I J x)
    (hf : ∀ a, Ends E J K (f a)) : Ends E I K (x >>= f) := by
  intro s hs
  have hs' := hx s hs
  cases hrun : x s with
  | ok a s' =>
    rw [hrun] at hs'
    rw [bind_of_ok hrun]
    exact hf a s' hs'
  | error e s' =>
    rw [hrun] at hs'
    rw [bind_of_error hrun]
    exact hs'

theorem tryCatch {x : EStateM ε σ α} {f : ε → EStateM ε σ α} (hx : Ends E I J x)
    (hf : ∀ e, Ends E E J (f e)) : Ends E I J (tryCatch x f) := by
  intro s hs
  have hs' := hx s hs
  cases hrun : x s with
  | ok a s' =>
    rw [hrun] at hs'
    rw [tryCatch_of_ok hrun]
    exact hs'
  | error e s' =>
    rw [hrun] at hs'
    rw [tryCatch_of_error hrun]
    exact hf e s' hs'

theorem weaken {I' J' : σ → Prop} {x : EStateM ε σ α} (hx : Ends E I J x) (hI : ∀ s, I' s → I s)
    (hJ : ∀ s, J s → J' s) : Ends E I' J' x := by
  intro s hs
  have hs' := hx s (hI s hs)
  cases hrun : x s with
  | ok a s' =>
    rw [hrun] at hs'
    exact hJ s' hs'
  | error e s' =>
    rw [hrun] at hs'
    exact hs'

theorem forM {f : α → EStateM ε σ PUnit} (hf : ∀ a, Ends E I I (f a)) :
    ∀ l : List α, Ends E I I (l.forM f)
  | [] => pure ()
  | a :: l => bind (hf a) fun _ => forM hf l

/-- Where a run ends, whether it throws or not. -/
theorem final_of_weaker {x : EStateM ε σ α} (hx : Ends E I J x) (hJ : ∀ s, J s → E s) {s : σ}
    (hs : I s) : E (final x s) := by
  have hs' := hx s hs
  unfold final
  cases hrun : x s with
  | ok a s' =>
    rw [hrun] at hs'
    exact hJ s' hs'
  | error e s' =>
    rw [hrun] at hs'
    exact hs'

end Ends

/-! ## What a run leads to -/

/-- A run that returns ends in `Q` of what it returns, one that throws in `E`. -/
def Leads (Q : α → σ → Prop) (E : σ → Prop) (x : EStateM ε σ α) (s : σ) : Prop :=
  match x s with
  | .ok a s' => Q a s'
  | .error _ s' => E s'

namespace Leads

variable {Q R : α → σ → Prop} {E : σ → Prop} {s : σ} {x : EStateM ε σ α}

theorem pure {a : α} (h : Q a s) : Leads Q E (pure a : EStateM ε σ α) s := h

theorem throw {e : ε} (h : E s) : Leads Q E (throw e : EStateM ε σ α) s := h

theorem of_ok {s' : σ} {a : α} (hrun : x s = .ok a s') (h : Q a s') : Leads Q E x s := by
  rw [Leads, hrun]
  exact h

theorem of_error {s' : σ} {e : ε} (hrun : x s = .error e s') (h : E s') : Leads Q E x s := by
  rw [Leads, hrun]
  exact h

theorem returns {s' : σ} {a : α} (h : Leads Q E x s) (hrun : x s = .ok a s') : Q a s' := by
  rw [Leads, hrun] at h
  exact h

theorem bind {K : β → σ → Prop} {f : α → EStateM ε σ β} (hx : Leads Q E x s)
    (hf : ∀ a s', Q a s' → Leads K E (f a) s') : Leads K E (x >>= f) s := by
  cases hrun : x s with
  | ok a s' =>
    rw [Leads, bind_of_ok hrun]
    exact hf a s' (hx.returns hrun)
  | error e s' =>
    rw [Leads, hrun] at hx
    exact of_error (bind_of_error hrun) hx

theorem get_bind {K : β → σ → Prop} {f : σ → EStateM ε σ β} (h : Leads K E (f s) s) :
    Leads K E ((get : EStateM ε σ σ) >>= f) s := h

theorem modify_bind {K : β → σ → Prop} {g : σ → σ} {f : PUnit → EStateM ε σ β} (h : Leads K E (f ()) (g s)) :
    Leads K E ((modify g : EStateM ε σ PUnit) >>= f) s := h

theorem weaken {F : σ → Prop} (hx : Leads R F x s) (hR : ∀ a s', R a s' → Q a s') (hF : ∀ s, F s → E s) :
    Leads Q E x s := by
  cases hrun : x s with
  | ok a s' => exact of_ok hrun (hR a s' (hx.returns hrun))
  | error e s' =>
    rw [Leads, hrun] at hx
    exact of_error hrun (hF s' hx)

/-- Where a run ends, whether it throws or not. -/
theorem final (hx : Leads Q E x s) (hQ : ∀ a s', Q a s' → E s') : E (final x s) := by
  unfold Stateful.final
  cases hrun : x s with
  | ok a s' => exact hQ a s' (hx.returns hrun)
  | error e s' =>
    rw [Leads, hrun] at hx
    exact hx

theorem foldlM {γ : Type} {I : γ → σ → Prop} {f : γ → α → EStateM ε σ γ} :
    ∀ {l : List α} {c : γ} {s : σ}, (∀ a ∈ l, ∀ c s, I c s → Leads I E (f c a) s) → I c s →
      Leads I E (l.foldlM f c) s
  | [], _, _, _, hs => hs
  | a :: l, c, s, hf, hs => by
    rw [List.foldlM_cons]
    exact (hf a (List.mem_cons_self ..) c s hs).bind fun c s' hs' =>
      foldlM (fun b hb => hf b (List.mem_cons_of_mem _ hb)) hs'

theorem forM {I : σ → Prop} {f : α → EStateM ε σ PUnit} :
    ∀ {l : List α} {s : σ}, (∀ a ∈ l, ∀ s, I s → Leads (fun _ => I) E (f a) s) → I s →
      Leads (fun _ => I) E (l.forM f) s
  | [], _, _, hs => hs
  | a :: l, s, hf, hs => by
    rw [forM_cons]
    exact (hf a (List.mem_cons_self ..) s hs).bind fun _ s' hs' =>
      forM (fun b hb => hf b (List.mem_cons_of_mem _ hb)) hs'

end Leads

end Stateful
