import Mathlib.Data.List.Basic

/-!
# Readers that log the lengths they use

A reader takes elements off a list. It returns, throws or does what is undefined, and keeps a log of the
lengths it asked for beside what was left. `Reads` and `Overruns` say how it ends; `Codes` says that what
is read are the codes of some items, one after the other, and `Distinct` that a code tells its item from
any other.
-/

namespace Readers

variable {ε β α γ ι κ : Type}

inductive Outcome (ε α : Type) where
  | returns (a : α)
  | throws (e : ε)
  | undefined

/-- A run: the lengths asked for, each with what was left, and how it ends. -/
structure Run (ε β α : Type) where
  lengths : List (Int × Nat)
  outcome : Outcome ε (α × List β)

def Reader (ε β α : Type) := List β → Run ε β α

namespace Reader

def bind (r : Reader ε β α) (k : α → Reader ε β γ) : Reader ε β γ := fun l =>
  match r l with
  | ⟨log, .returns (a, l')⟩ => ⟨log ++ (k a l').lengths, (k a l').outcome⟩
  | ⟨log, .throws e⟩ => ⟨log, .throws e⟩
  | ⟨log, .undefined⟩ => ⟨log, .undefined⟩

instance instMonadReader : Monad (Reader ε β) where
  pure a := fun l => ⟨[], .returns (a, l)⟩
  bind := bind

def throws (e : ε) : Reader ε β α := fun _ => ⟨[], .throws e⟩

def undefined : Reader ε β α := fun _ => ⟨[], .undefined⟩

/-- How much is left. -/
def left : Reader ε β Nat := fun l => ⟨[], .returns (l.length, l)⟩

def ensure (p : Prop) [Decidable p] (e : ε) : Reader ε β Unit := if p then pure () else throws e

/-- Reads `n` items and folds them. -/
def fold (item : Reader ε β α) (f : γ → α → γ) : Nat → γ → Reader ε β γ
  | 0, c => pure c
  | n + 1, c => do
    let a ← item
    fold item f n (f c a)

end Reader

open Reader

def Reads (r : Reader ε β α) (l : List β) (a : α) (l' : List β) : Prop :=
  (r l).outcome = .returns (a, l')

/-- The run asks for a length below zero or beyond what is left, or does what is undefined. -/
def Overruns (r : Reader ε β α) (l : List β) : Prop :=
  (∃ x ∈ (r l).lengths, ¬(0 ≤ x.1 ∧ x.1 ≤ x.2)) ∨ (r l).outcome = .undefined

variable {r : Reader ε β α} {k : α → Reader ε β γ} {l l' : List β} {a b : α} {c : γ} {e : ε}

@[simp] theorem reads_pure : Reads (pure b : Reader ε β α) l a l' ↔ b = a ∧ l = l' := by
  show Outcome.returns (b, l) = Outcome.returns (a, l') ↔ _
  rw [Outcome.returns.injEq, Prod.mk.injEq]

@[simp] theorem not_overruns_pure : ¬Overruns (pure b : Reader ε β α) l := by
  rintro (⟨x, hx, -⟩ | h)
  · exact List.not_mem_nil hx
  · nomatch h

@[simp] theorem reads_bind :
    Reads (r >>= k) l c l' ↔ ∃ a l₁, Reads r l a l₁ ∧ Reads (k a) l₁ c l' := by
  show (Reader.bind r k l).outcome = _ ↔ ∃ a l₁, (r l).outcome = _ ∧ _
  unfold Reader.bind
  split <;> rename_i heq <;> rw [heq]
  · rename_i a₁ l₁
    refine ⟨fun h => ⟨a₁, l₁, rfl, h⟩, ?_⟩
    rintro ⟨a₂, l₂, heq, h⟩
    cases heq
    exact h
  · exact ⟨nofun, fun ⟨_, _, h, _⟩ => nomatch h⟩
  · exact ⟨nofun, fun ⟨_, _, h, _⟩ => nomatch h⟩

theorem overruns_bind :
    Overruns (r >>= k) l ↔ Overruns r l ∨ ∃ a l₁, Reads r l a l₁ ∧ Overruns (k a) l₁ := by
  show (∃ x ∈ (Reader.bind r k l).lengths, _) ∨ (Reader.bind r k l).outcome = _ ↔
    ((∃ x ∈ (r l).lengths, _) ∨ (r l).outcome = _) ∨ ∃ a l₁, (r l).outcome = _ ∧ _
  unfold Reader.bind
  split <;> rename_i heq <;> rw [heq]
  · rename_i a₁ l₁
    simp only [List.mem_append, Outcome.returns.injEq, Prod.mk.injEq, reduceCtorEq, or_false]
    constructor
    · rintro (⟨x, hx | hx, hbad⟩ | h)
      · exact .inl ⟨x, hx, hbad⟩
      · exact .inr ⟨a₁, l₁, ⟨rfl, rfl⟩, .inl ⟨x, hx, hbad⟩⟩
      · exact .inr ⟨a₁, l₁, ⟨rfl, rfl⟩, .inr h⟩
    · rintro (⟨x, hx, hbad⟩ | ⟨_, _, ⟨rfl, rfl⟩, ⟨x, hx, hbad⟩ | h⟩)
      · exact .inl ⟨x, .inl hx, hbad⟩
      · exact .inl ⟨x, .inr hx, hbad⟩
      · exact .inr h
  all_goals simp

@[simp] theorem reads_left {n : Nat} : Reads (left : Reader ε β Nat) l n l' ↔ l.length = n ∧ l = l' :=
  reads_pure

@[simp] theorem not_overruns_left : ¬Overruns (left : Reader ε β Nat) l := not_overruns_pure

section ensure

variable {p : Prop} [Decidable p] {u : Unit}

@[simp] theorem reads_ensure : Reads (ensure p e : Reader ε β Unit) l u l' ↔ p ∧ l = l' := by
  unfold ensure
  split_ifs with hp
  · rw [reads_pure]
    exact ⟨fun h => ⟨hp, h.2⟩, fun h => ⟨rfl, h.2⟩⟩
  · exact ⟨nofun, fun h => absurd h.1 hp⟩

@[simp] theorem not_overruns_ensure : ¬Overruns (ensure p e : Reader ε β Unit) l := by
  unfold ensure
  split_ifs
  · exact not_overruns_pure
  · rintro (⟨x, hx, -⟩ | h)
    · exact List.not_mem_nil hx
    · nomatch h

end ensure

/-! ## Codes of items -/

variable {enc : ι → List β} {valid : ι → Prop} {val : ι → α}

/-- What is read is the code of a valid item, and every valid item is read from its code. -/
structure Codes (r : Reader ε β α) (enc : ι → List β) (valid : ι → Prop) (val : ι → α) : Prop where
  reads_iff : ∀ {l a l'}, Reads r l a l' ↔ ∃ i, valid i ∧ l = enc i ++ l' ∧ val i = a

theorem Codes.fold (h : Codes r enc valid val) (f : γ → α → γ) :
    ∀ {n : Nat} {c c' : γ} {l l' : List β}, Reads (Reader.fold r f n c) l c' l' ↔
      ∃ is : List ι, is.length = n ∧ (∀ i ∈ is, valid i) ∧ l = is.flatMap enc ++ l' ∧
        (is.map val).foldl f c = c' := by
  intro n
  induction n with
  | zero =>
    intro c c' l l'
    rw [Reader.fold, reads_pure]
    constructor
    · rintro ⟨rfl, rfl⟩
      exact ⟨[], rfl, by simp, rfl, rfl⟩
    · rintro ⟨is, his, -, rfl, rfl⟩
      obtain rfl := List.eq_nil_of_length_eq_zero his
      exact ⟨rfl, rfl⟩
  | succ n ih =>
    intro c c' l l'
    rw [Reader.fold, reads_bind]
    constructor
    · rintro ⟨a, l₁, ha, hrest⟩
      obtain ⟨i, hi, rfl, rfl⟩ := h.reads_iff.1 ha
      obtain ⟨is, rfl, his, rfl, rfl⟩ := ih.1 hrest
      exact ⟨i :: is, rfl, List.forall_mem_cons.2 ⟨hi, his⟩, by simp, rfl⟩
    · rintro ⟨is, hlen, his, rfl, rfl⟩
      obtain ⟨i, is, rfl⟩ := List.exists_cons_of_length_eq_add_one hlen
      rw [List.forall_mem_cons] at his
      refine ⟨val i, is.flatMap enc ++ l', h.reads_iff.2 ⟨i, his.1, by simp, rfl⟩,
        ih.2 ⟨is, ?_, his.2, rfl, rfl⟩⟩
      exact Nat.succ.inj hlen

/-- A fold overruns where an item does, after fewer valid items than it is to read. -/
theorem Codes.overruns_fold (h : Codes r enc valid val) (f : γ → α → γ) :
    ∀ {n : Nat} {c : γ} {l : List β}, Overruns (Reader.fold r f n c) l ↔
      ∃ (is : List ι) (l' : List β), is.length < n ∧ (∀ i ∈ is, valid i) ∧ l = is.flatMap enc ++ l' ∧
        Overruns r l' := by
  intro n
  induction n with
  | zero =>
    intro c l
    rw [Reader.fold]
    exact ⟨fun h => absurd h not_overruns_pure, fun ⟨is, _, hlt, _⟩ => absurd hlt (Nat.not_lt_zero _)⟩
  | succ n ih =>
    intro c l
    rw [Reader.fold, overruns_bind]
    constructor
    · rintro (hr | ⟨a, l₁, ha, hrest⟩)
      · exact ⟨[], l, Nat.succ_pos n, by simp, rfl, hr⟩
      · obtain ⟨i, hi, rfl, rfl⟩ := h.reads_iff.1 ha
        obtain ⟨is, l', hlt, his, rfl, hr⟩ := ih.1 hrest
        exact ⟨i :: is, l', Nat.succ_lt_succ hlt, List.forall_mem_cons.2 ⟨hi, his⟩, by simp, hr⟩
    · rintro ⟨is, l', hlt, his, rfl, hr⟩
      cases is with
      | nil => exact .inl hr
      | cons i is =>
        rw [List.forall_mem_cons] at his
        exact .inr ⟨val i, is.flatMap enc ++ l', h.reads_iff.2 ⟨i, his.1, by simp, rfl⟩,
          ih.2 ⟨is, l', Nat.lt_of_succ_lt_succ hlt, his.2, rfl, hr⟩⟩

/-- A code tells its valid item from any other, whatever follows. -/
def Distinct (enc : ι → List β) (valid : ι → Prop) : Prop :=
  ∀ ⦃i j l l'⦄, valid i → valid j → enc i ++ l = enc j ++ l' → i = j ∧ l = l'

theorem Distinct.of_length {n : Nat} (hlen : ∀ i, valid i → (enc i).length = n)
    (hinj : ∀ {i j}, valid i → valid j → enc i = enc j → i = j) : Distinct enc valid := by
  intro i j l l' hi hj h
  obtain ⟨henc, hl⟩ := List.append_inj h ((hlen i hi).trans (hlen j hj).symm)
  exact ⟨hinj hi hj henc, hl⟩

theorem Distinct.mono {valid' : ι → Prop} (h : Distinct enc valid) (himp : ∀ i, valid' i → valid i) :
    Distinct enc valid' :=
  fun _ _ _ _ hi hj => h (himp _ hi) (himp _ hj)

theorem Distinct.pair {enc' : κ → List β} {valid' : κ → Prop} (h : Distinct enc valid)
    (h' : Distinct enc' valid') :
    Distinct (fun p : ι × κ => enc p.1 ++ enc' p.2) fun p => valid p.1 ∧ valid' p.2 := by
  rintro ⟨i, i'⟩ ⟨j, j'⟩ l l' hi hj heq
  rw [List.append_assoc, List.append_assoc] at heq
  obtain ⟨hfst, heq⟩ := h hi.1 hj.1 heq
  obtain ⟨hsnd, heq⟩ := h' hi.2 hj.2 heq
  exact ⟨Prod.ext hfst hsnd, heq⟩

theorem Distinct.list (h : Distinct enc valid) :
    ∀ {is js : List ι} {l l' : List β}, is.length = js.length → (∀ i ∈ is, valid i) →
      (∀ j ∈ js, valid j) → is.flatMap enc ++ l = js.flatMap enc ++ l' → is = js ∧ l = l' := by
  intro is
  induction is with
  | nil =>
    intro js l l' hlen _ _ heq
    obtain rfl := List.eq_nil_of_length_eq_zero hlen.symm
    exact ⟨rfl, heq⟩
  | cons i is ih =>
    intro js l l' hlen his hjs heq
    obtain ⟨j, js, rfl⟩ := List.exists_cons_of_length_eq_add_one hlen.symm
    rw [List.forall_mem_cons] at his hjs
    rw [List.flatMap_cons, List.flatMap_cons, List.append_assoc, List.append_assoc] at heq
    obtain ⟨rfl, htail⟩ := h his.1 hjs.1 heq
    obtain ⟨rfl, rfl⟩ := ih (Nat.succ.inj hlen) his.2 hjs.2 htail
    exact ⟨rfl, rfl⟩

/-- A count and as many items as it says. -/
theorem Distinct.counted {encCount : κ → List β} (size : κ → Nat) (h : Distinct enc valid)
    (hcount : Distinct encCount fun _ => True) :
    Distinct (fun s : κ × List ι => encCount s.1 ++ s.2.flatMap enc)
      fun s => s.2.length = size s.1 ∧ ∀ i ∈ s.2, valid i := by
  rintro ⟨n, is⟩ ⟨m, js⟩ l l' his hjs heq
  rw [List.append_assoc, List.append_assoc] at heq
  obtain ⟨hn, heq⟩ := hcount trivial trivial heq
  dsimp only at hn his hjs
  subst hn
  obtain ⟨hitems, heq⟩ := h.list (his.1.trans hjs.1.symm) his.2 hjs.2 heq
  exact ⟨by rw [hitems], heq⟩

end Readers
