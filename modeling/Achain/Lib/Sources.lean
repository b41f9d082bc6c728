import Mathlib.Algebra.Group.Nat.Defs
import Mathlib.Data.List.Basic

/-!
# Sources, and readers that recover what was written

A source gives one element after another. `Feeds` says which elements it gives and what it is after
them, `takes` asks for so many at once. `Recovers` says that a reader takes a code off any source and
returns the value the code was written for, and that it throws where the source ends within the code.
A list is a source that gives its elements; no code a reader recovers from it is the beginning of the
code of another value. Numbers are written as bytes, the lowest first.
-/

namespace Sources

variable {σ β ε ι α γ : Type}

section Feeding

variable (next : σ → Option (β × σ))

/-- The source gives these elements, and is then what it says. -/
def Feeds : σ → List β → σ → Prop
  | s, [], s' => s = s'
  | s, b :: bs, s' => ∃ t, next s = some (b, t) ∧ Feeds t bs s'

/-- The next `n` elements, if the source gives as many. -/
def takes : Nat → σ → Option (List β × σ)
  | 0, s => some ([], s)
  | n + 1, s => (next s).bind fun x => (takes n x.2).map fun y => (x.1 :: y.1, y.2)

variable {next}

theorem feeds_append {as bs : List β} {s s' : σ} :
    Feeds next s (as ++ bs) s' ↔ ∃ t, Feeds next s as t ∧ Feeds next t bs s' := by
  induction as generalizing s with
  | nil => exact ⟨fun h => ⟨s, rfl, h⟩, fun ⟨t, ht, h⟩ => ht ▸ h⟩
  | cons a as ih =>
    constructor
    · rintro ⟨t, ht, h⟩
      obtain ⟨u, hu, h'⟩ := ih.1 h
      exact ⟨u, ⟨t, ht, hu⟩, h'⟩
    · rintro ⟨u, ⟨t, ht, hu⟩, h'⟩
      exact ⟨t, ht, ih.2 ⟨u, hu, h'⟩⟩

theorem takes_eq_some {n : Nat} {s s' : σ} {bs : List β} :
    takes next n s = some (bs, s') ↔ bs.length = n ∧ Feeds next s bs s' := by
  induction n generalizing s bs with
  | zero =>
    rw [takes, Option.some.injEq, Prod.mk.injEq]
    constructor
    · rintro ⟨rfl, rfl⟩
      exact ⟨rfl, rfl⟩
    · rintro ⟨hlen, h⟩
      obtain rfl := List.eq_nil_of_length_eq_zero hlen
      exact ⟨rfl, h⟩
  | succ n ih =>
    simp only [takes, Option.bind_eq_some_iff, Option.map_eq_some_iff, Prod.mk.injEq]
    constructor
    · rintro ⟨x, hx, y, hy, rfl, rfl⟩
      obtain ⟨hlen, h⟩ := ih.1 hy
      exact ⟨congrArg (· + 1) hlen, x.2, hx, h⟩
    · rintro ⟨hlen, h⟩
      obtain ⟨b, bs, rfl⟩ := List.exists_cons_of_length_eq_add_one hlen
      obtain ⟨t, ht, h⟩ := h
      exact ⟨(b, t), ht, (bs, s'), ih.2 ⟨Nat.succ.inj hlen, h⟩, rfl, rfl⟩

/-- What is asked for in two parts. -/
theorem takes_add {m n : Nat} {s : σ} :
    takes next (m + n) s =
      (takes next m s).bind fun x => (takes next n x.2).map fun y => (x.1 ++ y.1, y.2) := by
  induction m generalizing s with
  | zero => simp [takes]
  | succ m ih =>
    rw [Nat.succ_add, takes, takes, Option.bind_assoc]
    refine congrArg _ (funext fun x => ?_)
    rw [ih]
    cases takes next m x.2 with
    | none => rfl
    | some y =>
      rw [Option.bind_some, Option.map_some, Option.bind_some, Option.map_map]
      rfl

/-- A source that ends does not give more than it has. -/
theorem takes_eq_none {n : Nat} {s s' : σ} {bs : List β} (h : Feeds next s bs s') (hend : next s' = none)
    (hn : bs.length < n) : takes next n s = none := by
  obtain ⟨m, rfl⟩ := Nat.exists_eq_add_of_lt hn
  rw [Nat.add_assoc, takes_add, takes_eq_some.2 ⟨rfl, h⟩, Option.bind_some, takes, hend]
  rfl

end Feeding

/-! ## Readers -/

section Recovering

variable (next : σ → Option (β × σ)) (e : ε)

/-- Off every source that gives `code`, and something after it, `get` takes the code and returns `a`; off
a source that ends within the code it throws `e`. -/
structure Recovers (get : StateT σ (Except ε) α) (code : List β) (a : α) : Prop where
  returns : ∀ s s', Feeds next s code s' → get s = .ok (a, s')
  starves : ∀ bs s s', bs <+: code → bs ≠ code → Feeds next s bs s' → next s' = none → get s = .error e

variable {next e} {get : StateT σ (Except ε) α} {k : α → StateT σ (Except ε) γ} {as bs : List β} {a : α}
  {c : γ}

theorem Recovers.pure : Recovers next e (pure a : StateT σ (Except ε) α) [] a where
  returns := by
    rintro s s' rfl
    rfl
  starves := fun bs s s' hbs hne => absurd (List.prefix_nil.1 hbs) hne

theorem Recovers.bind (h : Recovers next e get as a) (hk : Recovers next e (k a) bs c) :
    Recovers next e (get >>= k) (as ++ bs) c where
  returns := by
    intro s s' hs
    obtain ⟨t, ht, hs⟩ := feeds_append.1 hs
    show (get s).bind (fun x => k x.1 x.2) = _
    rw [h.returns s t ht]
    exact hk.returns t s' hs
  starves := by
    intro l s s' hl hne hs hend
    show (get s).bind (fun x => k x.1 x.2) = _
    by_cases hshort : l <+: as ∧ l ≠ as
    · rw [h.starves l s s' hshort.1 hshort.2 hs hend]
      rfl
    · -- the code of the first reader is there
      have has : as <+: l := by
        obtain hlas | hasl := List.prefix_or_prefix_of_prefix hl (List.prefix_append as bs)
        · obtain rfl := not_not.1 fun h => hshort ⟨hlas, h⟩
          exact List.prefix_rfl
        · exact hasl
      obtain ⟨l, rfl⟩ := has
      obtain ⟨t, ht, hs⟩ := feeds_append.1 hs
      rw [h.returns s t ht]
      refine hk.starves l t s' ((List.prefix_append_right_inj as).1 hl) ?_ hs hend
      rintro rfl
      exact hne rfl

/-- A step that takes nothing. -/
theorem Recovers.bind_nil (h : Recovers next e get [] a) (hk : Recovers next e (k a) bs c) :
    Recovers next e (get >>= k) bs c := h.bind hk

theorem Recovers.last (h : Recovers next e get as a) {f : α → γ} :
    Recovers next e (get >>= fun x => Pure.pure (f x)) as (f a) := by
  have hbind := h.bind (k := fun x => Pure.pure (f x)) (Recovers.pure (a := f a))
  rwa [List.append_nil] at hbind

theorem bind_eq_ok {s s' : σ} :
    (get >>= k) s = .ok (c, s') ↔ ∃ a t, get s = .ok (a, t) ∧ k a t = .ok (c, s') := by
  show (get s).bind (fun x => k x.1 x.2) = _ ↔ _
  cases hget : get s with
  | error e =>
    constructor
    · intro h
      cases h
    · rintro ⟨a, t, h, -⟩
      cases h
  | ok x =>
    refine ⟨fun h => ⟨x.1, x.2, rfl, h⟩, ?_⟩
    rintro ⟨a, t, h, hk⟩
    cases h
    exact hk

theorem pure_eq_ok {b : α} {s s' : σ} :
    (Pure.pure b : StateT σ (Except ε) α) s = .ok (a, s') ↔ b = a ∧ s = s' := by
  show Except.ok (b, s) = .ok (a, s') ↔ _
  rw [Except.ok.injEq, Prod.mk.injEq]

/-- The same reader so many times. -/
def times (get : StateT σ (Except ε) α) : Nat → StateT σ (Except ε) (List α)
  | 0 => Pure.pure []
  | n + 1 => do
    let a ← get
    let as ← times get n
    return a :: as

theorem Recovers.times {is : List ι} {enc : ι → List β} {f : ι → α}
    (h : ∀ i ∈ is, Recovers next e get (enc i) (f i)) :
    Recovers next e (times get is.length) (is.flatMap enc) (is.map f) := by
  induction is with
  | nil => exact Recovers.pure
  | cons i is ih =>
    rw [List.forall_mem_cons] at h
    exact h.1.bind (ih h.2).last

theorem length_of_times {n : Nat} {as : List α} {s s' : σ} (h : times get n s = .ok (as, s')) :
    as.length = n := by
  induction n generalizing as s s' with
  | zero =>
    rw [times, pure_eq_ok] at h
    rw [← h.1]
    rfl
  | succ n ih =>
    obtain ⟨a, t, -, h⟩ := bind_eq_ok.1 h
    obtain ⟨as', t', htail, h⟩ := bind_eq_ok.1 h
    rw [← (pure_eq_ok.1 h).1]
    exact congrArg (· + 1) (ih htail)

end Recovering

/-! ## Lists -/

section Lists

/-- A list gives its first element. -/
def head : List β → Option (β × List β)
  | [] => none
  | b :: bs => some (b, bs)

theorem feeds_head {bs l l' : List β} : Feeds head l bs l' ↔ l = bs ++ l' := by
  induction bs generalizing l with
  | nil => exact Iff.rfl
  | cons b bs ih =>
    cases l with
    | nil => exact ⟨fun ⟨_, h, _⟩ => by simp [head] at h, fun h => by simp at h⟩
    | cons c l =>
      rw [List.cons_append, List.cons.injEq, ← ih]
      constructor
      · rintro ⟨t, ht, h⟩
        obtain ⟨rfl, rfl⟩ := Prod.mk.inj (Option.some.inj ht)
        exact ⟨rfl, h⟩
      · rintro ⟨rfl, h⟩
        exact ⟨l, rfl, h⟩

variable {e : ε} {get : StateT (List β) (Except ε) α} {as l : List β} {a : α}

theorem Recovers.get_append (h : Recovers head e get as a) : get (as ++ l) = .ok (a, l) :=
  h.returns _ _ (feeds_head.2 rfl)

theorem Recovers.get_short (h : Recovers head e get as a) (hl : l <+: as) (hne : l ≠ as) :
    get l = .error e :=
  h.starves l l [] hl hne (feeds_head.2 (List.append_nil l).symm) rfl

end Lists

/-! ## The bytes of numbers -/

/-- The `n` lowest bytes of a number, the lowest first. -/
def littleEndian : Nat → Nat → List UInt8
  | 0, _ => []
  | n + 1, x => UInt8.ofNat x :: littleEndian n (x / 256)

def ofLittleEndian : List UInt8 → Nat
  | [] => 0
  | b :: bs => b.toNat + 256 * ofLittleEndian bs

@[simp] theorem length_littleEndian (n x : Nat) : (littleEndian n x).length = n := by
  induction n generalizing x with
  | zero => rfl
  | succ n ih => exact congrArg (· + 1) (ih (x / 256))

theorem ofLittleEndian_littleEndian {n x : Nat} (h : x < 256 ^ n) :
    ofLittleEndian (littleEndian n x) = x := by
  induction n generalizing x with
  | zero =>
    rw [Nat.pow_zero, Nat.lt_one_iff] at h
    exact h.symm
  | succ n ih =>
    rw [Nat.pow_succ, Nat.mul_comm] at h
    rw [littleEndian, ofLittleEndian, ih (Nat.div_lt_of_lt_mul h), UInt8.toNat_ofNat']
    exact Nat.mod_add_div x 256

end Sources
