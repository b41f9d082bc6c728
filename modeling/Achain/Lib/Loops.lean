import Mathlib.Logic.Relation

/-!
# Loops

A loop makes passes over a state: a pass goes on with another state, ends the loop with a result, or
fails. A loop that makes more passes than it is allowed to counts as endless. `Through` says that
every state a loop makes a pass over is of some kind, and `Ends` what a loop through such states ends
with, without regard to how many passes it is allowed. A loop that is allowed any number of passes
`Halts` if it comes to a state from which it does not go on.
-/

namespace Loops

variable {E S R : Type}

/-- A loop that makes at most so many passes. -/
def iterate (endless : E) (pass : S → Except E (S ⊕ R)) : Nat → S → Except E R
  | 0, _ => .error endless
  | n + 1, s =>
    match pass s with
    | .error e => .error e
    | .ok (.inl s') => iterate endless pass n s'
    | .ok (.inr r) => .ok r

/-- Every state that a loop makes a pass over is of a kind. -/
def Through (ok : S → Prop) (pass : S → Except E (S ⊕ R)) : Nat → S → Prop
  | 0, _ => True
  | n + 1, s => ok s ∧
    match pass s with
    | .ok (.inl s') => Through ok pass n s'
    | _ => True

instance instDecidableThrough (ok : S → Prop) [DecidablePred ok] (pass : S → Except E (S ⊕ R)) :
    ∀ (n : Nat) (s : S), Decidable (Through ok pass n s)
  | 0, _ => isTrue trivial
  | n + 1, s => by
    unfold Through
    have (s' : S) := instDecidableThrough ok pass n s'
    cases pass s with
    | error e => infer_instance
    | ok next => cases next <;> infer_instance

variable {pass : S → Except E (S ⊕ R)} {ok : S → Prop}

/-- A loop ends with a result, and every state it makes a pass over is of a kind. -/
inductive Ends (pass : S → Except E (S ⊕ R)) (ok : S → Prop) : S → R → Prop
  | done {s : S} {r : R} : ok s → pass s = .ok (.inr r) → Ends pass ok s r
  | more {s s' : S} {r : R} : ok s → pass s = .ok (.inl s') → Ends pass ok s' r → Ends pass ok s r

theorem ends_of_iterate {endless : E} {r : R} : ∀ {n : Nat} {s : S},
    iterate endless pass n s = .ok r → Through ok pass n s → Ends pass ok s r
  | 0, _, h, _ => nomatch h
  | n + 1, s, h, hok => by
    rw [iterate] at h
    rw [Through] at hok
    cases hpass : pass s with
    | error e => simp [hpass] at h
    | ok next =>
      rw [hpass] at h hok
      cases next with
      | inl s' => exact .more hok.1 hpass (ends_of_iterate h hok.2)
      | inr r' =>
        obtain rfl := Except.ok.inj h
        exact .done hok.1 hpass

theorem Ends.start {s : S} {r : R} (h : Ends pass ok s r) : ok s ∧ ∃ next, pass s = .ok next := by
  cases h with
  | done hok hpass => exact ⟨hok, _, hpass⟩
  | more hok hpass _ => exact ⟨hok, _, hpass⟩

theorem through_true : ∀ (n : Nat) (s : S), Through (fun _ => True) pass n s
  | 0, _ => trivial
  | n + 1, s => by
    refine ⟨trivial, ?_⟩
    split
    · exact through_true n _
    · trivial

/-- What every pass keeps, the result has too. -/
theorem Ends.keeps {I : S → Prop} {Q : R → Prop} {s : S} {r : R} (h : Ends pass ok s r) (hs : I s)
    (hpass : ∀ t t', ok t → I t → pass t = .ok (.inl t') → I t')
    (hdone : ∀ t r, ok t → I t → pass t = .ok (.inr r) → Q r) : Q r := by
  induction h with
  | done hok h => exact hdone _ _ hok hs h
  | more hok h _ ih => exact ih (hpass _ _ hok hs h)

/-! ## Loops without a limit -/

/-- A pass goes on with another state. -/
def Goes (pass : S → Except E (S ⊕ R)) (s s' : S) : Prop := pass s = .ok (.inl s')

def Reaches (pass : S → Except E (S ⊕ R)) : S → S → Prop := Relation.ReflTransGen (Goes pass)

def Halts (pass : S → Except E (S ⊕ R)) (s : S) : Prop :=
  ∃ t, Reaches pass s t ∧ ∀ t', ¬ Goes pass t t'

theorem Reaches.keeps {I : S → Prop} {s t : S} (h : Reaches pass s t)
    (hpass : ∀ t t', I t → Goes pass t t' → I t') (hs : I s) : I t := by
  induction h with
  | refl => exact hs
  | tail _ hgoes ih => exact hpass _ _ ih hgoes

theorem Goes.unique {s t u : S} (ht : Goes pass s t) (hu : Goes pass s u) : t = u := by
  rw [Goes] at ht hu
  rw [ht] at hu
  exact Sum.inl.inj (Except.ok.inj hu)

/-- Of two states that a loop comes to, it comes to one after the other. -/
theorem Reaches.total {s t u : S} (ht : Reaches pass s t) (hu : Reaches pass s u) :
    Reaches pass t u ∨ Reaches pass u t :=
  Relation.ReflTransGen.total_of_right_unique (fun _ _ _ => Goes.unique) ht hu

theorem Reaches.eq_of_last {s t : S} (h : Reaches pass s t) (hend : ∀ s', ¬ Goes pass s s') : s = t := by
  rcases Relation.ReflTransGen.cases_head h with rfl | ⟨s', hs', -⟩
  · rfl
  · exact absurd hs' (hend s')

theorem Reaches.last_unique {s t u : S} (ht : Reaches pass s t) (hu : Reaches pass s u)
    (htend : ∀ t', ¬ Goes pass t t') (huend : ∀ u', ¬ Goes pass u u') : t = u := by
  rcases ht.total hu with h | h
  · exact h.eq_of_last htend
  · exact (h.eq_of_last huend).symm

/-- A loop that goes down with every pass halts. -/
theorem halts_of_lower {lower : S → S → Prop} (hwf : WellFounded lower) {s : S}
    (h : ∀ t, Reaches pass s t → ∀ t', Goes pass t t' → lower t' t) : Halts pass s := by
  induction s using hwf.induction with
  | _ s ih =>
    by_cases hgoes : ∃ s', Goes pass s s'
    · obtain ⟨s', hs'⟩ := hgoes
      obtain ⟨t, ht, hend⟩ := ih s' (h s .refl s' hs') fun t ht =>
        h t (Relation.ReflTransGen.head hs' ht)
      exact ⟨t, Relation.ReflTransGen.head hs' ht, hend⟩
    · exact ⟨s, .refl, fun s' hs' => hgoes ⟨s', hs'⟩⟩

/-- A loop that comes to a state from which it goes on forever does not halt. -/
theorem not_halts_of_stuck {stuck : S → Prop} (hstuck : ∀ t, stuck t → ∃ t', Goes pass t t' ∧ stuck t')
    {s t : S} (h : Reaches pass s t) (ht : stuck t) : ¬ Halts pass s := by
  rintro ⟨u, hu, hend⟩
  have hgoes (v : S) (hv : stuck v) : ¬ ∀ v', ¬ Goes pass v v' := fun hlast => by
    obtain ⟨v', hv', -⟩ := hstuck v hv
    exact hlast v' hv'
  rcases h.total hu with htu | hut
  · -- every state after a stuck one is stuck, also the last
    refine hgoes u (htu.keeps (fun a b ha hb => ?_) ht) hend
    obtain ⟨b', hb', hstuck'⟩ := hstuck a ha
    exact hb'.unique hb ▸ hstuck'
  · exact hgoes t ht (hut.eq_of_last hend ▸ hend)

end Loops
