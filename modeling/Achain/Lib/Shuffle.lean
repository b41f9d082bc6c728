import Mathlib.Data.List.Perm.Basic
import Mathlib.Order.Nat
import Mathlib.Logic.Function.Basic

/-!
# Shuffles in place

A shuffle goes through the indexes of a list and exchanges the element at each with one at that
index or after it. What comes of it is a permutation of the list, and every permutation comes of
some choices.
-/

namespace Shuffle

variable {V : Type}

/-- Exchanges two elements, if there are elements at both indexes. -/
def exchange (i j : Nat) (a : List V) : Option (List V) :=
  match a[i]?, a[j]? with
  | some v, some w => some ((a.set i w).set j v)
  | _, _ => none

theorem exchange_eq {a : List V} {i j : Nat} (hi : i < a.length) (hj : j < a.length) :
    exchange i j a = some ((a.set i a[j]).set j a[i]) := by
  simp [exchange, hi, hj]

theorem exchange_perm {a b : List V} {i j : Nat} (h : exchange i j a = some b) : b.Perm a := by
  unfold exchange at h
  split at h
  · rename_i v w hv hw
    obtain ⟨hi, rfl⟩ := List.getElem?_eq_some_iff.1 hv
    obtain ⟨hj, rfl⟩ := List.getElem?_eq_some_iff.1 hw
    obtain rfl := Option.some.inj h
    exact List.set_set_perm hi hj
  · cases h

/-- The first so many passes: pass `i` exchanges the elements at `i` and `pick i` places after. -/
def passes (pick : Nat → Nat) (l : List V) : Nat → Option (List V)
  | 0 => some l
  | k + 1 => (passes pick l k).bind (exchange k (pick k + k))

variable {pick : Nat → Nat} {l : List V}

theorem passes_perm : ∀ {k : Nat} {a : List V}, passes pick l k = some a → a.Perm l
  | 0, a, h => by
    obtain rfl := Option.some.inj h
    exact .refl _
  | k + 1, a, h => by
    obtain ⟨b, hb, hab⟩ := Option.bind_eq_some_iff.1 h
    exact (exchange_perm hab).trans (passes_perm hb)

/-- Choices among the elements that are left find an element. -/
theorem passes_some {k : Nat} (hpick : ∀ i < k, pick i + i < l.length) :
    ∃ a, passes pick l k = some a := by
  induction k with
  | zero => exact ⟨l, rfl⟩
  | succ k ih =>
    obtain ⟨a, ha⟩ := ih fun i hi => hpick i (by omega)
    have hlength := (passes_perm ha).length_eq
    have hk := hpick k (by omega)
    exact ⟨_, Option.bind_eq_some_iff.2 ⟨a, ha, exchange_eq (by omega) (by omega)⟩⟩

theorem passes_congr {pick' : Nat → Nat} : ∀ {k : Nat}, (∀ i < k, pick i = pick' i) →
    passes pick l k = passes pick' l k
  | 0, _ => rfl
  | k + 1, h => by
    rw [passes, passes, passes_congr fun i hi => h i (by omega), h k (by omega)]

/-- An exchange with a later element leaves what comes before both. -/
theorem take_exchange {a b : List V} {i j : Nat} (hij : i ≤ j) (h : exchange i j a = some b) :
    b.take i = a.take i := by
  unfold exchange at h
  split at h
  · obtain rfl := Option.some.inj h
    rw [List.take_set_of_le hij, List.take_set_of_le (Nat.le_refl i)]
  · cases h

theorem getElem?_exchange {a b : List V} {i j : Nat} (h : exchange i j a = some b) :
    b[i]? = a[j]? := by
  unfold exchange at h
  split at h
  · rename_i v w hv hw
    obtain ⟨hi, rfl⟩ := List.getElem?_eq_some_iff.1 hv
    obtain ⟨hj, rfl⟩ := List.getElem?_eq_some_iff.1 hw
    obtain rfl := Option.some.inj h
    by_cases hij : j = i
    · subst hij
      simp [hi]
    · simp [hi, hj, hij]
  · cases h

/-- What some choices lead to begins as a given permutation does. -/
theorem exists_passes {l' : List V} (hperm : l'.Perm l) : ∀ {k : Nat}, k ≤ l.length →
    ∃ pick : Nat → Nat, (∀ i < k, pick i + i < l.length) ∧
      ∃ a, passes pick l k = some a ∧ a.take k = l'.take k
  | 0, _ => ⟨fun _ => 0, fun i hi => absurd hi (Nat.not_lt_zero i), l, rfl, by simp⟩
  | k + 1, hk => by
    obtain ⟨pick, hpick, a, ha, htake⟩ := exists_passes hperm (k := k) (by omega)
    have ha' := passes_perm ha
    have hlength := hperm.length_eq
    have hlength' := ha'.length_eq
    -- the elements after the first `k` are those of the permutation, in another order
    have hdrop : (l'.drop k).Perm (a.drop k) := by
      refine (List.perm_append_left_iff (a.take k)).1 ?_
      rw [List.take_append_drop, htake, List.take_append_drop]
      exact hperm.trans ha'.symm
    have hmem : l'[k] ∈ a.drop k := by
      refine hdrop.subset ?_
      rw [List.drop_eq_getElem_cons (by omega)]
      exact List.mem_cons_self
    obtain ⟨p, hp, hpv⟩ := List.mem_drop_iff_getElem.1 hmem
    refine ⟨Function.update pick k p, fun i hi => ?_, ?_⟩
    · rcases Nat.lt_succ_iff_lt_or_eq.1 hi with hi | rfl
      · rw [Function.update_of_ne (Nat.ne_of_lt hi)]
        exact hpick i hi
      · rw [Function.update_self]
        omega
    · have hb := exchange_eq (a := a) (i := k) (j := p + k) (by omega) (by omega)
      have hsame : ∀ i < k, Function.update pick k p i = pick i := fun i hi =>
        Function.update_of_ne (Nat.ne_of_lt hi) _ _
      refine ⟨(a.set k a[p + k]).set (p + k) a[k], ?_, ?_⟩
      · rw [passes, passes_congr hsame, ha, Option.bind_some, Function.update_self]
        exact hb
      · have h₁ := take_exchange (by omega) hb
        have h₂ := getElem?_exchange hb
        rw [List.take_add_one, List.take_add_one, h₁, h₂, htake, List.getElem?_eq_getElem (by omega),
          List.getElem?_eq_getElem (by omega)]
        simp [← hpv, Nat.add_comm]

/-- Every permutation comes of some choices. -/
theorem exists_shuffle {l' : List V} (hperm : l'.Perm l) :
    ∃ pick : Nat → Nat, (∀ i < l.length, pick i + i < l.length) ∧
      passes pick l l.length = some l' := by
  obtain ⟨pick, hpick, a, ha, htake⟩ := exists_passes hperm (Nat.le_refl l.length)
  have hlength := (passes_perm ha).length_eq
  rw [List.take_of_length_le (by omega), List.take_of_length_le hperm.length_eq.le] at htake
  exact ⟨pick, hpick, htake ▸ ha⟩

end Shuffle
