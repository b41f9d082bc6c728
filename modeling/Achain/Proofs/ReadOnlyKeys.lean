import Achain.Glua.ContractTable
import Achain.Lib.Traces

/-!
# The read-only keys of a contract

A Lua string is never at the address of a literal, so the metatable of contracts assigns every key.
The id, the name and the storage keep their values if no assignment gives them another one.
-/

namespace Achain.Glua

open Table Traces

namespace ContractTable

variable {V : Type} (numberText : UInt64 → Str) (t : ContractTable V)

/-- The name of the field that a key stands for. -/
def fieldName (k : ContractKey) : Option Str := (checkString numberText k).map CharPointer.chars

def readOnlyKeys : List Str := [idField, nameField, storageField]

def assign (t : ContractTable V) (e : ContractKey × Option V) : ContractTable V :=
  (t.contractMetatableNewindex numberText e.1 e.2).1

/-- A key that the library accepts; if it is one of the three and has a value, that value again. -/
def Allowed (t : ContractTable V) (e : ContractKey × Option V) : Prop :=
  ∃ field, fieldName numberText e.1 = some field ∧
    (field ∈ readOnlyKeys → ∀ v, t.data.lookup field = some v → e.2 = some v)

theorem checkString_ne_literal {k : ContractKey} {key : CharPointer}
    (h : checkString numberText k = some key) (s : Str) : key ≠ .literal s := by
  cases k <;> cases h <;> simp

theorem newindex_eq {k : ContractKey} {field : Str} (h : fieldName numberText k = some field)
    (v : Option V) :
    t.contractMetatableNewindex numberText k v = (⟨setField t.data field v⟩, .done) := by
  obtain ⟨key, hkey, rfl⟩ := Option.map_eq_some_iff.1 h
  have hliteral := checkString_ne_literal numberText hkey
  simp [contractMetatableNewindex, hkey, hliteral]

theorem lookup_setField (fields : Tab Str V) (key key' : Str) (v : Option V) :
    (setField fields key v).lookup key' = if key' = key then v else fields.lookup key' := by
  by_cases hkey : key' = key
  · subst hkey
    cases v <;> simp [setField]
  · cases v <;> simp [setField, hkey, Finmap.lookup_erase_ne, Finmap.lookup_insert_of_ne]

theorem assign_lookup {e : ContractKey × Option V} {field : Str}
    (h : fieldName numberText e.1 = some field) (key : Str) :
    (t.assign numberText e).data.lookup key = if key = field then e.2 else t.data.lookup key := by
  rw [assign, newindex_eq numberText t h, lookup_setField]

theorem index_eq {k : ContractKey} {field : Str} (h : fieldName numberText k = some field) :
    t.contractMetatableIndex numberText k = some (t.data.lookup field) := by
  obtain ⟨key, hkey, rfl⟩ := Option.map_eq_some_iff.1 h
  simp [contractMetatableIndex, hkey]

/-- What is promised of the assignments: the values of the three keys stay, another value for one of
them raises the error, and every other key is assigned. -/
structure WriteOnce (t : ContractTable V) (assignments : List (ContractKey × Option V)) : Prop where
  kept : ∀ before between after, assignments = before ++ (between ++ after) →
    ∀ key ∈ readOnlyKeys, ∀ v, (run (assign numberText) t before).data.lookup key = some v →
      (run (assign numberText) t (before ++ between)).data.lookup key = some v
  raised : ∀ before k v after, assignments = before ++ (k, v) :: after →
    ∀ key ∈ readOnlyKeys, fieldName numberText k = some key →
      ∀ v', (run (assign numberText) t before).data.lookup key = some v' → v ≠ some v' →
        ((run (assign numberText) t before).contractMetatableNewindex numberText k v).2 =
          .readOnlyError
  effective : ∀ before k v after, assignments = before ++ (k, v) :: after →
    (∀ key ∈ readOnlyKeys, fieldName numberText k ≠ some key) →
      ((run (assign numberText) t before).assign numberText (k, v)).contractMetatableIndex
        numberText k = some v

variable {t}

theorem Allowed.keeps {e : ContractKey × Option V} (h : Allowed numberText t e) {key : Str}
    (hkey : key ∈ readOnlyKeys) {v : V} (hv : t.data.lookup key = some v) :
    (t.assign numberText e).data.lookup key = some v := by
  obtain ⟨field, hfield, hsame⟩ := h
  rw [assign_lookup numberText t hfield]
  split_ifs with heq
  · subst heq
    exact hsame hkey v hv
  · exact hv

/-- The three keys are written once exactly if every assignment has a string or a number for its key
and gives none of the three that has a value another one. -/
theorem contract_keys_write_once {assignments : List (ContractKey × Option V)} :
    WriteOnce numberText t assignments ↔
      Along (assign numberText) (Allowed numberText) t assignments := by
  rw [along_iff_forall]
  constructor
  · rintro h before ⟨k, v⟩ after hsplit
    cases hfield : fieldName numberText k with
    | none =>
      have heffective := h.effective before k v after hsplit (by simp [hfield])
      simp [contractMetatableIndex, Option.map_eq_none_iff.1 hfield] at heffective
    | some field =>
      refine ⟨field, hfield, fun hkey v' hv' => ?_⟩
      by_contra hne
      have hraised := h.raised before k v after hsplit field hkey hfield v' hv' hne
      rw [newindex_eq numberText _ hfield] at hraised
      exact nomatch hraised
  · intro h
    refine ⟨?_, ?_, ?_⟩
    · rintro before between after rfl key hkey v hv
      rw [run_append]
      have halong : Along (assign numberText) (Allowed numberText)
          (run (assign numberText) t before) between := by
        rw [along_iff_forall]
        rintro before' e after' rfl
        rw [← run_append]
        exact h (before ++ before') e (after' ++ after) (by simp)
      exact halong.keeps (I := fun t => t.data.lookup key = some v)
        (fun t e hv he => he.keeps numberText hkey hv) hv
    · intro before k v after hsplit key hkey hfield v' hv' hne
      obtain ⟨field, hfield', hsame⟩ := h before (k, v) after hsplit
      obtain rfl := Option.some.inj (hfield.symm.trans hfield')
      exact absurd (hsame hkey v' hv') hne
    · intro before k v after hsplit _
      obtain ⟨field, hfield, -⟩ := h before (k, v) after hsplit
      rw [index_eq numberText _ hfield, assign_lookup numberText _ hfield, if_pos rfl]

/-- A contract that has got its storage, name and id changes its id. -/
theorem contract_changes_its_id :
    ¬WriteOnce (V := Nat) (fun _ => []) ⟨∅⟩
      [(.string storageField, some 1), (.string nameField, some 2), (.string idField, some 3),
        (.string idField, some 4)] := by
  intro h
  have hkept := h.kept
    [(.string storageField, some 1), (.string nameField, some 2), (.string idField, some 3)]
    [(.string idField, some 4)] [] rfl idField (by decide) 3
  revert hkept
  decide

end ContractTable

end Achain.Glua
