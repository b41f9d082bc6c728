import Achain.AccountNames
import Achain.AccountOperations

/-!
# Valid account names

A name is valid if it is labels joined by dots, each of them a lower case letter, alone or with lower
case letters, digits and dashes behind it of which the last is no dash. What the label before the first
dot is not tested for, the dot and the rest of the name are.
-/

namespace Achain

namespace ChainInterface

/-- `[a-z]([a-z0-9-]*[a-z0-9])?` -/
def IsLabel (label : Str) : Prop :=
  ∃ first rest, label = first :: rest ∧ first.isLower = true ∧
    (rest = [] ∨ ∃ inner last, rest = inner ++ [last] ∧
      (∀ c ∈ inner, c.isLower = true ∨ c.isDigit = true ∨ c = '-') ∧
      (last.isLower = true ∨ last.isDigit = true))

variable {c first : Char} {name rest label : Str}

/-! ## Characters -/

theorem isUpper_iff_toNat : c.isUpper = true ↔ 65 ≤ c.toNat ∧ c.toNat ≤ 90 := by
  have hval : c.isUpper = decide (c.val ≥ 'A'.val ∧ c.val ≤ 'Z'.val) := rfl
  rw [hval, decide_eq_true_eq]
  exact Iff.rfl

theorem isLower_iff_toNat : c.isLower = true ↔ 97 ≤ c.toNat ∧ c.toNat ≤ 122 := by
  have hval : c.isLower = (decide (c.val ≥ 'a'.val) && decide (c.val ≤ 'z'.val)) := rfl
  rw [hval, Bool.and_eq_true, decide_eq_true_eq, decide_eq_true_eq]
  exact Iff.rfl

theorem isAlpha_eq (c : Char) : c.isAlpha = (c.isUpper || c.isLower) := rfl

theorem isAlnumNotUpper_iff : isAlnumNotUpper c = true ↔ c.isLower = true ∨ c.isDigit = true := by
  have hdigit : c.isDigit = true ↔ 48 ≤ c.toNat ∧ c.toNat ≤ 57 := Char.isDigit_iff_toNat
  simp only [isAlnumNotUpper, Char.isAlphanum, isAlpha_eq, Bool.and_eq_true, Bool.or_eq_true,
    Bool.not_eq_true', ← Bool.not_eq_true, isUpper_iff_toNat, isLower_iff_toNat, hdigit]
  omega

/-- What the loop over a label lets pass. -/
def isLabelChar (c : Char) : Bool := isAlnumNotUpper c || c == '-'

theorem isLabelChar_iff : isLabelChar c = true ↔ c.isLower = true ∨ c.isDigit = true ∨ c = '-' := by
  rw [isLabelChar, Bool.or_eq_true, isAlnumNotUpper_iff, beq_iff_eq, or_assoc]

/-- A letter that the loop lets pass is a lower case letter. -/
theorem isLower_iff_isAlpha (h : isLabelChar c = true) : c.isLower = true ↔ c.isAlpha = true := by
  refine ⟨fun hlower => by rw [isAlpha_eq, hlower, Bool.or_true], fun halpha => ?_⟩
  obtain h | h | rfl := isLabelChar_iff.1 h
  · exact h
  · have hdigit : 48 ≤ c.toNat ∧ c.toNat ≤ 57 := Char.isDigit_iff_toNat.1 h
    rw [isAlpha_eq, Bool.or_eq_true, isUpper_iff_toNat, isLower_iff_toNat] at halpha
    omega
  · exact absurd halpha (by decide)

/-! ## Labels -/

theorem isLabel_cons : IsLabel (first :: rest) ↔ first.isAlpha = true ∧
    isAlnumNotUpper (rest.getLastD first) = true ∧ (first :: rest).all isLabelChar = true := by
  constructor
  · rintro ⟨_, _, heq, hfirst, hrest⟩
    obtain ⟨rfl, rfl⟩ := List.cons.inj heq
    have hpass : isLabelChar first = true := isLabelChar_iff.2 (.inl hfirst)
    refine ⟨(isLower_iff_isAlpha hpass).1 hfirst, ?_⟩
    obtain rfl | ⟨inner, last, rfl, hinner, hlast⟩ := hrest
    · exact ⟨isAlnumNotUpper_iff.2 (.inl hfirst), by simpa using hpass⟩
    · refine ⟨by simpa using isAlnumNotUpper_iff.2 hlast, List.all_eq_true.2 fun c hc => ?_⟩
      simp only [List.mem_cons, List.mem_append, List.not_mem_nil, or_false] at hc
      obtain rfl | hc | rfl := hc
      · exact hpass
      · exact isLabelChar_iff.2 (hinner c hc)
      · exact isLabelChar_iff.2 (hlast.imp_right .inl)
  · rintro ⟨halpha, hlast, hall⟩
    rw [List.all_eq_true] at hall
    have hfirst := (isLower_iff_isAlpha (hall first (by simp))).2 halpha
    refine ⟨first, rest, rfl, hfirst, ?_⟩
    obtain rfl | ⟨inner, last, rfl⟩ := List.eq_nil_or_concat rest
    · exact .inl rfl
    · refine .inr ⟨inner, last, by simp, fun c hc => isLabelChar_iff.1 (hall c (by simp [hc])), ?_⟩
      exact isAlnumNotUpper_iff.1 (by simpa using hlast)

theorem not_isLabel_nil : ¬IsLabel [] := fun ⟨_, _, h, _⟩ => nomatch h

theorem IsLabel.not_mem_dot (h : IsLabel label) : '.' ∉ label := by
  obtain ⟨first, rest, rfl, -⟩ := id h
  obtain ⟨-, -, hall⟩ := isLabel_cons.1 h
  intro hmem
  exact absurd (List.all_eq_true.1 hall _ hmem) (by decide)

theorem IsLabel.last (h : IsLabel label) : isAlnumNotUpper (label.getLastD c) = true := by
  obtain ⟨first, rest, rfl, -⟩ := id h
  rw [List.getLastD_cons]
  exact (isLabel_cons.1 h).2.1

/-! ## Names -/

/-- What is tested of a name. -/
theorem isValidAccountName_cons : isValidAccountName (first :: rest) = true ↔
    (first :: rest).length ≤ maxNameSize ∧ first.isAlpha = true ∧
      isAlnumNotUpper (rest.getLastD first) = true ∧
      isAlnumNotUpper (((first :: rest).takeWhile (· != '.')).getLastD first) = true ∧
      ((first :: rest).takeWhile (· != '.')).all isLabelChar = true ∧
      ((first :: rest).drop (((first :: rest).takeWhile (· != '.')).length + 1) = [] ∨
        isValidAccountName
          ((first :: rest).drop (((first :: rest).takeWhile (· != '.')).length + 1)) = true) := by
  have hmin : ¬(first :: rest).length < minNameSize := Nat.not_lt.2 (Nat.le_add_left 1 _)
  rw [isValidAccountName]
  dsimp only
  rw [if_neg hmin]
  simp only [ite_eq_iff, Bool.false_eq_true, and_false, false_or, not_lt,
    Bool.not_eq_true', Bool.not_eq_false, List.isEmpty_iff, and_true]
  tauto

/-- A name is its label and what is behind the first dot. -/
theorem label_and_rest (name : Str) :
    ('.' ∉ name ∧ name.takeWhile (· != '.') = name) ∨
      ∃ label supername, '.' ∉ label ∧ name = label ++ '.' :: supername ∧
        name.takeWhile (· != '.') = label ∧ name.drop (label.length + 1) = supername := by
  induction name with
  | nil => exact .inl ⟨List.not_mem_nil, rfl⟩
  | cons c name ih =>
    by_cases hc : c = '.'
    · subst hc
      exact .inr ⟨[], name, List.not_mem_nil, rfl, rfl, rfl⟩
    · have hcons : (c :: name).takeWhile (· != '.') = c :: name.takeWhile (· != '.') := by
        rw [List.takeWhile_cons, if_pos (bne_iff_ne.2 hc)]
      obtain ⟨hdot, htake⟩ | ⟨label, supername, hdot, hname, htake, hdrop⟩ := ih
      · refine .inl ⟨fun h => ?_, by rw [hcons, htake]⟩
        exact (List.mem_cons.1 h).elim (fun h => hc h.symm) hdot
      · refine .inr ⟨c :: label, supername, fun h => ?_, by rw [hname]; rfl, by rw [hcons, htake], hdrop⟩
        exact (List.mem_cons.1 h).elim (fun h => hc h.symm) hdot

/-- The parts between the dots of a valid name are labels: by induction on the rest of the name. -/
theorem isValidAccountName_iff_splitOn : isValidAccountName name = true ↔
    name.length ≤ maxNameSize ∧ ∀ label ∈ name.splitOn '.', IsLabel label := by
  induction hn : name.length using Nat.strong_induction_on generalizing name with
  | _ n ih =>
    subst hn
    cases name with
    | nil => simp [isValidAccountName, not_isLabel_nil]
    | cons first rest =>
      rw [isValidAccountName_cons]
      obtain ⟨hdot, htake⟩ | ⟨label, supername, hdot, hname, htake, hdrop⟩ :=
        label_and_rest (first :: rest)
      · have hdrop : (first :: rest).drop ((first :: rest).length + 1) = [] :=
          List.drop_eq_nil_of_le (Nat.le_succ _)
        rw [htake, hdrop, List.splitOn_eq_singleton hdot, List.forall_mem_singleton, isLabel_cons,
          List.getLastD_cons]
        tauto
      · have hshort : supername.length < (first :: rest).length := by
          rw [hname, List.length_append, List.length_cons]
          omega
        rw [htake, hdrop, hname, List.splitOn_append_cons_self, List.splitOn_eq_singleton hdot,
          List.singleton_append, List.forall_mem_cons]
        obtain _ | ⟨d, label⟩ := label
        · -- a name that starts with a dot starts with no letter
          obtain ⟨rfl, -⟩ := List.cons.inj hname
          exact iff_of_false (fun h => absurd h.2.1 (by decide)) fun h => not_isLabel_nil h.2.1
        obtain ⟨rfl, hrest⟩ := List.cons.inj (hname.trans (List.cons_append ..))
        obtain _ | ⟨e, supername⟩ := supername
        · -- a name that ends with a dot does not end with a letter or digit
          have hlast : rest.getLastD first = '.' := by rw [hrest, List.getLastD_concat]
          rw [hlast]
          exact iff_of_false (fun h => absurd h.2.2.1 (by decide))
            fun h => not_isLabel_nil (h.2.2 [] (by simp))
        have hlast : rest.getLastD first = supername.getLastD e := by
          rw [hrest, List.getLastD_eq_getLast?, List.getLast?_append_of_ne_nil _ (List.cons_ne_nil _ _),
            ← List.getLastD_eq_getLast?, List.getLastD_cons, List.getLastD_cons]
        have hvalid := @ih _ hshort (e :: supername) rfl
        rw [hlast, isLabel_cons, List.getLastD_cons]
        constructor
        · rintro ⟨hlength, hfirst, -, hlabel, hall, hempty | hrest⟩
          · exact absurd hempty (List.cons_ne_nil _ _)
          · exact ⟨hlength, ⟨hfirst, hlabel, hall⟩, (hvalid.1 hrest).2⟩
        · rintro ⟨hlength, ⟨hfirst, hlabel, hall⟩, hlabels⟩
          have hsuper : isValidAccountName (e :: supername) = true := by
            refine hvalid.2 ⟨?_, hlabels⟩
            exact hshort.le.trans (hname ▸ hlength)
          exact ⟨hlength, hfirst, (isValidAccountName_cons.1 hsuper).2.2.1, hlabel, hall, .inr hsuper⟩

/-- The valid account names are those of at most 63 characters that are labels joined by dots. -/
theorem isValidAccountName_iff (name : Str) : isValidAccountName name = true ↔
    (1 ≤ name.length ∧ name.length ≤ 63) ∧
      ∃ labels, labels ≠ [] ∧ (∀ label ∈ labels, IsLabel label) ∧ name = ['.'].intercalate labels := by
  rw [isValidAccountName_iff_splitOn]
  constructor
  · rintro ⟨hlength, hlabels⟩
    have hname : ['.'].intercalate (name.splitOn '.') = name := List.intercalate_splitOn '.'
    refine ⟨⟨?_, hlength⟩, _, List.splitOn_ne_nil _ _, hlabels, hname.symm⟩
    rw [Nat.one_le_iff_ne_zero, Ne, List.length_eq_zero_iff]
    rintro rfl
    exact not_isLabel_nil (hlabels [] (by simp))
  · rintro ⟨⟨-, hlength⟩, labels, hne, hlabels, rfl⟩
    refine ⟨hlength, ?_⟩
    rwa [List.splitOn_intercalate _ (fun label hl => (hlabels label hl).not_mem_dot) hne]

/-! ## The names of the operations -/

theorem isLowerAlnum_eq (c : Char) : isLowerAlnum c = isAlnumNotUpper c := by
  have hdigit : c.isDigit = true ↔ 48 ≤ c.toNat ∧ c.toNat ≤ 57 := Char.isDigit_iff_toNat
  rw [Bool.eq_iff_iff, isAlnumNotUpper_iff, isLower_iff_toNat, hdigit]
  simp only [isLowerAlnum, Bool.or_eq_true, Bool.and_eq_true, decide_eq_true_eq]
  exact Iff.rfl

theorem between_iff_isLower : ('a' ≤ c ∧ c ≤ 'z') ↔ c.isLower = true := by
  rw [isLower_iff_toNat]
  exact Iff.rfl

theorem isValidNamePart_iff : isValidNamePart label = true ↔ IsLabel label := by
  cases label with
  | nil => exact iff_of_false Bool.false_ne_true not_isLabel_nil
  | cons first rest =>
    simp only [isValidNamePart, isLowerAlnum_eq, Bool.and_eq_true, decide_eq_true_eq,
      between_iff_isLower]
    rw [isLabel_cons]
    constructor
    · rintro ⟨⟨hfirst, hall⟩, hlast⟩
      have hpass : isLabelChar first = true := List.all_eq_true.1 hall first (by simp)
      exact ⟨(isLower_iff_isAlpha hpass).1 hfirst, hlast, hall⟩
    · rintro ⟨halpha, hlast, hall⟩
      have hpass : isLabelChar first = true := List.all_eq_true.1 hall first (by simp)
      exact ⟨⟨(isLower_iff_isAlpha hpass).2 halpha, hall⟩, hlast⟩

/-- The operations test the parts of a name at once. -/
theorem isValidAccountName_eq (name : Str) :
    Achain.isValidAccountName name = isValidAccountName name := by
  rw [Bool.eq_iff_iff, isValidAccountName_iff_splitOn, Achain.isValidAccountName]
  simp only [Bool.and_eq_true, decide_eq_true_eq, List.all_eq_true, isValidNamePart_iff]
  refine ⟨fun h => ⟨h.1.2, h.2⟩, fun h => ⟨⟨?_, h.1⟩, h.2⟩⟩
  rw [Nat.one_le_iff_ne_zero, Ne, List.length_eq_zero_iff]
  rintro rfl
  exact not_isLabel_nil (h.2 [] (by simp))

end ChainInterface

end Achain
