import Achain.Glua.Json
import Achain.Glua.Lutil

/-!
# Replacing in strings

`replace_all` takes with a match as many characters behind it as are before it. So it replaces as it is
meant to if each match is at the start of the string or at its end, and with a text that is no shorter
than the pattern only then. A backslash or a quote inside a string is escaped, and what is behind it is
cut.
-/

namespace Achain.Glua.Util

open Patterns

/-- Every occurrence of the pattern is at the start or at the end. -/
def OnlyAtEnds (from' str : Str) : Prop :=
  ∀ p ∈ occurrences from' 0 str, p = 0 ∨ p + from'.length = str.length

/-- A string with a backslash put before each backslash and each quote. -/
def escaped (str : Str) : Str :=
  str.flatMap fun c => if c = '\\' ∨ c = '"' then ['\\', c] else [c]

section Loop

variable {from' to' d x : Str} {i : Nat} (hne : from' ≠ [])

/-! ## A pass of the loop -/

theorem replaceLoop_none (h : firstMatch from' x = none) :
    replaceLoop from' to' hne (d ++ x) d.length = d ++ x := by
  have hfind : find (d ++ x) from' d.length = none := by
    rw [find, List.drop_left, h]
    exact ite_self none
  rw [replaceLoop]
  split
  · rfl
  · rename_i hpos
    rw [hfind] at hpos
    cases hpos

/-- What is before the end of the replacement stays as it is. -/
theorem replace_append (d x to' : Str) (i n : Nat) :
    replace (d ++ x) (d.length + i) (d.length + i + n) to' =
      (d ++ x.take i ++ to') ++ (x.drop (i + n)).drop (d.length + i) := by
  have hindex : d.length + i + (d.length + i + n) = d.length + (i + n + (d.length + i)) := by omega
  rw [replace, List.take_length_add_append, hindex, List.drop_length_add_append, List.drop_drop]

theorem replaceLoop_some (h : firstMatch from' x = some i) :
    replaceLoop from' to' hne (d ++ x) d.length =
      replaceLoop from' to' hne
        ((d ++ x.take i ++ to') ++ (x.drop (i + from'.length)).drop (d.length + i))
        (d ++ x.take i ++ to').length := by
  have hi := (of_firstMatch to' hne h).1
  have hfind : find (d ++ x) from' d.length = some (d.length + i) := by
    rw [find, List.drop_left, h, if_neg (by simp)]
    rfl
  have hstart : (d ++ x.take i ++ to').length = d.length + i + to'.length := by
    rw [List.length_append, List.length_append, List.length_take]
    omega
  rw [replaceLoop]
  split
  · rename_i hpos
    rw [hfind] at hpos
    cases hpos
  · rename_i pos hpos
    obtain rfl := Option.some.inj (hfind.symm.trans hpos)
    dsimp only
    rw [replace_append, hstart]

/-- The loop replaces each occurrence behind the start. -/
def Exact (to' d x : Str) : Prop :=
  replaceLoop from' to' hne (d ++ x) d.length = d ++ substitute from' to' x

theorem exact_none (h : firstMatch from' x = none) : Exact hne to' d x := by
  rw [Exact, replaceLoop_none hne h, (of_firstMatch_none to' h).2]

/-- A match at the end has nothing behind it to take. -/
theorem exact_end (h : firstMatch from' x = some i) (hend : i + from'.length = x.length) :
    Exact hne to' d x := by
  have hnil : x.drop (i + from'.length) = [] := List.drop_eq_nil_of_le hend.ge
  have hmatch : firstMatch from' [] = none := by rw [firstMatch, if_neg hne]
  rw [Exact, replaceLoop_some hne h, (of_firstMatch to' hne h).2.2, hnil, List.drop_nil,
    replaceLoop_none hne hmatch, substitute_nil]
  simp only [List.append_assoc]

/-- A match at the start takes itself. -/
theorem exact_start (h : firstMatch from' x = some 0) :
    Exact hne to' [] x ↔ Exact hne to' to' (x.drop from'.length) := by
  have hpass : replaceLoop from' to' hne ([] ++ x) ([] : Str).length = _ := replaceLoop_some hne h
  simp only [List.take_zero, List.append_nil, List.nil_append, List.length_nil, Nat.zero_add,
    List.drop_zero] at hpass
  rw [Exact, Exact, List.nil_append, List.length_nil, hpass, (of_firstMatch to' hne h).2.2, Nat.zero_add,
    List.take_zero]
  exact Iff.rfl

/-- A match that is neither has characters behind it that are taken with it. -/
theorem exact_or_shorter (ht : from'.length ≤ to'.length) (d x : Str) :
    Exact hne to' d x ∨ (replaceLoop from' to' hne (d ++ x) d.length).length <
      d.length + (substitute from' to' x).length := by
  induction hn : x.length using Nat.strong_induction_on generalizing d x with
  | _ n ih =>
    subst hn
    cases hm : firstMatch from' x with
    | none => exact .inl (exact_none hne hm)
    | some i =>
      obtain ⟨hle, -, hsubstitute⟩ := of_firstMatch to' hne hm
      have hpos : 0 < from'.length := List.length_pos_iff.2 hne
      obtain hend | hlt := hle.eq_or_lt
      · exact .inl (exact_end hne hm hend)
      have hshort : ((x.drop (i + from'.length)).drop (d.length + i)).length < x.length := by
        rw [List.length_drop, List.length_drop]
        omega
      have hrest := ih _ hshort (d ++ x.take i ++ to') _ rfl
      have hdrop := length_substitute_drop (l := x.drop (i + from'.length)) hne ht (d.length + i)
      have hlength : d.length + (substitute from' to' x).length = (d ++ x.take i ++ to').length +
          (substitute from' to' (x.drop (i + from'.length))).length := by
        rw [hsubstitute]
        simp only [List.length_append]
        omega
      rw [Exact, replaceLoop_some hne hm, hlength]
      rw [List.length_drop] at hdrop
      by_cases hzero : d.length + i = 0
      · rw [hzero, List.drop_zero] at hrest ⊢
        refine hrest.imp_left fun hexact => ?_
        rw [hexact, hsubstitute]
        simp only [List.append_assoc]
      · refine .inr ?_
        obtain hexact | hshorter := hrest
        · rw [hexact, List.length_append]
          omega
        · omega

theorem length_replaceLoop_le (ht : from'.length ≤ to'.length) (d x : Str) :
    (replaceLoop from' to' hne (d ++ x) d.length).length ≤
      d.length + (substitute from' to' x).length := by
  obtain hexact | hshorter := exact_or_shorter hne ht d x
  · rw [hexact, List.length_append]
  · exact hshorter.le

/-- A match that is not at the start must be at the end. -/
theorem end_of_exact (ht : from'.length ≤ to'.length) (hexact : Exact hne to' d x)
    (hm : firstMatch from' x = some i) (hpos : 0 < d.length + i) : i + from'.length = x.length := by
  by_contra hend
  obtain ⟨hle, -, hsubstitute⟩ := of_firstMatch to' hne hm
  have hrest := length_replaceLoop_le hne ht (d ++ x.take i ++ to')
    ((x.drop (i + from'.length)).drop (d.length + i))
  have hdrop := length_substitute_drop (l := x.drop (i + from'.length)) hne ht (d.length + i)
  rw [← replaceLoop_some hne hm, hexact, hsubstitute] at hrest
  simp only [List.length_append, List.length_drop] at hrest hdrop
  omega

end Loop

/-! ## A whole string -/

section Replace

variable {from' str : Str} {to' : Str} (hne : from' ≠ [])

include hne in
theorem onlyAtEnds_iff : OnlyAtEnds from' str ↔ ∀ i, firstMatch from' str = some i →
    i + from'.length = str.length ∨ i = 0 ∧ ∀ j,
      firstMatch from' (str.drop from'.length) = some j →
        j + from'.length = (str.drop from'.length).length := by
  have hpos : 0 < from'.length := List.length_pos_iff.2 hne
  rw [OnlyAtEnds]
  cases hm : firstMatch from' str with
  | none => simp [(of_firstMatch_none [] hm).1]
  | some i =>
    obtain ⟨hle, hoccurrences, -⟩ := of_firstMatch [] hne hm
    have hnone : firstMatch from' [] = none := by rw [firstMatch, if_neg hne]
    rw [hoccurrences, List.forall_mem_cons, Nat.zero_add]
    constructor
    · rintro ⟨hzero | hend, hrest⟩ _ ⟨⟩
      · subst hzero
        refine .inr ⟨rfl, fun j hj => ?_⟩
        rw [Nat.zero_add] at hrest
        have hj' := (of_firstMatch [] hne hj).2.1 from'.length
        have hlast := hrest (from'.length + j) (by rw [hj']; exact List.mem_cons_self)
        rw [List.length_drop]
        omega
      · exact .inl hend
    · intro h
      obtain hend | ⟨rfl, hrest⟩ := h i rfl
      · refine ⟨.inr hend, fun p hp => ?_⟩
        rw [List.drop_eq_nil_of_le hend.ge, occurrences_nil] at hp
        cases hp
      · refine ⟨.inl rfl, fun p hp => .inr ?_⟩
        rw [Nat.zero_add] at hp hle
        cases hj : firstMatch from' (str.drop from'.length) with
        | none =>
          rw [(of_firstMatch_none [] hj).1] at hp
          cases hp
        | some j =>
          have hend := hrest j hj
          rw [(of_firstMatch [] hne hj).2.1, List.drop_eq_nil_of_le hend.ge,
            occurrences_nil, List.mem_singleton] at hp
          rw [List.length_drop] at hend
          omega

theorem replaceAll_of_onlyAtEnds (h : OnlyAtEnds from' str) :
    replaceAll str from' to' hne = substitute from' to' str := by
  rw [onlyAtEnds_iff hne] at h
  show Exact hne to' [] str
  cases hm : firstMatch from' str with
  | none => exact exact_none hne hm
  | some i =>
    obtain hend | ⟨rfl, hrest⟩ := h i hm
    · exact exact_end hne hm hend
    · rw [exact_start hne hm]
      cases hj : firstMatch from' (str.drop from'.length) with
      | none => exact exact_none hne hj
      | some j => exact exact_end hne hj (hrest j hj)

/-- A text that is no shorter makes up for nothing that is cut. -/
theorem replaceAll_eq_iff (ht : from'.length ≤ to'.length) :
    replaceAll str from' to' hne = substitute from' to' str ↔ OnlyAtEnds from' str := by
  refine ⟨fun hexact => ?_, replaceAll_of_onlyAtEnds hne⟩
  rw [onlyAtEnds_iff hne]
  intro i hm
  have hstart : Exact hne to' [] str := hexact
  obtain rfl | hi := Nat.eq_zero_or_pos i
  · rw [exact_start hne hm] at hstart
    refine .inr ⟨rfl, fun j hj => end_of_exact hne ht hstart hj ?_⟩
    exact Nat.add_pos_left ((List.length_pos_iff.2 hne).trans_le ht) j
  · exact .inl (end_of_exact hne ht hstart hm (Nat.add_pos_right _ hi))

end Replace

/-! ## Characters -/

section Character

variable {c : Char} {target str : Str} {k p : Nat}

theorem singleton_prefix_iff {d : Char} : [c] <+: d :: str ↔ d = c := by
  rw [List.cons_prefix_cons, and_iff_left List.nil_prefix, eq_comm]

theorem substitute_singleton (c : Char) (target : Str) :
    ∀ str : Str, substitute [c] target str = str.flatMap fun d => if d = c then target else [d]
  | [] => substitute_nil
  | d :: str => by
    have ih := substitute_singleton c target str
    rw [substitute, List.flatMap_cons, List.length_singleton, Nat.sub_self,
      List.drop_zero, ih]
    by_cases hd : d = c
    · rw [if_pos (singleton_prefix_iff.2 hd), if_pos hd]
    · rw [if_neg (singleton_prefix_iff.not.2 hd), if_neg hd, List.singleton_append]

theorem mem_occurrences_singleton :
    p ∈ occurrences [c] k str ↔ ∃ i, p = k + i ∧ str[i]? = some c := by
  induction str generalizing k with
  | nil => simp
  | cons d str ih =>
    have htail : (∃ i, p = k + 1 + i ∧ str[i]? = some c) ↔
        ∃ i, p = k + (i + 1) ∧ (d :: str)[i + 1]? = some c := by
      simp only [List.getElem?_cons_succ, Nat.add_assoc, Nat.add_comm 1]
    have hcons : (∃ i, p = k + i ∧ (d :: str)[i]? = some c) ↔
        p = k ∧ d = c ∨ ∃ i, p = k + (i + 1) ∧ (d :: str)[i + 1]? = some c := by
      constructor
      · rintro ⟨_ | i, hp, hi⟩
        · exact .inl ⟨hp, by simpa using hi⟩
        · exact .inr ⟨i, hp, hi⟩
      · rintro (⟨hp, hd⟩ | ⟨i, hp, hi⟩)
        · exact ⟨0, hp, by simpa using hd⟩
        · exact ⟨i + 1, hp, hi⟩
    rw [occurrences, List.length_singleton, Nat.sub_self, List.drop_zero,
      hcons, ← htail, ← ih]
    by_cases hd : d = c
    · rw [if_pos (singleton_prefix_iff.2 hd), List.mem_cons]
      simp [hd]
    · rw [if_neg (singleton_prefix_iff.not.2 hd)]
      simp [hd]

theorem onlyAtEnds_singleton : OnlyAtEnds [c] str ↔ c ∉ str.tail.dropLast := by
  have hinner : c ∈ str.tail.dropLast ↔ ∃ i, i + 1 < str.length - 1 ∧ str[i + 1]? = some c := by
    simp only [List.mem_iff_getElem?, List.getElem?_dropLast, List.getElem?_tail, List.length_tail]
    refine exists_congr fun i => ?_
    by_cases hi : i < str.length - 1 - 1
    · simp only [if_pos hi, iff_and_self]
      omega
    · simp only [if_neg hi, reduceCtorEq, false_iff, not_and]
      omega
  rw [hinner, OnlyAtEnds]
  simp only [mem_occurrences_singleton, List.length_singleton, Nat.zero_add]
  constructor
  · rintro h ⟨i, hi, hc⟩
    obtain hzero | hlast := h (i + 1) ⟨i + 1, rfl, hc⟩ <;> omega
  · rintro h p ⟨i, rfl, hc⟩
    by_contra hp
    have hlt := (List.getElem?_eq_some_iff.1 hc).1
    refine h ⟨p - 1, by omega, ?_⟩
    rwa [Nat.sub_add_cancel (by omega)]

end Character

/-! ## Escaped strings -/

section Escape

variable {from' to' str : Str} {c : Char}

/-- The two passes together escape a string. -/
theorem substitute_quotes (str : Str) :
    substitute ['"'] ['\\', '"'] (substitute ['\\'] ['\\', '\\'] str) = escaped str := by
  rw [substitute_singleton, substitute_singleton, List.flatMap_assoc, escaped]
  refine List.flatMap_congr fun c _ => ?_
  by_cases hslash : c = '\\'
  · subst hslash
    rfl
  · by_cases hquote : c = '"'
    · subst hquote
      rfl
    · simp [hslash, hquote]

/-- The first pass puts no quote inside the string. -/
theorem quote_inside_iff : '"' ∈ (substitute ['\\'] ['\\', '\\'] str).tail.dropLast ↔
    '"' ∈ str.tail.dropLast := by
  have hends : ∀ d, (if d = '\\' then ['\\', '\\'] else [d]) = [d] ∨
      (if d = '\\' then ['\\', '\\'] else [d]) = ['\\', '\\'] := by
    intro d
    split_ifs
    · exact .inr rfl
    · exact .inl rfl
  have hmem : ∀ inner : Str,
      '"' ∈ (inner.flatMap fun d => if d = '\\' then ['\\', '\\'] else [d]) ↔ '"' ∈ inner := by
    intro inner
    rw [List.mem_flatMap]
    constructor
    · rintro ⟨d, hd, hquote⟩
      split_ifs at hquote
      · simp at hquote
      · rwa [List.mem_singleton.1 hquote]
    · exact fun h => ⟨'"', h, by simp⟩
  rw [substitute_singleton]
  obtain _ | ⟨c, str⟩ := str
  · rfl
  obtain rfl | ⟨inner, d, rfl⟩ := List.eq_nil_or_concat str
  · rw [List.flatMap_singleton]
    obtain h | h := hends c <;> simp [h]
  · have hlast : ∀ (front : Str) (d : Char),
        '"' ∈ ((front.flatMap fun d => if d = '\\' then ['\\', '\\'] else [d]) ++
          (if d = '\\' then ['\\', '\\'] else [d])).dropLast ↔ '"' ∈ front := by
      intro front d
      obtain h | h := hends d
      · rw [h, List.dropLast_concat, hmem]
      · rw [h, List.dropLast_append_of_ne_nil (List.cons_ne_nil _ _), List.mem_append, hmem]
        simp
    rw [List.concat_eq_append, List.flatMap_cons, List.flatMap_append, List.flatMap_singleton,
      List.tail_cons, List.dropLast_concat]
    obtain h | h := hends c
    · rw [h]
      exact hlast inner d
    · rw [h]
      show '"' ∈ (['\\'] ++ _).dropLast ↔ _
      rw [List.dropLast_append_of_ne_nil, List.mem_append, hlast inner d]
      · simp
      · obtain hd | hd := hends d <;> simp [hd]

theorem count_replaceLoop_le (hne : from' ≠ []) (hto : c ∉ to') (d x : Str) :
    (replaceLoop from' to' hne (d ++ x) d.length).count c ≤ d.count c + x.count c := by
  induction hn : x.length using Nat.strong_induction_on generalizing d x with
  | _ n ih =>
    subst hn
    cases hm : firstMatch from' x with
    | none => rw [replaceLoop_none hne hm, List.count_append]
    | some i =>
      have hpos : 0 < from'.length := List.length_pos_iff.2 hne
      have hle := (of_firstMatch to' hne hm).1
      have hshort : ((x.drop (i + from'.length)).drop (d.length + i)).length < x.length := by
        rw [List.length_drop, List.length_drop]
        omega
      have hrest := ih _ hshort (d ++ x.take i ++ to') _ rfl
      have hsub : ((x.drop (i + from'.length)).drop (d.length + i)).count c ≤ (x.drop i).count c := by
        rw [List.drop_drop]
        exact (List.drop_sublist_drop_left _ (by omega)).count_le c
      have hsplit : x.count c = (x.take i).count c + (x.drop i).count c := by
        rw [← List.count_append, List.take_append_drop]
      rw [replaceLoop_some hne hm]
      rw [List.count_append, List.count_append, List.count_eq_zero_of_not_mem hto] at hrest
      omega

theorem length_substitute_singleton (c d : Char) (str : Str) :
    (substitute [c] [d, c] str).length = str.length + str.count c := by
  rw [substitute_singleton]
  induction str with
  | nil => rfl
  | cons e str ih =>
    rw [List.flatMap_cons, List.length_append, ih, List.length_cons, List.count_cons]
    by_cases he : e = c
    · simp [he]
      omega
    · simp [he]
      omega

theorem count_quote_substitute (str : Str) :
    (substitute ['\\'] ['\\', '\\'] str).count '"' = str.count '"' := by
  rw [substitute_singleton]
  induction str with
  | nil => rfl
  | cons d str ih =>
    rw [List.flatMap_cons, List.count_append, ih, List.count_cons, Nat.add_comm]
    by_cases hd : d = '\\'
    · subst hd
      rfl
    · simp [hd, List.count_singleton]

/-- What the first pass cuts, the second does not make up for. -/
theorem escapeString_eq_iff : escapeString str = escaped str ↔
    ∀ c ∈ str.tail.dropLast, c ≠ '\\' ∧ c ≠ '"' := by
  have hslash : (['\\'] : Str) ≠ [] := List.cons_ne_nil _ _
  have hquote : (['"'] : Str) ≠ [] := List.cons_ne_nil _ _
  have hinside : (∀ c ∈ str.tail.dropLast, c ≠ '\\' ∧ c ≠ '"') ↔
      '\\' ∉ str.tail.dropLast ∧ '"' ∉ str.tail.dropLast := by
    constructor
    · exact fun h => ⟨fun hmem => (h _ hmem).1 rfl, fun hmem => (h _ hmem).2 rfl⟩
    · rintro ⟨hs, hq⟩ c hc
      exact ⟨fun heq => hs (heq ▸ hc), fun heq => hq (heq ▸ hc)⟩
  have hsecond : replaceAll (substitute ['\\'] ['\\', '\\'] str) ['"'] ['\\', '"'] hquote =
      escaped str ↔ '"' ∉ str.tail.dropLast := by
    rw [← substitute_quotes, replaceAll_eq_iff hquote (by decide), onlyAtEnds_singleton,
      quote_inside_iff]
  have hfirst : replaceAll str ['\\'] ['\\', '\\'] hslash =
      substitute ['\\'] ['\\', '\\'] str ↔ '\\' ∉ str.tail.dropLast := by
    rw [replaceAll_eq_iff hslash (by decide), onlyAtEnds_singleton]
  rw [hinside, ← hfirst, ← hsecond]
  show replaceAll (replaceAll str ['\\'] ['\\', '\\'] hslash) ['"'] ['\\', '"'] hquote = _ ↔ _
  refine ⟨fun h => ?_, fun h => by rw [h.1, h.2]⟩
  have hslashes : ['\\'].length ≤ ['\\', '\\'].length := by decide
  have hquotes : ['"'].length ≤ ['\\', '"'].length := by decide
  have hnoquote : '"' ∉ ['\\', '\\'] := by decide
  have hexact : replaceAll str ['\\'] ['\\', '\\'] hslash =
      substitute ['\\'] ['\\', '\\'] str := by
    refine (exact_or_shorter hslash hslashes [] str).resolve_right
      fun hshorter => ?_
    have hpass := length_replaceLoop_le hquote hquotes []
      (replaceAll str ['\\'] ['\\', '\\'] hslash)
    have hcount := count_replaceLoop_le hslash hnoquote [] str
    have hlength : (replaceLoop ['"'] ['\\', '"'] hquote
        ([] ++ replaceAll str ['\\'] ['\\', '\\'] hslash) ([] : Str).length).length =
        (substitute ['\\'] ['\\', '\\'] str).length + str.count '"' := by
      rw [← count_quote_substitute, ← length_substitute_singleton '"' '\\', substitute_quotes, ← h]
      rfl
    rw [hlength, length_substitute_singleton '"' '\\'] at hpass
    change (replaceAll str ['\\'] ['\\', '\\'] hslash).count '"' ≤ 0 + str.count '"' at hcount
    change (replaceAll str ['\\'] ['\\', '\\'] hslash).length < 0 + _ at hshorter
    rw [List.length_nil] at hpass
    omega
  exact ⟨hexact, by rw [← hexact, h]⟩

/-! ## The strings of a JSON text -/

theorem firstMatch_singleton (c : Char) (x : Str) : firstMatch [c] x =
    if x.length ≤ x.findIdx (· == c) then none else some (x.findIdx (· == c)) := by
  induction x with
  | nil => rfl
  | cons d x ih =>
    rw [firstMatch, ih, List.findIdx_cons, List.length_cons]
    by_cases hd : d = c
    · simp [hd]
    · rw [if_neg (singleton_prefix_iff.not.2 hd), beq_eq_false_iff_ne.2 hd]
      by_cases hlen : x.length ≤ x.findIdx (· == c) <;> simp [hlen]

/-- Each pass leaves fewer characters behind the cursor. -/
theorem replaceAllFrom_eq (c : Char) (target : Str) (n : Nat) (d x : Str) (h : x.length < n) :
    Glua.replaceAllFrom c target n d.length (d ++ x) =
      replaceLoop [c] target (List.cons_ne_nil _ _) (d ++ x) d.length := by
  induction n generalizing d x with
  | zero => exact absurd h (Nat.not_lt_zero _)
  | succ n ih =>
    have hfirst := firstMatch_singleton c x
    rw [Glua.replaceAllFrom, List.drop_left, List.length_append]
    by_cases hnone : x.length ≤ x.findIdx (· == c)
    · rw [if_pos hnone] at hfirst
      rw [if_pos (by omega), replaceLoop_none _ hfirst]
    · rw [if_neg hnone] at hfirst
      have hreplaced := replace_append d x target (x.findIdx (· == c)) 1
      rw [replace] at hreplaced
      have hstart : d.length + x.findIdx (· == c) + target.length =
          (d ++ x.take (x.findIdx (· == c)) ++ target).length := by
        rw [List.length_append, List.length_append, List.length_take]
        omega
      rw [if_neg (by omega), hreplaced, replaceLoop_some _ hfirst, hstart]
      refine ih _ _ ?_
      rw [List.length_drop, List.length_drop]
      omega

/-- The strings of a JSON text are escaped with `escape_string`. -/
theorem escapeString_eq (str : Str) : Glua.escapeString str = escapeString str := by
  have hreplace (s : Str) (c : Char) (target : Str) :
      Glua.replaceAll s c target = replaceAll s [c] target (List.cons_ne_nil _ _) :=
    replaceAllFrom_eq c target _ [] s (Nat.lt_succ_self _)
  rw [Glua.escapeString, hreplace, hreplace]
  rfl

/-- With a text shorter than the pattern two cuts may make up for each other, so only with one that is as
long does a cut always show. -/
theorem replace_all_escape_string (str from' to' : Str) (hne : from' ≠ []) :
    (OnlyAtEnds from' str → replaceAll str from' to' hne = substitute from' to' str) ∧
      (from'.length ≤ to'.length →
        (replaceAll str from' to' hne = substitute from' to' str ↔ OnlyAtEnds from' str)) ∧
      (escapeString str = escaped str ↔ ∀ c ∈ str.tail.dropLast, c ≠ '\\' ∧ c ≠ '"') :=
  ⟨replaceAll_of_onlyAtEnds hne, replaceAll_eq_iff hne, escapeString_eq_iff⟩

theorem replace_all_escape_string_path : escapeString ['\\', 'd', '"'] = escaped ['\\', 'd', '"'] := by
  refine (replace_all_escape_string ['\\', 'd', '"'] ['/'] ['-'] (List.cons_ne_nil _ _)).2.2.2 ?_
  intro c hc
  obtain rfl := List.mem_singleton.1 hc
  decide

/-- What is behind the quote is cut with it. -/
theorem escapeString_cuts : ¬ (∀ str : Str, escapeString str = escaped str) ∧
    ∃ (str from' to' : Str) (hne : from' ≠ []),
      replaceAll str from' to' hne ≠ substitute from' to' str := by
  have hinside : ¬ ∀ c ∈ (['a', '\\', 'b'] : Str).tail.dropLast, c ≠ '\\' ∧ c ≠ '"' :=
    fun h => (h '\\' (List.mem_singleton_self _)).1 rfl
  refine ⟨fun h => hinside (escapeString_eq_iff.1 (h ['a', '\\', 'b'])),
    ['a', '\\', 'b'], ['\\'], ['\\', '\\'], List.cons_ne_nil _ _, fun h => ?_⟩
  have hends := (replaceAll_eq_iff (List.cons_ne_nil _ _) (by decide)).1 h
  rw [onlyAtEnds_singleton] at hends
  exact hends (by decide)

end Escape

end Achain.Glua.Util
