import Achain.Proofs.StorageOrder
import Mathlib.Data.List.ReduceOption

/-!
# The types of the items of tables

A commit looks at the type of one item of a table: the loop that compares the others with it never
clears its flag for the first. What is committed of a table that a contract declared has items of
the declared type exactly if the others have it by themselves.
-/

namespace Achain.Glua

open Table

/-! ## What the conversion reads -/

/-- A table of this type is converted without reading a member of its items but that of `T`. -/
def StorageValueTypes.ReadsOnly (t T : StorageValueTypes) : Prop :=
  t.baseType = .null ∨ t.baseType = .stream ∨ t.baseType = T

instance instDecidableReadsOnly (t T : StorageValueTypes) : Decidable (t.ReadsOnly T) :=
  inferInstanceAs (Decidable (_ ∨ _))

namespace GluaStorageValue

/-- If the value is a table, its items are of one type and it is converted by reading them so. -/
def Holds (T : StorageValueTypes) (v : GluaStorageValue) : Prop :=
  v.type.isTable = true → ∀ e ∈ v.items, e.2.type = T ∧ v.type.ReadsOnly T

end GluaStorageValue

/-! ## One change -/

namespace GluaStorageChangeItem

section Left

variable (F : Platform) (init : Bool) (info : StorageValueTypes) (c : GluaStorageChangeItem)

/-- The numbers in the table after are converted to the declared type. -/
def parsed : GluaStorageChangeItem :=
  match c.after with
  | .table t items =>
    { c with after := .table t (items.map fun e => (e.1, e.2.tryParseType F info.baseType)) }
  | _ => c

def diffed : GluaStorageChangeItem := if c.after.type.isTable then c.diffIfIsTable F else c

/-- What the difference leaves of the tables, with the numbers converted where the commit looks at
the declared type: in the `init` of the contract, and else if there was a value before. -/
def left : GluaStorageChangeItem :=
  if init then (c.parsed F info).diffed F
  else if c.before.type ≠ .null then (c.diffed F).parsed F info
  else c.diffed F

/-- The one item whose type the commit looks at. -/
def vetted : Option (Str × GluaStorageValue) :=
  if init then (c.parsed F info).after.items.head?
  else if c.before.type ≠ .null then (c.left F false info).after.items.head?
  else none

/-- The type the items after are read by: that of the table before unless it was empty. -/
def readAs : StorageValueTypes :=
  if c.before.type.isTable ∧ c.before.items ≠ [] then c.before.type else c.after.type

/-- The items that the commit does not look at are of the declared type. -/
structure Sound : Prop where
  before : c.before.type.isTable = true → ∀ e ∈ (c.left F init info).before.items,
    e.2.type = info.itemType ∧ c.before.type.ReadsOnly info.itemType
  after : c.after.type.isTable = true → ∀ e ∈ (c.left F init info).after.items,
    (c.vetted F init info ≠ some e → e.2.type = info.itemType) ∧ c.readAs.ReadsOnly info.itemType

end Left

variable {F : Platform} {init : Bool} {info : StorageValueTypes} {key : Str}
  {c c' : GluaStorageChangeItem} {properties : List (Str × StorageValueTypes)}

theorem parsed_before : (c.parsed F info).before = c.before := by
  unfold parsed
  split <;> rfl

theorem parsed_type : (c.parsed F info).after.type = c.after.type := by
  unfold parsed
  split
  · rename_i t items h
    rw [h]
    rfl
  · rfl

theorem diffIfIsTable_types : (c.diffIfIsTable F).before.type = c.before.type ∧
    (c.diffIfIsTable F).after.type = c.after.type := by
  unfold diffIfIsTable
  split
  · rename_i t items t' items' h h'
    rw [h, h']
    exact ⟨rfl, rfl⟩
  · exact ⟨rfl, rfl⟩

theorem diffIfIsTable_of_not_table (h : ¬ ∃ t items, c.before = .table t items) :
    c.diffIfIsTable F = c := by
  unfold diffIfIsTable
  split
  · rename_i t items _ _ hbefore _
    exact absurd ⟨t, items, hbefore⟩ h
  · rfl

theorem diffed_types : (c.diffed F).before.type = c.before.type ∧
    (c.diffed F).after.type = c.after.type := by
  unfold diffed
  split_ifs
  · exact diffIfIsTable_types
  · exact ⟨rfl, rfl⟩

theorem left_types : (c.left F init info).before.type = c.before.type ∧
    (c.left F init info).after.type = c.after.type := by
  unfold left
  split_ifs
  · rw [diffed_types.1, diffed_types.2, parsed_before, parsed_type]
    exact ⟨rfl, rfl⟩
  · rw [parsed_before, parsed_type]
    exact diffed_types
  · exact diffed_types

/-! ### The checks -/

theorem readsOnly_unknown {t T : StorageValueTypes} (h : t = .unknownTable ∨ t = .unknownArray) :
    t.ReadsOnly T := by
  obtain rfl | rfl := h <;> exact .inl rfl

theorem readsOnly_itemType (h : info.itemType ≠ .null) : info.ReadsOnly info.itemType := by
  cases info <;> first | exact absurd rfl h | exact .inr (.inr rfl)

/-- The check against the declared type converts the items and looks at the first. -/
theorem matchType_ok (h : c.matchType F info key = .ok c') :
    c'.before = c.before ∧ c'.after.items = (c.parsed F info).after.items ∧
      c'.after.type.isTable = c.after.type.isTable ∧
      (∀ e, (c.parsed F info).after.items.head? = some e → e.2.type = info.itemType) ∧
      (info.itemType ≠ .null → c.after.type.isTable = true →
        (c'.after.type.ReadsOnly info.itemType ↔ c.after.type.ReadsOnly info.itemType)) := by
  unfold matchType at h
  unfold parsed
  cases hafter : c.after with
  | table t items =>
    rw [hafter] at h
    dsimp only at h ⊢
    simp only [Result.if_error_eq_ok, Bool.not_eq_true', Bool.not_eq_false] at h
    obtain ⟨htable, hhead, h⟩ := h
    obtain rfl := Except.ok.inj h
    have hfirst : ∀ e, (items.map fun e => (e.1, e.2.tryParseType F info.baseType)).head? = some e →
        e.2.type = info.itemType := by
      intro e he
      rw [he] at hhead
      simpa using hhead
    by_cases hunknown : t = .unknownTable ∨ t = .unknownArray
    · rw [if_pos hunknown]
      have ht : t.isTable = true := by obtain rfl | rfl := hunknown <;> rfl
      exact ⟨rfl, rfl, htable.trans ht.symm, hfirst, fun hnull _ =>
        iff_of_true (readsOnly_itemType hnull) (readsOnly_unknown hunknown)⟩
    · rw [if_neg hunknown]
      exact ⟨rfl, rfl, rfl, hfirst, fun _ _ => Iff.rfl⟩
  | number x =>
    rw [hafter] at h
    obtain rfl := Except.ok.inj h
    split_ifs <;> simp [hafter, GluaStorageValue.items, GluaStorageValue.type, StorageValueTypes.isTable,
      StorageValueTypes.isAnyTable, StorageValueTypes.isAnyArray]
  | int x =>
    rw [hafter] at h
    obtain rfl := Except.ok.inj h
    split_ifs <;> simp [hafter, GluaStorageValue.items, GluaStorageValue.type, StorageValueTypes.isTable,
      StorageValueTypes.isAnyTable, StorageValueTypes.isAnyArray]
  | _ =>
    rw [hafter] at h
    obtain rfl := Except.ok.inj h
    simp [hafter, GluaStorageValue.items]

/-! ### Changes that differ in the type of the table after -/

/-- The change is the same but for the type of the value after. -/
structure Alike (c d : GluaStorageChangeItem) : Prop where
  before : d.before = c.before
  items : d.after.items = c.after.items
  isTable : d.after.type.isTable = c.after.type.isTable

theorem Alike.refl (c : GluaStorageChangeItem) : Alike c c := ⟨rfl, rfl, rfl⟩

theorem Alike.trans {d e : GluaStorageChangeItem} (h : Alike c d) (h' : Alike d e) : Alike c e :=
  ⟨h'.before.trans h.before, h'.items.trans h.items, h'.isTable.trans h.isTable⟩

theorem exists_table {v : GluaStorageValue} (h : v.type.isTable = true) :
    ∃ t items, v = .table t items := by
  cases v with
  | table t items => exact ⟨t, items, rfl⟩
  | _ => cases h

theorem parsed_items :
    (c.parsed F info).after.items =
      c.after.items.map fun e => (e.1, e.2.tryParseType F info.baseType) := by
  unfold parsed
  cases hafter : c.after with
  | table t items => rfl
  | _ =>
    dsimp only
    rw [hafter]
    rfl

theorem Alike.parsed {d : GluaStorageChangeItem} (h : Alike c d) :
    Alike (c.parsed F info) (d.parsed F info) := by
  refine ⟨?_, ?_, ?_⟩
  · rw [parsed_before, parsed_before, h.before]
  · rw [parsed_items, parsed_items, h.items]
  · rw [parsed_type, parsed_type, h.isTable]

theorem Alike.diffed {d : GluaStorageChangeItem} (h : Alike c d) :
    Alike (c.diffed F) (d.diffed F) := by
  unfold GluaStorageChangeItem.diffed
  rw [h.isTable]
  split_ifs with htable
  · obtain ⟨t, items, hc⟩ := exists_table htable
    obtain ⟨t', items', hd⟩ := exists_table (h.isTable.trans htable)
    have hitems : items' = items := by
      have heq := h.items
      rw [hc, hd] at heq
      exact heq
    by_cases hbefore : ∃ u before, c.before = .table u before
    · obtain ⟨u, before, hbefore⟩ := hbefore
      refine ⟨?_, ?_, by rw [diffIfIsTable_types.2, diffIfIsTable_types.2, h.isTable]⟩
      · simp only [diffIfIsTable, h.before, hbefore, hc, hd, hitems]
      · simp only [diffIfIsTable, h.before, hbefore, hc, hd, hitems]
        rfl
    · rw [diffIfIsTable_of_not_table hbefore, diffIfIsTable_of_not_table (h.before ▸ hbefore)]
      exact h
  · exact h

theorem keepTableType_alike (h : c.after.type.isTable = true) : Alike c c.keepTableType := by
  obtain ⟨t, items, hc⟩ := exists_table h
  unfold keepTableType
  split_ifs with harray htable
  · refine ⟨rfl, by rw [hc]; rfl, ?_⟩
    have hbefore : c.before.type.isTable = true := by
      rw [StorageValueTypes.isTable, harray.1, Bool.or_true]
    rw [h, hc]
    exact hbefore
  · refine ⟨rfl, by rw [hc]; rfl, ?_⟩
    rw [h, hc]
    exact htable.1
  · exact .refl c

/-- With items, the table after is of the type it is read by. -/
theorem keepTableType_type (h : c.after.type.isTable = true) (hitems : c.after.items ≠ []) :
    c.keepTableType.after.type = c.readAs := by
  obtain ⟨t, items, hc⟩ := exists_table h
  unfold keepTableType readAs
  rw [if_neg fun hempty => hitems hempty.2]
  split_ifs
  · rw [hc]
    rfl
  · rfl

theorem diffed_items_ne_nil (h : (c.diffed F).after.items ≠ []) : c.after.items ≠ [] := by
  intro hnil
  apply h
  unfold diffed
  split_ifs
  · unfold diffIfIsTable
    split
    · rename_i t items t' items' hbefore hafter
      have hitems : items' = [] := by rwa [hafter] at hnil
      rw [hitems]
      rfl
    · exact hnil
  · exact hnil

theorem matchType_alike (h : c.matchType F info key = .ok c') : Alike (c.parsed F info) c' := by
  obtain ⟨hbefore, hitems, htable, -⟩ := matchType_ok h
  exact ⟨hbefore.trans parsed_before.symm, hitems, by rw [parsed_type, htable]⟩

/-! ### One entry of a commit -/

/-- The flag for the first item is never cleared, and so no item is compared with another. -/
theorem checkItemTypes_true : ∀ (t : StorageValueTypes) (items : List (Str × GluaStorageValue)),
    checkItemTypes true t items = true
  | _, [] => rfl
  | _, e :: items => checkItemTypes_true e.2.type items

theorem unchanged_tables (h : c.unchanged F = true)
    (htable : c.before.type.isTable = true ∨ c.after.type.isTable = true) :
    c.before.items = [] ∧ c.after.items = [] := by
  have hboth : ∃ t items t' items', c.before = .table t items ∧ c.after = .table t' items' := by
    unfold unchanged at h
    obtain htable | htable := htable
    · obtain ⟨t, items, hbefore⟩ := exists_table htable
      cases hafter : c.after with
      | table t' items' => exact ⟨t, items, t', items', hbefore, rfl⟩
      | _ =>
        rw [hbefore, hafter] at h
        cases h
    · obtain ⟨t', items', hafter⟩ := exists_table htable
      cases hbefore : c.before with
      | table t items => exact ⟨t, items, t', items', rfl, hafter⟩
      | _ =>
        rw [hbefore, hafter] at h
        cases h
  obtain ⟨t, items, t', items', hbefore, hafter⟩ := hboth
  simp only [unchanged, hbefore, hafter, Bool.and_eq_true, List.isEmpty_iff] at h
  rw [hbefore, hafter]
  exact ⟨h.1.2, h.2⟩

/-- The tables are diffed, and the change is matched with the declared type where the commit looks
at it; it is left out if nothing is left of it. -/
theorem commitEntry_ok {r : Option GluaStorageChangeItem} (hinfo : properties.lookup key = some info)
    (h : c.commitEntry F init properties key = .ok r) :
    ∃ c₁ c₂, Alike (c.diffed F) c₁ ∧
      (c.after.type.isTable = true → c₁.after.items ≠ [] → c₁.after.type = c.readAs) ∧
      (if init = false ∧ c.before.type ≠ .null then matchType F info key c₁ else .ok c₁) = .ok c₂ ∧
      r = if c₂.unchanged F then none else some c₂ := by
  have halike : Alike (c.diffed F)
      (if c.after.type.isTable then c.keepTableType.diffIfIsTable F else c) := by
    by_cases htable : c.after.type.isTable = true
    · have hkeep := (keepTableType_alike htable).diffed (F := F)
      unfold diffed at hkeep ⊢
      rw [(keepTableType_alike htable).isTable] at hkeep
      simpa only [if_pos htable] using hkeep
    · unfold diffed
      simpa only [if_neg htable] using Alike.refl c
  have htype : c.after.type.isTable = true →
      (if c.after.type.isTable then c.keepTableType.diffIfIsTable F else c).after.items ≠ [] →
      (if c.after.type.isTable then c.keepTableType.diffIfIsTable F else c).after.type = c.readAs := by
    intro htable hitems
    rw [halike.items] at hitems
    rw [if_pos htable, diffIfIsTable_types.2]
    exact keepTableType_type htable (diffed_items_ne_nil hitems)
  have hbefore := congrArg GluaStorageValue.type halike.before
  rw [diffed_types.1] at hbefore
  unfold commitEntry at h
  rw [hinfo] at h
  dsimp only at h
  generalize (if c.after.type.isTable then c.keepTableType.diffIfIsTable F else c) = c₁ at *
  simp only [checkItemTypes_true, Bool.not_true, Bool.false_eq_true, and_false, if_false,
    Bool.not_eq_true', hbefore] at h
  by_cases hcond : init = false ∧ c.before.type ≠ .null
  · rw [if_pos hcond, Result.bind_eq_ok] at h
    obtain ⟨c₂, hmatch, h⟩ := h
    exact ⟨c₁, c₂, halike, htype, by rwa [if_pos hcond], (Except.ok.inj h).symm⟩
  · rw [if_neg hcond] at h
    exact ⟨c₁, c₁, halike, htype, by rw [if_neg hcond], (Except.ok.inj h).symm⟩

/-- What becomes of a change of a contract: nothing if it changes nothing. -/
def Entry (F : Platform) (init : Bool) (properties : List (Str × StorageValueTypes)) (key : Str)
    (c : GluaStorageChangeItem) (r : Option GluaStorageChangeItem) : Prop :=
  ∃ c₀, (if init then c.initEntry F properties key else .ok c) = .ok c₀ ∧
    c₀.commitEntry F init properties key = .ok r

/-- Of a change of a declared storage the commit keeps what is left of the tables, after a look at
the type of one item. -/
theorem Entry.left {r : Option GluaStorageChangeItem} (hinfo : properties.lookup key = some info)
    (h : Entry F init properties key c r) :
    ∃ c', Alike (c.left F init info) c' ∧ (r = if c'.unchanged F then none else some c') ∧
      (∀ e, c.vetted F init info = some e → e.2.type = info.itemType) ∧
      (info.itemType ≠ .null → c.after.type.isTable = true → c'.after.items ≠ [] →
        (c'.after.type.ReadsOnly info.itemType ↔ c.readAs.ReadsOnly info.itemType)) := by
  obtain ⟨c₀, hinit, h⟩ := h
  obtain ⟨c₁, c₂, halike, htype, hmatch, hr⟩ := commitEntry_ok hinfo h
  refine ⟨c₂, ?_⟩
  cases init with
  | true =>
    rw [if_pos rfl, initEntry, hinfo] at hinit
    have hparsed := matchType_alike hinit
    obtain ⟨hbefore, -, htable₀, hhead, hreads⟩ := matchType_ok hinit
    rw [if_neg (fun hinit => nomatch hinit.1)] at hmatch
    obtain rfl := Except.ok.inj hmatch
    refine ⟨?_, hr, hhead, fun hnull htable hitems => ?_⟩
    · exact hparsed.diffed.trans halike
    · rw [htype (htable₀.trans htable) hitems]
      unfold readAs
      rw [hbefore]
      split_ifs
      · exact Iff.rfl
      · exact hreads hnull htable
  | false =>
    obtain rfl := Except.ok.inj hinit
    by_cases hnone : c.before.type = .null
    · rw [if_neg (fun hcond => hcond.2 hnone)] at hmatch
      obtain rfl := Except.ok.inj hmatch
      refine ⟨?_, hr, fun e he => ?_, fun _ htable hitems => by rw [htype htable hitems]⟩
      · rw [left, if_neg Bool.false_ne_true, if_neg (not_not.2 hnone)]
        exact halike
      · rw [vetted, if_neg Bool.false_ne_true, if_neg (not_not.2 hnone)] at he
        cases he
    · rw [if_pos ⟨rfl, hnone⟩] at hmatch
      have hleft : c.left F false info = (c.diffed F).parsed F info := by
        rw [left, if_neg Bool.false_ne_true, if_pos hnone]
      have hparsed : Alike ((c.diffed F).parsed F info) (c₁.parsed F info) := halike.parsed
      obtain ⟨-, hitems₂, -, hhead, hreads⟩ := matchType_ok hmatch
      refine ⟨?_, hr, fun e he => ?_, fun hnull htable hitems => ?_⟩
      · rw [hleft]
        exact hparsed.trans (matchType_alike hmatch)
      · rw [vetted, if_neg Bool.false_ne_true, if_pos hnone, hleft, ← hparsed.items] at he
        exact hhead e he
      · have htable₁ : c₁.after.type.isTable = true := by
          rw [halike.isTable, diffed_types.2, htable]
        have hitems₁ : c₁.after.items ≠ [] := by
          rw [hitems₂, parsed_items] at hitems
          exact fun hnil => hitems (by rw [hnil]; rfl)
        rw [hreads hnull htable₁, htype htable hitems₁]

/-- What is kept of a change has items of the declared type exactly if those that the commit does
not look at have it. -/
theorem Entry.holds_iff {r : Option GluaStorageChangeItem} (hinfo : properties.lookup key = some info)
    (hnull : info.itemType ≠ .null) (h : Entry F init properties key c r) :
    (∀ c', r = some c' → c'.before.Holds info.itemType ∧ c'.after.Holds info.itemType) ↔
      c.Sound F init info := by
  obtain ⟨c₂, halike, hr, hvetted, hreads⟩ := h.left hinfo
  have hbefore : c₂.before.type = c.before.type := by rw [halike.before, left_types.1]
  have hafter : c₂.after.type.isTable = c.after.type.isTable := by
    rw [halike.isTable, left_types.2]
  by_cases hunchanged : c₂.unchanged F = true
  · rw [if_pos hunchanged] at hr
    refine iff_of_true (fun c' hc' => ?_) ⟨fun htable e he => ?_, fun htable e he => ?_⟩
    · cases hr.symm.trans hc'
    · have hnil := (unchanged_tables hunchanged (.inl (hbefore ▸ htable))).1
      rw [halike.before] at hnil
      exact absurd (hnil ▸ he) List.not_mem_nil
    · have hnil := (unchanged_tables hunchanged (.inr (hafter.trans htable))).2
      rw [halike.items] at hnil
      exact absurd (hnil ▸ he) List.not_mem_nil
  · rw [if_neg hunchanged] at hr
    subst hr
    constructor
    · intro hholds
      obtain ⟨hb, ha⟩ := hholds c₂ rfl
      refine ⟨fun htable e he => ?_, fun htable e he => ?_⟩
      · rw [← hbefore]
        exact hb (hbefore ▸ htable) e (halike.before ▸ he)
      · have hmem : e ∈ c₂.after.items := halike.items ▸ he
        obtain ⟨ht, hread⟩ := ha (hafter.trans htable) e hmem
        exact ⟨fun _ => ht, (hreads hnull htable (List.ne_nil_of_mem hmem)).1 hread⟩
    · rintro hsound c' hc'
      obtain rfl := Option.some.inj hc'
      refine ⟨fun htable e he => ?_, fun htable e he => ?_⟩
      · rw [hbefore]
        exact hsound.before (hbefore ▸ htable) e (halike.before ▸ he)
      · rw [hafter] at htable
        obtain ⟨ht, hread⟩ := hsound.after htable e (halike.items ▸ he)
        refine ⟨?_, (hreads hnull htable (List.ne_nil_of_mem he)).2 hread⟩
        by_cases hv : c.vetted F init info = some e
        · exact hvetted e hv
        · exact ht hv

end GluaStorageChangeItem

/-! ## The changes of a commit -/

section Commit

variable {F : Platform} {o : HashOrder} {s : CommitState} {e : ContractIdType × ContractChangesMap}
  {r : ContractIdType × List (Str × GluaStorageChangeItem)}
  {properties : List (Str × StorageValueTypes)}

/-- The storages of the contract are set in its `init`. -/
def CommitState.inInit (s : CommitState) (id : ContractIdType) : Bool :=
  s.callingContractInitApi && id == s.startingContractAddress

theorem exists_mem_of_mapM {ε α β : Type} {f : α → Except ε β} {l : List α} {ys : List β}
    (h : l.mapM f = .ok ys) :
    (∀ x ∈ l, ∃ y ∈ ys, f x = .ok y) ∧ ∀ y ∈ ys, ∃ x ∈ l, f x = .ok y := by
  have hall := forall₂_of_mapM h
  clear h
  induction hall with
  | nil => exact ⟨nofun, nofun⟩
  | @cons x y l ys hxy _ ih =>
    refine ⟨fun x' hx' => ?_, fun y' hy' => ?_⟩
    · obtain rfl | hx' := List.mem_cons.1 hx'
      · exact ⟨y, List.mem_cons_self .., hxy⟩
      · obtain ⟨y', hy', hfy⟩ := ih.1 x' hx'
        exact ⟨y', List.mem_cons_of_mem _ hy', hfy⟩
    · obtain rfl | hy' := List.mem_cons.1 hy'
      · exact ⟨x, List.mem_cons_self .., hxy⟩
      · obtain ⟨x', hx', hfx⟩ := ih.2 y' hy'
        exact ⟨x', List.mem_cons_of_mem _ hx', hfx⟩

theorem map_eq_ok {ε α β : Type} {f : α → β} {x : Except ε α} {y : β} :
    x.map f = .ok y ↔ ∃ a, x = .ok a ∧ f a = y := by
  cases x <;> simp [Except.map]

theorem initEntries_mem {init : Bool} {items l : List (Str × GluaStorageChangeItem)}
    (h : CommitState.initEntries F init properties items = .ok l) :
    (∀ c ∈ items, ∃ c₀, (c.1, c₀) ∈ l ∧
        (if init then c.2.initEntry F properties c.1 else .ok c.2) = .ok c₀) ∧
      ∀ c₀ ∈ l, ∃ c ∈ items, c.1 = c₀.1 ∧
        (if init then c.2.initEntry F properties c.1 else .ok c.2) = .ok c₀.2 := by
  cases init with
  | true =>
    rw [CommitState.initEntries, if_pos rfl, Result.if_error_eq_ok] at h
    obtain ⟨hall, hback⟩ := exists_mem_of_mapM h.2
    refine ⟨fun c hc => ?_, fun c₀ hc₀ => ?_⟩
    · obtain ⟨y, hy, hcy⟩ := hall c hc
      obtain ⟨c₀, hc₀, rfl⟩ := map_eq_ok.1 hcy
      exact ⟨c₀, hy, hc₀⟩
    · obtain ⟨c, hc, hcy⟩ := hback c₀ hc₀
      obtain ⟨c₁, hc₁, rfl⟩ := map_eq_ok.1 hcy
      exact ⟨c, hc, rfl, hc₁⟩
  | false =>
    obtain rfl := Except.ok.inj h
    exact ⟨fun c hc => ⟨c.2, hc, rfl⟩, fun c hc => ⟨c, hc, rfl, rfl⟩⟩

/-- What a contract's changes become, one by one. -/
theorem commitContract_entries (hopen : s.openContract e.1 = some properties)
    (h : s.commitContract F o e = .ok r) :
    (∀ c ∈ mapItems e.2, ∃ r', c.2.Entry F (s.inInit e.1) properties c.1 r' ∧
        ∀ c', r' = some c' → (c.1, c') ∈ r.2) ∧
      ∀ c' ∈ r.2, ∃ c ∈ mapItems e.2, c.1 = c'.1 ∧
        c.2.Entry F (s.inInit e.1) properties c.1 (some c'.2) := by
  obtain ⟨properties', items, kept, hopen', hitems, hkept, rfl⟩ := commitContract_eq_ok.1 h
  obtain rfl := Option.some.inj (hopen.symm.trans hopen')
  obtain ⟨hinit, hinit'⟩ := initEntries_mem hitems
  obtain ⟨hcommit, hcommit'⟩ := exists_mem_of_mapM hkept
  have hmem (c : Str × GluaStorageChangeItem) : c ∈ o.order (mapItems e.2) ↔ c ∈ mapItems e.2 :=
    (o.perm _).mem_iff
  refine ⟨fun c hc => ?_, fun c' hc' => ?_⟩
  · obtain ⟨c₀, hc₀, hstart⟩ := hinit c ((hmem c).2 hc)
    obtain ⟨y, hy, hcy⟩ := hcommit _ hc₀
    obtain ⟨r', hr', rfl⟩ := map_eq_ok.1 hcy
    refine ⟨r', ⟨c₀, hstart, hr'⟩, ?_⟩
    rintro c' rfl
    exact List.reduceOption_mem_iff.2 hy
  · obtain ⟨c₀, hc₀, hcy⟩ := hcommit' _ (List.reduceOption_mem_iff.1 hc')
    obtain ⟨r', hr', hmap⟩ := map_eq_ok.1 hcy
    obtain ⟨c₁, rfl, hc₁⟩ := Option.map_eq_some_iff.1 hmap
    obtain ⟨c, hc, hkey, hstart⟩ := hinit' c₀ hc₀
    subst hc₁
    exact ⟨c, (hmem c).1 hc, hkey, c₀.2, hstart, by rw [hkey]; exact hr'⟩

/-- The changes that the operations of a commit are made of. -/
def CommitState.emitted (F : Platform) (o : HashOrder) (s : CommitState) :
    List (ContractIdType × List (Str × GluaStorageChangeItem)) :=
  (o.order (mapItems (s.changes F))).filterMap fun e => (s.commitContract F o e).toOption

theorem mem_emitted : r ∈ s.emitted F o ↔
    ∃ e ∈ mapItems (s.changes F), s.commitContract F o e = .ok r := by
  rw [CommitState.emitted, List.mem_filterMap]
  refine exists_congr fun e => and_congr ((o.perm _).mem_iff) ?_
  cases s.commitContract F o e <;> simp [Except.toOption]

theorem resultTrx_emitted (h : s.Commits F) (o : HashOrder) (trx : SignedTransaction) :
    (s.resultTrx F o trx).operations = trx.operations ++
      (s.emitted F o).map fun r => .storage (CommitState.storageOperation F r) := by
  rw [resultTrx_of_commits h]
  dsimp only
  congr 1
  rw [CommitState.emitted, List.map_filterMap]
  rw [← List.filterMap_eq_map]
  refine List.filterMap_congr fun e he => ?_
  obtain ⟨r, hr⟩ := h.passes e ((o.perm _).mem_iff.1 he)
  obtain ⟨r', hr', hid, hperm⟩ := commitContract_perm o hr
  have hoperation : contractOperation F s e = CommitState.storageOperation F r' := by
    rw [contractOperation, hr]
    exact (storageOperation_perm hr hid hperm).symm
  rw [hr']
  simp [Except.toOption, hoperation]

/-- In the operations of a commit, every table of a storage that its contract declared with a type of
items has items of that type, and is converted by reading them so. -/
def CommitState.WellTyped (F : Platform) (o : HashOrder) (s : CommitState) : Prop :=
  ∀ r ∈ s.emitted F o, ∀ properties, s.openContract r.1 = some properties → ∀ c ∈ r.2, ∀ info,
    properties.lookup c.1 = some info → info.itemType ≠ .null →
      c.2.before.Holds info.itemType ∧ c.2.after.Holds info.itemType

/-- A commit is well typed exactly if in every change of a storage declared with a type of items the
items that it does not look at are of that type. -/
theorem wellTyped_iff (F : Platform) (o : HashOrder) (s : CommitState) (trx : SignedTransaction)
    (h : s.Commits F) :
    (s.resultTrx F o trx).operations = trx.operations ++
        (s.emitted F o).map (fun r => .storage (CommitState.storageOperation F r)) ∧
      (s.WellTyped F o ↔ ∀ e ∈ mapItems (s.changes F), ∀ properties,
        s.openContract e.1 = some properties → ∀ c ∈ mapItems e.2, ∀ info,
          properties.lookup c.1 = some info → info.itemType ≠ .null →
            c.2.Sound F (s.inInit e.1) info) := by
  refine ⟨resultTrx_emitted h o trx, ?_⟩
  constructor
  · intro htyped e he properties hopen c hc info hinfo hnull
    obtain ⟨r, hr⟩ := h.passes e he
    obtain ⟨r', hr', -⟩ := commitContract_perm o hr
    obtain ⟨change, hentry, hmem⟩ := (commitContract_entries hopen hr').1 c hc
    refine (hentry.holds_iff hinfo hnull).1 fun c' hc' => ?_
    have hid := (commitContract_keys hr').1
    exact htyped r' (mem_emitted.2 ⟨e, he, hr'⟩) properties (by rw [hid]; exact hopen) _
      (hmem c' hc') info hinfo hnull
  · intro hsound r hr properties hopen c' hc' info hinfo hnull
    obtain ⟨e, he, hcommit⟩ := mem_emitted.1 hr
    rw [(commitContract_keys hcommit).1] at hopen
    obtain ⟨c, hc, hkey, hentry⟩ := (commitContract_entries hopen hcommit).2 c' hc'
    rw [hkey] at hentry
    refine (hentry.holds_iff hinfo hnull).2 (hsound e he properties hopen c hc info ?_ hnull) c'.2 rfl
    rw [hkey]
    exact hinfo

end Commit

/-! ## A table changed in place -/

/-- A run that reads its table of ints, in which there is one, and puts two values in it. -/
def CommitState.inPlace (second : GluaStorageValue) : CommitState where
  hasException := false
  changeList := [⟨1, ['t'], .table .intTable [(['1'], .int 1)], .table .intTable [(['1'], .int 1)]⟩]
  tableReadList := [(⟨1, ['t'], .table .intTable [(['1'], .int 1)], .null⟩,
    some (.table .unknownArray [(['1'], .int 2), (['2'], second)]))]
  callingContractInitApi := false
  startingContractAddress := 1
  openContract _ := some [(['t'], .intTable)]
  inSandbox := false
  hasEvaluateState := true

/-- What is committed of it. -/
def inPlaceChange (second : GluaStorageValue) : GluaStorageChangeItem where
  contractId := 1
  key := ['t']
  before := .table .intTable [(['1'], .int 1)]
  after := .table .intTable [(['1'], .int 2), (['2'], second)]

theorem inPlace_commits {second : GluaStorageValue} (h : second = .int 3 ∨ second = .string ['x']) :
    (CommitState.inPlace second).Commits .plain where
  noException := rfl
  someInit := by obtain rfl | rfl := h <;> rfl
  passes e he := by
    obtain rfl | rfl := h <;>
      exact ⟨_, by obtain rfl := List.mem_singleton.1 he; rfl⟩
  notSandbox := rfl
  evaluating := rfl

theorem inPlace_emitted {second : GluaStorageValue}
    (h : second = .int 3 ∨ second = .string ['x']) :
    (CommitState.inPlace second).emitted .plain .id = [(1, [(['t'], inPlaceChange second)])] := by
  obtain rfl | rfl := h <;> rfl

/-- With a second int, the commit is well typed, and what it does not look at is of the type. -/
theorem inPlace_int_sound :
    (CommitState.inPlace (.int 3)).WellTyped .plain .id ∧
      ∀ e ∈ mapItems ((CommitState.inPlace (.int 3)).changes .plain), ∀ properties,
        (CommitState.inPlace (.int 3)).openContract e.1 = some properties → ∀ c ∈ mapItems e.2,
          ∀ info, properties.lookup c.1 = some info → info.itemType ≠ .null →
            c.2.Sound .plain ((CommitState.inPlace (.int 3)).inInit e.1) info := by
  have htyped : (CommitState.inPlace (.int 3)).WellTyped .plain .id := by
    intro r hr properties hopen c hc info hinfo _
    rw [inPlace_emitted (.inl rfl), List.mem_singleton] at hr
    subst hr
    obtain rfl := List.mem_singleton.1 hc
    obtain rfl := Option.some.inj hopen
    obtain rfl : StorageValueTypes.intTable = info := Option.some.inj hinfo
    refine ⟨fun _ e he => ?_, fun _ e he => ?_⟩
    · obtain rfl := List.mem_singleton.1 he
      exact ⟨rfl, .inr (.inr rfl)⟩
    · obtain rfl | rfl := List.mem_pair.1 he <;> exact ⟨rfl, .inr (.inr rfl)⟩
  refine ⟨htyped, ?_⟩
  exact (wellTyped_iff .plain .id (CommitState.inPlace (.int 3)) .empty
    (inPlace_commits (.inl rfl))).2.1 htyped

/-- A machine where the pointer to a string is another number. -/
def Platform.moved : Platform := { Platform.plain with rawInt := fun _ => 1 }

/-- The second item of the table that a transaction commits. -/
def secondItem (trx : SignedTransaction) : Option Int64 :=
  match trx.operations with
  | [.storage op] =>
    match op.contractChangeStorages.lookup ['t'] with
    | some ⟨_, .intTable m⟩ => m.lookup ['2']
    | _ => none
  | _ => none

/-- With a string in the second place the commit passes and puts it in the table of ints, as the
number that its address is. -/
theorem string_in_table_of_ints :
    (CommitState.inPlace (.string ['x'])).Commits .plain ∧
      ¬ (CommitState.inPlace (.string ['x'])).WellTyped .plain .id ∧
      (CommitState.inPlace (.string ['x'])).resultTrx .plain .id .empty ≠
        (CommitState.inPlace (.string ['x'])).resultTrx .moved .id .empty := by
  refine ⟨inPlace_commits (.inr rfl), fun h => ?_, fun h => ?_⟩
  · have hholds := (h (1, [(['t'], inPlaceChange (.string ['x']))])
      (by rw [inPlace_emitted (.inr rfl)]; exact List.mem_singleton.2 rfl) [(['t'], .intTable)] rfl
      (['t'], inPlaceChange (.string ['x'])) (List.mem_singleton.2 rfl) .intTable rfl nofun).2
    have htype := (hholds rfl (['2'], .string ['x']) (by simp [inPlaceChange, GluaStorageValue.items])).1
    cases htype
  · exact absurd (congrArg secondItem h) (by decide +kernel)

end Achain.Glua
