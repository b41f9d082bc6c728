import Achain.Glua.Storage

/-!
# The order of the storage operations

What a run changed in one contract is committed in one operation, whatever the order of the changes.
The operations of several contracts come in the order in which an unordered map is iterated.
-/

namespace Achain.Glua

open Table

/-! ## Lists of checks -/

section Checks

variable {ε α β : Type} {f : α → Except ε β} {l l' : List α} {ys : List β}

theorem mapM_cons_eq_ok {x : α} : (x :: l).mapM f = .ok ys ↔
    ∃ y ys', f x = .ok y ∧ l.mapM f = .ok ys' ∧ ys = y :: ys' := by
  rw [List.mapM_cons]
  cases hx : f x with
  | error e => simp [bind, Except.bind]
  | ok y =>
    cases hl : l.mapM f with
    | error e => simp [bind, Except.bind]
    | ok ys' => simp [bind, Except.bind, pure, Except.pure, eq_comm]

theorem forall₂_of_mapM : ∀ {l : List α} {ys : List β}, l.mapM f = .ok ys →
    List.Forall₂ (fun x y => f x = .ok y) l ys
  | [], ys, h => by
    cases h
    exact .nil
  | x :: l, ys, h => by
    obtain ⟨y, ys', hx, hl, rfl⟩ := mapM_cons_eq_ok.1 h
    exact .cons hx (forall₂_of_mapM hl)

/-- Rearranged, the same checks pass. -/
theorem mapM_perm (hperm : l.Perm l') : ∀ {ys : List β}, l.mapM f = .ok ys →
    ∃ ys', l'.mapM f = .ok ys' ∧ ys.Perm ys' := by
  induction hperm with
  | nil => exact fun h => ⟨_, h, .refl _⟩
  | cons x _ ih =>
    intro ys h
    obtain ⟨y, ys₁, hx, hl, rfl⟩ := mapM_cons_eq_ok.1 h
    obtain ⟨ys₂, hl', hys⟩ := ih hl
    exact ⟨y :: ys₂, mapM_cons_eq_ok.2 ⟨y, ys₂, hx, hl', rfl⟩, hys.cons y⟩
  | swap x x' l =>
    intro ys h
    obtain ⟨y', ys₁, hx', hrest, rfl⟩ := mapM_cons_eq_ok.1 h
    obtain ⟨y, ys₂, hx, hl, rfl⟩ := mapM_cons_eq_ok.1 hrest
    exact ⟨y :: y' :: ys₂,
      mapM_cons_eq_ok.2 ⟨y, y' :: ys₂, hx, mapM_cons_eq_ok.2 ⟨y', ys₂, hx', hl, rfl⟩, rfl⟩,
      .swap y y' ys₂⟩
  | trans _ _ ih₁ ih₂ =>
    intro ys h
    obtain ⟨ys₁, h₁, hys₁⟩ := ih₁ h
    obtain ⟨ys₂, h₂, hys₂⟩ := ih₂ h₁
    exact ⟨ys₂, h₂, hys₁.trans hys₂⟩

theorem mapM_ok {g : α → β} : ∀ {l : List α}, (∀ x ∈ l, f x = .ok (g x)) →
    l.mapM f = .ok (l.map g)
  | [], _ => rfl
  | x :: _, h => mapM_cons_eq_ok.2 ⟨g x, _, h x List.mem_cons_self,
    mapM_ok fun y hy => h y (List.mem_cons_of_mem x hy), rfl⟩

theorem ok_of_mapM (h : l.mapM f = .ok ys) {x : α} (hx : x ∈ l) : ∃ y, f x = .ok y := by
  have hall := forall₂_of_mapM h
  clear h
  induction hall with
  | nil => cases hx
  | cons hfirst _ ih =>
    rcases List.mem_cons.1 hx with rfl | hx
    · exact ⟨_, hfirst⟩
    · exact ih hx

end Checks

/-! ## The changes of one contract -/

theorem strLe_total : ∀ s t : Str,
    GluaStorageValue.strLe s t = true ∨ GluaStorageValue.strLe t s = true
  | [], _ => .inl rfl
  | _ :: _, [] => .inr rfl
  | x :: s, y :: t => by
    simp only [GluaStorageValue.strLe, Bool.or_eq_true, Bool.and_eq_true, decide_eq_true_eq,
      beq_iff_eq]
    rcases lt_trichotomy x.toNat y.toNat with hlt | heq | hgt
    · exact .inl (.inl hlt)
    · have hxy := Char.toNat_inj.1 heq
      exact (strLe_total s t).imp (fun h => .inr ⟨hxy, h⟩) fun h => .inr ⟨hxy.symm, h⟩
    · exact .inr (.inl hgt)

theorem strLe_trans : ∀ {s t u : Str}, GluaStorageValue.strLe s t = true →
    GluaStorageValue.strLe t u = true → GluaStorageValue.strLe s u = true
  | [], _, _, _, _ => rfl
  | _ :: _, [], _, h, _ => nomatch h
  | _ :: _, _ :: _, [], _, h => nomatch h
  | x :: s, y :: t, z :: u, h, h' => by
    simp only [GluaStorageValue.strLe, Bool.or_eq_true, Bool.and_eq_true, decide_eq_true_eq,
      beq_iff_eq] at h h' ⊢
    rcases h with hlt | ⟨rfl, h⟩
    · rcases h' with hlt' | ⟨rfl, -⟩
      · exact .inl (hlt.trans hlt')
      · exact .inl hlt
    · exact h'.imp id fun h' => ⟨h'.1, strLe_trans h h'.2⟩

theorem strLe_antisymm : ∀ {s t : Str}, GluaStorageValue.strLe s t = true →
    GluaStorageValue.strLe t s = true → s = t
  | [], [], _, _ => rfl
  | [], _ :: _, _, h => nomatch h
  | _ :: _, [], h, _ => nomatch h
  | x :: s, y :: t, h, h' => by
    simp only [GluaStorageValue.strLe, Bool.or_eq_true, Bool.and_eq_true, decide_eq_true_eq,
      beq_iff_eq] at h h'
    rcases h with hlt | ⟨rfl, h⟩
    · rcases h' with hlt' | ⟨rfl, -⟩
      · exact absurd hlt' (lt_asymm hlt)
      · exact absurd hlt (lt_irrefl _)
    · rcases h' with hlt | ⟨-, h'⟩
      · exact absurd hlt (lt_irrefl _)
      · rw [strLe_antisymm h h']

/-- Filled in another order, a `std::map` is the same. -/
theorem stdMap_perm {V : Type} {l l' : List (Str × V)} (hperm : l.Perm l')
    (hnodup : (l.map Prod.fst).Nodup) :
    GluaStorageValue.stdMap l = GluaStorageValue.stdMap l' := by
  let le : Str × V → Str × V → Prop := fun a b => GluaStorageValue.strLe a.1 b.1 = true
  have : Std.Total le := ⟨fun a b => strLe_total a.1 b.1⟩
  have : IsTrans _ le := ⟨fun a b c => strLe_trans⟩
  have heq : l.insertionSort le = l'.insertionSort le := by
    refine List.Perm.eq_of_pairwise (fun a b ha hb hab hba => ?_) (List.pairwise_insertionSort le l)
      (List.pairwise_insertionSort le l')
      ((List.perm_insertionSort _ l).trans (hperm.trans (List.perm_insertionSort _ l').symm))
    have ha := (List.mem_insertionSort _).1 ha
    have hb := hperm.mem_iff.2 ((List.mem_insertionSort _).1 hb)
    exact List.inj_on_of_nodup_map hnodup ha hb (strLe_antisymm hab hba)
  unfold GluaStorageValue.stdMap
  exact congrArg (fun entries => (entries.map fun e => (⟨e.1, e.2⟩ : Sigma fun _ => V)).toAList) heq

variable {F : Platform} {s : CommitState} {o o' : HashOrder}
  {e : ContractIdType × ContractChangesMap}
  {r : ContractIdType × List (Str × GluaStorageChangeItem)}

theorem keys_mapItems (m : ContractChangesMap) : ((mapItems m).map Prod.fst).Nodup := by
  have hkeys : (mapItems m).map Prod.fst = m.keys := by
    rw [mapItems, List.map_map]
    rfl
  rw [hkeys]
  exact m.nodupKeys

section Entries

variable {init : Bool} {properties : List (Str × StorageValueTypes)}
  {items items' : List (Str × GluaStorageChangeItem)}

theorem initEntries_perm (hperm : items.Perm items') {l : List (Str × GluaStorageChangeItem)}
    (h : CommitState.initEntries F init properties items = .ok l) :
    ∃ l', CommitState.initEntries F init properties items' = .ok l' ∧ l.Perm l' := by
  unfold CommitState.initEntries at h ⊢
  rw [← hperm.length_eq]
  split_ifs at h ⊢
  · exact mapM_perm hperm h
  · cases h
    exact ⟨items', rfl, hperm⟩

/-- A check of a value that keeps its key. -/
theorem map_fst_eq {f : Str × GluaStorageChangeItem → Except CommitError GluaStorageChangeItem}
    {l : List (Str × GluaStorageChangeItem)}
    (h : items.mapM (fun c => (f c).map (c.1, ·)) = .ok l) : l.map Prod.fst = items.map Prod.fst := by
  have hall := forall₂_of_mapM h
  clear h
  induction hall with
  | nil => rfl
  | @cons c y _ _ hfirst _ ih =>
    cases hc : f c with
    | error e =>
      rw [hc] at hfirst
      cases hfirst
    | ok v =>
      rw [hc] at hfirst
      cases hfirst
      rw [List.map_cons, List.map_cons, ih]

theorem initEntries_keys {l : List (Str × GluaStorageChangeItem)}
    (h : CommitState.initEntries F init properties items = .ok l) :
    l.map Prod.fst = items.map Prod.fst := by
  unfold CommitState.initEntries at h
  split_ifs at h
  · exact map_fst_eq h
  · cases h
    rfl

theorem commitEntries_keys {l : List (Option (Str × GluaStorageChangeItem))}
    (h : CommitState.commitEntries F init properties items = .ok l) :
    (l.reduceOption.map Prod.fst).Sublist (items.map Prod.fst) := by
  have hall := forall₂_of_mapM h
  clear h
  induction hall with
  | nil => exact .slnil
  | @cons c y _ _ hfirst _ ih =>
    cases hc : c.2.commitEntry F init properties c.1 with
    | error e =>
      rw [hc] at hfirst
      cases hfirst
    | ok v =>
      rw [hc] at hfirst
      cases hfirst
      cases v with
      | none => exact ih.cons _
      | some v => exact ih.cons_cons _

end Entries

/-- What it takes for the changes of a contract to pass. -/
theorem commitContract_eq_ok : s.commitContract F o e = .ok r ↔
    ∃ properties items kept, s.openContract e.1 = some properties ∧
      CommitState.initEntries F (s.callingContractInitApi && e.1 == s.startingContractAddress)
        properties (o.order (mapItems e.2)) = .ok items ∧
      CommitState.commitEntries F (s.callingContractInitApi && e.1 == s.startingContractAddress)
        properties items = .ok kept ∧ r = (e.1, kept.reduceOption) := by
  unfold CommitState.commitContract
  cases hopen : s.openContract e.1 with
  | none => simp
  | some properties =>
    simp only [Result.bind_eq_ok, Result.pure_eq_ok, Option.some_inj]
    constructor
    · rintro ⟨items, hitems, kept, hkept, rfl⟩
      exact ⟨properties, items, kept, rfl, hitems, hkept, rfl⟩
    · rintro ⟨_, items, kept, rfl, hitems, hkept, rfl⟩
      exact ⟨items, hitems, kept, hkept, rfl⟩

/-- The checks of the changes of a contract keep them apart by their keys. -/
theorem commitContract_keys (h : s.commitContract F o e = .ok r) :
    r.1 = e.1 ∧ (r.2.map Prod.fst).Nodup := by
  obtain ⟨properties, items, kept, -, hitems, hkept, rfl⟩ := commitContract_eq_ok.1 h
  refine ⟨rfl, (commitEntries_keys hkept).nodup ?_⟩
  rw [initEntries_keys hitems]
  exact ((o.perm _).map _).nodup_iff.2 (keys_mapItems e.2)

/-- The changes of a contract are the same in every order of its keys. -/
theorem commitContract_perm (o' : HashOrder) (h : s.commitContract F o e = .ok r) :
    ∃ r', s.commitContract F o' e = .ok r' ∧ r'.1 = r.1 ∧ r.2.Perm r'.2 := by
  obtain ⟨properties, items, kept, hopen, hitems, hkept, rfl⟩ := commitContract_eq_ok.1 h
  obtain ⟨items', hitems', hperm⟩ :=
    initEntries_perm ((o.perm _).trans (o'.perm (mapItems e.2)).symm) hitems
  obtain ⟨kept', hkept', hperm'⟩ := mapM_perm hperm hkept
  exact ⟨_, commitContract_eq_ok.2 ⟨properties, items', kept', hopen, hitems', hkept', rfl⟩, rfl,
    hperm'.filterMap id⟩

theorem storageOperation_perm (h : s.commitContract F o e = .ok r)
    {r' : ContractIdType × List (Str × GluaStorageChangeItem)} (hid : r'.1 = r.1)
    (hperm : r.2.Perm r'.2) :
    CommitState.storageOperation F r' = CommitState.storageOperation F r := by
  have hnodup := (commitContract_keys h).2
  rw [CommitState.storageOperation, CommitState.storageOperation, hid,
    stdMap_perm (hperm.map _) (by rwa [List.map_map])]

/-! ## The changes of several contracts -/

variable {changes : AllContractsChangesMap} {trx : SignedTransaction}

theorem mem_mergeChange {c : GluaStorageChangeItem} {id : ContractIdType} :
    id ∈ CommitState.mergeChange changes c ↔ id = c.contractId ∨ id ∈ changes :=
  AList.mem_insert _

/-- The contracts with changes are those of the changes that are merged. -/
theorem mem_foldl_mergeChange {id : ContractIdType} :
    ∀ {l : List GluaStorageChangeItem} {changes : AllContractsChangesMap},
      id ∈ l.foldl CommitState.mergeChange changes ↔ id ∈ changes ∨ ∃ c ∈ l, c.contractId = id
  | [], _ => by simp
  | c :: l, changes => by
    rw [List.foldl_cons, mem_foldl_mergeChange, mem_mergeChange]
    simp only [List.mem_cons, exists_eq_or_imp, eq_comm (a := id)]
    tauto

theorem mem_changes {id : ContractIdType} :
    id ∈ s.changes F ↔ ∃ c ∈ s.changeItems F, c.contractId = id := by
  rw [CommitState.changes, mem_foldl_mergeChange]
  exact or_iff_right (AList.notMem_empty id)

/-- The operation for a contract. -/
def contractOperation (F : Platform) (s : CommitState) (e : ContractIdType × ContractChangesMap) :
    StorageOperation :=
  match s.commitContract F .id e with
  | .ok r => CommitState.storageOperation F r
  | .error _ => ⟨e.1, ∅⟩

theorem contractOperation_id (F : Platform) (s : CommitState)
    (e : ContractIdType × ContractChangesMap) : (contractOperation F s e).contractId = e.1 := by
  unfold contractOperation
  split
  · rename_i r h
    exact (commitContract_keys h).1
  · rfl

/-- Nothing keeps the changes of a run from being committed. -/
structure CommitState.Commits (F : Platform) (s : CommitState) : Prop where
  noException : s.hasException = false
  someInit : s.nothingInit F = false
  passes : ∀ e ∈ mapItems (s.changes F), ∃ r, s.commitContract F .id e = .ok r
  notSandbox : s.inSandbox = false
  evaluating : s.hasEvaluateState = true

theorem foldl_pushOp {α : Type} {op : α → Achain.Operation} : ∀ {l : List α} {trx : SignedTransaction},
    l.foldl (fun t e => t.pushOp (op e)) trx =
      { trx with operations := trx.operations ++ l.map op }
  | [], trx => by
    rw [List.foldl_nil, List.map_nil, List.append_nil]
    cases trx
    rfl
  | e :: l, trx => by
    rw [List.foldl_cons, foldl_pushOp]
    simp [SignedTransaction.pushOp]

/-- The operations of a commit, in the order of the contracts. -/
theorem resultTrx_of_commits (h : s.Commits F) (o : HashOrder) :
    s.resultTrx F o trx = { trx with operations := trx.operations ++
      (o.order (mapItems (s.changes F))).map fun e => .storage (contractOperation F s e) } := by
  have hmem : ∀ e ∈ o.order (mapItems (s.changes F)), ∃ r, s.commitContract F o e = .ok r ∧
      CommitState.storageOperation F r = contractOperation F s e := by
    intro e he
    obtain ⟨r, hr⟩ := h.passes e ((o.perm _).mem_iff.1 he)
    obtain ⟨r', hr', hid, hperm⟩ := commitContract_perm o hr
    refine ⟨r', hr', ?_⟩
    rw [contractOperation, hr]
    exact storageOperation_perm hr hid hperm
  choose! kept hkept hoperation using hmem
  have hcommit : s.commitStorageChanges F o trx =
      .ok (s.commitStorageChangesToThinkyoung F ((o.order (mapItems (s.changes F))).map kept) trx) := by
    rw [CommitState.commitStorageChanges, h.noException, h.someInit, mapM_ok hkept, h.notSandbox]
    rfl
  have hmap : ((o.order (mapItems (s.changes F))).map kept).map
      (fun r => Achain.Operation.storage (CommitState.storageOperation F r)) =
      (o.order (mapItems (s.changes F))).map fun e => .storage (contractOperation F s e) := by
    rw [List.map_map]
    exact List.map_congr_left fun e he => congrArg Achain.Operation.storage (hoperation e he)
  rw [CommitState.resultTrx, hcommit, CommitState.commitStorageChangesToThinkyoung, h.evaluating]
  dsimp only
  rw [if_pos rfl, foldl_pushOp, hmap]

/-- A commit that does not take place leaves the result as it is. -/
theorem resultTrx_of_not_commits (h : ¬ s.Commits F) (o : HashOrder) : s.resultTrx F o trx = trx := by
  unfold CommitState.resultTrx CommitState.commitStorageChanges
  by_cases hexception : s.hasException = true
  · rw [if_pos hexception]
  rw [if_neg hexception]
  by_cases hinit : s.nothingInit F = true
  · rw [if_pos hinit]
  rw [if_neg hinit]
  cases hmap : (o.order (mapItems (s.changes F))).mapM (s.commitContract F o) with
  | error e => rfl
  | ok kept =>
    have hpasses : ∀ e ∈ mapItems (s.changes F), ∃ r, s.commitContract F .id e = .ok r := by
      intro e he
      obtain ⟨r, hr⟩ := ok_of_mapM hmap ((o.perm _).mem_iff.2 he)
      obtain ⟨r', hr', -⟩ := commitContract_perm .id hr
      exact ⟨r', hr'⟩
    by_cases hsandbox : s.inSandbox = true
    · rw [hsandbox]
      rfl
    have hstate : s.hasEvaluateState = false := by
      by_contra hevaluating
      exact h ⟨by simpa using hexception, by simpa using hinit, hpasses, by simpa using hsandbox,
        by simpa using hevaluating⟩
    rw [Bool.not_eq_true] at hsandbox
    rw [hsandbox]
    simp [bind, Except.bind, pure, Except.pure, CommitState.commitStorageChangesToThinkyoung, hstate]

/-- Another order: that of the last entry first. -/
def reversed : HashOrder := ⟨List.reverse, List.reverse_perm⟩

theorem mapItems_fst (changes : AllContractsChangesMap) :
    (mapItems changes).map Prod.fst = changes.keys := by
  rw [mapItems, List.map_map]
  rfl

/-- A list without repetitions that is its own reverse has no two entries. -/
theorem eq_of_eq_reverse {α : Type} {l : List α} (hnodup : l.Nodup) (hreverse : l = l.reverse) {x y : α}
    (hx : x ∈ l) (hy : y ∈ l) : x = y := by
  cases l with
  | nil => cases hx
  | cons a l =>
    rcases List.eq_nil_or_concat l with rfl | ⟨l, b, rfl⟩
    · rw [List.mem_singleton.1 hx, List.mem_singleton.1 hy]
    · have hfirst := congrArg List.head? hreverse
      simp only [List.concat_eq_append, List.reverse_cons, List.reverse_append, List.reverse_nil,
        List.nil_append, List.cons_append, List.head?_cons, Option.some_inj] at hfirst
      subst hfirst
      simp at hnodup

theorem mem_keys_of_item {c : GluaStorageChangeItem} (hc : c ∈ s.changeItems F) :
    c.contractId ∈ (mapItems (s.changes F)).map Prod.fst := by
  rw [mapItems_fst]
  exact AList.mem_keys.1 (mem_changes.2 ⟨c, hc, rfl⟩)

/-- With changes of one contract, there is one order of the contracts. -/
theorem order_of_one_contract
    (hone : ∀ c ∈ s.changeItems F, ∀ c' ∈ s.changeItems F, c.contractId = c'.contractId)
    (o : HashOrder) : o.order (mapItems (s.changes F)) = mapItems (s.changes F) := by
  have hperm := o.perm (mapItems (s.changes F))
  have hkeys := mapItems_fst (s.changes F)
  match hitems : mapItems (s.changes F) with
  | [] =>
    rw [hitems] at hperm
    exact hperm.eq_nil
  | [e] =>
    rw [hitems] at hperm
    exact List.perm_singleton.1 hperm
  | e :: e' :: l =>
    rw [hitems] at hkeys
    have hnodup : ((e :: e' :: l).map Prod.fst).Nodup := by
      rw [hkeys]
      exact (s.changes F).nodupKeys
    have hmem : ∀ x ∈ (e :: e' :: l).map Prod.fst, ∃ c ∈ s.changeItems F, c.contractId = x := by
      intro x hx
      rw [hkeys] at hx
      exact mem_changes.1 (AList.mem_keys.2 hx)
    obtain ⟨c, hc, hid⟩ := hmem e.1 (by simp)
    obtain ⟨c', hc', hid'⟩ := hmem e'.1 (by simp)
    have heq : e.1 = e'.1 := by rw [← hid, ← hid', hone c hc c' hc']
    simp [heq] at hnodup

/-- The contract of an operation of a commit. -/
def operationContract : Achain.Operation → Option ContractIdType
  | .storage op => some op.contractId
  | _ => none

theorem map_operationContract (F : Platform) (s : CommitState)
    (l : List (ContractIdType × ContractChangesMap)) :
    (l.map fun e => Achain.Operation.storage (contractOperation F s e)).map operationContract =
      (l.map Prod.fst).map some := by
  rw [List.map_map, List.map_map]
  exact List.map_congr_left fun e _ => congrArg some (contractOperation_id F s e)

/-- From the last contract to the first, a commit is the same only with changes of one contract. -/
theorem one_contract_of_reversed (h : s.Commits F)
    (hsame : s.resultTrx F .id trx = s.resultTrx F reversed trx) :
    ∀ c ∈ s.changeItems F, ∀ c' ∈ s.changeItems F, c.contractId = c'.contractId := by
  intro c hc c' hc'
  rw [resultTrx_of_commits h, resultTrx_of_commits h] at hsame
  have hoperations := List.append_cancel_left (congrArg (·.operations) hsame)
  have hids := congrArg (List.map operationContract) hoperations
  rw [map_operationContract, map_operationContract] at hids
  have hreverse := List.map_injective_iff.2 (Option.some_injective _) hids
  have hnodup : ((mapItems (s.changes F)).map Prod.fst).Nodup := by
    rw [mapItems_fst]
    exact (s.changes F).nodupKeys
  refine eq_of_eq_reverse hnodup ?_ (mem_keys_of_item hc) (mem_keys_of_item hc')
  rw [← List.map_reverse]
  exact hreverse

/-- The result of a run does not depend on the order of iteration of the changes exactly when nothing
is committed or all changes are of one contract. -/
theorem result_of_any_order (F : Platform) (s : CommitState) (trx : SignedTransaction) :
    (∀ o o' : HashOrder, s.resultTrx F o trx = s.resultTrx F o' trx) ↔
      ¬ s.Commits F ∨ ∀ c ∈ s.changeItems F, ∀ c' ∈ s.changeItems F, c.contractId = c'.contractId := by
  by_cases hcommits : s.Commits F
  · rw [or_iff_right (not_not.2 hcommits)]
    constructor
    · exact fun hsame => one_contract_of_reversed hcommits (hsame .id reversed)
    · intro hone o o'
      rw [resultTrx_of_commits hcommits, resultTrx_of_commits hcommits, order_of_one_contract hone,
        order_of_one_contract hone]
  · rw [iff_true_right (.inl hcommits)]
    intro o o'
    rw [resultTrx_of_not_commits hcommits, resultTrx_of_not_commits hcommits]

/-! ## Two contracts -/

/-- A machine that compares the bits of numbers. -/
def Platform.plain : Platform where
  ofInt x := x.toUInt64
  toInt x := x.toInt64
  equal x y := x == y
  close x y := x == y
  rawInt _ := 0
  rawNumber _ := 0
  rawBool _ := false
  rawString _ := []
  sameNull _ _ := true

/-- A run that sets a storage in each of two contracts. -/
def CommitState.twoContracts : CommitState where
  hasException := false
  changeList := [⟨1, ['a'], .null, .int 5⟩, ⟨2, ['a'], .null, .int 6⟩]
  tableReadList := []
  callingContractInitApi := false
  startingContractAddress := 1
  openContract _ := some [(['a'], .int)]
  inSandbox := false
  hasEvaluateState := true

theorem twoContracts_commits : CommitState.twoContracts.Commits .plain where
  noException := rfl
  someInit := rfl
  passes e he := by
    have hitems : mapItems (CommitState.twoContracts.changes .plain) =
        [(2, AList.insert ['a'] ⟨2, ['a'], .null, .int 6⟩ ∅),
          (1, AList.insert ['a'] ⟨1, ['a'], .null, .int 5⟩ ∅)] := rfl
    rw [hitems] at he
    rcases List.mem_pair.1 he with rfl | rfl
    · exact ⟨_, rfl⟩
    · exact ⟨_, rfl⟩
  notSandbox := rfl
  evaluating := rfl

/-- The operations of two contracts come in either order. -/
theorem two_contracts_in_two_orders :
    ¬ ∀ o o' : HashOrder, CommitState.twoContracts.resultTrx .plain o .empty =
      CommitState.twoContracts.resultTrx .plain o' .empty := by
  intro hsame
  have hone := one_contract_of_reversed twoContracts_commits (hsame .id reversed)
  have heq : (1 : Nat) = 2 := hone ⟨1, ['a'], .null, .int 5⟩ (by simp [CommitState.changeItems,
    CommitState.twoContracts]) ⟨2, ['a'], .null, .int 6⟩ (by simp [CommitState.changeItems,
    CommitState.twoContracts])
  cases heq

end Achain.Glua
