import Achain.Proofs.AssetLimits

/-!
# The names of contracts

`ContractEntry::store` maps a valid name to its contract, and nothing erases it from the name map
again. So a name resolves to the contract that has it as long as the names only grow: an upgrade
gives a contract without a name a valid one that no other contract has, and no undo takes a name
away. `OnUpgradeOperation` checks neither, and the undo of an upgrade leaves the name in the map.
-/

namespace Achain

open Table Result Stateful

/-! ## Names -/

/-- The name of each contract that is stored. -/
abbrev ContractNames := ContractIdType → Option Str

variable {v v₁ v' : ContractNames} {ops ops' : List Operation} {id id' : ContractIdType} {n : Str}

/-- What an operation does to the names. -/
def NamesStep (op : Operation) (v v' : ContractNames) : Prop :=
  match op with
  | .contractInfo op => v op.contractId = none ∧ v' = Function.update v op.contractId (some [])
  | .onUpgrade op => v' = Function.update v op.id (some op.name)
  | _ => v' = v

/-- An upgrade gives a contract that has no name a valid one that no other contract has, or the name
it has. -/
def OnUpgradeOperation.Named (op : OnUpgradeOperation) (v : ContractNames) : Prop :=
  isValidContractName op.name = true ∧ (v op.id = some [] ∨ v op.id = some op.name) ∧
    ∀ id, v id = some op.name → id = op.id

def Operation.Named (op : Operation) (v : ContractNames) : Prop :=
  match op with
  | .onUpgrade op => op.Named v
  | _ => True

/-- The names through a list of operations. -/
inductive NamesRun : List Operation → ContractNames → ContractNames → Prop
  | nil (v : ContractNames) : NamesRun [] v v
  | cons {op : Operation} {ops : List Operation} {v v₁ v' : ContractNames} :
      NamesStep op v v₁ → NamesRun ops v₁ v' → NamesRun (op :: ops) v v'

/-- Every upgrade gives a name that is in order for the names it finds. -/
def NamedInOrder : List Operation → ContractNames → Prop
  | [], _ => True
  | op :: ops, v => op.Named v ∧ ∀ v', NamesStep op v v' → NamedInOrder ops v'

/-- Names that are not empty are valid, and no two contracts share one. -/
structure NamesDistinct (v : ContractNames) : Prop where
  valid : ∀ {id n}, v id = some n → n ≠ [] → isValidContractName n = true
  unique : ∀ {id id' n}, v id = some n → v id' = some n → n ≠ [] → id = id'

/-- A contract that has a name keeps it. -/
def NamesKept (v v' : ContractNames) : Prop := ∀ id n, v id = some n → n ≠ [] → v' id = some n

theorem NamesKept.refl (v : ContractNames) : NamesKept v v := fun _ _ h _ => h

theorem NamesKept.trans (h : NamesKept v v₁) (h' : NamesKept v₁ v') : NamesKept v v' :=
  fun id n hid hn => h' id n (h id n hid hn) hn

theorem ne_nil_of_valid (h : isValidContractName n = true) : n ≠ [] := by
  rintro rfl
  cases h

/-- A new contract has no name. -/
theorem NamesDistinct.register (h : NamesDistinct v) (hid : v id = none) :
    NamesDistinct (Function.update v id (some [])) ∧
      NamesKept v (Function.update v id (some [])) := by
  have hold : ∀ {k n}, Function.update v id (some []) k = some n → n ≠ [] → v k = some n := by
    intro k n hk hn
    rw [Function.update_apply] at hk
    split_ifs at hk
    · exact absurd (Option.some.inj hk).symm hn
    · exact hk
  refine ⟨⟨fun hk hn => h.valid (hold hk hn) hn,
    fun hk hk' hn => h.unique (hold hk hn) (hold hk' hn) hn⟩, fun k n hk hn => ?_⟩
  have hne : k ≠ id := by
    rintro rfl
    rw [hid] at hk
    cases hk
  rwa [Function.update_of_ne hne]

/-- A contract is given a name in order. -/
theorem NamesDistinct.upgrade (h : NamesDistinct v) {op : OnUpgradeOperation} (hop : op.Named v) :
    NamesDistinct (Function.update v op.id (some op.name)) ∧
      NamesKept v (Function.update v op.id (some op.name)) := by
  obtain ⟨hvalid, hunnamed, hfree⟩ := hop
  have hcases : ∀ {k n}, Function.update v op.id (some op.name) k = some n →
      k = op.id ∧ n = op.name ∨ k ≠ op.id ∧ v k = some n := by
    intro k n hk
    rw [Function.update_apply] at hk
    split_ifs at hk with hid
    · exact .inl ⟨hid, (Option.some.inj hk).symm⟩
    · exact .inr ⟨hid, hk⟩
  refine ⟨⟨fun {k n} hk hn => ?_, fun {k k' n} hk hk' hn => ?_⟩, fun k n hk hn => ?_⟩
  · rcases hcases hk with ⟨-, rfl⟩ | ⟨-, hk⟩
    · exact hvalid
    · exact h.valid hk hn
  · rcases hcases hk with ⟨rfl, rfl⟩ | ⟨hne, hk⟩ <;> rcases hcases hk' with ⟨rfl, hn'⟩ | ⟨hne', hk'⟩
    · rfl
    · exact (hfree _ hk').symm
    · exact hfree _ (hn' ▸ hk)
    · exact h.unique hk hk' hn
  · by_cases hid : k = op.id
    · subst hid
      rw [Function.update_self]
      rcases hunnamed with hnone | hsame
      · rw [hnone] at hk
        exact absurd (Option.some.inj hk).symm hn
      · exact hsame.symm.trans hk
    · rwa [Function.update_of_ne hid]

/-- One operation keeps the names distinct, and every name given. -/
theorem NamesStep.distinct {op : Operation} (h : NamesStep op v v') (hop : op.Named v)
    (hv : NamesDistinct v) : NamesDistinct v' ∧ NamesKept v v' := by
  have hsame : v' = v → NamesDistinct v' ∧ NamesKept v v' := by
    rintro rfl
    exact ⟨hv, .refl _⟩
  cases op
  case contractInfo op =>
    obtain ⟨hid, rfl⟩ := h
    exact hv.register hid
  case onUpgrade op =>
    obtain rfl := h
    exact hv.upgrade hop
  all_goals exact hsame h

theorem NamesRun.distinct (h : NamesRun ops v v') (hops : NamedInOrder ops v)
    (hv : NamesDistinct v) : NamesDistinct v' ∧ NamesKept v v' := by
  induction h with
  | nil v => exact ⟨hv, .refl v⟩
  | cons hstep _ ih =>
    obtain ⟨hv₁, hkept⟩ := hstep.distinct hops.1 hv
    obtain ⟨hv', hkept'⟩ := ih (hops.2 _ hstep) hv₁
    exact ⟨hv', hkept.trans hkept'⟩

theorem NamesRun.append (h : NamesRun ops v v₁) (h' : NamesRun ops' v₁ v') :
    NamesRun (ops ++ ops') v v' := by
  induction h with
  | nil => exact h'
  | cons hstep _ ih => exact .cons hstep (ih h')

/-! ## The name map -/

/-- The name map has the names that are not empty, each with its contract. -/
structure NamesIndexed (v : ContractNames) (index : Str → Option ContractIdType) : Prop where
  named : ∀ {id n}, v id = some n → n ≠ [] → index n = some id
  found : ∀ {id n}, index n = some id → isValidContractName n = true ∧ v id = some n

theorem NamesIndexed.distinct {index : Str → Option ContractIdType} (h : NamesIndexed v index) :
    NamesDistinct v where
  valid hid hn := (h.found (h.named hid hn)).1
  unique hid hid' hn := Option.some.inj ((h.named hid hn).symm.trans (h.named hid' hn))

namespace ChainTables

variable (c : ChainTables)

def contractNames : ContractNames := fun id =>
  (c.contractIdToEntry.lookup id).map ContractEntry.contractName

def nameIndex (n : Str) : Option ContractIdType := c.contractNameToId.lookup n

variable {c} {P : Primitives}

theorem nameIndex_remove (id : ContractIdType) (n : Str) :
    nameIndex (ContractEntry.remove c id) n = c.nameIndex n := by
  unfold ContractEntry.remove
  split <;> rfl

theorem nameIndex_store (id : ContractIdType) (e : ContractEntry) (n : Str) :
    nameIndex (ContractEntry.store c id e) n =
      if isValidContractName n = true ∧ e.contractName = n then some id else c.nameIndex n := by
  unfold ContractEntry.store
  by_cases hvalid : isValidContractName e.contractName = true
  · simp only [if_pos hvalid]
    by_cases hn : e.contractName = n
    · subst hn
      rw [if_pos ⟨hvalid, rfl⟩]
      exact Finmap.lookup_insert _
    · rw [if_neg fun h => hn h.2]
      exact Finmap.lookup_insert_of_ne _ (Ne.symm hn)
  · simp only [if_neg hvalid]
    rw [if_neg]
    · rfl
    · rintro ⟨hvalid', rfl⟩
      exact hvalid hvalid'

theorem nameIndex_removes (n : Str) : ∀ (ids : List ContractIdType) (c : ChainTables),
    nameIndex (ids.foldl ContractEntry.remove c) n = c.nameIndex n
  | [], _ => rfl
  | id :: ids, _ => (nameIndex_removes n ids _).trans (nameIndex_remove id n)

/-- After stores, a name that none of them has is mapped as before. -/
theorem nameIndex_stores_of_not {n : Str} : ∀ {items : List (ContractIdType × ContractEntry)}
    {c : ChainTables}, (∀ x ∈ items, ¬ (isValidContractName n = true ∧ x.2.contractName = n)) →
    nameIndex (items.foldl (fun c x => ContractEntry.store c x.1 x.2) c) n = c.nameIndex n
  | [], _, _ => rfl
  | x :: items, c, h => by
    rw [List.foldl_cons, nameIndex_stores_of_not fun y hy => h y (List.mem_cons_of_mem _ hy),
      nameIndex_store, if_neg (h x (List.mem_cons_self ..))]

/-- After stores, a valid name that one of them has is mapped to the contract of one that has it. -/
theorem nameIndex_stores_of_mem {n : Str} (hn : isValidContractName n = true) :
    ∀ {items : List (ContractIdType × ContractEntry)} {c : ChainTables},
    (∃ x ∈ items, x.2.contractName = n) → ∃ x ∈ items, x.2.contractName = n ∧
      nameIndex (items.foldl (fun c x => ContractEntry.store c x.1 x.2) c) n = some x.1
  | x :: items, c, h => by
    by_cases hrest : ∃ y ∈ items, y.2.contractName = n
    · obtain ⟨y, hy, hname, hindex⟩ :=
        nameIndex_stores_of_mem hn (c := ContractEntry.store c x.1 x.2) hrest
      exact ⟨y, List.mem_cons_of_mem _ hy, hname, hindex⟩
    · obtain ⟨y, hy, hname⟩ := h
      obtain rfl | hy := List.mem_cons.1 hy
      · refine ⟨y, List.mem_cons_self .., hname, ?_⟩
        rw [List.foldl_cons, nameIndex_stores_of_not fun z hz h => hrest ⟨z, hz, h.2⟩,
          nameIndex_store, if_pos ⟨hn, hname⟩]
      · exact absurd ⟨y, hy, hname⟩ hrest

/-- The name map after a pending state has been written: a valid name that an entry stored has is
mapped to a contract that is stored with it, every other name as before. -/
theorem Written.nameIndex {p : PendingChainState} {c c' : ChainTables} (w : Written P p c c')
    (n : Str) :
    (isValidContractName n = true ∧ ∃ id e, p.ledger.contract.stored.lookup id = some e ∧
      e.contractName = n ∧ c'.nameIndex n = some id) ∨
    (isValidContractName n = true → ∀ id e, p.ledger.contract.stored.lookup id = some e →
      e.contractName ≠ n) ∧ c'.nameIndex n = c.nameIndex n := by
  obtain ⟨c₀, hc, -, hc'⟩ := w.contract
  have hbefore : ChainTables.nameIndex c₀ n = c.nameIndex n :=
    congrArg (Finmap.lookup n) (congrArg Prod.snd hc)
  have hafter : c'.nameIndex n = ChainTables.nameIndex (applyEntries P ContractEntry.remove
      ContractEntry.store p.ledger.contract.stored p.ledger.contract.removed c₀) n :=
    congrArg (Finmap.lookup n) (congrArg Prod.snd hc')
  have hitems : ∀ x : ContractIdType × ContractEntry,
      x ∈ P.order.order (mapItems p.ledger.contract.stored) ↔
        p.ledger.contract.stored.lookup x.1 = some x.2 := by
    intro x
    rw [(P.order.perm _).mem_iff, mapItems, List.mem_map]
    constructor
    · rintro ⟨y, hy, rfl⟩
      exact AList.mem_lookup_iff.2 hy
    · exact fun hx => ⟨⟨x.1, x.2⟩, AList.mem_lookup_iff.1 hx, rfl⟩
  rw [hafter, applyEntries]
  by_cases hstored : isValidContractName n = true ∧ ∃ id e,
      p.ledger.contract.stored.lookup id = some e ∧ e.contractName = n
  · obtain ⟨hn, id, e, hid, hname⟩ := hstored
    obtain ⟨x, hx, hname', hindex⟩ :=
      nameIndex_stores_of_mem hn ⟨(id, e), (hitems (id, e)).2 hid, hname⟩
    exact .inl ⟨hn, x.1, x.2, (hitems x).1 hx, hname', hindex⟩
  · refine .inr ⟨fun hn id e hid hname => hstored ⟨hn, id, e, hid, hname⟩, ?_⟩
    rw [nameIndex_stores_of_not, nameIndex_removes, hbefore]
    rintro x hx ⟨hn, hname⟩
    exact hstored ⟨hn, x.1, x.2, (hitems x).1 hx, hname⟩

/-- A write that keeps the names given and leaves the names distinct leaves the name map in
order. -/
theorem Written.namesIndexed {p : PendingChainState} {c c' : ChainTables} (w : Written P p c c')
    (h : NamesIndexed c.contractNames c.nameIndex) (hdistinct : NamesDistinct c'.contractNames)
    (hkept : NamesKept c.contractNames c'.contractNames) :
    NamesIndexed c'.contractNames c'.nameIndex := by
  have hstored : ∀ {id e}, p.ledger.contract.stored.lookup id = some e →
      c'.contractNames id = some e.contractName := by
    intro id e he
    rw [contractNames, w.lookupContract, Overlay.lookup_of_stored he, Option.map_some]
  refine ⟨fun {id n} hid hn => ?_, fun {id n} hindex => ?_⟩
  · have hvalid := hdistinct.valid hid hn
    rcases w.nameIndex n with ⟨-, id', e, he, rfl, hindex⟩ | ⟨hnone, hindex⟩
    · rw [hindex, hdistinct.unique hid (hstored he) hn]
    · -- no entry stored has the name, so the contract had it before
      have hid₀ : c.contractNames id = some n := by
        rw [contractNames, w.lookupContract, Overlay.lookup] at hid
        cases he : p.ledger.contract.stored.lookup id with
        | some e =>
          rw [he] at hid
          exact absurd (Option.some.inj hid) (hnone hvalid id e he)
        | none =>
          rw [he] at hid
          dsimp only at hid
          split_ifs at hid
          · cases hid
          · exact hid
      rw [hindex]
      exact h.named hid₀ hn
  · rcases w.nameIndex n with ⟨hvalid, id', e, he, rfl, hindex'⟩ | ⟨-, hindex'⟩
    · obtain rfl := Option.some.inj (hindex'.symm.trans hindex)
      exact ⟨hvalid, hstored he⟩
    · obtain ⟨hvalid, hid⟩ := h.found (hindex'.symm.trans hindex)
      exact ⟨hvalid, hkept id n hid (ne_nil_of_valid hvalid)⟩

end ChainTables

/-! ## Transactions -/

variable {P : Primitives} {V : Vm} {N : Node} {l l' : Ledger} {ctx : OpContext} {s s' : OpState}

def Ledger.contractNames (l : Ledger) : ContractNames := fun id =>
  (l.getContract id).map ContractEntry.contractName

theorem Ledger.contractNames_congr (hcontract : l'.contract = l.contract)
    (hprev : l'.prev = l.prev) :
    l'.contractNames = l.contractNames := by
  funext id
  rw [contractNames, getContract, hcontract, hprev]
  rfl

theorem Ledger.contractNames_storeContract (e : ContractEntry) :
    (l.storeContract e).contractNames =
      Function.update l.contractNames e.id (some e.contractName) := by
  funext id
  rw [contractNames, getContract_storeContract, Function.update_apply]
  split_ifs <;> rfl

theorem OriginLedger.contractNames (h : OriginLedger P l l') :
    l'.contractNames = l.contractNames := by
  cases h with
  | same => rfl
  | registered e hfree _ =>
    funext id
    rw [Ledger.contractNames, Ledger.getContract_remove, Ledger.getContract_storeContract]
    split_ifs with hid
    · rw [hid, Ledger.contractNames, hfree]
    · rfl
  | restored op _ => exact Ledger.contractNames_congr rfl rfl

/-- The tables stay keyed, and the names of the contracts change as the operations say. -/
def NamesChange (P : Primitives) (ops : FreeAddMonoid Operation) (l l' : Ledger) : Prop :=
  l.WellKeyed P → l'.WellKeyed P ∧ NamesRun ops.toList l.contractNames l'.contractNames

theorem NamesChange.of_same (hw : Writes P l l') (h : l'.contractNames = l.contractNames) :
    NamesChange P 0 l l' := by
  refine fun hl => ⟨hl.writes hw, ?_⟩
  rw [h]
  exact .nil _

theorem NamesChange.trans {ops ops' : FreeAddMonoid Operation} {l₁ : Ledger}
    (h : NamesChange P ops l l₁) (h' : NamesChange P ops' l₁ l') :
    NamesChange P (ops + ops') l l' := by
  intro hl
  obtain ⟨hl₁, hrun⟩ := h hl
  obtain ⟨hl', hrun'⟩ := h' hl₁
  exact ⟨hl', hrun.append hrun'⟩

/-- The operations other than those that store a contract. -/
def Operation.sparesNames : Operation → Bool
  | .contractInfo _ | .onUpgrade _ => false
  | _ => true

theorem NamesStep.same {op : Operation} (hop : op.sparesNames = true) (v : ContractNames) :
    NamesStep op v v := by
  cases op <;> first | rfl | cases hop

theorem Operation.evaluateLeaf_sameNames {op : Operation} (hop : op.sparesNames = true)
    (hl : s.ledger.WellKeyed P) (h : op.evaluateLeaf P V ctx s = .ok s') :
    s'.ledger.contractNames = s.ledger.contractNames := by
  by_cases hspares : op.sparesContracts = true
  · have hconfined := evaluateLeaf_confined h
    exact Ledger.contractNames_congr (hconfined.contract hspares) hconfined.writes.prev
  cases op <;> simp only [sparesContracts, not_true_eq_false] at hspares <;>
    simp only [sparesNames, Bool.false_eq_true] at hop <;> simp only [evaluateLeaf] at h
  case registerContract op =>
    exact (RegisterContractOperation.evaluate_ok h).ledger.contractNames
  case upgradeContract op => exact (UpgradeContractOperation.evaluate_ok h).ledger.contractNames
  case destroyContract op => exact (DestroyContractOperation.evaluate_ok h).ledger.contractNames
  case callContract op => exact (CallContractOperation.evaluate_ok h).ledger.contractNames
  case transferContract op => exact (TransferContractOperation.evaluate_ok h).ledger.contractNames
  case onDestroy op =>
    obtain ⟨-, e, s₁, he, hmove, rfl⟩ := OnDestroyOperation.evaluate_ok h
    have hmoved : s₁.ledger.contract = s.ledger.contract ∧ s₁.ledger.prev = s.ledger.prev := by
      rcases OnDestroyOperation.move_ok hmove with
        ⟨-, rfl⟩ | ⟨b, dest, date, l₁, -, -, -, rfl, -, -, hledger, -⟩
      · exact ⟨rfl, rfl⟩
      · exact ⟨by simp [hledger], by simp [hledger]⟩
    have hnames := Ledger.contractNames_congr hmoved.1 hmoved.2
    have hname : s.ledger.contractNames op.id = some e.contractName := by
      rw [Ledger.contractNames, he, Option.map_some]
    rw [Ledger.contractNames_storeContract, hnames, hl.contract he]
    exact Function.update_eq_self_iff.2 hname.symm

theorem Operation.evaluateLeaf_names {op : Operation} (h : op.evaluateLeaf P V ctx s = .ok s') :
    NamesChange P (.of op) s.ledger s'.ledger := by
  refine fun hl => ⟨hl.writes (evaluateLeaf_writes h), .cons ?_ (.nil _)⟩
  by_cases hspares : op.sparesNames = true
  · rw [evaluateLeaf_sameNames hspares hl h]
    exact .same hspares _
  cases op <;> simp only [sparesNames, not_true_eq_false] at hspares <;>
    simp only [evaluateLeaf] at h
  case contractInfo op =>
    obtain ⟨-, hfree, e, hname, hid, -, rfl⟩ := ContractInfoOperation.evaluate_ok h
    refine ⟨?_, ?_⟩
    · rw [Ledger.contractNames, hfree, Option.map_none]
    · have hstored := Ledger.contractNames_storeContract (l := s.ledger) e
      rw [hname, hid] at hstored
      exact hstored
  case onUpgrade op =>
    obtain ⟨-, e, he, rfl⟩ := OnUpgradeOperation.evaluate_ok h
    have hid := hl.contract he
    simp only [NamesStep, Ledger.contractNames_storeContract, hid]

theorem namesChange_ledgerRel :
    LedgerRel P V (fun _ => True) FreeAddMonoid.of (NamesChange P) where
  refl l := .of_same .refl rfl
  trans := .trans
  leaf _ h := Operation.evaluateLeaf_names h
  fee h := by
    obtain ⟨-, rfl⟩ | ⟨-, a, -, rfl⟩ := EvalState.collectFee_ok h
    · exact .of_same .refl rfl
    · exact .of_same (.one (.asset _)) (Ledger.contractNames_congr (by simp) (by simp))
  votes h := by
    obtain ⟨a, stats, -, -, rfl⟩ := EvalState.updateVotes_ok h
    exact .of_same (.one (.account _)) (Ledger.contractNames_congr (by simp) (by simp))
  request s id trx :=
    .of_same ((Writes.one (.resultId _ _)).tail (.requestId _ _)) rfl

/-- The names of the contracts in an accepted transaction. -/
theorem evaluate_names {s s' : EvalState} {t : SignedTransaction}
    (h : evaluate P V s t = .ok s') (hl : s.st.ledger.WellKeyed P) :
    s'.st.ledger.WellKeyed P ∧
      NamesRun t.leaves s.st.ledger.contractNames s'.st.ledger.contractNames := by
  obtain ⟨hl', hrun⟩ := namesChange_ledgerRel.evaluate (fun _ _ => trivial) h hl
  rw [weight_of] at hrun
  exact ⟨hl', hrun⟩

/-! ## Blocks -/

variable {c : ApplyConfig} {p p' : PendingChainState} {db db' db₀ : ChainDatabase}
  {clock : TimePointSec} {b : FullBlock} {pay : Paycheck}

theorem applyTransactions_names {ts : List SignedTransaction}
    (h : applyTransactions P V c ts p = .ok p') (hl : p.ledger.WellKeyed P) :
    p'.ledger.WellKeyed P ∧
      NamesRun (transactionLeaves ts) p.ledger.contractNames p'.ledger.contractNames :=
  applyTransactions_leaves (R := fun ops l l' => NamesChange P (.ofList ops) l l')
    (fun _ => .of_same .refl rfl) .trans evaluate_names h hl

theorem StatisticsWrites.contractNames (h : StatisticsWrites P l l') :
    l'.contractNames = l.contractNames := by
  induction h with
  | refl => rfl
  | tail _ hw ih =>
    rw [← ih]
    cases hw <;> exact Ledger.contractNames_congr (by simp) (by simp)

theorem Payment.contractNames {signee : PublicKeyType} (h : Payment N db signee l pay l') :
    l'.contractNames = l.contractNames := by
  rw [h.ledger]
  exact Ledger.contractNames_congr (by simp) (by simp)

theorem BlockEvaluated.names (h : BlockEvaluated N db clock b pay p) (hkeyed : db.Keyed N.P) :
    NamesRun (transactionLeaves b.userTransactions) db.tables.contractNames
      p.ledger.contractNames := by
  have hstatistics := updateDelegateProductionInfo_ok h.production
  have hkeyed' := (hkeyed.tables.pending clock).writes hstatistics.writes
  obtain ⟨-, hrun⟩ := applyTransactions_names h.transactions hkeyed'
  have hproduced : h.produced.contractNames = db.tables.contractNames := hstatistics.contractNames
  rw [← hproduced, h.rest.contractNames, h.payment.contractNames]
  exact hrun

theorem Extended.contractNames (h : Extended N db clock b p db') :
    db'.tables.contractNames = p.ledger.contractNames := by
  funext id
  exact congrArg (Option.map ContractEntry.contractName) (h.lookupContract id)

/-- The name map is in order. -/
def ChainTables.NamesInOrder (c : ChainTables) : Prop := NamesIndexed c.contractNames c.nameIndex

/-- A block whose upgrades are in order leaves the name map in order. -/
theorem extendChain_names (h : extendChain N db clock b = .ok db') (hkeyed : db.Keyed N.P)
    (hb : NamedInOrder (transactionLeaves b.userTransactions) db.tables.contractNames)
    (hdb : db.tables.NamesInOrder) : db'.tables.NamesInOrder := by
  obtain ⟨p, hp⟩ := extendChain_ok h
  obtain ⟨pay, ⟨hblock⟩⟩ := evaluateBlock_ok hp.evaluated
  obtain ⟨hdistinct, hkept⟩ := (hblock.names hkeyed).distinct hb (NamesIndexed.distinct hdb)
  rw [← hp.contractNames] at hdistinct hkept
  have hwritten := ChainTables.written (P := N.P) db.tables p
  rw [hp.tables] at hdistinct hkept ⊢
  exact hwritten.namesIndexed hdb hdistinct hkept

/-! ## Undo -/

/-- The contracts have the same names that are not empty. -/
def SameNames (v v' : ContractNames) : Prop := ∀ id n, n ≠ [] → (v id = some n ↔ v' id = some n)

/-- The names after an undo state has been written to the tables. -/
def PendingChainState.namesOver (u : PendingChainState) (c : ChainTables) : ContractNames :=
  fun id => (u.ledger.contract.lookup c.contractIdToEntry.lookup id).map ContractEntry.contractName

/-- The undo state of the head gives every contract the name it has. -/
def ChainDatabase.UndoKeepsNames (db : ChainDatabase) : Prop :=
  ∀ u, db.blockIdToUndoState.lookup db.headBlockId = some u →
    SameNames db.tables.contractNames (u.namesOver db.tables)

theorem SameNames.distinct (h : SameNames v v') (hv : NamesDistinct v) : NamesDistinct v' where
  valid hid hn := hv.valid ((h _ _ hn).2 hid) hn
  unique hid hid' hn := hv.unique ((h _ _ hn).2 hid) ((h _ _ hn).2 hid') hn

theorem SameNames.kept (h : SameNames v v') : NamesKept v v' := fun id n hid hn => (h id n hn).1 hid

theorem popBlock_names (h : popBlock N db = .ok db') (hundo : db.UndoKeepsNames)
    (hdb : db.tables.NamesInOrder) : db'.tables.NamesInOrder := by
  unfold popBlock at h
  split_ifs at h
  · exact ok_eq_ok.1 h ▸ hdb
  · simp only [bind_eq_ok, orThrow_eq_ok, pure_eq_ok] at h
    obtain ⟨forkDb, -, u, hu, header, -, rfl⟩ := h
    have hwritten := ChainTables.written (P := N.P) db.tables u
    have hnames : (db.tables.applyChanges N.P u).contractNames = u.namesOver db.tables := by
      funext id
      rw [ChainTables.contractNames, hwritten.lookupContract]
      rfl
    have hsame := hundo u hu
    rw [← hnames] at hsame
    exact hwritten.namesIndexed hdb (hsame.distinct (NamesIndexed.distinct hdb)) hsame.kept

/-- The operations that give a contract a name. -/
def Operation.givesName : Operation → Bool
  | .onUpgrade _ => true
  | _ => false

theorem SameNames.refl (v : ContractNames) : SameNames v v := fun _ _ _ => Iff.rfl

theorem SameNames.register (hid : v id = none) : SameNames v (Function.update v id (some [])) := by
  intro k n hn
  by_cases hk : k = id
  · subst hk
    rw [hid, Function.update_self, Option.some.injEq]
    exact ⟨nofun, fun h => absurd h.symm hn⟩
  · rw [Function.update_of_ne hk]

theorem NamesRun.same (h : NamesRun ops v v') (hops : ∀ op ∈ ops, op.givesName = false) :
    SameNames v v' := by
  induction h with
  | nil v => exact .refl v
  | @cons op ops v v₁ v' hstep _ ih =>
    have hrest := ih fun op hop => hops op (List.mem_cons_of_mem _ hop)
    have hfirst : SameNames v v₁ := by
      have hop := hops op (List.mem_cons_self ..)
      cases op
      case contractInfo op =>
        obtain ⟨hid, rfl⟩ := hstep
        exact .register hid
      case onUpgrade op => cases hop
      all_goals
        obtain rfl := hstep
        exact .refl _
    exact fun id n hn => (hfirst id n hn).trans (hrest id n hn)

/-- The undo state of a block without upgrades keeps the names. -/
theorem Extended.undo_sameNames (h : Extended N db clock b p db') (hkeyed : db.Keyed N.P)
    (hb : ∀ op ∈ transactionLeaves b.userTransactions, op.givesName = false) :
    SameNames db'.tables.contractNames ((p.getUndoState N.P).namesOver db'.tables) := by
  have hentries : db'.tables.contractIdToEntry.lookup = p.ledger.getContract :=
    funext h.lookupContract
  have hundone := Ledger.undone (P := N.P) p.ledger _ rfl
  have hover : (p.getUndoState N.P).namesOver db'.tables = db.tables.contractNames := by
    funext id
    have hread := hundone.contract id
    rw [Ledger.getContract, hundone.prev, h.prev] at hread
    rw [PendingChainState.namesOver, hentries]
    exact congrArg (Option.map ContractEntry.contractName) hread
  obtain ⟨pay, ⟨hblock⟩⟩ := evaluateBlock_ok h.evaluated
  have hsame := (hblock.names hkeyed).same hb
  rw [hover, h.contractNames]
  exact fun id n hn => (hsame id n hn).symm

/-! ## Runs -/

/-- A step in which every upgrade of a block is in order and every undo keeps the names. -/
inductive NamedStep (N : Node) (db : ChainDatabase) : ChainDatabase → Prop
  | extend {db' : ChainDatabase} (clock : TimePointSec) (b : FullBlock) :
      extendChain N db clock b = .ok db' →
      NamedInOrder (transactionLeaves b.userTransactions) db.tables.contractNames →
      NamedStep N db db'
  | pop {db' : ChainDatabase} : popBlock N db = .ok db' → db.UndoKeepsNames → NamedStep N db db'
  | other {db' : ChainDatabase} : SameChain db db' → NamedStep N db db'

/-- A step of `push_block` is one of these if its upgrades, or its undo, are in order. -/
theorem Step.named {K : FullBlock → Prop} (h : Step N K db db')
    (hextend : ∀ clock b, extendChain N db clock b = .ok db' →
      NamedInOrder (transactionLeaves b.userTransactions) db.tables.contractNames)
    (hpop : popBlock N db = .ok db' → db.UndoKeepsNames) : NamedStep N db db' := by
  cases h with
  | extend clock b _ _ h => exact .extend clock b h (hextend clock b h)
  | pop h => exact .pop h (hpop h)
  | other hsame _ _ => exact .other hsame

theorem NamedStep.keyed (h : NamedStep N db db') (hdb : db.Keyed N.P) : db'.Keyed N.P := by
  cases h with
  | extend clock b h _ => exact hdb.extend h
  | pop h _ => exact hdb.step (K := fun _ => True) (.pop h)
  | other hsame => exact hdb.same hsame

theorem NamedStep.names (h : NamedStep N db db') (hkeyed : db.Keyed N.P)
    (hdb : db.tables.NamesInOrder) : db'.tables.NamesInOrder := by
  cases h with
  | extend clock b h hb => exact extendChain_names h hkeyed hb hdb
  | pop h hundo => exact popBlock_names h hundo hdb
  | other hsame => exact hsame.tables ▸ hdb

theorem genesisTables_contracts (g : GenesisState) (on : Bool) :
    (genesisTables P g on).contractIdToEntry = ∅ ∧
      (genesisTables P g on).contractNameToId = ∅ := by
  obtain ⟨x, hx⟩ := (genesisStages P g on).delegates_only
  obtain ⟨y, hy⟩ := (genesisStages P g on).balances_only
  obtain ⟨z, hz⟩ := (genesisStages P g on).assets_only
  obtain ⟨w, hw⟩ := (genesisStages P g on).properties_only
  rw [hw, hz, hy, hx]
  exact ⟨rfl, rfl⟩

theorem genesis_names {g : GenesisState} {on : Bool} (h₀ : initializeGenesis P g on = .ok db₀) :
    db₀.tables.NamesInOrder := by
  obtain ⟨htables, -⟩ := initializeGenesis_ok h₀
  obtain ⟨hentries, hindex⟩ := genesisTables_contracts (P := P) g on
  rw [htables]
  refine ⟨fun {id n} hid _ => ?_, fun {id n} hn => ?_⟩
  · rw [ChainTables.contractNames, hentries, Finmap.lookup_empty] at hid
    cases hid
  · rw [ChainTables.nameIndex, hindex, Finmap.lookup_empty] at hn
    cases hn

/-- A name resolves exactly where a contract stored has it, and then to that contract; and no two
contracts have the same name. -/
structure ChainTables.NamesResolve (c : ChainTables) : Prop where
  resolves : ∀ name e, c.contractLookupByName name = some e ↔
    name ≠ [] ∧ e.contractName = name ∧ ∃ id, c.contractIdToEntry.lookup id = some e
  unique : ∀ id id' e e', c.contractIdToEntry.lookup id = some e →
    c.contractIdToEntry.lookup id' = some e' → e.contractName ≠ [] →
    e.contractName = e'.contractName → id = id'

theorem ChainTables.NamesInOrder.resolve {c : ChainTables} (h : c.NamesInOrder) :
    c.NamesResolve where
  resolves name e := by
    unfold contractLookupByName
    rw [Option.bind_eq_some_iff]
    constructor
    · rintro ⟨id, hid, he⟩
      obtain ⟨hvalid, hname⟩ := h.found hid
      rw [contractNames, he, Option.map_some, Option.some.injEq] at hname
      exact ⟨ne_nil_of_valid hvalid, hname, id, he⟩
    · rintro ⟨hne, rfl, id, he⟩
      refine ⟨id, h.named ?_ hne, he⟩
      rw [contractNames, he, Option.map_some]
  unique id id' e e' he he' hne hname := by
    refine h.distinct.unique (n := e.contractName) ?_ ?_ hne
    · rw [contractNames, he, Option.map_some]
    · rw [contractNames, he', Option.map_some, hname]

/-- In every run in which upgrades give free names that are valid and no undo takes a name away, a
name resolves exactly to the contract that has it. -/
theorem contract_names_resolve (N : Node) (g : GenesisState) (on : Bool) (db₀ db : ChainDatabase)
    (h₀ : initializeGenesis N.P g on = .ok db₀)
    (hrun : Relation.ReflTransGen (NamedStep N) db₀ db) : db.tables.NamesResolve := by
  have hinv : db.Keyed N.P ∧ db.tables.NamesInOrder := by
    induction hrun with
    | refl => exact ⟨initializeGenesis_keyed h₀, genesis_names h₀⟩
    | tail _ hstep ih => exact ⟨hstep.keyed ih.1, hstep.names ih.1 ih.2⟩
  exact hinv.2.resolve

/-! ## A contract, its upgrade and a fork -/

/-- A genesis state in which key 1 has enough for a contract and its upgrade. -/
def richGenesis : GenesisState :=
  { GenesisState.plain with initialBalances := [⟨1, 90000000⟩] }

def emptyCode : Code := ⟨[], [], [], [], [0], 1⟩

/-- An amount of the balance of key 1. -/
def fromKey1 (amount : ShareType) : Map BalanceIdType ShareType :=
  (∅ : Map BalanceIdType ShareType).insert 3 amount

/-- A result in a block, with the id of a result of four operations. -/
def resultOf (expiration : TimePointSec) (operations : List Operation) : SignedTransaction :=
  { SignedTransaction.empty with
    expiration := expiration
    operations := operations
    resultTrxType := .complete
    resultTrxId := 100 * expiration + 4 }

/-- Key 1 registers contract 1. -/
def registerResult : SignedTransaction :=
  let origin : SignedTransaction :=
    { SignedTransaction.empty with
      expiration := 200
      operations := [.registerContract
        ⟨emptyCode, ⟨1000, 0⟩, ⟨100000, 0⟩, fromKey1 5000000, 1, 0⟩] }
  resultOf 200 [.transaction origin, .contractInfo ⟨1, 1, emptyCode, 0⟩,
    .balancesWithdraw ⟨fromKey1 1110101⟩, .depositContract ⟨1000000, contractCondition 1 .margin⟩]

def upgradeOrigin : SignedTransaction :=
  { SignedTransaction.empty with
    expiration := 300
    operations := [.upgradeContract
      ⟨1, ['a'], ['b'], ⟨0, 0⟩, ⟨100000, 0⟩, fromKey1 5000000⟩] }

/-- Key 1 upgrades contract 1 and names it. -/
def upgradeResult : SignedTransaction :=
  resultOf 300 [.transaction upgradeOrigin, .balancesWithdraw ⟨fromKey1 100000⟩,
    .withdrawContract ⟨5, 1000000, 0⟩, .onUpgrade ⟨1, ['a'], ['b']⟩]

def registerBlock : FullBlock := .plain 1 0 10 [registerResult]
def upgradeBlock : FullBlock := .plain 2 1010 20 [upgradeResult]

theorem contract_names_resolve_after_upgrade :
    ∃ db₀ db e, initializeGenesis Node.plain.P richGenesis false = .ok db₀ ∧
      Relation.ReflTransGen (NamedStep .plain) db₀ db ∧ db.tables.NamesResolve ∧
      db.tables.contractLookupByName ['a'] = some e ∧ e.contractName = ['a'] := by
  have hblocks : returns (initializeGenesis Node.plain.P richGenesis false) (fun db =>
      returns (extendChain .plain (db.learn 1010 registerBlock) 100 registerBlock) fun db =>
        db.tables.contractIdToEntry.keys == {1} &&
          (db.tables.contractNames 1 == some []) &&
          returns (extendChain .plain (db.learn 1011020 upgradeBlock) 100 upgradeBlock) fun db =>
            (db.tables.contractLookupByName ['a']).isSome) = true := by decide +kernel
  obtain ⟨db₀, h₀, hblocks⟩ := exists_of_returns hblocks
  obtain ⟨db₁, h₁, hblocks⟩ := exists_of_returns hblocks
  simp only [Bool.and_eq_true, beq_iff_eq] at hblocks
  obtain ⟨⟨hkeys, hunnamed⟩, hblocks⟩ := hblocks
  obtain ⟨db₂, h₂, hfound⟩ := exists_of_returns hblocks
  obtain ⟨e, he⟩ := Option.isSome_iff_exists.1 hfound
  have hregister : NamedInOrder (transactionLeaves registerBlock.userTransactions)
      (db₀.learn 1010 registerBlock).tables.contractNames :=
    ⟨trivial, fun _ _ => ⟨trivial, fun _ _ => ⟨trivial, fun _ _ => ⟨trivial, fun _ _ => trivial⟩⟩⟩⟩
  have hupgrade : NamedInOrder (transactionLeaves upgradeBlock.userTransactions)
      (db₁.learn 1011020 upgradeBlock).tables.contractNames := by
    refine ⟨trivial, ?_⟩
    rintro _ rfl
    refine ⟨trivial, ?_⟩
    rintro _ rfl
    refine ⟨trivial, ?_⟩
    rintro _ rfl
    refine ⟨⟨by decide, .inl hunnamed, fun id hid => ?_⟩, fun _ _ => trivial⟩
    have hmem : id ∈ db₁.tables.contractIdToEntry.keys := by
      refine Finmap.mem_keys.2 (Finmap.lookup_isSome.1 ?_)
      rw [← Option.isSome_map (f := ContractEntry.contractName)]
      exact Option.isSome_of_eq_some hid
    rw [hkeys] at hmem
    exact Finset.mem_singleton.1 hmem
  have hlearn : ∀ (db : ChainDatabase) id b, NamedStep .plain db (db.learn id b) :=
    fun db id b => .other (db.learn_same id b)
  have hrun : Relation.ReflTransGen (NamedStep .plain) db₀ db₂ :=
    .tail (.tail (.tail (.single (hlearn _ _ _)) (.extend 100 _ h₁ hregister)) (hlearn _ _ _))
      (.extend 100 _ h₂ hupgrade)
  have hresolve := contract_names_resolve .plain richGenesis false db₀ db₂ h₀ hrun
  exact ⟨db₀, db₂, e, h₀, hrun, hresolve, he, ((hresolve.resolves _ e).1 he).2.1⟩

/-- After the block of an upgrade has been undone for a longer fork, the name still resolves to the
contract, which has no name. -/
theorem name_outlives_upgrade :
    ∃ db₀ db e, initializeGenesis Node.plain.P richGenesis false = .ok db₀ ∧
      Pushed .plain (fun _ => True) db₀ db ∧ db.tables.contractLookupByName ['a'] = some e ∧
      e.contractName = [] ∧ ¬ db.tables.NamesResolve := by
  obtain ⟨db₀, db, h₀, hpushed, hend⟩ := exists_pushed (N := .plain) (g := richGenesis)
    (K := fun _ => True)
    (p := fun db => (db.tables.contractLookupByName ['a']).any (·.contractName == []))
    100 [registerBlock, upgradeBlock, .plain 2 1010 30 [], .plain 3 1011030 40 []] (fun _ _ => trivial)
    (by decide +kernel)
  obtain ⟨e, he, hname⟩ := Option.any_eq_true .. |>.1 hend
  have hname : e.contractName = [] := beq_iff_eq.1 hname
  refine ⟨db₀, db, e, h₀, hpushed, he, hname, fun h => ?_⟩
  obtain ⟨-, hname', -⟩ := (h.resolves _ e).1 he
  rw [hname] at hname'
  cases hname'

end Achain
