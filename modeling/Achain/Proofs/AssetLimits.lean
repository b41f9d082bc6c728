import Achain.Proofs.Issuance

/-!
# The limits of assets

The terms of an asset are its maximum and its supply, its precision, and its flags and the
permissions for them. The operations of a transaction change the terms of one asset after the other,
as `TermsStep` says, and a payment changes the supply of the base asset. The extended update is the
one operation that can leave the limits: it may give an asset whose supply is not limited a maximum
below its supply, and of the flags and permissions it looks only at those that are defined.
-/

namespace Achain

open Table Result

/-! ## Terms -/

/-- What of an asset its limits are about. -/
structure ShareTerms where
  maximum : ShareType
  supply : ShareType
  precision : Nat
  flags : UInt32
  permissions : UInt32

def AssetEntry.terms (a : AssetEntry) : ShareTerms :=
  ⟨a.maximumShareSupply, a.currentShareSupply, a.precision, a.flags, a.issuerPermissions⟩

/-- Every bit of the first is one of the second. -/
def UInt32.Subset (x y : UInt32) : Prop := x &&& y = x

/-- Every bit of the first that is not defined is one of the second. -/
def UInt32.UndefinedSubset (x y : UInt32) : Prop := UInt32.Subset (x &&& ~~~allPermissions) y

namespace ShareTerms

/-- The limits of an asset. -/
structure Within (t : ShareTerms) : Prop where
  supply : 0 ≤ t.supply
  maximum : 0 < t.maximum → t.supply ≤ t.maximum ∧ t.maximum ≤ maxShares
  flags : UInt32.Subset t.flags t.permissions

/-- Shares that are out keep their precision, and no permission for them is added. -/
def Kept (t t' : ShareTerms) : Prop :=
  0 < t.supply → t'.precision = t.precision ∧ UInt32.Subset t'.permissions t.permissions

def updated (op : UpdateAssetOperation) (t : ShareTerms) : ShareTerms :=
  { t with
    maximum := op.maximumShareSupply.getD t.maximum
    precision := op.precision.getD t.precision }

/-- The maximum an update gives is one an asset may have. -/
def MaximumOk (op : UpdateAssetOperation) : Prop :=
  ∀ m, op.maximumShareSupply = some m → 0 < m ∧ m ≤ maxShares

def updatedExt (op : UpdateAssetExtOperation) (t : ShareTerms) : ShareTerms :=
  { t.updated op.toUpdateAssetOperation with
    flags := op.flags
    permissions := op.issuerPermissions }

def issued (amount : ShareType) (t : ShareTerms) : ShareTerms :=
  { t with supply := t.supply + amount }

def created (op : CreateAssetOperation) : ShareTerms :=
  ⟨op.maximumShareSupply, 0, op.precision, 0, allPermissions⟩

end ShareTerms

open ShareTerms

variable {i : AssetIdType} {v v₁ v' : Option ShareTerms} {ops ops' : List Operation}

/-- What an operation does to the terms of the asset `i`. -/
def TermsStep (i : AssetIdType) (op : Operation) (v v' : Option ShareTerms) : Prop :=
  match op with
  | .createAsset op => v' = v ∨ v = none ∧ v' = some (created op) ∧ 0 < op.maximumShareSupply ∧
      op.maximumShareSupply ≤ maxShares
  | .updateAsset op =>
    if op.assetId = i then
      ∃ t, v = some t ∧ v' = some (t.updated op) ∧ MaximumOk op ∧
        (0 < t.supply → op.maximumShareSupply = none ∧ op.precision = none)
    else v' = v
  | .updateAssetExt op =>
    if op.assetId = i then
      ∃ t, v = some t ∧ v' = some (t.updatedExt op) ∧ MaximumOk op.toUpdateAssetOperation ∧
        permitted op.flags op.issuerPermissions = true ∧
        (0 < t.supply → op.precision = none ∧ permitted op.issuerPermissions t.permissions = true)
    else v' = v
  | .issueAsset op =>
    if op.amount.assetId = i then
      ∃ t, v = some t ∧ v' = some (t.issued op.amount.amount) ∧
        t.supply < t.supply + op.amount.amount ∧ t.supply + op.amount.amount ≤ t.maximum
    else v' = v
  | _ => v' = v

/-- An extended update of an asset leaves its supply within the maximum it gives, and its flags and
permissions that are not defined are covered as the defined ones are. -/
def UpdateAssetExtOperation.Orderly (op : UpdateAssetExtOperation) (t : ShareTerms) : Prop :=
  (∀ m, op.maximumShareSupply = some m → t.supply ≤ m) ∧
    UInt32.UndefinedSubset op.flags op.issuerPermissions ∧
    (0 < t.supply → UInt32.UndefinedSubset op.issuerPermissions t.permissions)

def Operation.Orderly (i : AssetIdType) (op : Operation) (v : Option ShareTerms) : Prop :=
  match op with
  | .updateAssetExt op => op.assetId = i → ∀ t, v = some t → op.Orderly t
  | _ => True

/-- The terms of an asset through a list of operations. -/
inductive TermsRun (i : AssetIdType) : List Operation → Option ShareTerms → Option ShareTerms → Prop
  | nil (v : Option ShareTerms) : TermsRun i [] v v
  | cons {op : Operation} {ops : List Operation} {v v₁ v' : Option ShareTerms} :
      TermsStep i op v v₁ → TermsRun i ops v₁ v' → TermsRun i (op :: ops) v v'

/-- Every operation is in order for the terms it finds. -/
def Orderly (i : AssetIdType) : List Operation → Option ShareTerms → Prop
  | [], _ => True
  | op :: ops, v => op.Orderly i v ∧ ∀ v', TermsStep i op v v' → Orderly i ops v'

/-! ## One operation -/

theorem subset_of_permitted {wanted held : UInt32} (h : permitted wanted held = true)
    (hundefined : UInt32.UndefinedSubset wanted held) : UInt32.Subset wanted held := by
  unfold UInt32.UndefinedSubset UInt32.Subset at *
  have hdefined := beq_iff_eq.1 h
  rw [← UInt32.toBitVec_inj] at hdefined hundefined ⊢
  ext k hk
  have hbit := congrArg (fun b => b.getLsbD k) hdefined
  have hbit' := congrArg (fun b => b.getLsbD k) hundefined
  simp only [UInt32.toBitVec_and, UInt32.toBitVec_not, BitVec.getLsbD_and, BitVec.getLsbD_not, hk,
    decide_true, Bool.true_and] at hbit hbit'
  rw [← BitVec.getLsbD_eq_getElem, ← BitVec.getLsbD_eq_getElem, UInt32.toBitVec_and,
    BitVec.getLsbD_and]
  cases hall : allPermissions.toBitVec.getLsbD k with
  | true => simpa [hall] using hbit
  | false => simpa [hall] using hbit'

theorem UInt32.Subset.refl (x : UInt32) : UInt32.Subset x x := UInt32.and_self

theorem UInt32.Subset.trans {x y z : UInt32} (h : UInt32.Subset x y) (h' : UInt32.Subset y z) :
    UInt32.Subset x z := by
  unfold UInt32.Subset at *
  rw [← h, UInt32.and_assoc, h']

/-- The limits of an asset, if there is one. -/
def TermsWithin (v : Option ShareTerms) : Prop := ∀ t, v = some t → t.Within

/-- An asset stays; its shares keep what is promised for them, and stay out. -/
def TermsKept (v v' : Option ShareTerms) : Prop :=
  ∀ t, v = some t → ∃ t', v' = some t' ∧ t.Kept t' ∧ (0 < t.supply → 0 < t'.supply)

theorem TermsKept.refl (v : Option ShareTerms) : TermsKept v v :=
  fun t ht => ⟨t, ht, fun _ => ⟨rfl, .refl _⟩, fun h => h⟩

theorem TermsKept.trans (h : TermsKept v v₁) (h' : TermsKept v₁ v') : TermsKept v v' := by
  intro t ht
  obtain ⟨t₁, ht₁, hkept, hout⟩ := h t ht
  obtain ⟨t', ht', hkept', hout'⟩ := h' t₁ ht₁
  refine ⟨t', ht', fun hpos => ?_, fun hpos => hout' (hout hpos)⟩
  obtain ⟨hprecision, hpermissions⟩ := hkept hpos
  obtain ⟨hprecision', hpermissions'⟩ := hkept' (hout hpos)
  exact ⟨hprecision'.trans hprecision, hpermissions'.trans hpermissions⟩

/-- An update that gives a maximum gives one of at least the supply. -/
theorem ShareTerms.Within.updated {t : ShareTerms} {op : UpdateAssetOperation} (h : t.Within)
    (hmax : MaximumOk op) (hsupply : ∀ m, op.maximumShareSupply = some m → t.supply ≤ m) :
    (t.updated op).Within where
  supply := h.supply
  maximum hpos := by
    unfold ShareTerms.updated at hpos ⊢
    cases hm : op.maximumShareSupply with
    | none =>
      rw [hm] at hpos
      exact h.maximum hpos
    | some m => exact ⟨hsupply m hm, (hmax m hm).2⟩
  flags := h.flags

/-- One operation keeps the limits. -/
theorem TermsStep.within {op : Operation} (h : TermsStep i op v v') (hop : op.Orderly i v)
    (hv : TermsWithin v) : TermsWithin v' ∧ TermsKept v v' := by
  have hsame : v' = v → TermsWithin v' ∧ TermsKept v v' := by
    rintro rfl
    exact ⟨hv, .refl _⟩
  cases op
  case createAsset op =>
    rcases h with h | ⟨rfl, rfl, -, hmax⟩
    · exact hsame h
    · refine ⟨?_, nofun⟩
      rintro t ⟨⟩
      exact ⟨Int64.le_refl 0, fun hpos => ⟨Int64.le_of_lt hpos, hmax⟩, UInt32.zero_and⟩
  case updateAsset op =>
    simp only [TermsStep] at h
    split_ifs at h with hi
    · obtain ⟨t, rfl, rfl, hmax, hout⟩ := h
      have ht := hv t rfl
      refine ⟨?_, ?_⟩
      · rintro _ ⟨⟩
        refine ht.updated hmax fun m hm => ?_
        have hzero : ¬ 0 < t.supply := fun hpos => by
          rw [(hout hpos).1] at hm
          cases hm
        exact Int64.le_trans (Int64.not_lt.1 hzero) (Int64.le_of_lt (hmax m hm).1)
      · rintro _ ⟨⟩
        refine ⟨_, rfl, fun hpos => ⟨?_, .refl _⟩, fun hpos => hpos⟩
        simp [ShareTerms.updated, (hout hpos).2]
    · exact hsame h
  case updateAssetExt op =>
    simp only [TermsStep] at h
    split_ifs at h with hi
    · obtain ⟨t, rfl, rfl, hmax, hflags, hout⟩ := h
      obtain ⟨hsupply, hundefined, hundefined'⟩ := hop hi t rfl
      have hupdated := (hv t rfl).updated hmax hsupply
      refine ⟨?_, ?_⟩
      · rintro _ ⟨⟩
        exact ⟨hupdated.supply, hupdated.maximum, subset_of_permitted hflags hundefined⟩
      · rintro _ ⟨⟩
        refine ⟨_, rfl, fun hpos => ⟨?_, ?_⟩, fun hpos => hpos⟩
        · simp [ShareTerms.updatedExt, ShareTerms.updated, (hout hpos).1]
        · exact subset_of_permitted (hout hpos).2 (hundefined' hpos)
    · exact hsame h
  case issueAsset op =>
    simp only [TermsStep] at h
    split_ifs at h with hi
    · obtain ⟨t, rfl, rfl, hmore, hle⟩ := h
      have ht := hv t rfl
      refine ⟨?_, ?_⟩
      · rintro _ ⟨⟩
        exact ⟨Int64.le_trans ht.supply (Int64.le_of_lt hmore),
          fun hpos => ⟨hle, (ht.maximum hpos).2⟩, ht.flags⟩
      · rintro _ ⟨⟩
        exact ⟨_, rfl, fun _ => ⟨rfl, .refl _⟩, fun hpos => Int64.lt_trans hpos hmore⟩
    · exact hsame h
  all_goals exact hsame h

/-! ## Operations -/

theorem TermsRun.within (h : TermsRun i ops v v') (hops : Orderly i ops v) (hv : TermsWithin v) :
    TermsWithin v' ∧ TermsKept v v' := by
  induction h with
  | nil v => exact ⟨hv, .refl v⟩
  | cons hstep _ ih =>
    obtain ⟨hv₁, hkept⟩ := hstep.within hops.1 hv
    obtain ⟨hv', hkept'⟩ := ih (hops.2 _ hstep) hv₁
    exact ⟨hv', hkept.trans hkept'⟩

theorem TermsRun.append (h : TermsRun i ops v v₁) (h' : TermsRun i ops' v₁ v') :
    TermsRun i (ops ++ ops') v v' := by
  induction h with
  | nil => exact h'
  | cons hstep _ ih => exact .cons hstep (ih h')

/-! ## Transactions -/

variable {P : Primitives} {V : Vm} {N : Node} {l l' : Ledger} {ctx : OpContext} {s s' : OpState}

def Ledger.terms (l : Ledger) (i : AssetIdType) : Option ShareTerms :=
  (l.getAsset i).map AssetEntry.terms

theorem SameAssets.terms (h : SameAssets l l') (i : AssetIdType) : l'.terms i = l.terms i := by
  rw [Ledger.terms, h.getAsset, Ledger.terms]

theorem Ledger.terms_storeAsset (e : AssetEntry) (i : AssetIdType) :
    (l.storeAsset e).terms i = if i = e.id then some e.terms else l.terms i := by
  rw [terms, getAsset_storeAsset]
  split_ifs with h
  · rfl
  · rfl

theorem UpdateAssetOperation.apply_terms {op : UpdateAssetOperation} {a b : AssetEntry}
    (h : op.apply a = .ok b) : b.terms = a.terms.updated op ∧ MaximumOk op := by
  simp only [apply, bind_eq_ok, ensure_eq_ok, pure_eq_ok, exists_const] at h
  obtain ⟨-, hmax, -, rfl⟩ := h
  refine ⟨rfl, fun m hm => ?_⟩
  rw [hm] at hmax
  simpa using hmax

theorem UpdateAssetOperation.evaluate_terms {op : UpdateAssetOperation}
    (h : op.evaluate ctx s = .ok s') : ∃ a b, s.ledger.getAsset op.assetId = some a ∧
      s'.ledger = s.ledger.storeAsset b ∧ b.id = a.id ∧ b.terms = a.terms.updated op ∧
      MaximumOk op ∧
      (0 < a.currentShareSupply → op.maximumShareSupply = none ∧ op.precision = none) := by
  simp only [evaluate, bind_eq_ok, ensure_eq_ok, orThrow_eq_ok, pure_eq_ok, exists_const] at h
  obtain ⟨a, ha, -, hissued, -, b, hb, rfl⟩ := h
  obtain ⟨hterms, hmax⟩ := apply_terms hb
  refine ⟨a, _, ha, rfl, (apply_ok hb).1.id, hterms, hmax, fun hpos => ?_⟩
  simpa [hpos] using hissued

theorem UpdateAssetExtOperation.evaluate_terms {op : UpdateAssetExtOperation}
    (h : op.evaluate ctx s = .ok s') : ∃ a b, s.ledger.getAsset op.assetId = some a ∧
      s'.ledger = s.ledger.storeAsset b ∧ b.id = a.id ∧ b.terms = a.terms.updatedExt op ∧
      MaximumOk op.toUpdateAssetOperation ∧ permitted op.flags op.issuerPermissions = true ∧
      (0 < a.currentShareSupply →
        op.precision = none ∧ permitted op.issuerPermissions a.issuerPermissions = true) := by
  simp only [evaluate, bind_eq_ok, ensure_eq_ok, orThrow_eq_ok, pure_eq_ok, exists_const] at h
  obtain ⟨a, ha, -, hprecision, -, b, hb, hadded, hflags, -, -, rfl⟩ := h
  obtain ⟨hterms, hmax⟩ := UpdateAssetOperation.apply_terms hb
  have hpermissions : b.issuerPermissions = a.issuerPermissions :=
    congrArg ShareTerms.permissions hterms
  refine ⟨a, _, ha, rfl, (UpdateAssetOperation.apply_ok hb).1.id, ?_, hmax, hflags,
    fun hpos => ⟨?_, ?_⟩⟩
  · have hmaximum := congrArg ShareTerms.maximum hterms
    have hsupply := congrArg ShareTerms.supply hterms
    have hprecision := congrArg ShareTerms.precision hterms
    exact congrArg₂ (fun m p => ShareTerms.mk m _ p _ _) hmaximum hprecision |>.trans
      (congrArg (fun x => ShareTerms.mk _ x _ _ _) hsupply)
  · simpa [hpos] using hprecision
  · rw [hpermissions] at hadded
    simpa [hpos] using hadded

theorem IssueAssetOperation.evaluate_terms {op : IssueAssetOperation}
    (h : op.evaluate ctx s = .ok s') : ∃ a b, s.ledger.getAsset op.amount.assetId = some a ∧
      s'.ledger = s.ledger.storeAsset b ∧ b.id = a.id ∧ b.terms = a.terms.issued op.amount.amount ∧
      a.currentShareSupply < a.currentShareSupply + op.amount.amount ∧
      a.currentShareSupply + op.amount.amount ≤ a.maximumShareSupply := by
  simp only [evaluate, bind_eq_ok, ensure_eq_ok, orThrow_eq_ok, pure_eq_ok, exists_const] at h
  obtain ⟨a, ha, -, -, -, hissue, s₁, h₁, rfl⟩ := h
  obtain ⟨_, _, rfl⟩ := OpState.addBalance_eq_ok h₁
  simp only [AssetEntry.canIssue, Bool.and_eq_true, decide_eq_true_eq] at hissue
  exact ⟨a, _, ha, rfl, rfl, rfl, hissue.1.2, hissue.2⟩

theorem CreateAssetOperation.maximum_ok {op : CreateAssetOperation} (h : op.evaluate P s = .ok s') :
    0 < op.maximumShareSupply ∧ op.maximumShareSupply ≤ maxShares := by
  simp only [evaluate, bind_eq_ok, ensure_eq_ok, exists_const] at h
  obtain ⟨-, -, -, _, -, -, _, -, hmax, -⟩ := h
  simpa using hmax

theorem TermsStep.same {op : Operation} (hop : op.sparesAssets = true) (v : Option ShareTerms) :
    TermsStep i op v v := by
  cases op <;> first | rfl | cases hop

/-- The tables stay keyed, and the terms of every asset change as the operations say. -/
def TermsChange (P : Primitives) (ops : FreeAddMonoid Operation) (l l' : Ledger) : Prop :=
  l.WellKeyed P → l'.WellKeyed P ∧ ∀ i, TermsRun i ops.toList (l.terms i) (l'.terms i)

theorem TermsChange.of_same (hw : Writes P l l') (h : ∀ i, l'.terms i = l.terms i) :
    TermsChange P 0 l l' := by
  refine fun hl => ⟨hl.writes hw, fun i => ?_⟩
  rw [h i]
  exact .nil _

theorem TermsChange.trans {ops ops' : FreeAddMonoid Operation} {l₁ : Ledger}
    (h : TermsChange P ops l l₁) (h' : TermsChange P ops' l₁ l') :
    TermsChange P (ops + ops') l l' := by
  intro hl
  obtain ⟨hl₁, hrun⟩ := h hl
  obtain ⟨hl', hrun'⟩ := h' hl₁
  exact ⟨hl', fun i => (hrun i).append (hrun' i)⟩

/-- The store of the updated entry of an asset. -/
theorem terms_update {k : AssetIdType} {a b : AssetEntry} (hl : l.WellKeyed P)
    (ha : l.getAsset k = some a) (hid : b.id = a.id) (i : AssetIdType) :
    (l.storeAsset b).terms i = if k = i then some b.terms else l.terms i := by
  rw [Ledger.terms_storeAsset, hid, hl.asset ha]
  simp only [eq_comm]

theorem terms_same {k : AssetIdType} {a b : AssetEntry} (hl : l.WellKeyed P)
    (ha : l.getAsset k = some a) (hid : b.id = a.id) (hterms : b.terms = a.terms) (i : AssetIdType) :
    (l.storeAsset b).terms i = l.terms i := by
  rw [terms_update hl ha hid, hterms]
  split_ifs with hi
  · subst hi
    rw [Ledger.terms, ha]
    rfl
  · rfl

theorem Operation.evaluateLeaf_terms {op : Operation} (h : op.evaluateLeaf P V ctx s = .ok s') :
    TermsChange P (.of op) s.ledger s'.ledger := by
  refine fun hl => ⟨hl.writes (evaluateLeaf_writes h), fun i => .cons ?_ (.nil _)⟩
  by_cases hspares : op.sparesAssets = true
  · rw [(evaluateLeaf_sameAssets hspares h).terms]
    exact .same hspares _
  cases op <;> simp only [sparesAssets, not_true_eq_false] at hspares <;>
    simp only [evaluateLeaf] at h
  case createAsset op =>
    obtain ⟨hpos, hmax⟩ := CreateAssetOperation.maximum_ok h
    obtain ⟨n, issuer, -, hfree, -, hledger, -⟩ := CreateAssetOperation.evaluate_ok h
    have hproperty : (s.ledger.storeProperty .lastAssetId (.id (n + 1))).terms i =
        s.ledger.terms i := by
      simp [Ledger.terms, Ledger.getAsset]
    rw [hledger, Ledger.terms_storeAsset, hproperty]
    split_ifs with hi
    · refine .inr ⟨?_, rfl, hpos, hmax⟩
      rw [Ledger.terms, hi]
      exact congrArg (Option.map AssetEntry.terms) hfree
    · exact .inl rfl
  case updateAsset op =>
    obtain ⟨a, b, ha, hledger, hid, hterms, hmax, hissued⟩ := UpdateAssetOperation.evaluate_terms h
    rw [hledger, terms_update hl ha hid, hterms]
    simp only [TermsStep]
    split_ifs with hi
    · subst hi
      exact ⟨a.terms, by rw [Ledger.terms, ha]; rfl, rfl, hmax, hissued⟩
    · rfl
  case updateAssetExt op =>
    obtain ⟨a, b, ha, hledger, hid, hterms, hmax, hflags, hissued⟩ :=
      UpdateAssetExtOperation.evaluate_terms h
    rw [hledger, terms_update hl ha hid, hterms]
    simp only [TermsStep]
    split_ifs with hi
    · subst hi
      exact ⟨a.terms, by rw [Ledger.terms, ha]; rfl, rfl, hmax, hflags, hissued⟩
    · rfl
  case issueAsset op =>
    obtain ⟨a, b, ha, hledger, hid, hterms, hmore, hle⟩ := IssueAssetOperation.evaluate_terms h
    rw [hledger, terms_update hl ha hid, hterms]
    simp only [TermsStep]
    split_ifs with hi
    · subst hi
      exact ⟨a.terms, by rw [Ledger.terms, ha]; rfl, rfl, hmore, hle⟩
    · rfl

theorem termsChange_ledgerRel :
    LedgerRel P V (fun _ => True) FreeAddMonoid.of (TermsChange P) where
  refl l := .of_same .refl fun _ => rfl
  trans := .trans
  leaf _ h := Operation.evaluateLeaf_terms h
  fee h := by
    obtain ⟨-, rfl⟩ | ⟨-, a, ha, rfl⟩ := EvalState.collectFee_ok h
    · exact .of_same .refl fun _ => rfl
    · exact fun hl => TermsChange.of_same (.one (.asset _)) (terms_same hl ha rfl rfl) hl
  votes h := by
    obtain ⟨a, stats, -, -, rfl⟩ := EvalState.updateVotes_ok h
    exact .of_same (.one (.account _)) (SameAssets.terms ⟨by simp, by simp⟩)
  request s id trx :=
    .of_same ((Writes.one (.resultId _ _)).tail (.requestId _ _)) (SameAssets.terms ⟨rfl, rfl⟩)

/-- The terms of an asset in an accepted transaction. -/
theorem evaluate_terms {s s' : EvalState} {t : SignedTransaction}
    (h : evaluate P V s t = .ok s') (hl : s.st.ledger.WellKeyed P) :
    s'.st.ledger.WellKeyed P ∧
      ∀ i, TermsRun i t.leaves (s.st.ledger.terms i) (s'.st.ledger.terms i) := by
  obtain ⟨hl', hrun⟩ := termsChange_ledgerRel.evaluate (fun _ _ => trivial) h hl
  rw [weight_of] at hrun
  exact ⟨hl', hrun⟩

/-! ## Blocks -/

variable {c : ApplyConfig} {p p' : PendingChainState} {db db' db₀ : ChainDatabase}
  {clock : TimePointSec} {b : FullBlock} {pay : Paycheck}

/-- The operations of transactions, one after the other. -/
def transactionLeaves (ts : List SignedTransaction) : List Operation :=
  ts.flatMap SignedTransaction.leaves

/-- What an accepted transaction does by its operations, those of a block do by theirs. -/
theorem applyTransactions_leaves {R : List Operation → Ledger → Ledger → Prop}
    (hnil : ∀ l, R [] l l)
    (happend : ∀ {ops ops' l l₁ l'}, R ops l l₁ → R ops' l₁ l' → R (ops ++ ops') l l')
    (hstep : ∀ {s s' : EvalState} {t}, evaluate P V s t = .ok s' →
      R t.leaves s.st.ledger s'.st.ledger)
    {ts : List SignedTransaction} (h : applyTransactions P V c ts p = .ok p') :
    R (transactionLeaves ts) p.ledger p'.ledger := by
  obtain ⟨b, h⟩ := applyTransactions_ok h
  have hfrom : ∀ (us : List SignedTransaction) (n : Nat) (acc acc' : PendingChainState × Bool),
      applyTransactionsFrom P V c n us acc = .ok acc' →
      R (transactionLeaves us) acc.1.ledger acc'.1.ledger := by
    intro us
    induction us with
    | nil =>
      intro n acc acc' h
      obtain rfl := ok_eq_ok.1 h
      exact hnil _
    | cons u us ih =>
      intro n acc acc' h
      obtain ⟨q, ⟨happlied⟩, h⟩ := applyTransactionsFrom_cons h
      have hu := hstep happlied.evaluated
      rw [← happlied.ledger] at hu
      exact happend hu (ih _ _ _ h)
  exact hfrom ts 0 _ _ h

theorem applyTransactions_terms {ts : List SignedTransaction}
    (h : applyTransactions P V c ts p = .ok p') (hl : p.ledger.WellKeyed P) :
    p'.ledger.WellKeyed P ∧
      ∀ i, TermsRun i (transactionLeaves ts) (p.ledger.terms i) (p'.ledger.terms i) :=
  applyTransactions_leaves (R := fun ops l l' => TermsChange P (.ofList ops) l l')
    (fun _ => .of_same .refl fun _ => rfl) .trans evaluate_terms h hl

def ChainDatabase.terms (db : ChainDatabase) (i : AssetIdType) : Option ShareTerms :=
  (db.tables.assetIdToEntry.lookup i).map AssetEntry.terms

def ShareTerms.paid (pay : Paycheck) (t : ShareTerms) : ShareTerms :=
  { t with supply := t.supply + pay.issued - pay.destroyed }

/-- What `pay_delegate` starts from: the base asset after the transactions of a block, and the pay rate of
the delegate that signed. -/
def payBasis (N : Node) (db : ChainDatabase) (clock : TimePointSec) (b : FullBlock) :
    Except Exn (AssetEntry × Nat) := do
  let signee ← blockSignee N db b
  let l ← updateDelegateProductionInfo N db b signee (db.pending clock).ledger
  let p ← applyTransactions N.P N.V (db.applyConfig b.blockNum) b.userTransactions
    { db.pending clock with ledger := l }
  let base ← orThrow (p.ledger.getAsset 0) .fcAssert
  let delegate ← orThrow (db.tables.accountLookupByAddress (N.P.address signee)) .fcAssert
  let (_, stats) ← p.ledger.delegate delegate.id
  return (base, stats.payRate)

/-- The base asset can issue the new shares of a block, which is not checked where they are issued, and has
the fees that the block destroys. -/
structure AssetEntry.Affords (base : AssetEntry) (pay : Paycheck) : Prop where
  issued : pay.issued = 0 ∨ base.canIssue ⟨pay.issued, 0⟩ = true
  destroyed : pay.destroyed ≤ base.currentShareSupply

instance (base : AssetEntry) (pay : Paycheck) : Decidable (base.Affords pay) :=
  decidable_of_iff ((pay.issued = 0 ∨ base.canIssue ⟨pay.issued, 0⟩ = true) ∧
    pay.destroyed ≤ base.currentShareSupply) ⟨fun h => ⟨h.1, h.2⟩, fun h => ⟨h.issued, h.destroyed⟩⟩

/-- The transactions of a block are in order, and the base asset they leave affords the payment. -/
structure OrderlyBlock (N : Node) (db : ChainDatabase) (clock : TimePointSec) (b : FullBlock) : Prop where
  operations : ∀ i, Orderly i (transactionLeaves b.userTransactions) (db.terms i)
  payment : ∀ base payRate, payBasis N db clock b = .ok (base, payRate) →
    base.Affords (paycheck db.headBlockHeader.blockNum payRate base.collectedFees)

/-- An asset that affords a payment is left with a supply within its maximum. -/
theorem AssetEntry.Affords.within {base : AssetEntry} (h : base.Affords pay) (hpay : 0 ≤ pay.destroyed)
    (hbase : base.terms.Within) : (base.terms.paid pay).Within := by
  have hsupply := Int64.le_iff_toInt_le.1 hbase.supply
  have hdestroyed := Int64.le_iff_toInt_le.1 h.destroyed
  have hpositive := Int64.le_iff_toInt_le.1 hpay
  change 0 ≤ base.currentShareSupply.toInt at hsupply
  change 0 ≤ pay.destroyed.toInt at hpositive
  have hbounds := Checked.toInt_bounds base.currentShareSupply
  -- the supply before the fees are destroyed
  have hissued : base.currentShareSupply.toInt ≤ (base.currentShareSupply + pay.issued).toInt ∧
      (0 < base.maximumShareSupply →
        (base.currentShareSupply + pay.issued).toInt ≤ base.maximumShareSupply.toInt) := by
    obtain hzero | hissue := h.issued
    · rw [hzero, Int64.add_zero]
      exact ⟨le_rfl, fun hpos => Int64.le_iff_toInt_le.1 (hbase.maximum hpos).1⟩
    · simp only [canIssue, Bool.and_eq_true, decide_eq_true_eq] at hissue
      exact ⟨(Int64.lt_iff_toInt_lt.1 hissue.1.2).le, fun _ => Int64.le_iff_toInt_le.1 hissue.2⟩
  have hleft : (base.currentShareSupply + pay.issued - pay.destroyed).toInt =
      (base.currentShareSupply + pay.issued).toInt - pay.destroyed.toInt := by
    have hbounds' := Checked.toInt_bounds (base.currentShareSupply + pay.issued)
    exact Checked.toInt_sub_of_bounds (by omega) (by omega)
  refine ⟨Int64.le_iff_toInt_le.2 ?_, fun hpos => ⟨Int64.le_iff_toInt_le.2 ?_, (hbase.maximum hpos).2⟩,
    hbase.flags⟩
  · show 0 ≤ (base.currentShareSupply + pay.issued - pay.destroyed).toInt
    omega
  · have hmaximum := hissued.2 hpos
    show (base.currentShareSupply + pay.issued - pay.destroyed).toInt ≤ base.maximumShareSupply.toInt
    omega

theorem Payment.terms {signee : PublicKeyType} (h : Payment N db signee l pay l')
    (hl : l.WellKeyed N.P) (i : AssetIdType) :
    l'.terms i = if i = 0 then (l.terms 0).map (ShareTerms.paid pay) else l.terms i := by
  obtain ⟨base, _, _, _, hbase, -, -, -, -, -, rfl⟩ := h
  rw [Ledger.terms_storeAsset, hl.asset hbase]
  split_ifs with hi
  · rw [Ledger.terms, hbase]
    rfl
  · exact SameAssets.terms ⟨by simp, by simp⟩ i

/-- A block is paid from what `payBasis` finds. -/
theorem BlockEvaluated.payBasis (h : BlockEvaluated N db clock b pay p) :
    payBasis N db clock b = .ok (h.payment.base, h.payment.stats.payRate) := by
  simp only [Achain.payBasis, Ledger.delegate, h.signee_eq, ok_bind, h.production, h.transactions,
    h.payment.base_eq, h.payment.delegate_eq, h.payment.entry_eq, h.payment.stats_eq, orThrow]
  rfl

/-- The terms of the assets in a block: its transactions, then its payment. -/
theorem extendChain_terms (h : extendChain N db clock b = .ok db') (hkeyed : db.Keyed N.P) :
    ∃ (v : AssetIdType → Option ShareTerms) (base : AssetEntry) (payRate : Nat) (pay : Paycheck),
      (∀ i, TermsRun i (transactionLeaves b.userTransactions) (db.terms i) (v i)) ∧
      payBasis N db clock b = .ok (base, payRate) ∧ v 0 = some base.terms ∧
      pay = paycheck db.headBlockHeader.blockNum payRate base.collectedFees ∧ 0 ≤ pay.destroyed ∧
      ∀ i, db'.terms i = if i = 0 then some (base.terms.paid pay) else v i := by
  obtain ⟨p, hp⟩ := extendChain_ok h
  obtain ⟨pay, ⟨hblock⟩⟩ := evaluateBlock_ok hp.evaluated
  have hstatistics := updateDelegateProductionInfo_ok hblock.production
  have hkeyed' := (hkeyed.tables.pending clock).writes hstatistics.writes
  obtain ⟨hkeyed'', hrun⟩ := applyTransactions_terms hblock.transactions hkeyed'
  have hbase : hblock.applied.ledger.terms 0 = some hblock.payment.base.terms := by
    rw [Ledger.terms, hblock.payment.base_eq]
    rfl
  refine ⟨hblock.applied.ledger.terms, hblock.payment.base, hblock.payment.stats.payRate, pay,
    fun i => ?_, hblock.payBasis, hbase, hblock.payment.pay_eq, hblock.payment.destroys, fun i => ?_⟩
  · have hproduced : hblock.produced.terms i = db.terms i := hstatistics.sameAssets.terms i
    have hi := hrun i
    dsimp only at hi
    rw [hproduced] at hi
    exact hi
  · have hpaid := hblock.payment.terms hkeyed'' i
    rw [hbase, Option.map_some] at hpaid
    rw [← hpaid, ← hblock.rest.sameAssets.terms i, ChainDatabase.terms, hp.lookupAsset]
    rfl

/-- A block keeps the limits. -/
theorem extendChain_limits (h : extendChain N db clock b = .ok db') (hb : OrderlyBlock N db clock b)
    (hkeyed : db.Keyed N.P) (hdb : ∀ i, TermsWithin (db.terms i)) :
    (∀ i, TermsWithin (db'.terms i)) ∧
      ∀ i t, db.terms i = some t → ∃ t', db'.terms i = some t' ∧ t.Kept t' := by
  obtain ⟨v, base, payRate, pay, hrun, hbasis, hv, hpay, hdestroyed, hread⟩ := extendChain_terms h hkeyed
  have hoperations : ∀ i, TermsWithin (v i) ∧ TermsKept (db.terms i) (v i) :=
    fun i => (hrun i).within (hb.operations i) (hdb i)
  refine ⟨fun i => ?_, fun i t ht => ?_⟩
  · rw [hread]
    split_ifs with hi
    · intro t ht
      obtain rfl := Option.some.inj ht
      have haffords := hb.payment base payRate hbasis
      rw [← hpay] at haffords
      exact haffords.within hdestroyed ((hoperations 0).1 base.terms hv)
    · exact (hoperations i).1
  · obtain ⟨t', ht', hkept, -⟩ := (hoperations i).2 t ht
    rw [hread]
    split_ifs with hi
    · subst hi
      obtain rfl := Option.some.inj (hv.symm.trans ht')
      exact ⟨_, rfl, hkept⟩
    · exact ⟨t', ht', hkept⟩

/-! ## Runs -/

theorem genesisAssets_within (timestamp : TimePointSec) : ∀ (as : List GenesisAsset)
    (c : ChainTables) (last : AssetIdType),
    (∀ k a, c.assetIdToEntry.lookup k = some a → a.terms.Within) →
    ∀ k a, (genesisAssets timestamp c last as).1.assetIdToEntry.lookup k = some a → a.terms.Within
  | [], _, _, hc => hc
  | a :: as, c, last, hc => by
    refine genesisAssets_within timestamp as _ _ fun k e he => ?_
    rw [ChainTables.assetHooks.read_store c (last + 1) (a.entry (last + 1) timestamp) k] at he
    split_ifs at he
    · cases he
      exact ⟨Int64.le_refl 0, fun _ => ⟨show (0 : ShareType) ≤ maxShares by decide, Int64.le_refl _⟩,
        UInt32.zero_and⟩
    · exact hc k e he

/-- The sum of the balances of a genesis state. -/
def GenesisState.supply (g : GenesisState) : ShareType :=
  g.initialBalances.foldl (fun sum b => sum + b.balance) 0

theorem genesis_within {g : GenesisState} {on : Bool} (h₀ : initializeGenesis P g on = .ok db₀)
    (hsupply : 0 ≤ g.supply ∧ g.supply ≤ maxShares) (i : AssetIdType) :
    TermsWithin (db₀.terms i) := by
  obtain ⟨htables, -⟩ := initializeGenesis_ok h₀
  have hbase : ∀ k a, (genesisStages P g on).base.assetIdToEntry.lookup k = some a →
      a.terms.Within := by
    intro k a ha
    rw [(genesisStages P g on).base_eq, ChainTables.assetHooks.read_store] at ha
    split_ifs at ha
    · cases ha
      exact ⟨hsupply.1, fun _ => ⟨hsupply.2, Int64.le_refl _⟩, UInt32.zero_and⟩
    · obtain ⟨x, hx⟩ := (genesisStages P g on).delegates_only
      obtain ⟨y, hy⟩ := (genesisStages P g on).balances_only
      rw [hy, hx] at ha
      cases ha
  have hassets := genesisAssets_within g.timestamp g.marketAssets _ 0 hbase
  intro t ht
  rw [ChainDatabase.terms, htables] at ht
  obtain ⟨a, ha, rfl⟩ := Option.map_eq_some_iff.1 ht
  exact hassets i a ha

/-- Accepted blocks from the genesis state on, each in order for the state it is accepted in, and
changes outside of the chain, such as the blocks that become known. -/
inductive OrderlyRun (N : Node) (db₀ : ChainDatabase) : ChainDatabase → Prop
  | start : OrderlyRun N db₀ db₀
  | other {db db' : ChainDatabase} : OrderlyRun N db₀ db → SameChain db db' → OrderlyRun N db₀ db'
  | block {db db' : ChainDatabase} (clock : TimePointSec) (b : FullBlock) :
      OrderlyRun N db₀ db → extendChain N db clock b = .ok db' → OrderlyBlock N db clock b →
      OrderlyRun N db₀ db'

theorem OrderlyRun.within (h : OrderlyRun N db₀ db) (hkeyed : db₀.Keyed N.P)
    (h₀ : ∀ i, TermsWithin (db₀.terms i)) : db.Keyed N.P ∧ ∀ i, TermsWithin (db.terms i) := by
  induction h with
  | start => exact ⟨hkeyed, h₀⟩
  | other _ hsame ih =>
    refine ⟨ih.1.same hsame, fun i => ?_⟩
    rw [ChainDatabase.terms, hsame.tables]
    exact ih.2 i
  | block clock b _ hext hb ih =>
    exact ⟨ih.1.extend hext, (extendChain_limits hext hb ih.1 ih.2).1⟩

/-- In every run of accepted transactions and payments that are in order, every asset is within its
limits; and an accepted transaction, or a block, that is in order keeps the precision of an asset
with shares and adds no permission for it. -/
theorem asset_limits (N : Node) (g : GenesisState) (on : Bool) (db₀ db : ChainDatabase)
    (h₀ : initializeGenesis N.P g on = .ok db₀) (hsupply : 0 ≤ g.supply ∧ g.supply ≤ maxShares)
    (hrun : OrderlyRun N db₀ db) :
    (∀ i t, db.terms i = some t → t.Within) ∧
      (∀ clock skipSignatureCheck skipexec (t : SignedTransaction) s',
        evaluate N.P N.V (.init (db.pending clock) skipSignatureCheck skipexec) t = .ok s' →
        (∀ i, Orderly i t.leaves (db.terms i)) →
        ∀ i, TermsWithin (s'.st.ledger.terms i) ∧ TermsKept (db.terms i) (s'.st.ledger.terms i)) ∧
      ∀ clock b db', extendChain N db clock b = .ok db' → OrderlyBlock N db clock b →
        ∀ i t, db.terms i = some t → ∃ t', db'.terms i = some t' ∧ t.Kept t' := by
  obtain ⟨hkeyed, hwithin⟩ := hrun.within (initializeGenesis_keyed h₀) (genesis_within h₀ hsupply)
  refine ⟨fun i t ht => hwithin i t ht, ?_, ?_⟩
  · intro clock _ _ t s' h ht i
    exact ((evaluate_terms h (hkeyed.tables.pending clock)).2 i).within (ht i) (hwithin i)
  · intro clock b db' hext hb
    exact (extendChain_limits hext hb hkeyed hwithin).2

/-- The database once it knows of a block. -/
def ChainDatabase.learn (db : ChainDatabase) (id : BlockIdType) (b : FullBlock) : ChainDatabase :=
  { db with
    blockIdToFullBlock := db.blockIdToFullBlock.insert id b
    forkDb := db.forkDb.insert id .empty }

theorem ChainDatabase.learn_same (db : ChainDatabase) (id : BlockIdType) (b : FullBlock) :
    SameChain db (db.learn id b) := ⟨rfl, rfl, rfl, rfl⟩

/-- A genesis state in which key 1 can pay for an asset. -/
def fundedGenesis : GenesisState :=
  { GenesisState.plain with initialBalances := [⟨1, 300000000⟩] }

/-- A transaction of account 1 that creates an asset with a maximum of 1000, takes the limit of its
supply away, issues 500 shares and then gives it a maximum of 600. -/
def lowerMaximum : SignedTransaction :=
  { SignedTransaction.empty with
    expiration := 100
    signatures := [1]
    operations := [
      .withdraw ⟨3, 200000000, []⟩,
      .createAsset ⟨['A', 'B', 'C'], ['a'], [], 0, 1, 1000, 100000⟩,
      .updateAssetExt ⟨⟨1, none, none, none, none, none⟩, AssetEntry.supplyUnlimit, allPermissions,
        1, 0, 0, ⟨1, [1]⟩⟩,
      .issueAsset ⟨⟨500, 1⟩⟩,
      .deposit ⟨500, ⟨1, 0, .common, .signature 3 none⟩⟩,
      .updateAssetExt ⟨⟨1, none, none, none, some 600, none⟩, AssetEntry.supplyUnlimit,
        allPermissions, 1, 0, 0, ⟨1, [1]⟩⟩] }

theorem undefinedSubset_of_defined {x y : UInt32} (hx : x &&& ~~~allPermissions = 0) :
    UInt32.UndefinedSubset x y := by
  rw [UInt32.UndefinedSubset, hx]
  exact UInt32.zero_and

theorem lowerMaximum_orderly (i : AssetIdType) {v : Option ShareTerms} (hv : i = 1 → v = none) :
    Orderly i (transactionLeaves [lowerMaximum]) v := by
  have hleaves : transactionLeaves [lowerMaximum] = lowerMaximum.operations := rfl
  rw [hleaves]
  by_cases hi : i = 1
  · obtain rfl := hv hi
    subst hi
    refine ⟨trivial, fun v₁ h₁ => ⟨trivial, fun v₂ h₂ => ⟨fun _ t ht => ?_, fun v₃ h₃ => ⟨trivial,
      fun v₄ h₄ => ⟨trivial, fun v₅ h₅ => ⟨fun _ t ht => ?_, fun _ _ => trivial⟩⟩⟩⟩⟩⟩
    · exact ⟨fun _ h => absurd h nofun, undefinedSubset_of_defined (by decide),
        fun _ => undefinedSubset_of_defined (by decide)⟩
    · -- the supply is what has been issued
      obtain rfl : v₁ = none := h₁
      obtain ⟨t₄, hv₃, hv₄, -⟩ := h₄
      obtain ⟨t₃, hv₂, hv₃', -⟩ := h₃
      obtain rfl : v₅ = v₄ := h₅
      obtain rfl := Option.some.inj (hv₄.symm.trans ht)
      obtain rfl := Option.some.inj (hv₃'.symm.trans hv₃)
      obtain hnone | ⟨-, hcreated, -⟩ := h₂
      · exact absurd (hnone.symm.trans hv₂) nofun
      obtain rfl := Option.some.inj (hcreated.symm.trans hv₂)
      refine ⟨fun m hm => ?_, undefinedSubset_of_defined (by decide),
        fun _ => undefinedSubset_of_defined (by decide)⟩
      obtain rfl := Option.some.inj hm
      show (0 + 500 : ShareType) ≤ 600
      decide
  · exact ⟨trivial, fun _ _ => ⟨trivial, fun _ _ => ⟨fun h => absurd h.symm hi, fun _ _ => ⟨trivial,
      fun _ _ => ⟨trivial, fun _ _ => ⟨fun h => absurd h.symm hi, fun _ _ => trivial⟩⟩⟩⟩⟩⟩

/-- An asset is created, issued and given another maximum in the first block. -/
theorem asset_limits_after_block :
    ∃ db₀ db t, initializeGenesis Node.plain.P fundedGenesis false = .ok db₀ ∧
      OrderlyRun .plain db₀ db ∧ db.headBlockHeader.blockNum = 1 ∧ db.terms 1 = some t ∧
      t.supply = 500 ∧ t.maximum = 600 ∧ t.Within := by
  have hblock : returns (initializeGenesis Node.plain.P fundedGenesis false) (fun db₀ =>
      (db₀.terms 1).isNone &&
      returns (payBasis .plain (db₀.learn 1010 (.plain 1 0 10 [lowerMaximum])) 100
        (.plain 1 0 10 [lowerMaximum])) (fun r =>
          decide (r.1.Affords (paycheck db₀.headBlockHeader.blockNum r.2 r.1.collectedFees))) &&
      returns (extendChain .plain (db₀.learn 1010 (.plain 1 0 10 [lowerMaximum])) 100
        (.plain 1 0 10 [lowerMaximum])) fun db => db.headBlockHeader.blockNum == 1 &&
          (db.terms 1).any fun t => t.supply == 500 && t.maximum == 600) = true := by
    decide +kernel
  obtain ⟨db₀, h₀, hblock⟩ := exists_of_returns hblock
  simp only [Bool.and_eq_true, Option.isNone_iff_eq_none] at hblock
  obtain ⟨⟨hnone, hbasis⟩, hblock⟩ := hblock
  obtain ⟨r, hr, haffords⟩ := exists_of_returns hbasis
  obtain ⟨db, hext, hblock⟩ := exists_of_returns hblock
  obtain ⟨hnum, hasset⟩ := Bool.and_eq_true_iff.1 hblock
  obtain ⟨t, ht, hterms⟩ := Option.any_eq_true .. |>.1 hasset
  simp only [Bool.and_eq_true, beq_iff_eq] at hnum hterms
  have hlearn := db₀.learn_same 1010 (.plain 1 0 10 [lowerMaximum])
  have horderly : OrderlyBlock .plain (db₀.learn 1010 (.plain 1 0 10 [lowerMaximum])) 100
      (.plain 1 0 10 [lowerMaximum]) := by
    refine ⟨fun i => lowerMaximum_orderly i fun hi => hi ▸ hnone, fun base payRate hpaid => ?_⟩
    obtain rfl := ok_eq_ok.1 (hr.symm.trans hpaid)
    exact of_decide_eq_true haffords
  have hrun : OrderlyRun .plain db₀ db := .block 100 _ (.other .start hlearn) hext horderly
  exact ⟨db₀, db, t, h₀, hrun, hnum, ht, hterms.1, hterms.2,
    (asset_limits .plain fundedGenesis false db₀ db h₀ (by decide) hrun).1 1 t ht⟩

/-- A transaction of account 1 that creates an asset with a maximum of 1000, takes the limit of its
supply away, issues 500 shares and then gives it a maximum of 1. The fee is paid with shares of the
base asset that it issues first. -/
def shrinkMaximum : SignedTransaction :=
  { SignedTransaction.empty with
    expiration := 100
    signatures := [1]
    operations := [
      .updateAssetExt ⟨⟨0, none, none, none, none, none⟩, 0, 0, 1, 0, 0, ⟨0, []⟩⟩,
      .issueAsset ⟨⟨200000000, 0⟩⟩,
      .createAsset ⟨['A', 'B', 'C'], ['a'], [], 0, 1, 1000, 100000⟩,
      .updateAssetExt ⟨⟨1, none, none, none, none, none⟩, AssetEntry.supplyUnlimit, allPermissions,
        1, 0, 0, ⟨1, [1]⟩⟩,
      .issueAsset ⟨⟨500, 1⟩⟩,
      .deposit ⟨500, ⟨1, 0, .common, .signature 3 none⟩⟩,
      .updateAssetExt ⟨⟨1, none, none, none, some 1, none⟩, AssetEntry.supplyUnlimit,
        allPermissions, 1, 0, 0, ⟨1, [1]⟩⟩] }

/-- In the genesis state, the maximum of an asset can be made less than its supply. -/
theorem shrinkMaximum_accepted :
    ∃ db₀ s' a, initializeGenesis Node.plain.P .plain false = .ok db₀ ∧
      evaluate Node.plain.P Node.plain.V (.init (db₀.pending 50) false false) shrinkMaximum = .ok s' ∧
      s'.st.ledger.getAsset 1 = some a ∧ 0 < a.maximumShareSupply ∧
      a.maximumShareSupply < a.currentShareSupply := by
  have hshrink : returns (initializeGenesis Node.plain.P .plain false) (fun db =>
      returns (evaluate Node.plain.P Node.plain.V (.init (db.pending 50) false false) shrinkMaximum)
        fun s' => (s'.st.ledger.getAsset 1).any fun a =>
          0 < a.maximumShareSupply && a.maximumShareSupply < a.currentShareSupply) = true := by
    decide +kernel
  obtain ⟨db₀, h₀, hshrink⟩ := exists_of_returns hshrink
  obtain ⟨s', hs', hshrink⟩ := exists_of_returns hshrink
  obtain ⟨a, ha, hshrink⟩ := Option.any_eq_true .. |>.1 hshrink
  simp only [Bool.and_eq_true, decide_eq_true_eq] at hshrink
  exact ⟨db₀, s', a, h₀, hs', ha, hshrink.1, hshrink.2⟩

end Achain
