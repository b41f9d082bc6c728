import Achain.Proofs.Forms

/-!
# The signatures an operation asks for

With its signature checks switched off an operation does what it does with them on, whenever the
signatures it asks for are there; and with them on it does nothing else. What it asks for is read
off the entries it names: the owners of a balance or the authority of its asset, the keys of an
account, the owner of a contract.
-/

namespace Achain

open Table Result

variable {P : Primitives} {V : Vm}

/-- The context with other signatures. -/
def OpContext.signedBy (ctx : OpContext) (signed : Address → Bool) : OpContext :=
  { ctx with checkSignature := signed }

/-- The context in which every signature is taken for granted. -/
def OpContext.unchecked (ctx : OpContext) : OpContext := ctx.signedBy fun _ => true

/-! ## What is asked for -/

section Authorized

variable (P : Primitives) (ctx : OpContext)

/-- Whether a balance may be spent on a contract by its operator. -/
def itemAuthorized (l : Ledger) (operator : Address) (item : BalanceIdType × ShareType) : Bool :=
  (l.getBalance item.1).all fun e => (l.getAsset e.assetId).all fun asset =>
    (ctx.authorizeOperator operator asset e).isOk

/-- Whether the operator may spend the balances offered. -/
def balancesAuthorized (l : Ledger) (balances : Map BalanceIdType ShareType)
    (operator : PublicKeyType) : Bool :=
  ctx.checkSignature (P.address operator) &&
    (mapItems balances).all (itemAuthorized ctx l (P.address operator))

/-- The same for the balances of a result, each at the state the ones before it lead to. -/
def itemsAuthorized : List (BalanceIdType × ShareType) → OpState → Bool
  | [], _ => true
  | item :: items, s =>
    itemAuthorized ctx s.ledger (P.address s.contractOperator) item &&
      match BalancesWithdrawOperation.withdrawOne P ctx.unchecked s item with
      | .ok s => itemsAuthorized items s
      | .error _ => true

/-- Whether the signatures an operation asks for are there. -/
def Operation.authorized (s : OpState) : Operation → Bool
  | .withdraw op =>
    (s.ledger.getBalance op.balanceId).all fun e => (s.ledger.getAsset e.assetId).all fun asset =>
      (ctx.authorizeWithdraw asset e).isOk
  | .updateAccount op => (s.ledger.getAccount op.accountId).all (ctx.authorizeUpdate P op)
  | .withdrawPay op => (s.ledger.getAccount op.accountId.natAbs).all (ctx.accountHasSigned P)
  | .updateAsset op => (s.ledger.getAsset op.assetId).all (ctx.verifyAuthority ·.authority)
  | .updateAssetExt op => (s.ledger.getAsset op.assetId).all (ctx.verifyAuthority ·.authority)
  | .issueAsset op => (s.ledger.getAsset op.amount.assetId).all (ctx.verifyAuthority ·.authority)
  | .registerContract op => balancesAuthorized P ctx s.ledger op.balances op.owner
  | .upgradeContract op =>
    (s.ledger.getContract op.id).all (balancesAuthorized P ctx s.ledger op.balances ·.owner)
  | .destroyContract op =>
    (s.ledger.getContract op.id).all (balancesAuthorized P ctx s.ledger op.balances ·.owner)
  | .callContract op => balancesAuthorized P ctx s.ledger op.balances op.caller
  | .transferContract op => balancesAuthorized P ctx s.ledger op.balances op.from'
  | .balancesWithdraw op =>
    ctx.checkSignature (P.address s.contractOperator) &&
      itemsAuthorized P ctx (mapItems op.balances) s
  | _ => true

end Authorized

/-! ## Checked and unchecked operations -/

section Leaf

variable {ctx : OpContext} {s s' : OpState} {signed : Address → Bool}

theorem gated_isOk {x : Except Exn Unit} : Gated x.isOk x () := by
  cases x with
  | ok _ => rfl
  | error e => exact ⟨e, rfl⟩

theorem WithdrawOperation.evaluate_gated {op : WithdrawOperation}
    (h : op.evaluate P ctx.unchecked s = .ok s') :
    Gated ((Operation.withdraw op).authorized P (ctx.signedBy signed) s)
      (op.evaluate P (ctx.signedBy signed) s) s' := by
  simp only [evaluate, bind_eq_ok, ensure_eq_ok, orThrow_eq_ok, exists_const] at h
  obtain ⟨hpos, e, he, hfunds, asset, hasset, _, -, s₁, h₁, b, hb, s₂, h₂, hs'⟩ := h
  simp only [Operation.authorized, evaluate, hpos, he, hfunds, hasset, Option.all_some, ensure_true,
    orThrow_some, ok_bind]
  refine gated_isOk.bind_ok ?_
  simp only [h₁, hb, h₂, ok_bind]
  exact hs'

theorem UpdateAccountOperation.evaluate_gated {op : UpdateAccountOperation}
    (h : op.evaluate P ctx.unchecked s = .ok s') :
    Gated ((Operation.updateAccount op).authorized P (ctx.signedBy signed) s)
      (op.evaluate P (ctx.signedBy signed) s) s' := by
  simp only [evaluate, bind_eq_ok, ensure_eq_ok, orThrow_eq_ok, exists_const, Prod.exists] at h
  obtain ⟨e, he, hret, _, hkey, -, hnow, info, fee, hinfo, required, hrequired, hs'⟩ := h
  simp only [Operation.authorized, evaluate, he, hret, hkey, Option.all_some, ensure_true,
    orThrow_some, ok_bind]
  refine gated_ensure.bind_ok ?_
  simp only [hnow, hinfo, hrequired, ensure_true, ok_bind]
  exact hs'

theorem WithdrawPayOperation.evaluate_gated {op : WithdrawPayOperation}
    (h : op.evaluate P ctx.unchecked s = .ok s') :
    Gated ((Operation.withdrawPay op).authorized P (ctx.signedBy signed) s)
      (op.evaluate P (ctx.signedBy signed) s) s' := by
  simp only [evaluate, bind_eq_ok, ensure_eq_ok, orThrow_eq_ok, exists_const] at h
  obtain ⟨hpos, e, he, stats, hstats, hfunds, -, pay, hpay, votes, hvotes, s₁, h₁, hs'⟩ := h
  simp only [Operation.authorized, evaluate, hpos, he, hstats, hfunds, Option.all_some, ensure_true,
    orThrow_some, ok_bind]
  refine gated_ensure.bind_ok ?_
  simp only [hpay, hvotes, h₁, ok_bind]
  exact hs'

theorem UpdateAssetOperation.evaluate_gated {op : UpdateAssetOperation}
    (h : op.evaluate ctx.unchecked s = .ok s') :
    Gated ((Operation.updateAsset op).authorized P (ctx.signedBy signed) s)
      (op.evaluate (ctx.signedBy signed) s) s' := by
  simp only [evaluate, bind_eq_ok, ensure_eq_ok, orThrow_eq_ok, exists_const] at h
  obtain ⟨asset, hasset, hset, hissued, -, asset', hasset', hs'⟩ := h
  simp only [Operation.authorized, evaluate, hasset, hset, hissued, Option.all_some, ensure_true,
    orThrow_some, ok_bind]
  refine gated_ensure.bind_ok ?_
  simp only [hasset', ok_bind]
  exact hs'

theorem UpdateAssetExtOperation.evaluate_gated {op : UpdateAssetExtOperation}
    (h : op.evaluate ctx.unchecked s = .ok s') :
    Gated ((Operation.updateAssetExt op).authorized P (ctx.signedBy signed) s)
      (op.evaluate (ctx.signedBy signed) s) s' := by
  simp only [evaluate, bind_eq_ok, ensure_eq_ok, orThrow_eq_ok, exists_const] at h
  obtain ⟨asset, hasset, h₁, h₂, -, asset', hasset', h₃, h₄, h₅, h₆, hs'⟩ := h
  simp only [Operation.authorized, evaluate, hasset, h₁, h₂, Option.all_some, ensure_true,
    orThrow_some, ok_bind]
  refine gated_ensure.bind_ok ?_
  simp only [hasset', h₃, h₄, h₅, h₆, ensure_true, ok_bind]
  exact hs'

theorem IssueAssetOperation.evaluate_gated {op : IssueAssetOperation}
    (h : op.evaluate ctx.unchecked s = .ok s') :
    Gated ((Operation.issueAsset op).authorized P (ctx.signedBy signed) s)
      (op.evaluate (ctx.signedBy signed) s) s' := by
  simp only [evaluate, bind_eq_ok, ensure_eq_ok, orThrow_eq_ok, exists_const] at h
  obtain ⟨asset, hasset, huser, -, hpos, hissue, s₁, h₁, hs'⟩ := h
  simp only [Operation.authorized, evaluate, hasset, huser, Option.all_some, ensure_true,
    orThrow_some, ok_bind]
  refine gated_ensure.bind_ok ?_
  simp only [hpos, hissue, h₁, ensure_true, ok_bind]
  exact hs'

/-! ### Contract operations -/

theorem checkBalance_gated {l : Ledger} {operator : Address} {sum sum' : ShareType}
    {item : BalanceIdType × ShareType}
    (h : checkBalance ctx.unchecked l operator sum item = .ok sum') :
    Gated (itemAuthorized (ctx.signedBy signed) l operator item)
      (checkBalance (ctx.signedBy signed) l operator sum item) sum' := by
  simp only [checkBalance, bind_eq_ok, ensure_eq_ok, orThrow_eq_ok, exists_const] at h
  obtain ⟨hpos, e, he, hzero, hfunds, asset, hasset, _, -, hsum⟩ := h
  simp only [itemAuthorized, checkBalance, hpos, he, hzero, hfunds, hasset, Option.all_some,
    ensure_true, orThrow_some, ok_bind]
  exact gated_isOk.bind_ok hsum

theorem checkBalances_gated {l : Ledger} {operator : Address} :
    ∀ {items : List (BalanceIdType × ShareType)} {sum sum' : ShareType},
      items.foldlM (checkBalance ctx.unchecked l operator) sum = .ok sum' →
      Gated (items.all (itemAuthorized (ctx.signedBy signed) l operator))
        (items.foldlM (checkBalance (ctx.signedBy signed) l operator) sum) sum'
  | [], _, _, h => h
  | item :: items, sum, sum', h => by
    rw [List.foldlM_cons, bind_eq_ok] at h
    obtain ⟨sum₁, h₁, h₂⟩ := h
    rw [List.foldlM_cons, List.all_cons]
    exact (checkBalance_gated h₁).bind (checkBalances_gated h₂)

theorem balancesAuthorized_gated {α : Type} {l : Ledger} {balances : Map BalanceIdType ShareType}
    {operator : PublicKeyType} {all : ShareType} {e : Exn} {k : ShareType → Except Exn α} {a : α}
    (h : checkBalances ctx.unchecked l balances (P.address operator) = .ok all)
    (hk : k all = .ok a) :
    Gated (balancesAuthorized P (ctx.signedBy signed) l balances operator)
      (ensure ((ctx.signedBy signed).checkSignature (P.address operator)) e >>= fun _ =>
        checkBalances (ctx.signedBy signed) l balances (P.address operator) >>= k) a :=
  gated_ensure.bind ((checkBalances_gated h).bind_ok hk)

theorem RegisterContractOperation.evaluate_gated {op : RegisterContractOperation}
    (h : op.evaluate P V ctx.unchecked s = .ok s') :
    Gated ((Operation.registerContract op).authorized P (ctx.signedBy signed) s)
      (op.evaluate P V (ctx.signedBy signed) s) s' := by
  rw [evaluate, bind_eq_ok] at h
  obtain ⟨u, hcheck, hrest⟩ := h
  refine Gated.bind_ok (a := u) ?_ hrest
  simp only [check, bind_eq_ok, ensure_eq_ok, exists_const] at hcheck
  obtain ⟨h₁, h₂, h₃, h₄, -, all, hall, hcheck⟩ := hcheck
  have h₃ : (!(ctx.signedBy signed).evaluateContractResult) = true := h₃
  simp only [check, h₁, h₂, h₃, h₄, ensure_true, ok_bind]
  exact balancesAuthorized_gated hall
    (by simpa only [bind_eq_ok, ensure_eq_ok, exists_const] using hcheck)

theorem UpgradeContractOperation.evaluate_gated {op : UpgradeContractOperation}
    (h : op.evaluate P V ctx.unchecked s = .ok s') :
    Gated ((Operation.upgradeContract op).authorized P (ctx.signedBy signed) s)
      (op.evaluate P V (ctx.signedBy signed) s) s' := by
  rw [evaluate, bind_eq_ok] at h
  obtain ⟨u, hcheck, hrest⟩ := h
  refine Gated.bind_ok (a := u) ?_ hrest
  simp only [check, bind_eq_ok, ensure_eq_ok, orThrow_eq_ok, exists_const] at hcheck
  obtain ⟨h₁, h₂, e, he, h₃, h₄, h₅, h₆, h₇, -, margin, hmargin, all, hall, hu⟩ := hcheck
  have h₂ : (!(ctx.signedBy signed).evaluateContractResult) = true := h₂
  simp only [Operation.authorized, check, h₁, h₂, he, h₃, h₄, h₅, h₆, h₇, hmargin, Option.all_some,
    ensure_true, orThrow_some, ok_bind]
  exact balancesAuthorized_gated hall hu

theorem DestroyContractOperation.evaluate_gated {op : DestroyContractOperation}
    (h : op.evaluate P V ctx.unchecked s = .ok s') :
    Gated ((Operation.destroyContract op).authorized P (ctx.signedBy signed) s)
      (op.evaluate P V (ctx.signedBy signed) s) s' := by
  rw [evaluate, bind_eq_ok] at h
  obtain ⟨u, hcheck, hrest⟩ := h
  refine Gated.bind_ok (a := u) ?_ hrest
  simp only [check, bind_eq_ok, ensure_eq_ok, orThrow_eq_ok, exists_const] at hcheck
  obtain ⟨h₁, h₂, e, he, h₃, h₄, -, margin, hmargin, all, hall, hu⟩ := hcheck
  have h₂ : (!(ctx.signedBy signed).evaluateContractResult) = true := h₂
  simp only [Operation.authorized, check, h₁, h₂, he, h₃, h₄, hmargin, Option.all_some,
    ensure_true, orThrow_some, ok_bind]
  exact balancesAuthorized_gated hall hu

theorem CallContractOperation.evaluate_gated {op : CallContractOperation}
    (h : op.evaluate P V ctx.unchecked s = .ok s') :
    Gated ((Operation.callContract op).authorized P (ctx.signedBy signed) s)
      (op.evaluate P V (ctx.signedBy signed) s) s' := by
  rw [evaluate, bind_eq_ok] at h
  obtain ⟨u, hcheck, hrest⟩ := h
  refine Gated.bind_ok (a := u) ?_ hrest
  simp only [check, bind_eq_ok, ensure_eq_ok, orThrow_eq_ok, exists_const] at hcheck
  obtain ⟨h₁, h₂, h₃, e, he, h₄, h₅, h₆, h₇, -, all, hall, hcheck⟩ := hcheck
  have h₃ : (!(ctx.signedBy signed).evaluateContractResult) = true := h₃
  simp only [Operation.authorized, check, h₁, h₂, h₃, he, h₄, h₅, h₆, h₇, ensure_true,
    orThrow_some, ok_bind]
  exact balancesAuthorized_gated hall
    (by simpa only [bind_eq_ok, ensure_eq_ok, exists_const] using hcheck)

theorem TransferContractOperation.evaluate_gated {op : TransferContractOperation}
    (h : op.evaluate P V ctx.unchecked s = .ok s') :
    Gated ((Operation.transferContract op).authorized P (ctx.signedBy signed) s)
      (op.evaluate P V (ctx.signedBy signed) s) s' := by
  rw [evaluate, bind_eq_ok] at h
  obtain ⟨u, hcheck, hrest⟩ := h
  refine Gated.bind_ok (a := u) ?_ hrest
  simp only [check, bind_eq_ok, ensure_eq_ok, orThrow_eq_ok, exists_const] at hcheck
  obtain ⟨h₁, h₂, e, he, h₃, -, h₄, h₅, h₆, h₇, all, hall, hcheck⟩ := hcheck
  have h₂ : (!(ctx.signedBy signed).evaluateContractResult) = true := h₂
  simp only [Operation.authorized, check, h₁, h₂, he, h₃, h₄, h₅, h₆, h₇, ensure_true,
    orThrow_some, ok_bind]
  exact gated_ensure.bind ((checkBalances_gated hall).bind_ok
    (by simpa only [bind_eq_ok, ensure_eq_ok, exists_const] using hcheck))

theorem BalancesWithdrawOperation.withdrawOne_gated {item : BalanceIdType × ShareType}
    (h : withdrawOne P ctx.unchecked s item = .ok s') :
    Gated (itemAuthorized (ctx.signedBy signed) s.ledger (P.address s.contractOperator) item)
      (withdrawOne P (ctx.signedBy signed) s item) s' := by
  simp only [withdrawOne, bind_eq_ok, ensure_eq_ok, orThrow_eq_ok, exists_const] at h
  obtain ⟨h₁, e, he, h₂, h₃, asset, hasset, _, -, s₁, hs₁, s₂, hs₂, hs'⟩ := h
  simp only [itemAuthorized, withdrawOne, h₁, he, h₂, h₃, hasset, Option.all_some, ensure_true,
    orThrow_some, ok_bind]
  refine gated_isOk.bind_ok ?_
  simp only [hs₁, hs₂, ok_bind]
  exact hs'

theorem BalancesWithdrawOperation.items_gated :
    ∀ {items : List (BalanceIdType × ShareType)} {s s' : OpState},
      items.foldlM (withdrawOne P ctx.unchecked) s = .ok s' →
      Gated (itemsAuthorized P (ctx.signedBy signed) items s)
        (items.foldlM (withdrawOne P (ctx.signedBy signed)) s) s'
  | [], _, _, h => h
  | item :: items, s, s', h => by
    rw [List.foldlM_cons, bind_eq_ok] at h
    obtain ⟨s₁, h₁, h₂⟩ := h
    have hnext : withdrawOne P (ctx.signedBy signed).unchecked s item = .ok s₁ := h₁
    rw [List.foldlM_cons, itemsAuthorized, hnext]
    exact (withdrawOne_gated h₁).bind (items_gated h₂)

theorem BalancesWithdrawOperation.evaluate_gated {op : BalancesWithdrawOperation}
    (h : op.evaluate P ctx.unchecked s = .ok s') :
    Gated ((Operation.balancesWithdraw op).authorized P (ctx.signedBy signed) s)
      (op.evaluate P (ctx.signedBy signed) s) s' := by
  simp only [evaluate, bind_eq_ok, ensure_eq_ok, exists_const] at h
  obtain ⟨h₁, -, hitems⟩ := h
  have h₁ : (ctx.signedBy signed).evaluateContractResult = true := h₁
  simp only [Operation.authorized, evaluate, h₁, ensure_true, ok_bind]
  exact gated_ensure.bind (items_gated hitems)

/-- With the signatures checked an operation does what it does without, if those it asks for are
there, and throws if not. -/
theorem Operation.evaluateLeaf_gated {op : Operation}
    (h : op.evaluateLeaf P V ctx.unchecked s = .ok s') :
    Gated (op.authorized P (ctx.signedBy signed) s)
      (op.evaluateLeaf P V (ctx.signedBy signed) s) s' := by
  cases op
  case withdraw op => exact WithdrawOperation.evaluate_gated h
  case updateAccount op => exact UpdateAccountOperation.evaluate_gated h
  case withdrawPay op => exact WithdrawPayOperation.evaluate_gated h
  case updateAsset op => exact UpdateAssetOperation.evaluate_gated h
  case updateAssetExt op => exact UpdateAssetExtOperation.evaluate_gated h
  case issueAsset op => exact IssueAssetOperation.evaluate_gated h
  case registerContract op => exact RegisterContractOperation.evaluate_gated h
  case upgradeContract op => exact UpgradeContractOperation.evaluate_gated h
  case destroyContract op => exact DestroyContractOperation.evaluate_gated h
  case callContract op => exact CallContractOperation.evaluate_gated h
  case transferContract op => exact TransferContractOperation.evaluate_gated h
  case balancesWithdraw op => exact BalancesWithdrawOperation.evaluate_gated h
  all_goals exact gated_true h

end Leaf

end Achain
