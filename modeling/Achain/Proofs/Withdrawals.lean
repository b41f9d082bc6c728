import Achain.Proofs.Authorization

/-!
# What the operator of a contract is made to pay from

`withdraw_enough_balances` goes through the balances offered and takes each of them whole until the
rest of the requirement fits into one. For a positive requirement it takes exactly that, and throws
only where the balances together hold less. It never looks at a requirement that is met before the
first balance: nothing required is taken as a withdrawal of nothing, which the operation that
carries it refuses, and from no balances at all it throws.
-/

namespace Achain

open Table Result

/-- What the amounts of a list of balances sum to. -/
def itemSum (items : List (BalanceIdType × ShareType)) : ℤ := (items.map fun e => e.2.toInt).sum

/-- What the amounts of a map sum to. -/
def amountSum (balances : Map BalanceIdType ShareType) : ℤ := itemSum (mapItems balances)

@[simp] theorem itemSum_nil : itemSum [] = 0 := rfl

@[simp] theorem itemSum_cons (e : BalanceIdType × ShareType)
    (items : List (BalanceIdType × ShareType)) : itemSum (e :: items) = e.2.toInt + itemSum items :=
  rfl

theorem itemSum_perm {items items' : List (BalanceIdType × ShareType)} (h : items.Perm items') :
    itemSum items = itemSum items' :=
  (h.map _).sum_eq

theorem itemSum_nonneg : ∀ {items : List (BalanceIdType × ShareType)}, (∀ e ∈ items, 0 < e.2) →
    0 ≤ itemSum items
  | [], _ => le_refl _
  | e :: items, h => by
    have he : 0 < e.2.toInt := Int64.lt_iff_toInt_lt.1 (h e (List.mem_cons_self ..))
    have hrest := itemSum_nonneg fun e' he' => h e' (List.mem_cons_of_mem _ he')
    rw [itemSum_cons]
    omega

/-! ## The loop -/

section Take

variable {items taken : List (BalanceIdType × ShareType)} {required : ShareType}

/-- What is left of a requirement larger than an amount. -/
theorem toInt_rest {a : ShareType} (ha : 0 < a) (h : ¬required ≤ a) :
    (required - a).toInt = required.toInt - a.toInt ∧ 0 < required - a := by
  have ha' : 0 < a.toInt := Int64.lt_iff_toInt_lt.1 ha
  have hlt : a.toInt < required.toInt := by
    rw [Int64.le_iff_toInt_le] at h
    omega
  have hb := Checked.toInt_bounds required
  have hsub : (required - a).toInt = required.toInt - a.toInt := by
    apply Checked.toInt_sub_of_bounds <;> omega
  refine ⟨hsub, Int64.lt_iff_toInt_lt.2 ?_⟩
  rw [hsub, Int64.toInt_zero]
  omega

/-- The balances taken are those offered first. -/
theorem takeBalances_keys : ∀ {items taken : List (BalanceIdType × ShareType)}
    {required : ShareType}, takeBalances items required = .ok taken →
      (taken.map Prod.fst).Sublist (items.map Prod.fst)
  | [], _, _, h => by simp [takeBalances] at h
  | item :: items, taken, required, h => by
    rw [takeBalances] at h
    split_ifs at h with hle
    · rw [ok_eq_ok] at h
      rw [← h]
      exact (List.nil_sublist _).cons_cons _
    · simp only [bind_eq_ok, pure_eq_ok] at h
      obtain ⟨rest, hrest, rfl⟩ := h
      exact (takeBalances_keys hrest).cons_cons _

/-- Each amount taken is positive and is at most the one offered. -/
theorem takeBalances_le : ∀ {items taken : List (BalanceIdType × ShareType)}
    {required : ShareType}, (∀ e ∈ items, 0 < e.2) → 0 < required →
      takeBalances items required = .ok taken →
      ∀ e ∈ taken, ∃ b, (e.1, b) ∈ items ∧ 0 < e.2 ∧ e.2 ≤ b
  | [], _, _, _, _, h => by simp [takeBalances] at h
  | item :: items, taken, required, hpos, hr, h => by
    have hitem := hpos item (List.mem_cons_self ..)
    rw [takeBalances] at h
    split_ifs at h with hle
    · rw [ok_eq_ok] at h
      rw [← h]
      intro e he
      rw [List.mem_singleton.1 he]
      exact ⟨item.2, List.mem_cons_self .., hr, hle⟩
    · simp only [bind_eq_ok, pure_eq_ok] at h
      obtain ⟨rest, hrest, rfl⟩ := h
      intro e he
      rcases List.mem_cons.1 he with rfl | he
      · exact ⟨_, List.mem_cons_self .., hitem, Int64.le_refl _⟩
      · obtain ⟨b, hb, he⟩ := takeBalances_le (fun e he => hpos e (List.mem_cons_of_mem _ he))
          (toInt_rest hitem hle).2 hrest e he
        exact ⟨b, List.mem_cons_of_mem _ hb, he⟩

/-- The amounts taken sum to the requirement. -/
theorem takeBalances_sum : ∀ {items taken : List (BalanceIdType × ShareType)}
    {required : ShareType}, (∀ e ∈ items, 0 < e.2) →
      takeBalances items required = .ok taken → itemSum taken = required.toInt
  | [], _, _, _, h => by simp [takeBalances] at h
  | item :: items, taken, required, hpos, h => by
    have hitem := hpos item (List.mem_cons_self ..)
    rw [takeBalances] at h
    split_ifs at h with hle
    · rw [ok_eq_ok] at h
      rw [← h, itemSum_cons, itemSum_nil, add_zero]
    · simp only [bind_eq_ok, pure_eq_ok] at h
      obtain ⟨rest, hrest, rfl⟩ := h
      have hsum := takeBalances_sum (fun e he => hpos e (List.mem_cons_of_mem _ he)) hrest
      rw [itemSum_cons, hsum, (toInt_rest hitem hle).1]
      omega

/-- The loop gets to the end of the balances only where they hold less than is required. -/
theorem takeBalances_error_iff : ∀ {items : List (BalanceIdType × ShareType)}
    {required : ShareType}, (∀ e ∈ items, 0 < e.2) → 0 < required →
      ((∃ e, takeBalances items required = .error e) ↔ itemSum items < required.toInt)
  | [], required, _, hr => by
    have hr' : 0 < required.toInt := Int64.lt_iff_toInt_lt.1 hr
    exact ⟨fun _ => hr', fun _ => ⟨_, rfl⟩⟩
  | item :: items, required, hpos, hr => by
    have hitem := hpos item (List.mem_cons_self ..)
    have hrest : ∀ e ∈ items, 0 < e.2 := fun e he => hpos e (List.mem_cons_of_mem _ he)
    rw [takeBalances, itemSum_cons]
    split_ifs with hle
    · have hnonneg := itemSum_nonneg hrest
      rw [Int64.le_iff_toInt_le] at hle
      constructor
      · rintro ⟨e, he⟩
        simp at he
      · intro hlt
        omega
    · obtain ⟨hsub, hpos'⟩ := toInt_rest hitem hle
      have ih := takeBalances_error_iff hrest hpos'
      rw [hsub] at ih
      have hbind : (∃ e, (do
          let rest ← takeBalances items (required - item.2)
          return item :: rest : Except Exn _) = .error e) ↔
            ∃ e, takeBalances items (required - item.2) = .error e := by
        cases takeBalances items (required - item.2) with
        | ok rest => simp [pure, Except.pure]
        | error e => simp
      rw [hbind, ih]
      omega

end Take

/-! ## The map of what is taken -/

theorem mem_mapItems {K V : Type} [DecidableEq K] {m : Map K V} {k : K} {v : V} :
    (k, v) ∈ mapItems m ↔ m.lookup k = some v := by
  rw [← Option.mem_def, AList.mem_lookup_iff, mapItems, List.mem_map]
  constructor
  · rintro ⟨e, he, heq⟩
    cases heq
    exact he
  · intro h
    exact ⟨_, h, rfl⟩

/-- Items of distinct new keys are entered one before the other. -/
theorem mapItems_foldl_insert {K V : Type} [DecidableEq K] : ∀ {items : List (K × V)}
    {m : Map K V}, (items.map Prod.fst).Nodup → (∀ e ∈ items, e.1 ∉ m) →
      mapItems (items.foldl (fun m e => m.insert e.1 e.2) m) = items.reverse ++ mapItems m
  | [], _, _, _ => rfl
  | e :: items, m, hnodup, hnew => by
    rw [List.map_cons, List.nodup_cons] at hnodup
    have he : e.1 ∉ m := hnew e (List.mem_cons_self ..)
    have hitems : mapItems (m.insert e.1 e.2) = e :: mapItems m := by
      rw [mapItems, AList.entries_insert_of_notMem he]
      rfl
    rw [List.foldl_cons, mapItems_foldl_insert hnodup.2, hitems, List.reverse_cons,
      List.append_assoc]
    · rfl
    · intro e' he'
      rw [AList.mem_insert, not_or]
      refine ⟨?_, hnew e' (List.mem_cons_of_mem _ he')⟩
      intro heq
      exact hnodup.1 (heq ▸ List.mem_map_of_mem he')

variable {balances : Map BalanceIdType ShareType} {required : ShareType}
  {op : BalancesWithdrawOperation}

/-- A withdrawal lists what the loop took. -/
theorem withdrawEnoughBalances_eq_ok (h : withdrawEnoughBalances balances required = .ok op) :
    ∃ taken, takeBalances (mapItems balances) required = .ok taken ∧
      (mapItems op.balances).Perm taken := by
  rw [withdrawEnoughBalances] at h
  simp only [bind_eq_ok, pure_eq_ok] at h
  obtain ⟨taken, htaken, rfl⟩ := h
  refine ⟨taken, htaken, ?_⟩
  have hkeys : ((mapItems balances).map Prod.fst).Nodup := by
    rw [mapItems, List.map_map]
    exact balances.nodupKeys
  have hitems := mapItems_foldl_insert (m := ∅) ((takeBalances_keys htaken).nodup hkeys)
    (fun e _ => AList.notMem_empty e.1)
  show (mapItems (taken.foldl (fun m e => m.insert e.1 e.2) ∅)).Perm taken
  rw [hitems]
  exact (List.append_nil taken.reverse).symm ▸ List.reverse_perm taken

theorem withdrawEnoughBalances_error :
    (∃ e, withdrawEnoughBalances balances required = .error e) ↔
      ∃ e, takeBalances (mapItems balances) required = .error e := by
  rw [withdrawEnoughBalances]
  cases takeBalances (mapItems balances) required with
  | ok taken => simp [pure, Except.pure]
  | error e => simp

/-- What is required is taken from the balances offered, a positive amount from each and no more
than it has. -/
structure TakesExactly (balances : Map BalanceIdType ShareType) (required : ShareType)
    (op : BalancesWithdrawOperation) : Prop where
  offered : ∀ id a, op.balances.lookup id = some a →
    ∃ b, balances.lookup id = some b ∧ 0 < a ∧ a ≤ b
  sum : amountSum op.balances = required.toInt

/-- What `withdraw_enough_balances` is for: it takes exactly what is required, and throws only if
the balances hold less. -/
def WithdrawsEnough (balances : Map BalanceIdType ShareType) (required : ShareType) : Prop :=
  (∀ op, withdrawEnoughBalances balances required = .ok op → TakesExactly balances required op) ∧
    ((∃ e, withdrawEnoughBalances balances required = .error e) ↔
      amountSum balances < required.toInt)

theorem takesExactly_of_pos (hpos : ∀ id a, balances.lookup id = some a → 0 < a)
    (hr : 0 < required) (h : withdrawEnoughBalances balances required = .ok op) :
    TakesExactly balances required op := by
  have hitems : ∀ e ∈ mapItems balances, 0 < e.2 := fun e he => hpos e.1 e.2 (mem_mapItems.1 he)
  obtain ⟨taken, htaken, hperm⟩ := withdrawEnoughBalances_eq_ok h
  refine ⟨fun id a ha => ?_, ?_⟩
  · have hmem : (id, a) ∈ taken := hperm.mem_iff.1 (mem_mapItems.2 ha)
    obtain ⟨b, hb, hle⟩ := takeBalances_le hitems hr htaken _ hmem
    exact ⟨b, mem_mapItems.1 hb, hle⟩
  · rw [amountSum, itemSum_perm hperm]
    exact takeBalances_sum hitems htaken

/-- Where nothing is required the first balance is still withdrawn from, with an amount of zero. -/
theorem takeBalances_zero {item : BalanceIdType × ShareType}
    {items : List (BalanceIdType × ShareType)} (h : 0 < item.2) :
    takeBalances (item :: items) 0 = .ok [(item.1, 0)] := by
  rw [takeBalances, if_pos (Int64.le_of_lt h)]

/-- `withdraw_enough_balances` keeps its promise exactly for a positive requirement. -/
theorem withdrawsEnough_iff (balances : Map BalanceIdType ShareType) (required : ShareType)
    (hpos : ∀ id a, balances.lookup id = some a → 0 < a) (hr : 0 ≤ required) :
    WithdrawsEnough balances required ↔ 0 < required := by
  have hitems : ∀ e ∈ mapItems balances, 0 < e.2 := fun e he => hpos e.1 e.2 (mem_mapItems.1 he)
  constructor
  · rintro ⟨hexact, herror⟩
    by_contra hnot
    have hzero : required = 0 := Int64.le_antisymm (Int64.not_lt.1 hnot) hr
    subst hzero
    cases hbal : mapItems balances with
    | nil =>
      have hthrows : ∃ e, withdrawEnoughBalances balances 0 = .error e := by
        rw [withdrawEnoughBalances_error, hbal]
        exact ⟨_, rfl⟩
      have hlt := herror.1 hthrows
      rw [amountSum, hbal, itemSum_nil, Int64.toInt_zero] at hlt
      exact lt_irrefl _ hlt
    | cons item items =>
      have hitem : 0 < item.2 := hitems item (hbal ▸ List.mem_cons_self ..)
      have htake : takeBalances (item :: items) 0 = _ := takeBalances_zero hitem
      have hok : withdrawEnoughBalances balances 0 =
          .ok ⟨[(item.1, (0 : ShareType))].foldl (fun m e => m.insert e.1 e.2) ∅⟩ := by
        rw [withdrawEnoughBalances, hbal, htake]
        rfl
      obtain ⟨b, -, hlt, -⟩ := (hexact _ hok).offered item.1 0 (AList.lookup_insert _)
      exact Int64.lt_irrefl hlt
  · intro hlt
    refine ⟨fun op h => takesExactly_of_pos hpos hlt h, ?_⟩
    rw [withdrawEnoughBalances_error]
    exact takeBalances_error_iff hitems hlt

/-- Three shares of a balance of two and one of five. -/
theorem withdrawsEnough_three :
    WithdrawsEnough (((∅ : Map BalanceIdType ShareType).insert 9 5).insert 7 2) 3 := by
  refine (withdrawsEnough_iff _ 3 (fun id a h => ?_) (by decide)).2 (by decide)
  by_cases hid : id = 7
  · subst hid
    rw [AList.lookup_insert] at h
    exact Option.some.inj h ▸ by decide
  · rw [AList.lookup_insert_ne hid] at h
    by_cases hid' : id = 9
    · subst hid'
      rw [AList.lookup_insert] at h
      exact Option.some.inj h ▸ by decide
    · rw [AList.lookup_insert_ne hid'] at h
      cases h

/-- One balance with five shares. -/
theorem fiveShares_pos (id : BalanceIdType) (a : ShareType)
    (h : ((∅ : Map BalanceIdType ShareType).insert 7 5).lookup id = some a) : 0 < a := by
  by_cases hid : id = 7
  · subst hid
    rw [AList.lookup_insert] at h
    exact Option.some.inj h ▸ by decide
  · rw [AList.lookup_insert_ne hid] at h
    simp at h

/-- Nothing required of a balance with five shares is taken as a withdrawal of zero from it. -/
theorem withdraws_nothing :
    ¬∀ (balances : Map BalanceIdType ShareType) (required : ShareType),
      (∀ id a, balances.lookup id = some a → 0 < a) → 0 ≤ required →
        WithdrawsEnough balances required := by
  intro h
  have hok : withdrawEnoughBalances ((∅ : Map BalanceIdType ShareType).insert 7 5) 0 =
      .ok ⟨(∅ : Map BalanceIdType ShareType).insert 7 0⟩ := rfl
  obtain ⟨hexact, -⟩ := h _ 0 fiveShares_pos (by decide)
  obtain ⟨b, -, hlt, -⟩ := (hexact _ hok).offered 7 0 rfl
  exact absurd hlt (by decide)

end Achain
