import Achain.AlpIndexes
import Achain.Lib.Traces

/-!
# The records of the ALP indexes

The records that are kept are those inserted and not erased since, told apart by their transaction ids. A
set that compares block numbers keeps them as long as two records of an account are of one block exactly if
they are of one transaction, and the full entries as long as a record is erased with the block number that
it was inserted with.
-/

namespace Achain

open Table ByKey

/-! ## What is to be kept -/

/-- The records kept in the two indexes, by account. -/
structure AlpRecords where
  balance : Str → List AlpTrxidBalance
  full : Str → List AlpTrxidBalance

namespace AlpRecords

def empty : AlpRecords := ⟨fun _ => [], fun _ => []⟩

/-- A record is inserted unless there is one of its transaction. -/
def insert (r : AlpTrxidBalance) (l : List AlpTrxidBalance) : List AlpTrxidBalance :=
  if ∃ k ∈ l, k.trxId = r.trxId then l else r :: l

/-- The record of a transaction is erased. -/
def erase (r : AlpTrxidBalance) (l : List AlpTrxidBalance) : List AlpTrxidBalance :=
  l.filter fun k => decide (k.trxId ≠ r.trxId)

def step (s : AlpRecords) : AlpCall → AlpRecords
  | .insertToBalance a r => { s with balance := Function.update s.balance a (insert r (s.balance a)) }
  | .eraseFromBalance a r => { s with balance := Function.update s.balance a (erase r (s.balance a)) }
  | .insertToFullEntry a r => { s with full := Function.update s.full a (insert r (s.full a)) }
  | .eraseFromFullEntry a r => { s with full := Function.update s.full a (erase r (s.full a)) }

/-- The condition under which a call does what it is meant to. -/
def Meets (s : AlpRecords) : AlpCall → Prop
  | .insertToBalance a r =>
    (∃ k ∈ s.balance a, k.blockNum = r.blockNum) ↔ ∃ k ∈ s.balance a, k.trxId = r.trxId
  | .eraseFromBalance a r => ∀ k ∈ s.balance a, k.blockNum = r.blockNum ↔ k.trxId = r.trxId
  | .insertToFullEntry _ _ => True
  | .eraseFromFullEntry a r => ∀ k ∈ s.full a, k.trxId = r.trxId → k.blockNum = r.blockNum

end AlpRecords

namespace AlpIndexes

variable (db : AlpIndexes) (a b : Str) (r : AlpTrxidBalance)

/-! ## What the indexes hold -/

/-- The records of an account in `_alp_input_balance_entry`. -/
def balanceOf : List AlpTrxidBalance :=
  ((db.alpInputBalanceEntry.lookup a).getD .empty).entries

/-- The entry of an account in `_alp_full_entry`. -/
def fullOf : AlpBalanceEntry := (db.alpFullEntry.lookup a).getD .empty

/-- The indexes hold what is to be kept, and the ids are those of the records. -/
structure Holds (db : AlpIndexes) (s : AlpRecords) : Prop where
  balance : ∀ a, (db.balanceOf a).Perm (s.balance a)
  full : ∀ a, (db.fullOf a).alpBlockSort.entries.Perm (s.full a)
  ids : ∀ a id, id ∈ (db.fullOf a).alpTrxidSort ↔ ∃ k ∈ s.full a, k.trxId = id

theorem holds_empty : empty.Holds .empty where
  balance _ := .refl _
  full _ := .refl _
  ids a id := by simp [fullOf, empty, AlpBalanceEntry.empty, AlpRecords.empty]

theorem balanceOf_insert : (db.transactionInsertToAlpBalance a r).balanceOf b =
    if b = a then (((db.alpInputBalanceEntry.lookup a).getD .empty).insert r).entries
    else db.balanceOf b := by
  rw [balanceOf, transactionInsertToAlpBalance]
  by_cases hb : b = a
  · rw [if_pos hb, hb, AList.lookup_insert]
    rfl
  · rw [if_neg hb, AList.lookup_insert_ne hb]
    rfl

theorem balanceOf_erase : (db.transactionEraseFromAlpBalance a r).balanceOf b =
    if b = a then (db.balanceOf a).filter fun k => decide (k.blockNum ≠ r.blockNum)
    else db.balanceOf b := by
  have hof : db.balanceOf a = ((db.alpInputBalanceEntry.lookup a).getD .empty).entries := rfl
  rw [transactionEraseFromAlpBalance, hof]
  cases hids : db.alpInputBalanceEntry.lookup a with
  | none =>
    by_cases hb : b = a
    · rw [if_pos hb, hb, balanceOf, hids]
      rfl
    · rw [if_neg hb]
  | some ids =>
    dsimp only
    split_ifs with hnil hb hb
    · rw [balanceOf, hb, AList.lookup_erase]
      exact hnil.symm
    · rw [balanceOf, AList.lookup_erase_ne hb]
      rfl
    · rw [balanceOf, hb, AList.lookup_insert]
      rfl
    · rw [balanceOf, AList.lookup_insert_ne hb]
      rfl

theorem fullOf_eraseFromAlpBalance : (db.transactionEraseFromAlpBalance a r).fullOf b = db.fullOf b := by
  rw [transactionEraseFromAlpBalance]
  split
  · rfl
  · dsimp only
    split_ifs <;> rfl

theorem balanceOf_insertToAlpFullEntry :
    (db.transactionInsertToAlpFullEntry a r).balanceOf b = db.balanceOf b := by
  rw [transactionInsertToAlpFullEntry]
  split_ifs <;> rfl

theorem balanceOf_eraseFromAlpFullEntry :
    (db.transactionEraseFromAlpFullEntry a r).balanceOf b = db.balanceOf b := by
  rw [transactionEraseFromAlpFullEntry]
  split
  · rfl
  · dsimp only
    split_ifs <;> rfl

theorem fullOf_insert : (db.transactionInsertToAlpFullEntry a r).fullOf b =
    if b = a ∧ r.trxId ∉ (db.fullOf a).alpTrxidSort then (db.fullOf a).insert r
    else db.fullOf b := by
  have hof : (db.alpFullEntry.lookup a).getD .empty = db.fullOf a := rfl
  rw [transactionInsertToAlpFullEntry, hof]
  by_cases hmem : r.trxId ∈ (db.fullOf a).alpTrxidSort
  · rw [if_pos hmem, if_neg fun h => h.2 hmem]
  · rw [if_neg hmem]
    by_cases hb : b = a
    · rw [if_pos ⟨hb, hmem⟩, fullOf, hb, AList.lookup_insert]
      rfl
    · rw [if_neg fun h => hb h.1, fullOf, AList.lookup_insert_ne hb]
      rfl

/-- The entry that is removed because it has no records left has no ids left either. -/
theorem fullOf_erase (hids : ∀ id ∈ (db.fullOf a).alpTrxidSort,
      ∃ k ∈ (db.fullOf a).alpBlockSort.entries, k.trxId = id) :
    (db.transactionEraseFromAlpFullEntry a r).fullOf b =
      if b = a then (db.fullOf a).erase r else db.fullOf b := by
  have hempty : ∀ e : AlpBalanceEntry, (∀ id ∈ e.alpTrxidSort,
      ∃ k ∈ e.alpBlockSort.entries, k.trxId = id) →
      (e.erase r).alpBlockSort.entries = [] → e.erase r = .empty := by
    intro e hids hnil
    refine AlpBalanceEntry.ext (Finset.eq_empty_of_forall_notMem fun id hid => ?_)
      (KeyMultiset.ext hnil)
    obtain ⟨hne, hmem⟩ := Finset.mem_erase.1 hid
    obtain ⟨k, hk, rfl⟩ := hids id hmem
    rw [AlpBalanceEntry.erase, KeyMultiset.erase_entries, List.filter_eq_nil_iff] at hnil
    simpa [hne] using hnil k hk
  rw [fullOf] at hids
  rw [transactionEraseFromAlpFullEntry]
  cases hentry : db.alpFullEntry.lookup a with
  | none =>
    by_cases hb : b = a
    · rw [if_pos hb, hb, fullOf, hentry]
      exact (hempty .empty (by simp [AlpBalanceEntry.empty]) rfl).symm
    · rw [if_neg hb]
  | some alpentrys =>
    rw [hentry] at hids
    have hof : db.fullOf a = alpentrys := by rw [fullOf, hentry]; rfl
    rw [hof]
    dsimp only
    split_ifs with hnil hb hb
    · rw [fullOf, hb, AList.lookup_erase]
      exact (hempty alpentrys hids hnil).symm
    · rw [fullOf, AList.lookup_erase_ne hb]
      rfl
    · rw [fullOf, hb, AList.lookup_insert]
      rfl
    · rw [fullOf, AList.lookup_insert_ne hb]
      rfl

/-! ## One call -/

/-- What a set ordered by block numbers inserts is what is to be inserted. -/
theorem insert_perm_iff {ids : KeySet AlpTrxidBalance.blockNum} {kept : List AlpTrxidBalance}
    (h : ids.entries.Perm kept) :
    (ids.insert r).entries.Perm (AlpRecords.insert r kept) ↔
      ((∃ k ∈ kept, k.blockNum = r.blockNum) ↔ ∃ k ∈ kept, k.trxId = r.trxId) := by
  have hmem : (∃ k ∈ kept, k.blockNum = r.blockNum) ↔ ∃ k ∈ ids.entries, k.blockNum = r.blockNum := by
    simp only [h.mem_iff]
  have hkept : (∃ k ∈ ids.entries, k.blockNum = r.blockNum) → (ids.insert r).entries.Perm kept :=
    fun hblock => KeySet.insert_of_mem hblock ▸ h
  have hadded : (¬ ∃ k ∈ ids.entries, k.blockNum = r.blockNum) →
      (ids.insert r).entries.Perm (r :: kept) := by
    intro hblock
    refine (KeySet.insert_perm fun k hk hkey => hblock ⟨k, hk, hkey⟩).trans (h.cons r)
  have hlonger : ¬ kept.Perm (r :: kept) := fun hperm => absurd hperm.length_eq (by simp)
  rw [hmem, AlpRecords.insert]
  by_cases hblock : ∃ k ∈ ids.entries, k.blockNum = r.blockNum <;>
    by_cases htrx : ∃ k ∈ kept, k.trxId = r.trxId
  · rw [if_pos htrx]
    exact iff_of_true (hkept hblock) (iff_of_true hblock htrx)
  · rw [if_neg htrx]
    refine iff_of_false (fun hperm => hlonger ((hkept hblock).symm.trans hperm)) ?_
    exact fun hiff => htrx (hiff.1 hblock)
  · rw [if_pos htrx]
    refine iff_of_false (fun hperm => hlonger (hperm.symm.trans (hadded hblock))) ?_
    exact fun hiff => hblock (hiff.2 htrx)
  · rw [if_neg htrx]
    exact iff_of_true (hadded hblock) (iff_of_false hblock htrx)

/-- Two ways to erase leave the same records if they take the same ones. -/
theorem filter_perm_iff {l kept : List AlpTrxidBalance} {p q : AlpTrxidBalance → Bool}
    (h : l.Perm kept) :
    (l.filter p).Perm (kept.filter q) ↔ ∀ k ∈ kept, p k = q k := by
  constructor
  · intro hperm k hk
    have hiff := hperm.mem_iff (a := k)
    rw [List.mem_filter, List.mem_filter, h.mem_iff, and_iff_right hk, and_iff_right hk] at hiff
    exact Bool.eq_iff_iff.2 hiff
  · intro hsame
    have hfilter : l.filter p = l.filter q := List.filter_congr fun k hk => hsame k (h.mem_iff.1 hk)
    rw [hfilter]
    exact h.filter q

variable {db a b r} {s : AlpRecords}

theorem holds_insertToBalance_iff (h : db.Holds s) :
    (db.step (.insertToBalance a r)).Holds (s.step (.insertToBalance a r)) ↔
      s.Meets (.insertToBalance a r) := by
  refine Iff.trans ?_ (insert_perm_iff r (h.balance a))
  constructor
  · intro h'
    have hperm := h'.balance a
    simpa only [step, AlpRecords.step, balanceOf_insert, if_pos, Function.update_self] using hperm
  · refine fun hperm => ⟨fun b => ?_, h.full, h.ids⟩
    simp only [step, AlpRecords.step, balanceOf_insert]
    by_cases hb : b = a
    · rw [if_pos hb, hb, Function.update_self]
      exact hperm
    · rw [if_neg hb, Function.update_of_ne hb]
      exact h.balance b

theorem holds_eraseFromBalance_iff (h : db.Holds s) :
    (db.step (.eraseFromBalance a r)).Holds (s.step (.eraseFromBalance a r)) ↔
      s.Meets (.eraseFromBalance a r) := by
  have hmeets : s.Meets (.eraseFromBalance a r) ↔ ∀ k ∈ s.balance a,
      decide (k.blockNum ≠ r.blockNum) = decide (k.trxId ≠ r.trxId) := by
    simp only [AlpRecords.Meets, decide_eq_decide, not_iff_not, ne_eq]
  rw [hmeets, ← filter_perm_iff (h.balance a)]
  constructor
  · intro h'
    have hperm := h'.balance a
    simpa only [step, AlpRecords.step, balanceOf_erase, if_pos, Function.update_self,
      AlpRecords.erase] using hperm
  · refine fun hperm => ⟨fun b => ?_, fun b => ?_, fun b id => ?_⟩
    · simp only [step, AlpRecords.step, balanceOf_erase]
      by_cases hb : b = a
      · rw [if_pos hb, hb, Function.update_self]
        exact hperm
      · rw [if_neg hb, Function.update_of_ne hb]
        exact h.balance b
    · simp only [step, fullOf_eraseFromAlpBalance]
      exact h.full b
    · simp only [step, fullOf_eraseFromAlpBalance]
      exact h.ids b id

/-- A record of a new transaction is inserted in both parts of the entry. -/
theorem holds_insertToFullEntry (h : db.Holds s) :
    (db.step (.insertToFullEntry a r)).Holds (s.step (.insertToFullEntry a r)) := by
  refine ⟨fun b => ?_, fun b => ?_, fun b id => ?_⟩
  · simp only [step, balanceOf_insertToAlpFullEntry]
    exact h.balance b
  all_goals simp only [step, AlpRecords.step, fullOf_insert, h.ids a r.trxId]
  all_goals by_cases hb : b = a
  · subst hb
    rw [Function.update_self, AlpRecords.insert]
    by_cases htrx : ∃ k ∈ s.full b, k.trxId = r.trxId
    · rw [if_pos htrx, if_neg fun hnew => hnew.2 htrx]
      exact h.full b
    · rw [if_neg htrx, if_pos ⟨rfl, htrx⟩]
      exact (KeyMultiset.insert_perm r _).trans ((h.full b).cons r)
  · rw [if_neg fun hnew => hb hnew.1, Function.update_of_ne hb]
    exact h.full b
  · subst hb
    rw [Function.update_self, AlpRecords.insert]
    by_cases htrx : ∃ k ∈ s.full b, k.trxId = r.trxId
    · rw [if_pos htrx, if_neg fun hnew => hnew.2 htrx]
      exact h.ids b id
    · rw [if_neg htrx, if_pos ⟨rfl, htrx⟩, AlpBalanceEntry.insert, Finset.mem_insert, h.ids b id]
      simp [eq_comm]
  · rw [if_neg fun hnew => hb hnew.1, Function.update_of_ne hb]
    exact h.ids b id

theorem holds_eraseFromFullEntry_iff (h : db.Holds s) :
    (db.step (.eraseFromFullEntry a r)).Holds (s.step (.eraseFromFullEntry a r)) ↔
      s.Meets (.eraseFromFullEntry a r) := by
  have hids : ∀ id ∈ (db.fullOf a).alpTrxidSort,
      ∃ k ∈ (db.fullOf a).alpBlockSort.entries, k.trxId = id := by
    intro id hid
    obtain ⟨k, hk, hkid⟩ := (h.ids a id).1 hid
    exact ⟨k, (h.full a).mem_iff.2 hk, hkid⟩
  have hmeets : s.Meets (.eraseFromFullEntry a r) ↔ ∀ k ∈ s.full a,
      (!(decide (k.blockNum = r.blockNum) && k.trxId == r.trxId)) = decide (k.trxId ≠ r.trxId) := by
    refine forall₂_congr fun k _ => ?_
    by_cases hblock : k.blockNum = r.blockNum <;> by_cases htrx : k.trxId = r.trxId <;>
      simp [hblock, htrx]
  have hentries : ((db.fullOf a).erase r).alpBlockSort.entries =
      (db.fullOf a).alpBlockSort.entries.filter fun k =>
        !(decide (k.blockNum = r.blockNum) && k.trxId == r.trxId) :=
    KeyMultiset.erase_entries _ _ _
  rw [hmeets, ← filter_perm_iff (h.full a), ← hentries]
  constructor
  · intro h'
    have hperm := h'.full a
    simpa only [step, AlpRecords.step, fullOf_erase _ _ _ _ hids, if_pos, Function.update_self,
      AlpRecords.erase] using hperm
  · refine fun hperm => ⟨fun b => ?_, fun b => ?_, fun b id => ?_⟩
    · simp only [step, balanceOf_eraseFromAlpFullEntry]
      exact h.balance b
    all_goals simp only [step, AlpRecords.step, fullOf_erase _ _ _ _ hids]
    all_goals by_cases hb : b = a
    · rw [if_pos hb, hb, Function.update_self]
      exact hperm
    · rw [if_neg hb, Function.update_of_ne hb]
      exact h.full b
    · rw [if_pos hb, hb, Function.update_self, AlpBalanceEntry.erase, Finset.mem_erase, h.ids a id]
      simp only [AlpRecords.erase, List.mem_filter, decide_eq_true_eq]
      constructor
      · rintro ⟨hne, k, hk, rfl⟩
        exact ⟨k, ⟨hk, hne⟩, rfl⟩
      · rintro ⟨k, ⟨hk, hne⟩, rfl⟩
        exact ⟨hne, k, hk, rfl⟩
    · rw [if_neg hb, Function.update_of_ne hb]
      exact h.ids b id

theorem holds_step_iff (db : AlpIndexes) (s : AlpRecords) (c : AlpCall) (h : db.Holds s) :
    (db.step c).Holds (s.step c) ↔ s.Meets c := by
  cases c with
  | insertToBalance a r => exact holds_insertToBalance_iff h
  | eraseFromBalance a r => exact holds_eraseFromBalance_iff h
  | insertToFullEntry a r => exact iff_of_true (holds_insertToFullEntry h) trivial
  | eraseFromFullEntry a r => exact holds_eraseFromFullEntry_iff h

/-! ## Fetching -/

/-- What is fetched for a block number are the records kept of later blocks, account by account. -/
def Fetches (db : AlpIndexes) (s : AlpRecords) (order : HashOrder) (n : BlockNum) : Prop :=
  ∃ accounts : List Str, accounts.Nodup ∧ (∀ a, s.balance a ≠ [] → a ∈ accounts) ∧
    (db.fetchAlpInputBalance order n).Perm
      (accounts.flatMap fun a => (s.balance a).filter fun r => decide (n < r.blockNum))

/-- The accounts in the order in which they are gone through. -/
def accounts (db : AlpIndexes) (order : HashOrder) : List Str :=
  (order.order db.alpInputBalanceEntry.entries).map Sigma.fst

theorem nodup_accounts (order : HashOrder) : (db.accounts order).Nodup :=
  ((order.perm _).map _).nodup_iff.2 db.alpInputBalanceEntry.nodupKeys

theorem mem_accounts (h : db.Holds s) (order : HashOrder) (hkept : s.balance a ≠ []) :
    a ∈ db.accounts order := by
  rw [accounts, List.mem_map]
  cases hids : db.alpInputBalanceEntry.lookup a with
  | none =>
    have hnil : db.balanceOf a = [] := by
      rw [balanceOf, hids]
      rfl
    exact absurd (List.nil_perm.1 (hnil ▸ h.balance a)) hkept
  | some ids => exact ⟨⟨a, ids⟩, (order.perm _).mem_iff.2 (AList.mem_lookup_iff.1 hids), rfl⟩

theorem fetchAlpInputBalance_perm (h : db.Holds s) (order : HashOrder) (n : BlockNum) :
    (db.fetchAlpInputBalance order n).Perm ((db.accounts order).flatMap fun a =>
      (s.balance a).filter fun r => decide (n + 1 ≤ r.blockNum)) := by
  rw [fetchAlpInputBalance, accounts, List.flatMap_map]
  refine List.Perm.flatMap_left _ fun e he => ?_
  have hlookup : db.alpInputBalanceEntry.lookup e.1 = some e.2 :=
    AList.mem_lookup_iff.2 ((order.perm _).mem_iff.1 he)
  have hof : db.balanceOf e.1 = e.2.entries := by
    rw [balanceOf, hlookup]
    rfl
  rw [KeySet.lowerBound_eq, ← hof]
  exact (h.balance e.1).filter _

/-- The last block number has none behind it, so everything is fetched for it. -/
theorem fetches_iff (h : db.Holds s) (order : HashOrder) (n : BlockNum) :
    db.Fetches s order n ↔ n ≠ Fin.last _ ∨ ∀ a, s.balance a = [] := by
  have hfetch := fetchAlpInputBalance_perm h order n
  by_cases hlast : n = Fin.last _
  · have hnone : ∀ r : AlpTrxidBalance, decide (n < r.blockNum) = false :=
      fun r => decide_eq_false (not_lt.2 (hlast ▸ Fin.le_last _))
    have hall : ∀ r : AlpTrxidBalance, decide (n + 1 ≤ r.blockNum) = true := by
      intro r
      rw [hlast, Fin.last_add_one]
      exact decide_eq_true (Fin.zero_le _)
    simp only [hall, List.filter_true] at hfetch
    rw [Fetches, or_iff_right fun hne => hne hlast]
    simp only [hnone, List.filter_false]
    constructor
    · rintro ⟨accounts, -, -, hperm⟩ a
      by_contra hkept
      obtain ⟨r, hr⟩ := List.exists_mem_of_ne_nil _ hkept
      have hmem := hfetch.mem_iff.2
        (List.mem_flatMap.2 ⟨a, mem_accounts h order hkept, hr⟩)
      simpa using hperm.mem_iff.1 hmem
    · intro hnil
      have hempty : ((db.accounts order).flatMap fun _ => ([] : List AlpTrxidBalance)) = [] :=
        List.flatMap_eq_nil_iff.2 fun _ _ => rfl
      simp only [hnil] at hfetch
      rw [hempty] at hfetch
      exact ⟨[], List.nodup_nil, fun a hkept => absurd (hnil a) hkept, hfetch⟩
  · have hnext : ∀ r : AlpTrxidBalance, decide (n + 1 ≤ r.blockNum) = decide (n < r.blockNum) := by
      intro r
      rw [decide_eq_decide, Fin.le_def, Fin.lt_def,
        Fin.val_add_one_of_lt (lt_of_le_of_ne (Fin.le_last n) hlast)]
      exact Iff.rfl
    simp only [hnext] at hfetch
    refine iff_of_true ?_ (.inl hlast)
    exact ⟨db.accounts order, nodup_accounts order, fun a => mem_accounts h order, hfetch⟩

/-! ## A run -/

open Traces in
/-- The indexes hold what is to be kept after each call, and give it, if each call finds records of its
block and of its transaction together, and for a last block number nothing is kept. -/
theorem alp_records_kept_iff (order : HashOrder) (n : BlockNum) (calls : List AlpCall) :
    (∀ before after, calls = before ++ after →
        (run step empty before).Holds (run AlpRecords.step .empty before) ∧
          (run step empty before).Fetches (run AlpRecords.step .empty before) order n) ↔
      Along AlpRecords.step AlpRecords.Meets .empty calls ∧
        (n ≠ Fin.last _ ∨ ∀ before after, calls = before ++ after →
          ∀ a, (run AlpRecords.step .empty before).balance a = []) := by
  rw [← simulates_iff_along holds_step_iff holds_empty calls]
  constructor
  · intro h
    refine ⟨fun before after hsplit => (h before after hsplit).1, ?_⟩
    by_cases hlast : n = Fin.last _
    · refine .inr fun before after hsplit => ?_
      obtain ⟨hholds, hfetches⟩ := h before after hsplit
      exact ((fetches_iff hholds order n).1 hfetches).resolve_left fun hne => hne hlast
    · exact .inl hlast
  · rintro ⟨hholds, hn⟩ before after hsplit
    have hheld := hholds before after hsplit
    refine ⟨hheld, (fetches_iff hheld order n).2 ?_⟩
    exact hn.imp_right fun hnil => hnil before after hsplit

/-- A deposit of so many shares in block 5. -/
def depositOf (trxId : TransactionIdType) : AlpTrxidBalance where
  alpAccount := ['A']
  blockNum := ⟨5, by decide⟩
  trxId := trxId
  assetTrx := ⟨100, 0⟩
  fromAccount := ['b']
  createTime := 50

/-- Of two deposits in a block, the second is lost. -/
theorem second_deposit_lost : ¬ ∀ calls : List AlpCall,
    (Traces.run step empty calls).Holds (Traces.run AlpRecords.step .empty calls) := by
  intro h
  have hperm := (h [.insertToBalance ['A'] (depositOf 1),
    .insertToBalance ['A'] (depositOf 2)]).balance ['A']
  exact absurd hperm.length_eq (by decide)

end AlpIndexes

end Achain
