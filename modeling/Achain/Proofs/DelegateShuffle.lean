import Achain.DelegateShuffle
import Achain.Lib.Shuffle

/-!
# What the shuffle of the delegates leads to

Pass `k` has the word `k` of the hashes and exchanges the delegate at `k` with one that is left, so the
delegates come out permuted, and words can be found for every permutation. The indexes are 32 bits wide:
with `2 ^ 32` delegates there would be no choices left at the start.
-/

namespace Achain

open Result

/-! ## The passes -/

section Passes

variable (hash : Sha256 → Sha256) (seed : Sha256) (n : Nat)

/-- Which of the delegates that are left a pass takes. -/
def shufflePick (k : Nat) : Nat := (hashWord hash seed k).toNat % (n - k)

/-- The state before a pass. -/
def shuffleStateAt (l : List AccountIdType) (k : Nat) : ShuffleState :=
  ⟨l, Nat.iterate hash (k / 4) seed, .ofNat k, .ofNat (k % 4)⟩

variable {n}

theorem toNat_ofNat32 {k : Nat} (hk : k < 2 ^ 32) : (UInt32.ofNat k).toNat = k :=
  UInt32.toNat_ofNat_of_lt' hk

theorem nextWordIndex (k : Nat) : (UInt32.ofNat (k % 4) + 1) &&& 3 = UInt32.ofNat ((k + 1) % 4) := by
  have hk : k % 4 = 0 ∨ k % 4 = 1 ∨ k % 4 = 2 ∨ k % 4 = 3 := by omega
  rcases hk with hk | hk | hk | hk
  · rw [hk, show (k + 1) % 4 = 1 by omega]
    rfl
  · rw [hk, show (k + 1) % 4 = 2 by omega]
    rfl
  · rw [hk, show (k + 1) % 4 = 3 by omega]
    rfl
  · rw [hk, show (k + 1) % 4 = 0 by omega]
    rfl

/-- The seed is hashed again when its words are used up. -/
theorem nextSeed (k : Nat) :
    (if UInt32.ofNat ((k + 1) % 4) == 0 then hash (Nat.iterate hash (k / 4) seed)
      else Nat.iterate hash (k / 4) seed) = Nat.iterate hash ((k + 1) / 4) seed := by
  by_cases hk : (k + 1) % 4 = 0
  · rw [hk, show (k + 1) / 4 = k / 4 + 1 by omega, Function.iterate_succ_apply']
    rfl
  · have hne : UInt32.ofNat ((k + 1) % 4) ≠ 0 := by
      intro h
      have := congrArg UInt32.toNat h
      rw [toNat_ofNat32 (by omega)] at this
      exact hk this
    rw [if_neg fun h => hne (eq_of_beq h), show (k + 1) / 4 = k / 4 by omega]

theorem shuffleChoice {k : Nat} (hn : n < 2 ^ 32) (hk : k < n) (r : UInt64) :
    ((r % (UInt32.ofNat (n - k)).toUInt64).toUInt32 + UInt32.ofNat k).toNat = r.toNat % (n - k) + k := by
  have hmod := Nat.mod_lt r.toNat (show 0 < n - k by omega)
  rw [UInt32.toNat_add, UInt64.toNat_toUInt32, UInt64.toNat_mod, UInt32.toNat_toUInt64,
    toNat_ofNat32 (by omega), toNat_ofNat32 (by omega),
    Nat.mod_eq_of_lt (by omega), Nat.mod_eq_of_lt (by omega)]

theorem swapDelegates_eq {l : List AccountIdType} {i j : UInt32} :
    swapDelegates l i j = orThrow (Shuffle.exchange i.toNat j.toNat l) .pastDelegates := by
  unfold swapDelegates Shuffle.exchange
  cases l[i.toNat]? with
  | none => rfl
  | some a => cases l[j.toNat]? <;> rfl

/-- A pass exchanges two delegates and goes on to the next. -/
theorem shufflePass_at {l a : List AccountIdType} {k : Nat} (hl : l.length < 2 ^ 32) (hk : k < l.length)
    (ha : Shuffle.passes (shufflePick hash seed l.length) l k = some a) :
    ∃ b, Shuffle.passes (shufflePick hash seed l.length) l (k + 1) = some b ∧
      shufflePass hash l.length (shuffleStateAt hash seed a k) =
        .ok (.inl (shuffleStateAt hash seed b (k + 1))) := by
  have hpick : ∀ i < k + 1, shufflePick hash seed l.length i + i < l.length := fun i hi => by
    have := Nat.mod_lt (hashWord hash seed i).toNat (show 0 < l.length - i by omega)
    unfold shufflePick
    omega
  obtain ⟨b, hb⟩ := Shuffle.passes_some hpick
  have hab := hb
  rw [Shuffle.passes, ha, Option.bind_some] at hab
  have hi : (UInt32.ofNat k).toNat = k := toNat_ofNat32 (by omega)
  have hx : (UInt32.ofNat (k % 4)).toNat = k % 4 := toNat_ofNat32 (by omega)
  have hword : (Nat.iterate hash (k / 4) seed)[k % 4]? = some (hashWord hash seed k) :=
    Vector.getElem?_eq_getElem _
  have hchoices : (UInt32.ofNat (l.length - k) != 0) = true := by
    refine bne_iff_ne.2 fun h => ?_
    have := congrArg UInt32.toNat h
    rw [toNat_ofNat32 (by omega)] at this
    change l.length - k = 0 at this
    omega
  refine ⟨b, hb, ?_⟩
  rw [shufflePass, shuffleStateAt, if_pos (by rw [hi]; exact hk)]
  simp only [hi, hx, hword, hchoices, orThrow_some, ok_bind, ensure_true, swapDelegates_eq,
    shuffleChoice hl hk, shufflePick] at hab ⊢
  rw [hab, orThrow_some, ok_bind, nextWordIndex, nextSeed, shuffleStateAt, UInt32.ofNat_add]
  rfl

/-- The passes that are left lead to the delegates shuffled. -/
theorem shuffle_run {l : List AccountIdType} (hl : l.length < 2 ^ 32) :
    ∀ {m k : Nat} {a : List AccountIdType}, m + k = l.length + 1 →
      Shuffle.passes (shufflePick hash seed l.length) l k = some a → k ≤ l.length →
      ∃ b, Shuffle.passes (shufflePick hash seed l.length) l l.length = some b ∧
        Loops.iterate .endless (shufflePass hash l.length) m (shuffleStateAt hash seed a k) = .ok b
  | 0, k, a, hm, _, hk => absurd hk (by omega)
  | m + 1, k, a, hm, ha, hk => by
    rcases hk.lt_or_eq with hk | rfl
    · obtain ⟨b, hb, hpass⟩ := shufflePass_at hash seed hl hk ha
      obtain ⟨c, hc, hrun⟩ := shuffle_run hl (m := m) (k := k + 1) (by omega) hb hk
      exact ⟨c, hc, by rw [Loops.iterate, hpass]; exact hrun⟩
    · refine ⟨a, ha, ?_⟩
      have hi : (UInt32.ofNat l.length).toNat = l.length := toNat_ofNat32 (by omega)
      rw [Loops.iterate, shufflePass, shuffleStateAt, if_neg (by rw [hi]; omega)]

/-- The loop over the delegates is a shuffle with the words of the hashes. -/
theorem shuffleDelegates_eq {l : List AccountIdType} (hl : l.length < 2 ^ 32) :
    ∃ l', shuffleDelegates hash seed l = .ok l' ∧
      Shuffle.passes (shufflePick hash seed l.length) l l.length = some l' := by
  obtain ⟨l', hl', hrun⟩ := shuffle_run hash seed hl (m := l.length + 1) (k := 0) rfl rfl (Nat.zero_le _)
  exact ⟨l', hrun, hl'⟩

/-- Fewer than `2 ^ 32` delegates come out permuted. -/
theorem shuffleDelegates_perm {l : List AccountIdType} (hl : l.length < 2 ^ 32) :
    ∃ l', shuffleDelegates hash seed l = .ok l' ∧ l'.Perm l := by
  obtain ⟨l', hrun, hpasses⟩ := shuffleDelegates_eq hash seed hl
  exact ⟨l', hrun, Shuffle.passes_perm hpasses⟩

end Passes

/-! ## The words for a permutation -/

section Words

variable (pick : Nat → Nat) (n : Nat)

/-- A word for a choice among `n - k` delegates, which also tells of which hash it is. -/
def wordFor (k : Nat) : Nat :=
  2 ^ 32 * (k / 4) + (pick k + (n - k - 2 ^ 32 * (k / 4) % (n - k))) % (n - k)

/-- The hashes that give these words. -/
def hashFor (j : Nat) : Sha256 := .ofFn fun x => .ofNat (wordFor pick n (4 * j + x))

/-- A hash is followed by the next one. -/
def hashAfter (d : Sha256) : Sha256 := hashFor pick n (d[0].toNat / 2 ^ 32 + 1)

variable {n}

theorem wordFor_bounds (hn : n < 2 ^ 32) {k : Nat} (hk : k < n) :
    2 ^ 32 * (k / 4) ≤ wordFor pick n k ∧ wordFor pick n k < 2 ^ 32 * (k / 4) + 2 ^ 32 := by
  have hmod := Nat.mod_lt (pick k + (n - k - 2 ^ 32 * (k / 4) % (n - k))) (show 0 < n - k by omega)
  unfold wordFor
  exact ⟨by omega, by omega⟩

theorem wordFor_mod {k : Nat} (hk : pick k + k < n) : wordFor pick n k % (n - k) = pick k := by
  have hpos : 0 < n - k := by omega
  have hmod := Nat.mod_lt (2 ^ 32 * (k / 4)) hpos
  unfold wordFor
  generalize 2 ^ 32 * (k / 4) = base at *
  rw [Nat.add_mod_mod]
  have hsum : base + (pick k + (n - k - base % (n - k))) = pick k + (n - k) * (base / (n - k) + 1) := by
    have := Nat.div_add_mod base (n - k)
    rw [Nat.mul_add_one]
    omega
  rw [hsum, Nat.add_mul_mod_self_left, Nat.mod_eq_of_lt (by omega)]

theorem hashFor_word (hn : n < 2 ^ 32) {k : Nat} (hk : k < n) :
    ((hashFor pick n (k / 4))[k % 4]).toNat = wordFor pick n k := by
  have hbounds := wordFor_bounds pick hn hk
  rw [hashFor, Vector.getElem_ofFn, UInt64.toNat_ofNat_of_lt', Nat.div_add_mod]
  rw [Nat.div_add_mod]
  exact lt_of_lt_of_le hbounds.2 (by rw [UInt64.size]; omega)

theorem iterate_hashAfter (hn : n < 2 ^ 32) : ∀ {j : Nat}, 4 * j < n →
    Nat.iterate (hashAfter pick n) j (hashFor pick n 0) = hashFor pick n j
  | 0, _ => rfl
  | j + 1, hj => by
    have hj' : 4 * j < n := by omega
    rw [Function.iterate_succ_apply', iterate_hashAfter hn hj', hashAfter]
    have hword := hashFor_word pick hn hj'
    have hbounds := wordFor_bounds pick hn hj'
    simp only [Nat.mul_div_cancel_left j (show 0 < 4 by omega), Nat.mul_mod_right] at hword hbounds
    rw [hword, show wordFor pick n (4 * j) / 2 ^ 32 = j by omega]

theorem shufflePick_for (hn : n < 2 ^ 32) {k : Nat} (hk : pick k + k < n) :
    shufflePick (hashAfter pick n) (hashFor pick n 0) n k = pick k := by
  unfold shufflePick hashWord
  simp only [iterate_hashAfter pick hn (show 4 * (k / 4) < n by omega)]
  rw [hashFor_word pick hn (by omega), wordFor_mod pick hk]

/-- Every permutation of fewer than `2 ^ 32` delegates comes of the words of some hashes. -/
theorem exists_shuffleDelegates {l l' : List AccountIdType} (hl : l.length < 2 ^ 32) (h : l'.Perm l) :
    ∃ hash seed, shuffleDelegates hash seed l = .ok l' := by
  obtain ⟨pick, hpick, hpasses⟩ := Shuffle.exists_shuffle h
  obtain ⟨b, hrun, hb⟩ :=
    shuffleDelegates_eq (hashAfter pick l.length) (hashFor pick l.length 0) hl
  rw [Shuffle.passes_congr fun i hi => shufflePick_for pick hl (hpick i hi), hpasses] at hb
  exact ⟨_, _, Option.some.inj hb ▸ hrun⟩

end Words

/-! ## The list that is stored -/

theorem ChainTables.length_nextRound (c : ChainTables) :
    c.nextRoundActiveDelegates.length ≤ numDelegates := by
  rw [nextRoundActiveDelegates, List.length_map, List.length_take]
  exact Nat.min_le_left _ _

/-- The shuffle by words is the exchanges of its passes. -/
theorem passes_eq_shuffle (word : Nat → Nat) (l : List AccountIdType) : ∀ {k : Nat}, k ≤ l.length →
    Shuffle.passes (fun i => word i % (l.length - i)) l k =
      some ((List.range k).foldl (fun a i => swapAt a i (word i % (l.length - i) + i)) l)
  | 0, _ => rfl
  | k + 1, hk => by
    rw [Shuffle.passes, passes_eq_shuffle word l (by omega), Option.bind_some, List.range_succ,
      List.foldl_append, List.foldl_cons, List.foldl_nil]
    have hpick : ∀ i < k + 1, word i % (l.length - i) + i < l.length := fun i hi => by
      have := Nat.mod_lt (word i) (show 0 < l.length - i by omega)
      omega
    have hperm := Shuffle.passes_perm (passes_eq_shuffle word l (Nat.le_of_succ_le hk))
    have hlength := hperm.length_eq
    have hk' := hpick k (Nat.lt_succ_self k)
    rw [Shuffle.exchange_eq (by omega) (by omega), swapAt, List.getElem?_eq_getElem (by omega),
      List.getElem?_eq_getElem (by omega)]

/-- The model that takes the words as given stores the same delegates. -/
theorem storeActiveDelegates_eq {N : Node} {hash : Sha256 → Sha256} {hashSeed : Nat → Sha256}
    (hwords : ∀ s k, N.B.shuffleHash s k = (hashWord hash (hashSeed s) k).toNat) (db : ChainDatabase)
    (blockNum : Nat) (l : Ledger) :
    storeActiveDelegates hash hashSeed db blockNum l =
      .ok (updateActiveDelegateList N db blockNum l) := by
  unfold storeActiveDelegates updateActiveDelegateList
  by_cases hround : blockNum % numDelegates = 0
  · have hlength := db.tables.length_nextRound
    have hsmall : db.tables.nextRoundActiveDelegates.length < 2 ^ 32 := lt_of_le_of_lt hlength (by decide)
    obtain ⟨l', hrun, hl'⟩ := shuffleDelegates_eq hash (hashSeed l.currentRandomSeed) hsmall
    have hpick : ∀ i < db.tables.nextRoundActiveDelegates.length,
        shufflePick hash (hashSeed l.currentRandomSeed) db.tables.nextRoundActiveDelegates.length i =
          N.B.shuffleHash l.currentRandomSeed i % (db.tables.nextRoundActiveDelegates.length - i) :=
      fun i _ => by rw [hwords, shufflePick]
    rw [Shuffle.passes_congr hpick, passes_eq_shuffle _ _ le_rfl] at hl'
    rw [if_neg (by simpa using hround), if_pos hround, hrun, ok_bind, shuffle, Option.some.inj hl']
    rfl
  · rw [if_pos hround, if_neg hround]

/-- The delegates of the next round are stored permuted, and in any order for some words. -/
theorem activeDelegates_shuffled :
    (∀ (hash : Sha256 → Sha256) (hashSeed : Nat → Sha256) (db : ChainDatabase) (blockNum : Nat)
      (l : Ledger), ∃ l' : List AccountIdType, l'.Perm db.tables.nextRoundActiveDelegates ∧
        storeActiveDelegates hash hashSeed db blockNum l =
          .ok (if blockNum % numDelegates = 0 then l.storeProperty .activeDelegateListId (.delegates l')
            else l)) ∧
    (∀ (hash : Sha256 → Sha256) (seed : Sha256) (l : List AccountIdType), l.length < 2 ^ 32 →
      ∃ l', shuffleDelegates hash seed l = .ok l' ∧ l'.Perm l) ∧
    ∀ l l' : List AccountIdType, l.length < 2 ^ 32 → l'.Perm l →
      ∃ hash seed, shuffleDelegates hash seed l = .ok l' := by
  refine ⟨fun hash hashSeed db blockNum l => ?_, fun hash seed l => shuffleDelegates_perm hash seed,
    fun l l' => exists_shuffleDelegates⟩
  have hlength := db.tables.length_nextRound
  obtain ⟨l', hrun, hperm⟩ := shuffleDelegates_perm hash (hashSeed l.currentRandomSeed)
    (lt_of_le_of_lt hlength (by decide))
  refine ⟨l', hperm, ?_⟩
  unfold storeActiveDelegates
  by_cases hround : blockNum % numDelegates = 0
  · rw [if_neg (by simpa using hround), if_pos hround, hrun]
    rfl
  · rw [if_pos hround, if_neg hround]

/-- Three delegates, and the last of their orders. -/
theorem three_delegates_shuffled :
    (∃ l', shuffleDelegates id (.replicate 4 7) [1, 2, 3] = .ok l' ∧ l'.Perm [1, 2, 3]) ∧
      ∃ hash seed, shuffleDelegates hash seed [1, 2, 3] = .ok [3, 2, 1] :=
  ⟨activeDelegates_shuffled.2.1 id (.replicate 4 7) [1, 2, 3] (by decide),
    activeDelegates_shuffled.2.2 [1, 2, 3] [3, 2, 1] (by decide) (by decide)⟩

/-- Of `2 ^ 32` delegates none is left to choose in 32 bits. -/
theorem too_many_delegates :
    shuffleDelegates id (.replicate 4 0) (List.replicate (2 ^ 32) 0) = .error .divisionByZero := by
  have hchoices : (UInt32.ofNat (2 ^ 32 - (0 : UInt32).toNat) != 0) = false := by decide
  have hword : (Vector.replicate 4 (0 : UInt64))[(0 : UInt32).toNat]? = some 0 := rfl
  rw [shuffleDelegates, List.length_replicate, Loops.iterate, shufflePass, if_pos (by decide)]
  simp only [hchoices, hword, orThrow_some, ok_bind]
  rfl

end Achain
