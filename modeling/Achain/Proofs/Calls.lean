import Achain.Proofs.Placing

/-!
# The calls of a search

While `push_block` looks for the highest fork it may switch to, it calls `switch_to_fork`, which
calls `pop_block` and `extend_chain`. A property of the database is kept by the search if it is
kept by every switch, each made in the state in which it is called.
-/

namespace Achain

open Table Result Stateful Levels

variable {N : Node} {clock : TimePointSec} {db db' : ChainDatabase} {id pushed : BlockIdType}

/-- A call made during a search. -/
inductive ChainCall where
  | switchToFork (id : BlockIdType)
  | popBlock
  | extendChain (b : FullBlock)

/-- The state in which the search goes on where a switch has thrown. -/
def ChainDatabase.afterThrow (db : ChainDatabase) (pushed : BlockIdType) (e : Exn) :
    ChainDatabase :=
  if e = .timeInFuture then { db with futureBlocks := db.futureBlocks.insert pushed } else db

/-- Popping down to a block calls `pop_block` in a state. -/
inductive PopCalled (N : Node) (id : BlockIdType) :
    Nat → ChainDatabase → ChainDatabase → Prop
  | here {fuel : Nat} {db : ChainDatabase} : db.headBlockId ≠ id → PopCalled N id (fuel + 1) db db
  | next {fuel : Nat} {db db' s : ChainDatabase} : db.headBlockId ≠ id →
      popBlockM N db = .ok () db' → PopCalled N id fuel db' s → PopCalled N id (fuel + 1) db s

/-- Applying the blocks of a fork calls `extend_chain` on a block in a state. -/
inductive ExtendCalled (N : Node) (clock : TimePointSec) :
    List BlockIdType → ChainDatabase → ChainDatabase → FullBlock → Prop
  | here {id : BlockIdType} {ids : List BlockIdType} {db : ChainDatabase} {b : FullBlock} :
      db.blockIdToFullBlock.lookup id = some b → ExtendCalled N clock (id :: ids) db db b
  | next {id : BlockIdType} {ids : List BlockIdType} {db db' s : ChainDatabase}
      {b b' : FullBlock} : db.blockIdToFullBlock.lookup id = some b →
      extendChainM N clock b db = .ok () db' → ExtendCalled N clock ids db' s b' →
      ExtendCalled N clock (id :: ids) db s b'

/-- `switch_to_fork` makes a call in a state. -/
inductive SwitchCalls (N : Node) (clock : TimePointSec) (id : BlockIdType) (db : ChainDatabase) :
    ChainDatabase → ChainCall → Prop
  | pop {history : List BlockIdType} {s : ChainDatabase} : id ≠ db.headBlockId →
      forkHistory (db.forkDepth + 1) id db = .ok history db →
      PopCalled N (history.getLastD 0) (db.forkDepth + 1) db s →
      SwitchCalls N clock id db s .popBlock
  | extend {history : List BlockIdType} {db' s : ChainDatabase} {b : FullBlock} :
      id ≠ db.headBlockId → forkHistory (db.forkDepth + 1) id db = .ok history db →
      popUntil N (history.getLastD 0) (db.forkDepth + 1) db = .ok () db' →
      ExtendCalled N clock history.dropLast.reverse db' s b →
      SwitchCalls N clock id db s (.extendChain b)

/-- Trying the blocks of one number makes a call in a state. -/
inductive ForkCalls (N : Node) (clock : TimePointSec) (pushed : BlockIdType) :
    List BlockIdType → ChainDatabase → ChainDatabase → ChainCall → Prop
  | switch {id : BlockIdType} {ids : List BlockIdType} {db : ChainDatabase}
      {data : BlockForkData} : db.forkDb.lookup id = some data → data.canLink = true →
      ForkCalls N clock pushed (id :: ids) db db (.switchToFork id)
  | inside {id : BlockIdType} {ids : List BlockIdType} {db s : ChainDatabase}
      {data : BlockForkData} {c : ChainCall} : db.forkDb.lookup id = some data →
      data.canLink = true → SwitchCalls N clock id db s c →
      ForkCalls N clock pushed (id :: ids) db s c
  | skip {id : BlockIdType} {ids : List BlockIdType} {db s : ChainDatabase}
      {data : BlockForkData} {c : ChainCall} : db.forkDb.lookup id = some data →
      data.canLink = false → ForkCalls N clock pushed ids db s c →
      ForkCalls N clock pushed (id :: ids) db s c
  | failed {id : BlockIdType} {ids : List BlockIdType} {db db' s : ChainDatabase}
      {data : BlockForkData} {e : Exn} {c : ChainCall} : db.forkDb.lookup id = some data →
      data.canLink = true → switchToFork N clock id db = .error e db' →
      ForkCalls N clock pushed ids (db'.afterThrow pushed e) s c →
      ForkCalls N clock pushed (id :: ids) db s c

/-- Trying the numbers from one down makes a call in a state. -/
inductive NumberCalls (N : Node) (clock : TimePointSec) (pushed : BlockIdType) :
    Nat → ChainDatabase → ChainDatabase → ChainCall → Prop
  | here {num : Nat} {db s : ChainDatabase} {c : ChainCall} :
      ForkCalls N clock pushed ((db.forkNumberDb.lookup (num + 1)).getD []) db s c →
      NumberCalls N clock pushed (num + 1) db s c
  | next {num : Nat} {db db' s : ChainDatabase} {c : ChainCall} :
      tryForks N clock pushed ((db.forkNumberDb.lookup (num + 1)).getD []) db = .ok false db' →
      NumberCalls N clock pushed num db' s c → NumberCalls N clock pushed (num + 1) db s c

/-- `push_block` makes a call in a state. -/
inductive PushCalls (N : Node) (clock : TimePointSec) (b : FullBlock) (db : ChainDatabase) :
    ChainDatabase → ChainCall → Prop
  | search {r : BlockIdType × BlockForkData} {db' s : ChainDatabase} {longest : FullBlock}
      {c : ChainCall} : Places N db b →
      storeAndIndex (N.B.id b.toSignedBlockHeader) b db = .ok r db' → r.2.canLink = true →
      db'.blockIdToFullBlock.lookup r.1 = some longest →
      db.headBlockHeader.blockNum < longest.blockNum →
      NumberCalls N clock (N.B.id b.toSignedBlockHeader) longest.blockNum db' s c →
      PushCalls N clock b db s c

/-- The states after calls of `push_block` each of which satisfies `C` in the state it is made in. -/
inductive PushRun (N : Node) (C : ChainDatabase → TimePointSec → FullBlock → Prop)
    (db₀ : ChainDatabase) : ChainDatabase → Prop
  | start : PushRun N C db₀ db₀
  | push {db : ChainDatabase} (clock : TimePointSec) (b : FullBlock) : PushRun N C db₀ db →
      C db clock b → PushRun N C db₀ (final (pushBlock N clock b) db)

/-! ## The search, call by call -/

theorem pushBlock_search {b longest : FullBlock} {r : BlockIdType × BlockForkData}
    (hplaces : Places N db b)
    (hrun : storeAndIndex (N.B.id b.toSignedBlockHeader) b db = .ok r db') (hlink : r.2.canLink = true)
    (hlongest : db'.blockIdToFullBlock.lookup r.1 = some longest)
    (hlt : db.headBlockHeader.blockNum < longest.blockNum) :
    pushBlock N clock b db =
      tryNumbers N clock (N.B.id b.toSignedBlockHeader) longest.blockNum db' := by
  unfold pushBlock
  rw [get_bind]
  dsimp only
  rw [if_neg hplaces.recent, if_neg hplaces.unknown, bind_of_ok hrun]
  rw [if_pos hlink, bind_of_ok (fetchBlock_ok hlongest), if_pos hlt]

theorem tryForks_skip {data : BlockForkData} {ids : List BlockIdType}
    (hd : db.forkDb.lookup id = some data) (hlink : data.canLink = false) :
    tryForks N clock pushed (id :: ids) db = tryForks N clock pushed ids db := by
  rw [tryForks, bind_of_ok (fetchFork_ok hd), hlink]
  rfl

theorem tryForks_done {data : BlockForkData} {ids : List BlockIdType}
    (hd : db.forkDb.lookup id = some data) (hlink : data.canLink = true)
    (hrun : switchToFork N clock id db = .ok () db') :
    tryForks N clock pushed (id :: ids) db = .ok true db' := by
  rw [tryForks, bind_of_ok (fetchFork_ok hd), hlink]
  refine (bind_of_ok (?_ : _ = EStateM.Result.ok true db')).trans rfl
  exact tryCatch_of_ok ((bind_of_ok hrun).trans rfl)

theorem tryForks_failed {data : BlockForkData} {ids : List BlockIdType} {e : Exn}
    (hd : db.forkDb.lookup id = some data) (hlink : data.canLink = true)
    (hrun : switchToFork N clock id db = .error e db') :
    tryForks N clock pushed (id :: ids) db =
      tryForks N clock pushed ids (db'.afterThrow pushed e) := by
  rw [tryForks, bind_of_ok (fetchFork_ok hd), hlink]
  refine (bind_of_ok (?_ : _ = EStateM.Result.ok false (db'.afterThrow pushed e))).trans rfl
  refine (tryCatch_of_error (bind_of_error hrun)).trans ?_
  unfold ChainDatabase.afterThrow
  dsimp only
  split_ifs <;> rfl

theorem tryForks_unknown {ids : List BlockIdType} (hd : db.forkDb.lookup id = none) :
    tryForks N clock pushed (id :: ids) db = .error .unknownBlock db := by
  rw [tryForks]
  exact bind_of_error (fetchFork_error hd)

theorem tryNumbers_succ (num : Nat) : tryNumbers N clock pushed (num + 1) db =
    (do
      let done ← tryForks N clock pushed ((db.forkNumberDb.lookup (num + 1)).getD [])
      if done then return else tryNumbers N clock pushed num : DbM Unit) db :=
  rfl

theorem linked_of_canLink {data : BlockForkData} (hd : db.forkDb.lookup id = some data)
    (hlink : data.canLink = true) : db.Linked id := by
  rw [BlockForkData.canLink, Bool.and_eq_true] at hlink
  exact ⟨data, hd, hlink.1⟩

/-- A property that every switch keeps whose calls satisfy `C`. -/
structure SwitchKeeps (N : Node) (clock : TimePointSec) (pushed : BlockIdType)
    (C : ChainDatabase → ChainCall → Prop) (I : ChainDatabase → Prop) : Prop where
  switch : ∀ db id data, I db → db.forkDb.lookup id = some data → data.canLink = true →
    C db (.switchToFork id) → (∀ s c, SwitchCalls N clock id db s c → C s c) →
    I (final (switchToFork N clock id) db)
  future : ∀ db, I db → I { db with futureBlocks := db.futureBlocks.insert pushed }

namespace SwitchKeeps

variable {C : ChainDatabase → ChainCall → Prop} {I : ChainDatabase → Prop}
  (h : SwitchKeeps N clock pushed C I)

include h

theorem afterThrow {e : Exn} (hdb : I db) : I (db.afterThrow pushed e) := by
  unfold ChainDatabase.afterThrow
  split_ifs
  · exact h.future db hdb
  · exact hdb

theorem tryForks : ∀ (ids : List BlockIdType) (db : ChainDatabase), I db →
    (∀ s c, ForkCalls N clock pushed ids db s c → C s c) →
    I (final (tryForks N clock pushed ids) db)
  | [], _, hdb, _ => hdb
  | id :: ids, db, hdb, hcalls => by
    cases hd : db.forkDb.lookup id with
    | none =>
      rw [final, tryForks_unknown hd]
      exact hdb
    | some data =>
      cases hlink : data.canLink with
      | false =>
        rw [final, tryForks_skip hd hlink]
        exact tryForks ids db hdb fun s c hc => hcalls s c (.skip hd hlink hc)
      | true =>
        have hswitch := h.switch db id data hdb hd hlink (hcalls _ _ (.switch hd hlink))
          fun s c hc => hcalls s c (.inside hd hlink hc)
        rw [final] at hswitch
        cases hrun : switchToFork N clock id db with
        | ok u db' =>
          rw [final, tryForks_done hd hlink hrun]
          rw [hrun] at hswitch
          exact hswitch
        | error e db' =>
          rw [final, tryForks_failed hd hlink hrun]
          rw [hrun] at hswitch
          exact tryForks ids _ (h.afterThrow hswitch) fun s c hc =>
            hcalls s c (.failed hd hlink hrun hc)

theorem tryNumbers : ∀ (num : Nat) (db : ChainDatabase), I db →
    (∀ s c, NumberCalls N clock pushed num db s c → C s c) →
    I (final (tryNumbers N clock pushed num) db)
  | 0, _, hdb, _ => hdb
  | num + 1, db, hdb, hcalls => by
    have hforks := h.tryForks _ db hdb fun s c hc => hcalls s c (.here hc)
    rw [final] at hforks
    rw [final, tryNumbers_succ]
    cases hrun : Achain.tryForks N clock pushed ((db.forkNumberDb.lookup (num + 1)).getD []) db with
    | error e db' =>
      rw [bind_of_error hrun]
      rw [hrun] at hforks
      exact hforks
    | ok done db' =>
      rw [bind_of_ok hrun]
      rw [hrun] at hforks
      cases done with
      | true => exact hforks
      | false => exact tryNumbers num db' hforks fun s c hc => hcalls s c (.next hrun hc)

/-- A call is made by a switch, in a state the search has reached. -/
theorem forkCalls {ids : List BlockIdType} {s : ChainDatabase} {c : ChainCall}
    (hc : ForkCalls N clock pushed ids db s c) (hdb : I db)
    (hcalls : ∀ s c, ForkCalls N clock pushed ids db s c → C s c) :
    (∃ id, c = .switchToFork id ∧ I s) ∨ ∃ db' id, I db' ∧ C db' (.switchToFork id) ∧
      SwitchCalls N clock id db' s c := by
  induction hc with
  | switch hd hlink => exact .inl ⟨_, rfl, hdb⟩
  | inside hd hlink hs => exact .inr ⟨_, _, hdb, hcalls _ _ (.switch hd hlink), hs⟩
  | skip hd hlink _ ih => exact ih hdb fun s c hc => hcalls s c (.skip hd hlink hc)
  | @failed id ids db db' s data e c hd hlink hrun _ ih =>
    have hswitch := h.switch db id data hdb hd hlink (hcalls _ _ (.switch hd hlink))
      fun s c hc => hcalls s c (.inside hd hlink hc)
    rw [final, hrun] at hswitch
    exact ih (h.afterThrow hswitch) fun s c hc => hcalls s c (.failed hd hlink hrun hc)

theorem numberCalls {num : Nat} {s : ChainDatabase} {c : ChainCall}
    (hc : NumberCalls N clock pushed num db s c) (hdb : I db)
    (hcalls : ∀ s c, NumberCalls N clock pushed num db s c → C s c) :
    (∃ id, c = .switchToFork id ∧ I s) ∨ ∃ db' id, I db' ∧ C db' (.switchToFork id) ∧
      SwitchCalls N clock id db' s c := by
  induction hc with
  | here hf => exact h.forkCalls hf hdb fun s c hc => hcalls s c (.here hc)
  | @next num db db' s c hrun _ ih =>
    have hforks := h.tryForks _ db hdb fun s c hc => hcalls s c (.here hc)
    rw [final, hrun] at hforks
    exact ih hforks fun s c hc => hcalls s c (.next hrun hc)

end SwitchKeeps

/-! ## One switch -/

/-- What `get_fork_history` returns: the ids of a block and of linked blocks below it, down to the
first one that is included. -/
inductive History (db : ChainDatabase) : BlockIdType → List BlockIdType → Prop
  | root {id : BlockIdType} {b : FullBlock} : db.blockIdToFullBlock.lookup id = some b →
      b.previous = 0 → History db id [id, 0]
  | included {id : BlockIdType} {b : FullBlock} {d : BlockForkData} :
      db.blockIdToFullBlock.lookup id = some b → db.forkDb.lookup b.previous = some d →
      d.isLinked = true → d.isIncluded = true → History db id [id, b.previous]
  | step {id : BlockIdType} {b : FullBlock} {d : BlockForkData} {rest : List BlockIdType} :
      db.blockIdToFullBlock.lookup id = some b → b.previous ≠ 0 →
      db.forkDb.lookup b.previous = some d → d.isLinked = true → d.isIncluded = false →
      History db b.previous rest → History db id (id :: rest)

theorem forkHistory_succ (fuel : Nat) (id : BlockIdType) :
    forkHistory (fuel + 1) id db = (fetchBlock id >>= fun b =>
      if b.previous = 0 then Pure.pure [id, 0]
      else do
        let data ← fetchFork b.previous
        if !data.isLinked then throw .fcAssert
        else if data.isIncluded then return [id, b.previous]
        else do
          let rest ← forkHistory fuel b.previous
          return id :: rest : DbM (List BlockIdType)) db :=
  rfl

theorem forkHistory_root {b : FullBlock} (hb : db.blockIdToFullBlock.lookup id = some b)
    (hprev : b.previous = 0) (fuel : Nat) : forkHistory (fuel + 1) id db = .ok [id, 0] db := by
  rw [forkHistory_succ, bind_of_ok (fetchBlock_ok hb), if_pos hprev]
  rfl

theorem forkHistory_cases : ∀ (fuel : Nat) (id : BlockIdType),
    (∃ e, forkHistory fuel id db = .error e db) ∨
      ∃ history, forkHistory fuel id db = .ok history db ∧ History db id history
  | 0, _ => .inl ⟨_, rfl⟩
  | fuel + 1, id => by
    rw [forkHistory_succ]
    cases hb : db.blockIdToFullBlock.lookup id with
    | none => exact .inl ⟨_, bind_of_error (fetchBlock_error hb)⟩
    | some b =>
      rw [bind_of_ok (fetchBlock_ok hb)]
      by_cases hroot : b.previous = 0
      · rw [if_pos hroot]
        exact .inr ⟨_, rfl, .root hb hroot⟩
      rw [if_neg hroot]
      cases hd : db.forkDb.lookup b.previous with
      | none => exact .inl ⟨_, bind_of_error (fetchFork_error hd)⟩
      | some d =>
        rw [bind_of_ok (fetchFork_ok hd)]
        cases hlinked : d.isLinked with
        | false => exact .inl ⟨_, rfl⟩
        | true =>
          cases hincluded : d.isIncluded with
          | true => exact .inr ⟨_, rfl, .included hb hd hlinked hincluded⟩
          | false =>
            rcases forkHistory_cases fuel b.previous with ⟨e, he⟩ | ⟨rest, hrest, hist⟩
            · exact .inl ⟨e, bind_of_error he⟩
            · exact .inr ⟨_, (bind_of_ok hrest).trans rfl,
                .step hb hroot hd hlinked hincluded hist⟩

theorem forkHistory_history {fuel : Nat} {history : List BlockIdType}
    (h : forkHistory fuel id db = .ok history db) : History db id history := by
  rcases forkHistory_cases fuel id with ⟨e, he⟩ | ⟨history', hrun, hist⟩
  · rw [h] at he
    cases he
  · rw [h] at hrun
    cases hrun
    exact hist

/-- Each of the blocks follows the one before it, the first one the given one. -/
def Upward (blocks : Tab BlockIdType FullBlock) : BlockIdType → List BlockIdType → Prop
  | _, [] => True
  | a, id :: ids => (∃ b, blocks.lookup id = some b ∧ b.previous = a) ∧ Upward blocks id ids

theorem Upward.append {blocks : Tab BlockIdType FullBlock} {x : BlockIdType} {b : FullBlock}
    (hx : blocks.lookup x = some b) : ∀ {ids : List BlockIdType} {a : BlockIdType},
      Upward blocks a ids → b.previous = ids.getLastD a → Upward blocks a (ids ++ [x])
  | [], a, _, hprev => ⟨⟨b, hx, hprev⟩, trivial⟩
  | id :: ids, a, h, hprev => by
    refine ⟨h.1, append hx h.2 ?_⟩
    rw [hprev]
    cases ids <;> rfl

namespace History

variable {history : List BlockIdType}

theorem split (h : History db id history) : ∃ l a, history = l ++ [a] ∧ l.head? = some id := by
  induction h with
  | @root id b hb hprev => exact ⟨[id], 0, rfl, rfl⟩
  | @included id b d hb hd hl hi => exact ⟨[id], b.previous, rfl, rfl⟩
  | @step id b d rest hb hne hd hl hi _ ih =>
    obtain ⟨l, a, rfl, -⟩ := ih
    exact ⟨id :: l, a, rfl, rfl⟩

/-- The blocks of a history, from its end on, follow one another. -/
theorem upward (h : History db id history) :
    Upward db.blockIdToFullBlock (history.getLastD 0) history.dropLast.reverse := by
  induction h with
  | root hb hprev => exact ⟨⟨_, hb, hprev⟩, trivial⟩
  | included hb hd hl hi => exact ⟨⟨_, hb, rfl⟩, trivial⟩
  | @step id b d rest hb hne hd hl hi hrest ih =>
    obtain ⟨l, a, rfl, hhead⟩ := hrest.split
    rw [← List.cons_append]
    simp only [List.dropLast_concat, List.reverse_cons, List.getLastD_concat] at ih ⊢
    refine ih.append hb ?_
    cases l with
    | nil => cases hhead
    | cons y l =>
      rw [List.head?_cons, Option.some_inj] at hhead
      rw [List.reverse_cons, List.getLastD_concat, hhead]

theorem linked (h : History db id history) (hid : db.Linked id) :
    ∀ x ∈ history.dropLast, db.Linked x := by
  induction h with
  | root => simpa using hid
  | included => simpa using hid
  | @step id b d rest hb hne hd hl hi hrest ih =>
    obtain ⟨l, a, rfl, -⟩ := hrest.split
    rw [← List.cons_append]
    simp only [List.dropLast_concat] at ih ⊢
    intro x hx
    rcases List.mem_cons.1 hx with rfl | hx
    · exact hid
    · exact ih ⟨d, hd, hl⟩ x hx

end History

/-- Applies the blocks of a fork. -/
def applyFork (N : Node) (clock : TimePointSec) (ids : List BlockIdType) : DbM Unit :=
  ids.forM fun id => do
    let b ← fetchBlock id
    extendChainM N clock b

theorem switchToFork_head (hid : id = db.headBlockId) :
    switchToFork N clock id db = .ok () db := by
  have hget : switchToFork N clock id db = (if id = db.headBlockId then Pure.pure ()
      else do
        let history ← forkHistory (db.forkDepth + 1) id
        popUntil N (history.getLastD 0) (db.forkDepth + 1)
        applyFork N clock history.dropLast.reverse : DbM Unit) db := rfl
  rw [hget, if_pos hid]
  rfl

/-- A switch pops down to the end of the history and applies the blocks of the fork. -/
theorem switchToFork_of_history {history : List BlockIdType} (hne : id ≠ db.headBlockId)
    (hhist : forkHistory (db.forkDepth + 1) id db = .ok history db) :
    switchToFork N clock id db = (do
      popUntil N (history.getLastD 0) (db.forkDepth + 1)
      applyFork N clock history.dropLast.reverse : DbM Unit) db := by
  have hget : switchToFork N clock id db = (if id = db.headBlockId then Pure.pure ()
      else do
        let history ← forkHistory (db.forkDepth + 1) id
        popUntil N (history.getLastD 0) (db.forkDepth + 1)
        applyFork N clock history.dropLast.reverse : DbM Unit) db := rfl
  rw [hget, if_neg hne]
  exact bind_of_ok hhist

theorem switchToFork_run (N : Node) (clock : TimePointSec) (id : BlockIdType)
    (db : ChainDatabase) :
    id = db.headBlockId ∧ switchToFork N clock id db = .ok () db ∨
      (∃ e, switchToFork N clock id db = .error e db) ∨
      ∃ history, id ≠ db.headBlockId ∧
        forkHistory (db.forkDepth + 1) id db = .ok history db ∧ History db id history ∧
        switchToFork N clock id db = (do
          popUntil N (history.getLastD 0) (db.forkDepth + 1)
          applyFork N clock history.dropLast.reverse : DbM Unit) db := by
  have hget : switchToFork N clock id db = (if id = db.headBlockId then Pure.pure ()
      else do
        let history ← forkHistory (db.forkDepth + 1) id
        popUntil N (history.getLastD 0) (db.forkDepth + 1)
        applyFork N clock history.dropLast.reverse : DbM Unit) db := rfl
  by_cases hid : id = db.headBlockId
  · exact .inl ⟨hid, switchToFork_head hid⟩
  · rcases forkHistory_cases (db.forkDepth + 1) id with ⟨e, he⟩ | ⟨history, hrun, hist⟩
    · rw [if_neg hid] at hget
      exact .inr (.inl ⟨e, hget.trans (bind_of_error he)⟩)
    · exact .inr (.inr ⟨history, hid, hrun, hist, switchToFork_of_history hid hrun⟩)

theorem popUntil_succ (fuel : Nat) : popUntil N id (fuel + 1) db =
    if db.headBlockId = id then .ok () db else (popBlockM N >>= fun _ => popUntil N id fuel) db := by
  show (if db.headBlockId = id then Pure.pure ()
    else (popBlockM N >>= fun _ => popUntil N id fuel : DbM Unit)) db = _
  split_ifs <;> rfl

theorem popUntil_head : ∀ {fuel : Nat} {db db' : ChainDatabase},
    popUntil N id fuel db = .ok () db' → db'.headBlockId = id
  | 0, _, _, h => by cases h
  | fuel + 1, db, db', h => by
    rw [popUntil_succ] at h
    split_ifs at h with hid
    · cases h
      exact hid
    · cases hpop : popBlockM N db with
      | error e s =>
        rw [bind_of_error hpop] at h
        cases h
      | ok u s =>
        rw [bind_of_ok hpop] at h
        exact popUntil_head h

theorem applyFork_cons {ids : List BlockIdType} {b : FullBlock}
    (hb : db.blockIdToFullBlock.lookup id = some b) : applyFork N clock (id :: ids) db =
      (extendChainM N clock b >>= fun _ => applyFork N clock ids) db := by
  show ((fetchBlock id >>= extendChainM N clock) >>= fun _ => applyFork N clock ids : DbM Unit) db =
    _
  rw [show ((fetchBlock id >>= extendChainM N clock) >>= fun _ => applyFork N clock ids :
    DbM Unit) = fetchBlock id >>= fun b => extendChainM N clock b >>= fun _ =>
      applyFork N clock ids from bind_assoc _ _ _]
  exact bind_of_ok (fetchBlock_ok hb)

theorem Upward.of_blocks {blocks blocks' : Tab BlockIdType FullBlock} (h : blocks' = blocks)
    {a : BlockIdType} {ids : List BlockIdType} (hup : Upward blocks a ids) :
    Upward blocks' a ids :=
  h ▸ hup

theorem ForkTree.popUntil (id : BlockIdType) (fuel : Nat) :
    Keeps (ForkTree N) (popUntil N id fuel) := by
  induction fuel with
  | zero => exact .throw _
  | succ fuel ih => exact .get_bind fun _ _ => .ite (.pure _) (.bind popBlockM fun _ => ih)

theorem ForkTree.popUntil_sameShape (id : BlockIdType) : ∀ (fuel : Nat) {db : ChainDatabase},
    ForkTree N db → SameShape db (final (Achain.popUntil N id fuel) db)
  | 0, _, _ => .of_eq rfl rfl rfl
  | fuel + 1, db, h => by
    have hshape := h.popBlockM_sameShape
    have htree := popBlockM db h
    rw [final, popUntil_succ]
    rw [final] at hshape htree
    split_ifs
    · exact .of_eq rfl rfl rfl
    · cases hpop : Achain.popBlockM N db with
      | error e s =>
        rw [bind_of_error hpop]
        rw [hpop] at hshape
        exact hshape
      | ok u s =>
        rw [bind_of_ok hpop]
        rw [hpop] at hshape htree
        exact hshape.trans (popUntil_sameShape id fuel htree)

section Switch

variable {I : ChainDatabase → Prop} {E : ChainDatabase → FullBlock → Prop}
  (htree : ∀ db, I db → ForkTree N db)
  (hextend : ∀ db b, I db → db.blockIdToFullBlock.lookup (N.B.id b.toSignedBlockHeader) = some b →
    b.previous = db.headBlockId → db.Linked (N.B.id b.toSignedBlockHeader) → E db b →
    I (final (extendChainM N clock b) db))

include htree hextend

/-- A property is kept by the blocks of a fork, each applied to the one before it. -/
theorem applyFork_keeps : ∀ (ids : List BlockIdType) (db : ChainDatabase), I db →
    Upward db.blockIdToFullBlock db.headBlockId ids → (∀ x ∈ ids, db.Linked x) →
    (∀ s b, ExtendCalled N clock ids db s b → E s b) → I (final (applyFork N clock ids) db)
  | [], _, hdb, _, _, _ => hdb
  | id :: ids, db, hdb, ⟨⟨b, hb, hprev⟩, hup⟩, hlinked, hcalls => by
    have h := htree db hdb
    obtain rfl := (h.blockId id b hb).1
    have hI := hextend db b hdb hb hprev (hlinked _ (List.mem_cons_self ..)) (hcalls _ _ (.here hb))
    have hshape := h.extendChainM_sameShape clock hb
    rw [final, applyFork_cons hb]
    rw [final] at hI hshape
    rcases extendChainM_cases N db clock b with ⟨db', hext, hrun⟩ | ⟨e, -, hrun⟩
    · rw [bind_of_ok hrun]
      rw [hrun] at hI hshape
      refine applyFork_keeps ids db' hI ?_ (fun x hx => ?_) fun s b' hc =>
        hcalls s b' (.next hb hrun hc)
      · rw [(extendChain_grown hext).headBlockId]
        exact hup.of_blocks hshape.blocks
      · exact (hshape.linked x).2 (hlinked x (List.mem_cons_of_mem _ hx))
    · obtain ⟨m, hrun', -⟩ := extendChainM_error h (Finmap.mem_of_lookup_eq_some hb) hrun
      rw [bind_of_error hrun']
      rw [hrun'] at hI
      exact hI

/-- A property is kept by a switch if it is kept by popping down to the fork point and by extending
the chain from there. -/
theorem switchToFork_keeps (hdb : I db) (hlinked : db.Linked id)
    (hpop : ∀ history, forkHistory (db.forkDepth + 1) id db = .ok history db →
      id ≠ db.headBlockId → History db id history →
      I (final (popUntil N (history.getLastD 0) (db.forkDepth + 1)) db))
    (hcalls : ∀ s b, SwitchCalls N clock id db s (.extendChain b) → E s b) :
    I (final (switchToFork N clock id) db) := by
  rcases switchToFork_run N clock id db with ⟨-, hrun⟩ | ⟨e, hrun⟩ | ⟨history, hne, hhist, hist, hrun⟩
  · rw [final, hrun]
    exact hdb
  · rw [final, hrun]
    exact hdb
  · have hI := hpop history hhist hne hist
    have hshape := (htree db hdb).popUntil_sameShape (history.getLastD 0) (db.forkDepth + 1)
    rw [final, hrun]
    rw [final] at hI hshape
    cases hpops : popUntil N (history.getLastD 0) (db.forkDepth + 1) db with
    | error e s =>
      rw [bind_of_error hpops]
      rw [hpops] at hI
      exact hI
    | ok u s =>
      rw [bind_of_ok hpops]
      rw [hpops] at hI hshape
      refine applyFork_keeps htree hextend _ s hI ?_ (fun x hx => ?_) fun s' b' hc =>
        hcalls s' b' (.extend hne hhist hpops hc)
      · rw [popUntil_head hpops]
        exact hist.upward.of_blocks hshape.blocks
      · exact (hshape.linked x).2 (hist.linked hlinked x (List.mem_reverse.1 hx))

end Switch

/-- A search changes no blocks. -/
theorem ForkTree.switches {blocks : Tab BlockIdType FullBlock} (hpushed : pushed ∈ blocks) :
    SwitchKeeps N clock pushed (fun _ _ => True)
      fun db => ForkTree N db ∧ db.blockIdToFullBlock = blocks where
  switch db id data h hd hlink _ _ := by
    refine switchToFork_keeps (E := fun _ _ => True)
      (I := fun db => ForkTree N db ∧ db.blockIdToFullBlock = blocks) (fun db h => h.1)
      (fun db b h hb _ _ _ => ?_) h (linked_of_canLink hd hlink) (fun history _ _ _ => ?_)
      fun _ _ _ => trivial
    · exact ⟨h.1.extendChainM hb, (h.1.extendChainM_sameShape clock hb).blocks.trans h.2⟩
    · exact ⟨popUntil _ _ db h.1, (popUntil_sameShape _ _ h.1).blocks.trans h.2⟩
  future db h := ⟨((search clock).future db ⟨h.1, h.2 ▸ hpushed⟩).1, h.2⟩

/-! ## The calls, listed -/

def popCalls (N : Node) (id : BlockIdType) : Nat → ChainDatabase → List ChainDatabase
  | 0, _ => []
  | fuel + 1, db =>
    if db.headBlockId = id then [] else db :: onOk (popBlockM N db) fun _ => popCalls N id fuel

theorem mem_popCalls : ∀ {fuel : Nat} {db s : ChainDatabase},
    s ∈ popCalls N id fuel db ↔ PopCalled N id fuel db s
  | 0, _, _ => iff_of_false List.not_mem_nil fun h => by cases h
  | fuel + 1, db, s => by
    rw [popCalls, List.mem_ite_nil_left, List.mem_cons, mem_onOk]
    constructor
    · rintro ⟨hid, rfl | ⟨_, db', hrun, h⟩⟩
      · exact .here hid
      · exact .next hid hrun (mem_popCalls.1 h)
    · rintro (hid | ⟨hid, hrun, h⟩)
      · exact ⟨hid, .inl rfl⟩
      · exact ⟨hid, .inr ⟨(), _, hrun, mem_popCalls.2 h⟩⟩

def extendCalls (N : Node) (clock : TimePointSec) :
    List BlockIdType → ChainDatabase → List (ChainDatabase × FullBlock)
  | [], _ => []
  | id :: ids, db =>
    (db.blockIdToFullBlock.lookup id).toList.flatMap fun b =>
      (db, b) :: onOk (extendChainM N clock b db) fun _ => extendCalls N clock ids

theorem mem_extendCalls : ∀ {ids : List BlockIdType} {db s : ChainDatabase} {b : FullBlock},
    (s, b) ∈ extendCalls N clock ids db ↔ ExtendCalled N clock ids db s b
  | [], _, _, _ => iff_of_false List.not_mem_nil fun h => by cases h
  | id :: ids, db, s, b => by
    simp only [extendCalls, List.mem_flatMap, Option.mem_toList, List.mem_cons, Prod.mk.injEq, mem_onOk]
    constructor
    · rintro ⟨b', hb, ⟨rfl, rfl⟩ | ⟨_, db', hrun, h⟩⟩
      · exact .here hb
      · exact .next hb hrun (mem_extendCalls.1 h)
    · rintro (hb | ⟨hb, hrun, h⟩)
      · exact ⟨b, hb, .inl ⟨rfl, rfl⟩⟩
      · exact ⟨_, hb, .inr ⟨(), _, hrun, mem_extendCalls.2 h⟩⟩

def switchCalls (N : Node) (clock : TimePointSec) (id : BlockIdType) (db : ChainDatabase) :
    List (ChainDatabase × ChainCall) :=
  if id = db.headBlockId then []
  else onOk (forkHistory (db.forkDepth + 1) id db) fun history _ =>
    (popCalls N (history.getLastD 0) (db.forkDepth + 1) db).map (·, .popBlock) ++
      onOk (popUntil N (history.getLastD 0) (db.forkDepth + 1) db) fun _ db' =>
        (extendCalls N clock history.dropLast.reverse db').map fun x => (x.1, .extendChain x.2)

theorem mem_switchCalls {s : ChainDatabase} {c : ChainCall} :
    (s, c) ∈ switchCalls N clock id db ↔ SwitchCalls N clock id db s c := by
  simp only [switchCalls, List.mem_ite_nil_left, mem_onOk, List.mem_append, List.mem_map]
  constructor
  · rintro ⟨hid, history, db', hhist, h⟩
    obtain rfl : db' = db := by
      rcases forkHistory_cases (db.forkDepth + 1) id with ⟨e, he⟩ | ⟨history', hhist', -⟩
      · cases hhist.symm.trans he
      · cases hhist.symm.trans hhist'
        rfl
    rcases h with ⟨s', hs, ⟨⟩⟩ | ⟨_, db'', hrun, ⟨s', b⟩, hs, ⟨⟩⟩
    · exact .pop hid hhist (mem_popCalls.1 hs)
    · exact .extend hid hhist hrun (mem_extendCalls.1 hs)
  · rintro (⟨hid, hhist, h⟩ | ⟨hid, hhist, hrun, h⟩)
    · exact ⟨hid, _, _, hhist, .inl ⟨s, mem_popCalls.2 h, rfl⟩⟩
    · exact ⟨hid, _, _, hhist, .inr ⟨(), _, hrun, _, mem_extendCalls.2 h, rfl⟩⟩

def forkCalls (N : Node) (clock : TimePointSec) (pushed : BlockIdType) :
    List BlockIdType → ChainDatabase → List (ChainDatabase × ChainCall)
  | [], _ => []
  | id :: ids, db =>
    (db.forkDb.lookup id).toList.flatMap fun data =>
      if data.canLink then
        (db, .switchToFork id) :: switchCalls N clock id db ++
          onError (switchToFork N clock id db) fun e db' =>
            forkCalls N clock pushed ids (db'.afterThrow pushed e)
      else forkCalls N clock pushed ids db

theorem mem_forkCalls : ∀ {ids : List BlockIdType} {db s : ChainDatabase} {c : ChainCall},
    (s, c) ∈ forkCalls N clock pushed ids db ↔ ForkCalls N clock pushed ids db s c
  | [], _, _, _ => iff_of_false List.not_mem_nil fun h => by cases h
  | id :: ids, db, s, c => by
    simp only [forkCalls, List.mem_flatMap, Option.mem_toList]
    constructor
    · rintro ⟨data, hd, h⟩
      split_ifs at h with hlink
      · simp only [List.cons_append, List.mem_cons, Prod.mk.injEq, List.mem_append, mem_onError] at h
        rcases h with ⟨rfl, rfl⟩ | h | ⟨e, db', hrun, h⟩
        · exact .switch hd hlink
        · exact .inside hd hlink (mem_switchCalls.1 h)
        · exact .failed hd hlink hrun (mem_forkCalls.1 h)
      · exact .skip hd (Bool.eq_false_iff.2 hlink) (mem_forkCalls.1 h)
    · rintro (⟨hd, hlink⟩ | ⟨hd, hlink, h⟩ | ⟨hd, hlink, h⟩ | ⟨hd, hlink, hrun, h⟩) <;>
        refine ⟨_, hd, ?_⟩ <;> rw [hlink]
      · exact List.mem_cons_self
      · exact List.mem_append_left _ (List.mem_cons_of_mem _ (mem_switchCalls.2 h))
      · exact mem_forkCalls.2 h
      · exact List.mem_append_right _ (mem_onError.2 ⟨_, _, hrun, mem_forkCalls.2 h⟩)

def numberCalls (N : Node) (clock : TimePointSec) (pushed : BlockIdType) :
    Nat → ChainDatabase → List (ChainDatabase × ChainCall)
  | 0, _ => []
  | num + 1, db =>
    forkCalls N clock pushed ((db.forkNumberDb.lookup (num + 1)).getD []) db ++
      onOk (tryForks N clock pushed ((db.forkNumberDb.lookup (num + 1)).getD []) db) fun done db' =>
        if done = true then [] else numberCalls N clock pushed num db'

theorem mem_numberCalls : ∀ {num : Nat} {db s : ChainDatabase} {c : ChainCall},
    (s, c) ∈ numberCalls N clock pushed num db ↔ NumberCalls N clock pushed num db s c
  | 0, _, _, _ => iff_of_false List.not_mem_nil fun h => by cases h
  | num + 1, db, s, c => by
    simp only [numberCalls, List.mem_append, mem_forkCalls, mem_onOk, List.mem_ite_nil_left,
      Bool.not_eq_true]
    constructor
    · rintro (h | ⟨_, db', hrun, rfl, h⟩)
      · exact .here h
      · exact .next hrun (mem_numberCalls.1 h)
    · rintro (h | ⟨hrun, h⟩)
      · exact .inl h
      · exact .inr ⟨false, _, hrun, rfl, mem_numberCalls.2 h⟩

def pushCalls (N : Node) (clock : TimePointSec) (b : FullBlock) (db : ChainDatabase) :
    List (ChainDatabase × ChainCall) :=
  if (maxUndoHistory < db.headBlockHeader.blockNum ∧
      b.blockNum ≤ db.headBlockHeader.blockNum - maxUndoHistory) ∨
      (db.forkDb.lookup (N.B.id b.toSignedBlockHeader)).any BlockForkData.isKnown then []
  else onOk (storeAndIndex (N.B.id b.toSignedBlockHeader) b db) fun r db' =>
    (db'.blockIdToFullBlock.lookup r.1).toList.flatMap fun longest =>
      if r.2.canLink = true ∧ db.headBlockHeader.blockNum < longest.blockNum then
        numberCalls N clock (N.B.id b.toSignedBlockHeader) longest.blockNum db'
      else []

/-- The calls of a push can be computed. -/
theorem mem_pushCalls {b : FullBlock} {s : ChainDatabase} {c : ChainCall} :
    (s, c) ∈ pushCalls N clock b db ↔ PushCalls N clock b db s c := by
  simp only [pushCalls, List.mem_ite_nil_left, mem_onOk, List.mem_flatMap, Option.mem_toList,
    List.mem_ite_nil_right, mem_numberCalls, not_or]
  constructor
  · rintro ⟨⟨hrecent, hunknown⟩, r, db', hrun, longest, hlongest, ⟨hlink, hlt⟩, h⟩
    exact .search ⟨hrecent, hunknown⟩ hrun hlink hlongest hlt h
  · rintro ⟨⟨hrecent, hunknown⟩, hrun, hlink, hlongest, hlt, h⟩
    exact ⟨⟨hrecent, hunknown⟩, _, _, hrun, _, hlongest, ⟨hlink, hlt⟩, h⟩

/-- Whether a call is of `extend_chain`, on a block with the property. -/
def ChainCall.extends (p : FullBlock → Bool) : ChainCall → Bool
  | .extendChain b => p b
  | _ => false

def ChainCall.pops : ChainCall → Bool
  | .popBlock => true
  | _ => false

theorem exists_extension {b : FullBlock} {p : ChainDatabase × ChainCall → FullBlock → Bool}
    (h : (pushCalls N clock b db).any (fun x => x.2.extends (p x)) = true) :
    ∃ s b', PushCalls N clock b db s (.extendChain b') ∧ p (s, .extendChain b') b' = true := by
  obtain ⟨⟨s, c⟩, hmem, hp⟩ := List.any_eq_true.1 h
  cases c with
  | extendChain b' => exact ⟨s, b', mem_pushCalls.1 hmem, hp⟩
  | switchToFork id => cases hp
  | popBlock => cases hp

theorem exists_pop {b : FullBlock} (h : (pushCalls N clock b db).any (fun x => x.2.pops) = true) :
    ∃ s, PushCalls N clock b db s .popBlock := by
  obtain ⟨⟨s, c⟩, hmem, hp⟩ := List.any_eq_true.1 h
  cases c with
  | popBlock => exact ⟨s, mem_pushCalls.1 hmem⟩
  | switchToFork id => cases hp
  | extendChain b' => cases hp

end Achain
