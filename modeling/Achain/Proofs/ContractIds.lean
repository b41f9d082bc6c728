import Achain.Glua.Execute
import Achain.Lib.Stateful

/-!
# Which contract an operation acts for

The stack of contract ids is pushed and popped by the wrappers of the API functions alone, so at any
time it lists the wrappers on the call stack, innermost first (`exec_inStep`): a call that ends, also
by a stop of the VM, leaves the stack as it was, and an error leaves the execution. A storage access
or a transfer therefore acts for the contract of the innermost wrapper it was called through,
whatever code makes it.
-/

namespace Achain.Glua

open Stateful

/-- The ids of the wrappers on the call stack, innermost first. -/
def apiIds : List Frame → List ContractId
  | [] => []
  | .apiWrapper contract :: frames => contract :: apiIds frames
  | .lua _ :: frames => apiIds frames
  | .native :: frames => apiIds frames

/-- The contract of the innermost wrapper on the call stack, or the empty id. -/
def innermostApi (frames : List Frame) : ContractId := (apiIds frames).headD []

/-- The contract whose code is on top of the call stack, below functions of the library. -/
def codeContract : List Frame → Option ContractId
  | [] => none
  | .lua contract :: _ => some contract
  | .native :: frames => codeContract frames
  | .apiWrapper _ :: frames => codeContract frames

/-- Every operation acted for the contract of the innermost wrapper it was called through. -/
def Attributed (s : LuaState) : Prop := ∀ op ∈ s.operations, op.contract = innermostApi op.frames

/-- The stack of contract ids lists the wrappers on the call stack. -/
def InStep (frames : List Frame) (s : LuaState) : Prop :=
  s.contractIds = apiIds frames ∧ Attributed s

/-- The computation leaves the stack of contract ids in step with the call stack. -/
abbrev Balanced (frames : List Frame) {α : Type} (x : LuaM α) : Prop :=
  Ends Attributed (InStep frames) (InStep frames) x

namespace Balanced

variable {frames : List Frame} {α β : Type}

/-- A change of the other parts of the state. -/
theorem modify {f : LuaState → LuaState} (hids : ∀ s, (f s).contractIds = s.contractIds)
    (hops : ∀ s, (f s).operations = s.operations) : Balanced frames (modify f) := by
  refine Ends.modify fun s hs => ⟨(hids s).trans hs.1, ?_⟩
  intro op hop
  rw [hops] at hop
  exact hs.2 op hop

theorem throwException : Balanced frames throwException := modify (fun _ => rfl) fun _ => rfl

theorem forceStop : Balanced frames forceStop := modify (fun _ => rfl) fun _ => rfl

theorem raise : Balanced frames raise := by
  refine throwException.bind fun _ => Ends.get.bind fun s => ?_
  split_ifs
  · exact Ends.throw (fun _ hs => hs.2) _
  · exact forceStop

theorem newTable : Balanced frames newTable := Ends.modifyGet fun _ hs => hs

theorem newClosure (c : Closure) : Balanced frames (newClosure c) := Ends.modifyGet fun _ hs => hs

theorem rawget (v : Value) (key : Str) : Balanced frames (rawget v key) := by
  unfold Glua.rawget
  split
  · exact Ends.get.bind fun s => Ends.pure _
  · exact raise.bind fun _ => Ends.pure _

theorem rawset (t : Value) (key : Str) (v : Value) : Balanced frames (rawset t key v) := by
  unfold Glua.rawset
  split
  · exact modify (fun _ => rfl) fun _ => rfl
  · exact raise

theorem getmetatable (v : Value) : Balanced frames (getmetatable v) := by
  unfold Glua.getmetatable
  split
  · exact Ends.get.bind fun s => Ends.pure _
  · exact Ends.pure _

theorem setmetatable (v mt : Value) : Balanced frames (setmetatable v mt) := by
  unfold Glua.setmetatable
  split
  · exact modify (fun _ => rfl) fun _ => rfl
  · exact raise

theorem metamethod (v : Value) (event : Str) : Balanced frames (metamethod v event) := by
  refine (getmetatable v).bind fun mt => ?_
  split
  · exact Ends.get.bind fun s => Ends.pure _
  · exact Ends.pure _

/-- What follows a read of the current contract may use that it is the innermost wrapper's. -/
theorem current {f : ContractId → LuaM β} (hf : Balanced frames (f (innermostApi frames))) :
    Balanced frames (getCurrentUsingContractId >>= f) := by
  intro s hs
  have htop : s.contractIds.headD [] = innermostApi frames := by rw [hs.1, innermostApi]
  have hrun : getCurrentUsingContractId s = .ok (innermostApi frames) s := by rw [← htop]; rfl
  rw [bind_of_ok hrun]
  exact hf s hs

theorem perform (kind : OperationKind) :
    Balanced frames (perform frames kind (innermostApi frames)) := by
  refine Ends.modify fun s hs => ⟨hs.1, ?_⟩
  intro op hop
  rcases List.mem_cons.1 hop with rfl | hop
  · rfl
  · exact hs.2 op hop

theorem getStorageImpl (contract : ContractId) (name : Str) :
    Balanced frames (getStorageImpl frames contract name) := by
  refine current ?_
  split_ifs with hne
  · exact forceStop.bind fun _ => Ends.pure _
  · rw [ne_eq, not_not] at hne
    subst hne
    exact (perform _).bind fun _ => Ends.get.bind fun s => Ends.pure _

theorem setStorageImpl (api : ChainApi) (contract : ContractId) (name : Str) (v : Value) :
    Balanced frames (setStorageImpl api frames contract name v) := by
  refine current ?_
  have stop : Balanced frames (do Glua.forceStop; return) := forceStop.bind fun _ => Ends.pure _
  split_ifs with hne hname hnil
  · exact stop
  · exact throwException.bind fun _ => Ends.pure _
  all_goals
    rw [ne_eq, not_not] at hne
    subst hne
    refine (perform _).bind fun _ => Ends.get.bind fun s => ?_
  · exact stop
  · dsimp only
    split_ifs
    · exact stop
    · exact stop
    · exact modify (fun _ => rfl) fun _ => rfl

theorem transferFromContractToAddress (api : ChainApi) (toAddress asset : Str) (amount : Int) :
    Balanced frames (transferFromContractToAddress api frames toAddress asset amount) := by
  refine current ?_
  split_ifs
  · exact throwException.bind fun _ => Ends.pure _
  · exact (perform _).bind fun _ => Ends.pure _

end Balanced

section Step

variable {api : ChainApi} {run : List Frame → Code → LuaM Value}
  (hrun : ∀ frames code, Balanced frames (run frames code)) {frames : List Frame}

include hrun

/-- The wrapper's push puts the callee in step with its own frame, and its pop the caller. -/
theorem contractApiWrapperFunc_balanced (f : Value) (contract : ContractId) (args : List Value) :
    Balanced frames (contractApiWrapperFunc run frames f contract args) := by
  refine Ends.bind (J := InStep (.apiWrapper contract :: frames)) ?_ fun _ =>
    (hrun _ _).bind fun result => Ends.bind ?_ fun _ => Ends.pure _
  · exact Ends.modify fun s hs => ⟨by rw [apiIds, hs.1], hs.2⟩
  · exact Ends.modify fun s hs => ⟨by rw [hs.1]; rfl, hs.2⟩

theorem call_balanced (f : Value) (args : List Value) : Balanced frames (call run frames f args) := by
  refine Ends.get.bind fun s => ?_
  split
  · split
    · rename_i contract body _
      exact (hrun (.lua contract :: frames) (body args))
    · rename_i body _
      exact hrun (.native :: frames) (body args)
    · exact contractApiWrapperFunc_balanced hrun _ _ _
    · exact Balanced.raise.bind fun _ => Ends.pure _
  · refine (Balanced.metamethod _ _).bind fun tm => ?_
    split
    · exact hrun _ _
    · exact Balanced.raise.bind fun _ => Ends.pure _

omit hrun in
theorem typeError_balanced : Balanced frames (typeError frames) := by
  unfold typeError
  split
  · exact Balanced.forceStop
  · exact Balanced.raise

theorem index_balanced (t : Value) (key : Str) : Balanced frames (index run frames t key) := by
  unfold index
  split
  · refine (Balanced.rawget _ _).bind fun v => ?_
    split_ifs
    · exact Ends.pure _
    · refine (Balanced.metamethod _ _).bind fun tm => ?_
      split
      · exact Ends.pure _
      · exact hrun _ _
      · exact hrun _ _
  · exact typeError_balanced.bind fun _ => Ends.pure _

theorem newindex_balanced (t : Value) (key : Str) (v : Value) :
    Balanced frames (newindex run frames t key v) := by
  unfold newindex
  split
  · refine (Balanced.rawget _ _).bind fun old => (Balanced.metamethod _ _).bind fun tm => ?_
    split_ifs
    · exact (Balanced.rawset _ _ _).bind fun _ => Ends.pure _
    · split
      · exact (hrun _ _).bind fun _ => Ends.pure _
      · exact (hrun _ _).bind fun _ => Ends.pure _
  · exact typeError_balanced

theorem event_balanced (name : Str) (a b : Value) :
    Balanced frames (event run frames name a b) := by
  refine (Balanced.metamethod _ _).bind fun tm => (Balanced.metamethod _ _).bind fun tm' => ?_
  dsimp only
  generalize (if tm = .nil then tm' else tm) = handler
  split_ifs
  · exact Balanced.raise.bind fun _ => Ends.pure _
  · exact hrun _ _

theorem getStorage_balanced (contract : Value) (name : Str) :
    Balanced frames (getStorage run frames contract name) := by
  unfold getStorage
  split
  · refine (index_balanced hrun _ _).bind fun id => ?_
    split
    · exact Balanced.getStorageImpl _ _
    · exact Balanced.raise.bind fun _ => Ends.pure _
  · exact Balanced.throwException.bind fun _ => Ends.pure _

theorem setStorage_balanced (contract : Value) (name : Str) (v : Value) :
    Balanced frames (setStorage api run frames contract name v) := by
  unfold setStorage
  split
  · refine (index_balanced hrun _ _).bind fun id => ?_
    split
    · exact Balanced.setStorageImpl _ _ _ _
    · exact Balanced.raise
  · exact Balanced.throwException

theorem fillContractInfoForUse_balanced (contract : Value) :
    Balanced frames (fillContractInfoForUse run frames contract) := by
  refine Balanced.newTable.bind fun data => (newindex_balanced hrun _ _ _).bind fun _ => ?_
  refine (Balanced.setmetatable _ _).bind fun _ => Balanced.newTable.bind fun storage => ?_
  refine (newindex_balanced hrun _ _ _).bind fun _ => (index_balanced hrun _ _).bind fun storage => ?_
  exact (newindex_balanced hrun _ _ _).bind fun _ => Balanced.setmetatable _ _

theorem wrapApi_balanced (contract : Value) (key : Str) :
    Balanced frames (wrapApi run frames contract key) := by
  refine (Balanced.rawget _ _).bind fun v => ?_
  split
  · refine (index_balanced hrun _ _).bind fun id => ?_
    split
    · exact (Balanced.newClosure _).bind fun wrapped => newindex_balanced hrun _ _ _
    · exact Balanced.raise
  · exact Ends.pure _

theorem wrapApis_balanced (contract : Value) : Balanced frames (wrapApis run frames contract) := by
  refine Ends.get.bind fun s => ?_
  split
  · exact Ends.forM (fun key => wrapApi_balanced hrun _ key) _
  · exact Ends.pure _

theorem removeSpecialApis_balanced (contract : Value) (but : Str) :
    Balanced frames (removeSpecialApis run frames contract but) :=
  Ends.forM (fun _ => newindex_balanced hrun _ _ _) _

theorem prepareContract_balanced (r : ContractRef) (c : Contract) (contract : Value) :
    Balanced frames (prepareContract api run frames r c contract) := by
  refine (fillContractInfoForUse_balanced hrun _).bind fun _ =>
    (newindex_balanced hrun _ _ _).bind fun _ => (newindex_balanced hrun _ _ _).bind fun _ => ?_
  split_ifs
  · exact (removeSpecialApis_balanced hrun _ _).bind fun _ => wrapApis_balanced hrun _
  · exact wrapApis_balanced hrun _

omit hrun in
theorem setLoaded_balanced (r : ContractRef) (v : Value) : Balanced frames (setLoaded r v) :=
  Balanced.modify (fun _ => rfl) fun _ => rfl

theorem importContractModule_balanced (r : ContractRef) :
    Balanced frames (importContractModule api run frames r) := by
  refine Ends.get.bind fun s => ?_
  split
  · exact Ends.pure _
  · exact Balanced.throwException.bind fun _ => Ends.pure _
  · rename_i c _ _
    refine Ends.bind (J := InStep frames) (hrun (.lua c.id :: frames) c.module) fun v => ?_
    refine Ends.get.bind fun s => ?_
    split
    · split_ifs
      · exact (prepareContract_balanced hrun _ _ _).bind fun _ =>
          (setLoaded_balanced _ _).bind fun _ => Ends.pure _
      · exact Balanced.forceStop.bind fun _ => (setLoaded_balanced _ _).bind fun _ => Ends.pure _
    · exact Balanced.throwException.bind fun _ =>
        (setLoaded_balanced _ _).bind fun _ => Ends.pure _

/-- One operation leaves the stack in step, if what it runs does. -/
theorem step_balanced (code : Code) : Balanced frames (step api run frames code) := by
  cases code with
  | ret v => exact Ends.pure _
  | error => exact Balanced.raise.bind fun _ => Ends.pure _
  | exit => exact Balanced.forceStop.bind fun _ => Ends.pure _
  | newTable k => exact Balanced.newTable.bind fun t => hrun _ _
  | closure body k =>
    have hclosure (c : Closure) : Balanced frames (do let f ← newClosure c; run frames (k f)) :=
      (Balanced.newClosure c).bind fun f => hrun _ _
    cases frames with
    | nil => exact hclosure _
    | cons frame frames =>
      cases frame with
      | lua contract => exact hclosure _
      | native => exact hclosure _
      | apiWrapper contract => exact hclosure _
  | rawget t key k => exact (Balanced.rawget _ _).bind fun v => hrun _ _
  | rawset t key v k => exact (Balanced.rawset _ _ _).bind fun _ => hrun _ _
  | index t key k => exact (index_balanced hrun _ _).bind fun v => hrun _ _
  | newindex t key v k => exact (newindex_balanced hrun _ _ _).bind fun _ => hrun _ _
  | getmetatable t k => exact (Balanced.getmetatable _).bind fun mt => hrun _ _
  | setmetatable t mt k => exact (Balanced.setmetatable _ _).bind fun _ => hrun _ _
  | event name a b k => exact (event_balanced hrun _ _ _).bind fun v => hrun _ _
  | call f args k => exact (call_balanced hrun _ _).bind fun v => hrun _ _
  | importContract r k => exact (importContractModule_balanced hrun _).bind fun v => hrun _ _
  | getStorage contract name k => exact (getStorage_balanced hrun _ _).bind fun v => hrun _ _
  | setStorage contract name v k => exact (setStorage_balanced hrun _ _ _).bind fun _ => hrun _ _
  | transferFromContract toAddress asset amount k =>
    exact (Balanced.transferFromContractToAddress _ _ _ _).bind fun v => hrun _ _

end Step

variable (api : ChainApi)

theorem exec_balanced : ∀ (fuel : Nat) (frames : List Frame) (code : Code),
    Balanced frames (exec api fuel frames code)
  | 0, _, _ => Ends.throw (fun _ hs => hs.2) _
  | fuel + 1, frames, code => by
    refine Ends.get.bind fun s => ?_
    split_ifs
    · exact Ends.pure _
    · exact step_balanced (exec_balanced fuel) code

/-- The state an execution of a contract API ends in. -/
def execution (fuel : Nat) (r : ContractRef) (apiName arg : Str) : LuaState :=
  final (executeContractApi api fuel r apiName arg) createLuaState

theorem createLuaState_inStep : InStep [.native] createLuaState :=
  ⟨rfl, fun _ hop => absurd hop List.not_mem_nil⟩

theorem catchRun_attributed (e : LuaError) : Ends Attributed Attributed Attributed (catchRun e) := by
  cases e with
  | errrun => exact Ends.pure _
  | fuel => exact Ends.throw (fun _ hs => hs) _

/-- The error that the protected call catches may leave ids on the stack, but nothing is performed
after it. -/
theorem executeContractApi_attributed (fuel : Nat) (r : ContractRef) (apiName arg : Str) :
    Ends Attributed (InStep [.native]) Attributed (executeContractApi api fuel r apiName arg) := by
  have hrun := exec_balanced api fuel
  have hcall (f contract : Value) : Balanced [.native] (do
      let _ ← call (exec api fuel) [.native] f [contract, .string arg]
      return) := (call_balanced hrun f _).bind fun _ => Ends.pure _
  have fail : Ends Attributed (InStep [.native]) Attributed throwException :=
    Balanced.throwException.weaken (fun _ hs => hs) fun _ hs => hs.2
  refine (importContractModule_balanced hrun _).bind fun _ => Ends.get.bind fun s => ?_
  split
  · refine (fillContractInfoForUse_balanced hrun _).bind fun _ =>
      (newindex_balanced hrun _ _ _).bind fun _ => (newindex_balanced hrun _ _ _).bind fun _ =>
      (removeSpecialApis_balanced hrun _ _).bind fun _ => (index_balanced hrun _ _).bind fun f => ?_
    split
    · refine Ends.bind (J := InStep [.native]) (Balanced.modify (fun _ => rfl) fun _ => rfl) fun _ => ?_
      refine Ends.bind (J := Attributed) ?_ fun _ => Ends.modify fun _ hs => hs
      exact Ends.tryCatch ((hcall _ _).weaken (fun _ hs => hs) fun _ hs => hs.2) catchRun_attributed
    · exact fail
  · exact fail

theorem execution_attributed (fuel : Nat) (r : ContractRef) (apiName arg : Str) :
    Attributed (execution api fuel r apiName arg) :=
  (executeContractApi_attributed api fuel r apiName arg).final_of_weaker (fun _ hs => hs)
    createLuaState_inStep

/-- Every operation acts for the contract its code was loaded from. -/
def ActsForOwnContract (s : LuaState) : Prop :=
  ∀ op ∈ s.operations, ∀ contract, codeContract op.frames = some contract → op.contract = contract

/-- An execution acts for the contract its code was loaded from if and only if, at each of its
operations, the innermost wrapper on the call stack is that of the contract whose code is on top. -/
theorem actsForOwnContract_iff (fuel : Nat) (r : ContractRef) (apiName arg : Str) :
    ActsForOwnContract (execution api fuel r apiName arg) ↔
      ∀ op ∈ (execution api fuel r apiName arg).operations, ∀ contract,
        codeContract op.frames = some contract → innermostApi op.frames = contract := by
  have hs := execution_attributed api fuel r apiName arg
  constructor
  · intro h op hop contract hcode
    rw [← hs op hop]
    exact h op hop contract hcode
  · intro h op hop contract hcode
    rw [hs op hop]
    exact h op hop contract hcode

/-- A contract whose function calls the function it is given. -/
def host : Contract where
  id := ['B']
  name := ['b']
  module :=
    .newTable fun m =>
      .closure (fun args => .call (args.getD 1 .nil) [] .ret) fun visit =>
        .newindex m ['v'] visit (.ret m)
  apis := [['v']]

/-- A contract that gives the other one a function that makes a transfer. -/
def guest : Contract where
  id := ['A']
  name := ['a']
  module :=
    .newTable fun m =>
      .closure (fun _ =>
        .importContract (.name ['b']) fun b =>
          .index b ['v'] fun visit =>
            .closure (fun _ => .transferFromContract ['x'] ['A'] 1 .ret) fun callback =>
              .call visit [b, callback] .ret) fun start =>
        .newindex m ['s'] start (.ret m)
  apis := [['s']]

/-- The transfer that the guest's function makes is paid by the host. -/
theorem callback_acts_for_host :
    ¬ ActsForOwnContract (execution ⟨[host, guest], ['A'], false, fun _ _ _ _ => 0⟩ 20
      (.address ['A']) ['s'] []) := by
  have hops : (execution ⟨[host, guest], ['A'], false, fun _ _ _ _ => 0⟩ 20
      (.address ['A']) ['s'] []).operations =
      [⟨.transfer ['x'] ['A'] 1, ['B'],
        [.lua ['A'], .lua ['B'], .apiWrapper ['B'], .lua ['A'], .apiWrapper ['A'], .native]⟩] := by
    decide +kernel
  intro h
  have hown := h _ (hops ▸ List.mem_singleton_self _) ['A'] rfl
  exact absurd hown (by decide)

end Achain.Glua
