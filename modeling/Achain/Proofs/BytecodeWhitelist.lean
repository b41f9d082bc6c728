import Achain.Glua.ContractProto
import Mathlib.Data.List.TakeWhile

/-!
# What the check of the bytecode keeps

The globals are behind upvalue 0 of the main function and behind every upvalue that is one of these in
the function around it (`Nested`). The check goes by the names of upvalues instead: of a tree that it
accepts, no instruction misuses the globals exactly if every instruction on such an upvalue is one that
the check recognises by a name (`whitelist_kept_iff`).
-/

namespace Achain.Glua.Bytecode

open Result

/-- `lua_load` puts the globals into upvalue 0 of the main function. -/
def LClosure.env (c : LClosure) (x : Nat) : Bool := x = 0 && 0 < c.nupvalues

/-- The upvalues of a nested function that hold the globals, by those of the function around it. -/
def closureEnv (env : Nat → Bool) (proto : ProtoData) (x : Nat) : Bool :=
  match proto.upvalues[x]? with
  | some u => u.instack = 0 && env u.idx.toNat
  | none => false

/-- A prototype with those around it and the upvalues that hold the globals. -/
inductive Nested (c : LClosure) : List ProtoData → (Nat → Bool) → Proto → Prop where
  | main : Nested c [] c.env c.p
  | sub {parents : List ProtoData} {env : Nat → Bool} {proto : ProtoData} {p : List Proto} {q : Proto} :
    Nested c parents env (.mk proto p) → q ∈ p →
      Nested c (parents ++ [proto]) (closureEnv env q.data) q

/-- Every instruction of a prototype in the tree has a property. -/
def Everywhere (c : LClosure) (φ : List ProtoData → (Nat → Bool) → ProtoData → Instruction → Prop) :
    Prop :=
  ∀ ⦃parents env proto p⦄, Nested c parents env (.mk proto p) → ∀ i ∈ proto.code, φ parents env proto i

/-- A register or constant that is a constant string. -/
def ProtoData.rkString (proto : ProtoData) (x : Nat) : Option Str :=
  if isk x then
    match proto.k[indexk x]? with
    | some (.string s) => some s
    | _ => none
  else none

/-- An instruction on the globals that sets one, sets the upvalue itself, or gets one that need not have
a name in the whitelist: a key that is no constant can be any. -/
inductive Misuses (env : Nat → Bool) (proto : ProtoData) (i : Instruction) : Prop where
  | writesGlobal : getOpcode i = some .opSettabup → env (getargA i) → Misuses env proto i
  | replacesEnv : getOpcode i = some .opSetupval → env (getargB i) → Misuses env proto i
  | readsGlobal : getOpcode i = some .opGettabup → env (getargB i) →
    (∀ s, proto.rkString (getargC i) = some s → s ∉ globalvarWhitelist) → Misuses env proto i

/-- An instruction that puts the table of the globals into a register, where any can be set. -/
def TakesEnv (env : Nat → Bool) (i : Instruction) : Prop :=
  getOpcode i = some .opGetupval ∧ env (getargB i)

/-- For the check, the upvalue is named `_ENV` or `_G`. -/
def NamedEnv (S : Surroundings) (proto : ProtoData) (x : Nat) : Prop :=
  ∃ u, proto.upvalue S x = .ok u ∧ isEnv u = true

/-- An instruction on the globals that the check takes for one. -/
structure Recognised (S : Surroundings) (env : Nat → Bool) (proto : ProtoData) (i : Instruction) :
    Prop where
  settabup : getOpcode i = some .opSettabup → env (getargA i) → NamedEnv S proto (getargA i)
  setupval : getOpcode i = some .opSetupval → env (getargB i) → NamedEnv S proto (getargB i)
  gettabup : getOpcode i = some .opGettabup → env (getargB i) →
    ∃ s, proto.rkString (getargC i) = some s ∧ nullChar ∉ s ∧
      (NamedEnv S proto (getargB i) ∨ s ∈ globalvarWhitelist)

/-- A load of an upvalue that the check looks at, whose name is neither in the whitelist nor `_ENV`, and
whose operand `C` is no upvalue that is defined in a parent. -/
structure Stopped (S : Surroundings) (parents : List ProtoData) (proto : ProtoData) (i : Instruction) :
    Prop where
  register : getargA i ≠ 0
  constants : proto.k ≠ []
  name : ∀ u, proto.upvalue S (getargB i) = .ok u → u.cname ∉ globalvarWhitelist ∧ u.cname ≠ envName
  parent : ∀ u parent, proto.upvalue S (getargC i) = .ok u → parents.getLast? = some parent →
    upvalDefinedInParent parent parents u = false

/-! ## One instruction -/

variable {S : Surroundings} {parents : List ProtoData} {env : Nat → Bool} {proto : ProtoData}
  {i : Instruction} {importing : Importing} {s : Str}

theorem cString_of_notMem (h : nullChar ∉ s) : cString s = s := by
  refine List.takeWhile_eq_self_iff.2 fun c hc => bne_iff_ne.2 ?_
  rintro rfl
  exact h hc

theorem nullChar_notMem_whitelist : ∀ s ∈ globalvarWhitelist, nullChar ∉ s := by decide

theorem not_namedEnv_of_upvalue {x : Nat} {u : Upvaldesc} (hu : proto.upvalue S x = .ok u)
    (henv : isEnv u = false) : ¬NamedEnv S proto x := by
  rintro ⟨u', hu', henv'⟩
  rw [hu] at hu'
  cases hu'
  rw [henv] at henv'
  cases henv'

theorem checkSettabup_ok (h : checkSettabup S proto i = .ok importing) :
    ¬NamedEnv S proto (getargA i) := by
  obtain ⟨u, hu, h⟩ := bind_eq_ok.1 h
  refine not_namedEnv_of_upvalue hu (Bool.eq_false_iff.2 fun henv => ?_)
  rw [if_pos henv] at h
  split_ifs at h
  obtain ⟨_, _, h⟩ := bind_eq_ok.1 h
  nomatch h

theorem checkSetupval_ok (h : checkSetupval S proto i = .ok importing) :
    ¬NamedEnv S proto (getargB i) := by
  obtain ⟨u, hu, h⟩ := bind_eq_ok.1 h
  obtain ⟨_, henv, -⟩ := bind_eq_ok.1 h
  exact not_namedEnv_of_upvalue hu (Bool.not_eq_true' _ ▸ ensure_eq_ok.1 henv)

theorem kstr_of_rkString (h : proto.rkString (getargC i) = some s) :
    isk (getargC i) = true ∧ proto.kstr S (indexk (getargC i)) = .ok (cString s) := by
  unfold ProtoData.rkString at h
  split_ifs at h with hk
  refine ⟨hk, ?_⟩
  unfold ProtoData.kstr
  split at h <;> simp_all

theorem checkGettabup_ok (h : checkGettabup S proto i = .ok importing)
    (hs : proto.rkString (getargC i) = some s) (henv : NamedEnv S proto (getargB i)) :
    cString s ∈ globalvarWhitelist := by
  obtain ⟨hk, hkstr⟩ := kstr_of_rkString (S := S) hs
  obtain ⟨u, hu, h⟩ := bind_eq_ok.1 h
  rw [if_pos hk, hkstr, ok_bind] at h
  obtain ⟨_, hname, -⟩ := bind_eq_ok.1 h
  obtain hmem | hother := Bool.or_eq_true_iff.1 (ensure_eq_ok.1 hname)
  · exact of_decide_eq_true hmem
  · exact absurd henv (not_namedEnv_of_upvalue hu (Bool.not_eq_true' _ ▸ hother))

theorem checkGetupval_ok (h : checkGetupval S parents proto i = .ok importing) :
    ¬Stopped S parents proto i := by
  intro hstop
  unfold checkGetupval at h
  rw [if_neg hstop.register] at h
  obtain ⟨u, hu, h⟩ := bind_eq_ok.1 h
  have hname := hstop.name u hu
  rw [if_neg hstop.constants, if_neg (not_or.2 hname)] at h
  obtain ⟨v, hv, h⟩ := bind_eq_ok.1 h
  obtain ⟨_, hdefined, -⟩ := bind_eq_ok.1 h
  rw [ensure_eq_ok] at hdefined
  split at hdefined
  · rename_i parent hparent
    rw [hstop.parent v parent hv hparent] at hdefined
    cases hdefined
  · cases hdefined

theorem not_misuses_iff (h : checkInstruction S parents proto i = .ok importing) :
    ¬Misuses env proto i ↔ Recognised S env proto i := by
  unfold checkInstruction at h
  constructor
  · intro hsafe
    refine ⟨fun hop henv => absurd (.writesGlobal hop henv) hsafe,
      fun hop henv => absurd (.replacesEnv hop henv) hsafe, fun hop henv => ?_⟩
    by_contra hnone
    refine hsafe (.readsGlobal hop henv fun s hs hmem => hnone ?_)
    exact ⟨s, hs, nullChar_notMem_whitelist s hmem, .inr hmem⟩
  · rintro hrec (⟨hop, henv⟩ | ⟨hop, henv⟩ | ⟨hop, henv, hunlisted⟩) <;> rw [hop] at h
    · exact checkSettabup_ok h (hrec.settabup hop henv)
    · exact checkSetupval_ok h (hrec.setupval hop henv)
    · obtain ⟨s, hs, hnull, hnamed | hmem⟩ := hrec.gettabup hop henv
      · exact hunlisted s hs (cString_of_notMem hnull ▸ checkGettabup_ok h hs hnamed)
      · exact hunlisted s hs hmem

theorem not_takesEnv_iff (h : checkInstruction S parents proto i = .ok importing) :
    ¬TakesEnv env i ↔ (TakesEnv env i → Stopped S parents proto i) := by
  refine ⟨fun hno htakes => absurd htakes hno, fun hstop htakes => ?_⟩
  unfold checkInstruction at h
  rw [htakes.1] at h
  exact checkGetupval_ok h (hstop htakes)

/-! ## The tree -/

theorem checkCode_ok : ∀ {code : List Instruction} {importing : Importing},
    checkCode S parents proto importing code = .ok () →
      ∀ i ∈ code, ∃ importing, checkInstruction S parents proto i = .ok importing
  | [], _, _, i, hi => absurd hi List.not_mem_nil
  | j :: code, importing, h, i, hi => by
    obtain ⟨_, -, h⟩ := bind_eq_ok.1 h
    obtain ⟨importing', hj, h⟩ := bind_eq_ok.1 h
    obtain rfl | hi := List.mem_cons.1 hi
    · exact ⟨importing', hj⟩
    · exact checkCode_ok h i hi

theorem checkSubProtos_ok : ∀ {p : List Proto}, checkSubProtos S parents p = .ok () →
    ∀ q ∈ p, checkContractProto S parents q = .ok ()
  | [], _, q, hq => absurd hq List.not_mem_nil
  | q' :: p, h, q, hq => by
    rw [checkSubProtos] at h
    obtain ⟨_, hq', h⟩ := bind_eq_ok.1 h
    obtain rfl | hq := List.mem_cons.1 hq
    · exact hq'
    · exact checkSubProtos_ok h q hq

/-- Accepting a tree is accepting every prototype in it. -/
theorem Nested.check_ok {c : LClosure} (h : checkContractProto S [] c.p = .ok ()) {q : Proto}
    (hq : Nested c parents env q) : checkContractProto S parents q = .ok () := by
  induction hq with
  | main => exact h
  | sub _ hmem ih =>
    rw [checkContractProto] at ih
    obtain ⟨_, -, ih⟩ := bind_eq_ok.1 ih
    obtain ⟨_, -, ih⟩ := bind_eq_ok.1 ih
    obtain ⟨_, -, ih⟩ := bind_eq_ok.1 ih
    exact checkSubProtos_ok ih _ hmem

theorem everywhere_congr {c : LClosure} (h : checkContractProto S [] c.p = .ok ())
    {φ ψ : List ProtoData → (Nat → Bool) → ProtoData → Instruction → Prop}
    (hiff : ∀ {parents env proto i importing}, checkInstruction S parents proto i = .ok importing →
      (φ parents env proto i ↔ ψ parents env proto i)) : Everywhere c φ ↔ Everywhere c ψ := by
  have hok : ∀ {parents env proto p}, Nested c parents env (.mk proto p) → ∀ i ∈ proto.code,
      ∃ importing, checkInstruction S parents proto i = .ok importing := by
    intro parents env proto p hnested
    have hcheck := hnested.check_ok h
    rw [checkContractProto] at hcheck
    obtain ⟨_, -, hcheck⟩ := bind_eq_ok.1 hcheck
    obtain ⟨_, -, hcheck⟩ := bind_eq_ok.1 hcheck
    obtain ⟨_, hcode, -⟩ := bind_eq_ok.1 hcheck
    exact checkCode_ok hcode
  constructor
  · intro hall parents env proto p hnested i hi
    obtain ⟨importing, hi'⟩ := hok hnested i hi
    exact (hiff hi').1 (hall hnested i hi)
  · intro hall parents env proto p hnested i hi
    obtain ⟨importing, hi'⟩ := hok hnested i hi
    exact (hiff hi').2 (hall hnested i hi)

/-- Of a tree that is accepted: no instruction misuses the globals exactly if those on the globals are
recognised, and none takes their table exactly if those that do are stopped. -/
theorem whitelist_kept_iff (S : Surroundings) (c : LClosure)
    (h : checkContractProto S [] c.p = .ok ()) :
    ((Everywhere c fun _ env proto i => ¬Misuses env proto i) ↔
      Everywhere c fun _ env proto i => Recognised S env proto i) ∧
    ((Everywhere c fun _ env _ i => ¬TakesEnv env i) ↔
      Everywhere c fun parents env proto i => TakesEnv env i → Stopped S parents proto i) :=
  ⟨everywhere_congr h not_misuses_iff, everywhere_congr h not_takesEnv_iff⟩

/-- No contracts, and a crash at whatever is not there. -/
def bareSurroundings : Surroundings where
  checkContractExist _ := false
  checkContractExistByAddress _ := false
  strayUpvalue _ _ := none
  strayString _ _ := none
  strayMode _ := .iABC

/-- A main function of one instruction, with one upvalue and one constant. -/
def oneInstruction (name constant : String) (i : Instruction) : LClosure where
  nupvalues := 1
  p := .mk
    { k := [.string constant.toList]
      code := [i]
      upvalues := [⟨some name.toList, 1, 0⟩]
      locvars := [] } []

theorem nested_oneInstruction {name constant : String} {i : Instruction} {parents : List ProtoData}
    {env : Nat → Bool} {p : Proto} (h : Nested (oneInstruction name constant i) parents env p) :
    parents = [] ∧ env = (oneInstruction name constant i).env ∧ p = (oneInstruction name constant i).p := by
  induction h with
  | main => exact ⟨rfl, rfl, rfl⟩
  | sub _ hq ih =>
    obtain ⟨-, rfl⟩ := Proto.mk.inj ih.2.2
    exact absurd hq List.not_mem_nil

/-- A main function that loads the global `print`. -/
theorem whitelist_kept_iff_print :
    (Everywhere (oneInstruction "_ENV" "print" (createABC 6 0 0 256))
        fun _ env proto i => ¬Misuses env proto i) ∧
      Everywhere (oneInstruction "_ENV" "print" (createABC 6 0 0 256))
        fun _ env _ i => ¬TakesEnv env i := by
  have hkept := whitelist_kept_iff bareSurroundings (oneInstruction "_ENV" "print" (createABC 6 0 0 256))
    (by decide)
  have hmain : ∀ {φ : List ProtoData → (Nat → Bool) → ProtoData → Instruction → Prop},
      φ [] (oneInstruction "_ENV" "print" (createABC 6 0 0 256)).env
        (oneInstruction "_ENV" "print" (createABC 6 0 0 256)).p.data (createABC 6 0 0 256) →
      Everywhere (oneInstruction "_ENV" "print" (createABC 6 0 0 256)) φ := by
    intro φ hφ parents env proto p hnested i hi
    obtain ⟨rfl, rfl, heq⟩ := nested_oneInstruction hnested
    obtain ⟨rfl, rfl⟩ := Proto.mk.inj heq
    rw [List.mem_singleton.1 hi]
    exact hφ
  refine ⟨hkept.1.2 (hmain ⟨?_, ?_, ?_⟩), hkept.2.2 (hmain ?_)⟩
  · exact fun h => absurd h (by decide)
  · exact fun h => absurd h (by decide)
  · exact fun _ _ => ⟨"print".toList, by decide, by decide, .inr (by decide)⟩
  · exact fun h => absurd h.1 (by decide)

/-- `UpValue[0]["print"] := "print"` through an upvalue with another name than `_ENV`. -/
theorem renamed_env_written : ¬∀ (S : Surroundings) (c : LClosure),
    checkContractProto S [] c.p = .ok () → Everywhere c fun _ env proto i => ¬Misuses env proto i := by
  intro h
  have hsafe := h bareSurroundings (oneInstruction "env" "print" (createABC 8 0 256 256)) (by decide)
  exact hsafe .main _ List.mem_cons_self (.writesGlobal (by decide) (by decide))

end Achain.Glua.Bytecode
