import Achain.Glua.Dump
import Achain.Proofs.BytecodeWhitelist
import Mathlib.Data.UInt

/-!
# Bytecode that is loaded is what was saved

Whatever pieces the reader cuts the bytes into, `luaZ_read` gives the next of them
(`luaZRead_eq_takes`). A prototype whose arrays are no longer than they may be is loaded from its dump
as it was, but for the sources and the types of local variables, which are not saved, and what is
stripped.
-/

namespace Achain.Glua.Dump

open Sources Bytecode

/-! ## Reading pieces -/

section Zio

variable {δ : Type} {reader : δ → List UInt8 × δ} {z : Zio δ}

theorem takes_buffer {m : Nat} {buff : List UInt8} {data : δ} (h : m ≤ buff.length) :
    takes (zgetc reader) m ⟨buff, data⟩ = some (buff.take m, ⟨buff.drop m, data⟩) := by
  refine takes_eq_some.2 ⟨by rw [List.length_take, Nat.min_eq_left h], ?_⟩
  induction m generalizing buff with
  | zero => exact rfl
  | succ m ih =>
    cases buff with
    | nil => simp at h
    | cons b buff => exact ⟨⟨buff, data⟩, rfl, ih (Nat.le_of_succ_le_succ h)⟩

theorem luaZFill_eq_zgetc (hz : z.buffer = []) : luaZFill reader z = zgetc reader z := by
  rw [zgetc, hz]

/-- A buffer that cannot be filled has no byte to give. -/
theorem zgetc_of_refill_none (h : refill reader z = none) : zgetc reader z = none := by
  unfold refill at h
  split_ifs at h with hz
  rw [← luaZFill_eq_zgetc hz]
  exact Option.map_eq_none_iff.1 h

/-- A buffer that is filled gives the byte it would have given. -/
theorem zgetc_of_refill {y : {z : Zio δ // z.buffer ≠ []}} (h : refill reader z = some y) :
    zgetc reader y.1 = zgetc reader z := by
  unfold refill at h
  split_ifs at h with hz
  · obtain ⟨x, hx, rfl⟩ := Option.map_eq_some_iff.1 h
    rw [← luaZFill_eq_zgetc hz, hx]
    rfl
  · rw [← Option.some.inj h]

theorem takes_congr {n : Nat} {y : Zio δ} (h : zgetc reader y = zgetc reader z) (hn : 0 < n) :
    takes (zgetc reader) n y = takes (zgetc reader) n z := by
  obtain ⟨m, rfl⟩ := Nat.exists_eq_add_of_lt hn
  rw [takes, takes, h]

/-- However the reader cuts the input, `luaZ_read` gives the bytes `zgetc` would give one by one. -/
theorem luaZRead_eq_takes {n : Nat} : luaZRead reader n z = takes (zgetc reader) n z := by
  induction n using Nat.strong_induction_on generalizing z with
  | _ n ih =>
    unfold luaZRead
    split_ifs with hn
    · rw [hn, takes]
    · have hpos := Nat.pos_of_ne_zero hn
      cases hy : refill reader z with
      | none =>
        obtain ⟨m, rfl⟩ := Nat.exists_eq_add_of_lt hpos
        rw [takes, zgetc_of_refill_none hy, Option.bind_none]
      | some y =>
        have hlen : 0 < y.1.buffer.length := List.length_pos_iff.2 y.2
        have hm : min n y.1.buffer.length + (n - min n y.1.buffer.length) = n := by omega
        show (luaZRead reader (n - min n y.1.buffer.length) ⟨y.1.buffer.drop _, y.1.data⟩).map _ = _
        rw [ih _ (by omega), ← takes_congr (zgetc_of_refill hy) hpos]
        conv_rhs => rw [← hm]
        rw [takes_add, takes_buffer (Nat.min_le_right _ _), Option.bind_some]

end Zio

/-! ## Numbers and strings -/

section Loading

variable {δ : Type} {S : LoadState δ}

/-- The error of a load whose bytes end. -/
def truncated (S : LoadState δ) : Fault := chunkError S "truncated".toList

/-- A code is loaded as `a` from any reader that gives it. -/
abbrev Loads {α : Type} (S : LoadState δ) (get : Loader δ α) (code : List UInt8) (a : α) : Prop :=
  Recovers (zgetc S.reader) (truncated S) get code a

theorem loadBlock_eq (size : Nat) (z : Zio δ) :
    loadBlock S size z = (takes (zgetc S.reader) size z).elim (.error (truncated S)) .ok := by
  rw [← luaZRead_eq_takes]
  simp only [loadBlock, bind, StateT.bind, get, getThe, MonadStateOf.get, StateT.get, pure, Except.pure,
    Except.bind]
  cases luaZRead S.reader size z <;> rfl

theorem loads_loadBlock (bs : List UInt8) :
    Loads S (loadBlock S bs.length) bs bs where
  returns s s' h := by
    rw [loadBlock_eq, takes_eq_some.2 ⟨rfl, h⟩]
    rfl
  starves l s s' hl hne h hend := by
    rw [loadBlock_eq, takes_eq_none h hend]
    · rfl
    · exact lt_of_le_of_ne hl.length_le fun hlen => hne (hl.eq_of_length hlen)

theorem loads_littleEndian {α : Type} {n x : Nat} (f : Nat → α) (h : x < 256 ^ n) :
    Loads S (do return f (ofLittleEndian (← loadBlock S n))) (littleEndian n x) (f x) := by
  have hblock := (loads_loadBlock (S := S) (littleEndian n x)).last (f := fun b => f (ofLittleEndian b))
  rwa [length_littleEndian, ofLittleEndian_littleEndian h] at hblock

theorem loads_loadByte (y : UInt8) : Loads S (loadByte S) (dumpByte y) y := by
  have h := loads_littleEndian (S := S) (n := 1) UInt8.ofNat y.toNat_lt
  rwa [UInt8.ofNat_toNat, littleEndian, UInt8.ofNat_toNat] at h

theorem loads_loadInt (x : Int32) : Loads S (loadInt S) (dumpInt x) x := by
  have h := loads_littleEndian (S := S) (n := 4) (fun n => (UInt32.ofNat n).toInt32) x.toUInt32.toNat_lt
  rwa [UInt32.ofNat_toNat] at h

theorem loads_loadInstruction (i : Instruction) :
    Loads S (loadInstruction S) (littleEndian 4 i.toNat) i := by
  have h := loads_littleEndian (S := S) (n := 4) UInt32.ofNat i.toNat_lt
  rwa [UInt32.ofNat_toNat] at h

theorem loads_loadNumber (x : UInt64) : Loads S (loadNumber S) (dumpNumber x) x := by
  have h := loads_littleEndian (S := S) (n := 8) UInt64.ofNat x.toNat_lt
  rwa [UInt64.ofNat_toNat] at h

theorem loads_loadInteger (x : Int64) : Loads S (loadInteger S) (dumpInteger x) x := by
  have h := loads_littleEndian (S := S) (n := 8) (fun n => (UInt64.ofNat n).toInt64) x.toUInt64.toNat_lt
  rwa [UInt64.ofNat_toNat] at h

theorem loads_luaMRealloc {nsize : Nat} (h : Allocated S.allocates nsize) :
    Loads S (luaMRealloc S nsize) [] () := by
  rw [luaMRealloc, if_pos h]
  exact .pure

theorem toInt_ofNat_of_lt {n : Nat} (h : n < 2 ^ 31) : (Int32.ofNat n).toInt = n := by
  rw [Int32.toInt_ofNat']
  exact Int.bmod_eq_of_le_mul_two (by omega) (by simp only [Int32.size]; omega)

theorem loads_luaMNewvector {n size : Nat} (hn : n < 2 ^ 31) (h : Allocated S.allocates (n * size)) :
    Loads S (luaMNewvector S (Int32.ofNat n) size) [] () := by
  rw [luaMNewvector, if_neg, toInt_ofNat_of_lt hn, Int.toNat_natCast]
  · exact loads_luaMRealloc h
  · rw [Int32.lt_iff_toInt_lt, toInt_ofNat_of_lt hn]
    exact not_lt.2 (Int.natCast_nonneg n)

/-- The string is short, or there is a block for it. -/
def TStringFits (allocates : Nat → Bool) (s : TString) : Prop :=
  s.length ≤ luaiMaxshortlen ∨
    sizelstring s.length < 2 ^ 64 ∧ Allocated allocates (sizelstring s.length)

instance {allocates : Nat → Bool} {s : TString} : Decidable (TStringFits allocates s) :=
  inferInstanceAs (Decidable (_ ∨ _))

theorem loads_loadLongString {s : TString} (hlen : sizelstring s.length < 2 ^ 64)
    (h : Allocated S.allocates (sizelstring s.length)) :
    Loads S (loadLongString S s.length) s s := by
  unfold loadLongString
  rw [if_pos hlen]
  exact (loads_luaMRealloc h).bind_nil (loads_loadBlock s)

theorem loads_loadStringSize {n : Nat} (h : n < 2 ^ 64) :
    Loads S (loadStringSize S)
      (if n < 0xFF then dumpByte (UInt8.ofNat n) else dumpByte 0xFF ++ littleEndian 8 n) n := by
  split_ifs with hsize
  · have hbyte : (UInt8.ofNat n).toNat = n := by
      rw [UInt8.toNat_ofNat', Nat.mod_eq_of_lt (by omega)]
    rw [← List.append_nil (dumpByte _)]
    refine (loads_loadByte _).bind ?_
    rw [if_neg, hbyte]
    · exact .pure
    · rw [← UInt8.toNat_inj, hbyte]
      exact hsize.ne
  · refine (loads_loadByte _).bind ?_
    rw [if_pos rfl]
    exact loads_littleEndian id h

theorem TStringFits.lt {allocates : Nat → Bool} {s : TString} (h : TStringFits allocates s) :
    s.length + 1 < 2 ^ 64 := by
  obtain h | ⟨h, -⟩ := h
  · exact lt_of_le_of_lt (Nat.succ_le_succ h) (by decide)
  · exact lt_of_le_of_lt (Nat.le_add_left _ 24) h

theorem loads_loadString {s : Option TString} (h : ∀ t ∈ s, TStringFits S.allocates t) :
    Loads S (loadString S) (dumpString s) s := by
  cases s with
  | none => exact (loads_loadStringSize (n := 0) (by decide)).bind .pure
  | some s =>
    have hs := h s rfl
    refine (loads_loadStringSize hs.lt).bind ?_
    rw [if_neg (Nat.succ_ne_zero _), Nat.add_sub_cancel]
    split_ifs with hshort
    · exact (loads_loadBlock s).last
    · obtain hs | ⟨hlen, hs⟩ := hs
      · exact absurd hs hshort
      · exact (loads_loadLongString hlen hs).last

/-! ## Arrays -/

/-- The array is no longer than it may be, and there is a block for it. -/
def ArrayFits (allocates : Nat → Bool) (n size : Nat) : Prop :=
  n ≤ 524288000 ∧ Allocated allocates (n * size)

instance {allocates : Nat → Bool} {n size : Nat} : Decidable (ArrayFits allocates n size) :=
  inferInstanceAs (Decidable (_ ∧ _))

/-- An array is loaded if its elements are. -/
theorem loads_loadArray {ι κ : Type} {size : Nat} {item : Loader δ κ} {enc : ι → List UInt8}
    {f : ι → κ} {is : List ι} (hfits : ArrayFits S.allocates is.length size)
    (h : ∀ i ∈ is, Loads S item (enc i) (f i)) :
    Loads S (loadArray S size item) (dumpSize is.length ++ is.flatMap enc)
      (some (is.map f)) := by
  have hlt : is.length < 2 ^ 31 := lt_of_le_of_lt hfits.1 (by decide)
  refine (loads_loadInt _).bind ?_
  rw [if_neg, toInt_ofNat_of_lt hlt, Int.toNat_natCast]
  · exact (loads_luaMNewvector hlt hfits.2).bind_nil (Recovers.times h).last
  · rw [Int32.lt_iff_toInt_lt, toInt_ofNat_of_lt hlt]
    exact not_lt.2 (Int.ofNat_le.2 hfits.1)

theorem loads_loadCode {f : ProtoData} (h : ArrayFits S.allocates f.code.length 4) :
    Loads S (loadCode S) (dumpCode f) (some f.code) := by
  have hcode := loads_loadArray (f := id) h fun i _ => loads_loadInstruction i
  rwa [List.map_id] at hcode

/-- What of a constant is a string fits. -/
def TValue.Fits (allocates : Nat → Bool) : TValue → Prop
  | .string s => TStringFits allocates s
  | _ => True

instance {allocates : Nat → Bool} : ∀ {o : TValue}, Decidable (o.Fits allocates)
  | .string _ => inferInstanceAs (Decidable (TStringFits _ _))
  | .nil | .boolean _ | .number _ | .integer _ => isTrue trivial

theorem loads_loadConstant {o : TValue} (h : o.Fits S.allocates) :
    Loads S (loadConstant S) (dumpConstant o) o := by
  refine (loads_loadByte _).bind ?_
  cases o with
  | nil => exact .pure
  | boolean b => exact (loads_loadByte b).last
  | number x => exact (loads_loadNumber x).last
  | integer i => exact (loads_loadInteger i).last
  | string s =>
    have hstring : Loads S (loadStringValue S) (dumpString (some s)) (.string s) := by
      rw [← List.append_nil (dumpString _)]
      refine (loads_loadString fun t ht => ?_).bind .pure
      rw [← Option.some.inj ht]
      exact h
    obtain htype | htype : (TValue.string s).ttype = 4 ∨ (TValue.string s).ttype = 0x14 := ite_eq_or_eq ..
    all_goals
      rw [htype]
      exact hstring

theorem loads_loadUpvalue (u : Upvaldesc) :
    Loads S (loadUpvalue S) (dumpUpvalue u) { u with name := none } :=
  (loads_loadByte _).bind (loads_loadByte _).last

/-- A local variable without its type, which is not saved. -/
def LocVar.untyped (v : LocVar) : LocVar := { v with vartype := none }

theorem loads_loadLocVar {v : LocVar} (h : ∀ t ∈ v.varname, TStringFits S.allocates t) :
    Loads S (loadLocVar S) (dumpLocVar v) v.untyped :=
  (loads_loadString h).bind ((loads_loadInt _).bind (loads_loadInt _).last)

/-- An upvalue before its name is loaded. -/
def Upvaldesc.nameless (u : Upvaldesc) : Upvaldesc := { u with name := none }

theorem loads_loadUpvalueNames {us : List Upvaldesc}
    (h : ∀ u ∈ us, ∀ t ∈ u.name, TStringFits S.allocates t) :
    Loads S (loadUpvalueNames S us.length (us.map Upvaldesc.nameless))
      (us.flatMap fun u => dumpString u.name) us := by
  induction us with
  | nil => exact .pure
  | cons u us ih =>
    rw [List.forall_mem_cons] at h
    exact (loads_loadString h.1).bind (ih h.2).last

/-! ## Prototypes -/

/-- A prototype before its debug information is loaded. -/
def ProtoData.bare (psource : Option TString) (f : ProtoData) : ProtoData :=
  { f with
    source := psource
    upvalues := f.upvalues.map Upvaldesc.nameless
    lineinfo := []
    locvars := [] }

def ProtoData.loaded (strip : Bool) (psource : Option TString) (f : ProtoData) : ProtoData :=
  if strip then f.bare psource else
    { f with source := psource, locvars := f.locvars.map LocVar.untyped }

mutual

/-- A prototype after it is saved and loaded. -/
def Proto.loaded (strip : Bool) (psource : Option TString) : Proto → Proto
  | .mk f p => .mk (f.loaded strip psource) (loadedProtos strip psource p)

def loadedProtos (strip : Bool) (psource : Option TString) : List Proto → List Proto
  | [] => []
  | f :: p => f.loaded strip psource :: loadedProtos strip psource p

end

/-- The arrays and strings of a prototype can be loaded. -/
structure ProtoData.Fits (allocates : Nat → Bool) (f : ProtoData) : Prop where
  code : ArrayFits allocates f.code.length 4
  k : ArrayFits allocates f.k.length 16
  constants : ∀ o ∈ f.k, o.Fits allocates
  upvalues : ArrayFits allocates f.upvalues.length 16
  names : ∀ u ∈ f.upvalues, ∀ t ∈ u.name, TStringFits allocates t
  lineinfo : ArrayFits allocates f.lineinfo.length 4
  locvars : f.locvars.length < 2 ^ 31 ∧ Allocated allocates (f.locvars.length * 24)
  varnames : ∀ v ∈ f.locvars, ∀ t ∈ v.varname, TStringFits allocates t

/-- The prototype and those nested in it, to any depth, can be loaded. -/
inductive Proto.Fits (allocates : Nat → Bool) : Proto → Prop
  | mk {f : ProtoData} {p : List Proto} (hf : f.Fits allocates)
    (hp : ArrayFits allocates p.length 8) (h : ∀ q ∈ p, Fits allocates q) : Fits allocates (.mk f p)

mutual

/-- How deep prototypes are nested. -/
def Proto.depth : Proto → Nat
  | .mk _ p => protosDepth p + 1

def protosDepth : List Proto → Nat
  | [] => 0
  | f :: p => max f.depth (protosDepth p)

end

theorem depth_le_of_mem {q : Proto} {p : List Proto} (h : q ∈ p) : q.depth ≤ protosDepth p := by
  induction p with
  | nil => exact absurd h List.not_mem_nil
  | cons f p ih =>
    obtain rfl | h := List.mem_cons.1 h
    · exact Nat.le_max_left _ _
    · exact (ih h).trans (Nat.le_max_right _ _)

theorem dumpProtos_eq {strip : Bool} (p : List Proto) :
    dumpProtos strip p = p.flatMap (dumpFunction strip) := by
  induction p with
  | nil => rfl
  | cons f p ih => rw [dumpProtos, ih, List.flatMap_cons]

theorem loadedProtos_eq {strip : Bool} {psource : Option TString} (p : List Proto) :
    loadedProtos strip psource p = p.map (Proto.loaded strip psource) := by
  induction p with
  | nil => rfl
  | cons f p ih => rw [loadedProtos, ih, List.map_cons]

theorem arrayFits_zero {allocates : Nat → Bool} {size : Nat} : ArrayFits allocates 0 size :=
  ⟨Nat.zero_le _, .inl (Nat.zero_mul size)⟩

/-- The number of local variables and these. -/
theorem loads_locvars {vs : List LocVar} {k : List LocVar → Loader δ ProtoData} {bs : List UInt8}
    {f : ProtoData} (hlen : vs.length < 2 ^ 31) (hmem : Allocated S.allocates (vs.length * 24))
    (h : ∀ v ∈ vs, ∀ t ∈ v.varname, TStringFits S.allocates t)
    (hk : Loads S (k (vs.map LocVar.untyped)) bs f) :
    Loads S
      (do
        let n ← loadInt S
        luaMNewvector S n 24
        let locvars ← times (loadLocVar S) n.toInt.toNat
        k locvars)
      ((dumpSize vs.length ++ vs.flatMap dumpLocVar) ++ bs) f := by
  have htimes := Recovers.times fun v hv => loads_loadLocVar (h v hv)
  rw [List.append_assoc]
  refine (loads_loadInt _).bind ((loads_luaMNewvector hlen hmem).bind_nil ?_)
  rw [toInt_ofNat_of_lt hlen, Int.toNat_natCast]
  exact htimes.bind hk

theorem dumpDebugArray_true {ι : Type} {enc : ι → List UInt8} {is : List ι} :
    dumpDebugArray true enc is = dumpSize ([] : List ι).length ++ ([] : List ι).flatMap enc := rfl

theorem dumpDebugArray_false {ι : Type} {enc : ι → List UInt8} {is : List ι} :
    dumpDebugArray false enc is = dumpSize is.length ++ is.flatMap enc := rfl

theorem loads_loadDebug {strip : Bool} {psource : Option TString} {f : ProtoData}
    (h : f.Fits S.allocates) :
    Loads S (loadDebug S (f.bare psource)) (dumpDebug strip f)
      (f.loaded strip psource) := by
  have hlineinfo := loads_loadArray (f := id) h.lineinfo fun i _ => loads_loadInt i
  rw [List.map_id] at hlineinfo
  cases strip with
  | true =>
    simp only [dumpDebug, dumpDebugArray_true]
    refine (loads_loadArray (f := id) arrayFits_zero (List.forall_mem_nil _)).bind ?_
    refine loads_locvars (by decide) (.inl rfl) (List.forall_mem_nil _) ?_
    exact (loads_loadInt 0).bind .pure
  | false =>
    simp only [dumpDebug, dumpDebugArray_false]
    refine hlineinfo.bind (loads_locvars h.locvars.1 h.locvars.2 h.varnames ?_)
    refine (loads_loadInt _).bind ?_
    rw [toInt_ofNat_of_lt (lt_of_le_of_lt h.upvalues.1 (by decide)), Int.toNat_natCast]
    exact (loads_loadUpvalueNames h.names).last

/-- The induction is on how deep prototypes may be nested. -/
theorem loads_loadFunction {strip : Bool} {fuel : Nat} {psource : Option TString} {f : Proto}
    (hfuel : f.depth ≤ fuel) (h : f.Fits S.allocates) :
    Loads S (loadFunction S fuel psource) (dumpFunction strip f)
      (f.loaded strip psource) := by
  induction fuel generalizing psource f with
  | zero =>
    cases f
    exact absurd hfuel (Nat.not_succ_le_zero _)
  | succ fuel ih =>
    cases h with
    | @mk f p hf hp hq =>
      have hnested : Loads S (loadArray S 8 (loadFunction S fuel psource))
          (dumpSize p.length ++ dumpProtos strip p) (some (loadedProtos strip psource p)) := by
        rw [dumpProtos_eq, loadedProtos_eq]
        refine loads_loadArray hp fun q hmem => ih ?_ (hq q hmem)
        exact (depth_le_of_mem hmem).trans (Nat.le_of_succ_le_succ hfuel)
      refine (loads_loadString (s := none) (by simp)).bind ?_
      refine (loads_loadInt _).bind ((loads_loadInt _).bind ?_)
      refine (loads_loadByte _).bind ((loads_loadByte _).bind ((loads_loadByte _).bind ?_))
      refine (loads_loadCode hf.code).bind ?_
      have hconstants := loads_loadArray (f := id) hf.k fun o ho =>
        loads_loadConstant (hf.constants o ho)
      rw [List.map_id] at hconstants
      refine hconstants.bind ?_
      refine (loads_loadArray hf.upvalues fun u _ => loads_loadUpvalue u).bind ?_
      exact hnested.bind (loads_loadDebug hf).last

theorem loads_expect {p : Prop} [Decidable p] {why : Str} (h : p) : Loads S (expect S p why) [] () := by
  rw [expect, if_pos h]
  exact .pure

theorem loads_checkliteral (s : List UInt8) (msg : Str) : Loads S (checkliteral S s msg) s () := by
  have h : Loads S (checkliteral S s msg) (s ++ []) () := (loads_loadBlock s).bind (loads_expect rfl)
  rwa [List.append_nil] at h

theorem loads_fchecksize (size : UInt8) (tname : Str) :
    Loads S (fchecksize S size tname) (dumpByte size) () :=
  (loads_loadByte size).bind (loads_expect rfl)

theorem loads_checkHeader : Loads S (checkHeader S) (luaSignature.tail ++ dumpHeaderRest) () := by
  refine (loads_checkliteral _ _).bind ?_
  refine (loads_loadByte _).bind ((loads_expect rfl).bind_nil ?_)
  refine (loads_loadByte _).bind ((loads_expect rfl).bind_nil ?_)
  refine (loads_checkliteral _ _).bind ?_
  refine (loads_fchecksize _ _).bind ((loads_fchecksize _ _).bind ((loads_fchecksize _ _).bind ?_))
  refine (loads_fchecksize _ _).bind ((loads_fchecksize _ _).bind ?_)
  refine (loads_loadInteger _).bind ((loads_expect rfl).bind_nil ?_)
  exact (loads_loadNumber _).bind (loads_expect rfl)

end Loading

section Undump

variable {δ : Type} {allocates : Nat → Bool} {reader : δ → List UInt8 × δ} {strip : Bool}
  {fuel : Nat} {f : Proto}

/-- What `luaU_undump` returns for a dump. -/
def Proto.reloaded (strip : Bool) (f : Proto) : LClosure :=
  ⟨UInt8.ofNat f.data.upvalues.length, f.loaded strip none⟩

theorem loads_luaUUndump (name : Str) (hfuel : f.depth ≤ fuel) (h : f.Fits allocates) :
    Loads ⟨chunkName name, reader, allocates⟩ (luaUUndump allocates reader fuel name)
      (luaUDump strip f).tail (f.reloaded strip) := by
  have hdump : (luaUDump strip f).tail = (luaSignature.tail ++ dumpHeaderRest) ++
      (dumpByte (UInt8.ofNat f.data.upvalues.length) ++ dumpFunction strip f) := rfl
  rw [hdump]
  exact loads_checkHeader.bind ((loads_loadByte _).bind (loads_loadFunction hfuel h).last)

/-- A function that prints a string, and one nested in it that only returns. -/
def greeting : Proto :=
  .mk
    ⟨some [0x40, 0x61], 0, 0, 0, 2, 2, [0x00004006, 0x00004041, 0x01004024, 0x00800026],
      [.string [0x70, 0x72], .integer (-1)], [⟨some [0x5f], 1, 0⟩], [1, 1, 1, 2],
      [⟨some [0x78], 0, 4, some 4⟩]⟩
    [.mk { ProtoData.new with code := [0x00800026], maxstacksize := 2 } []]

theorem greeting_fits : greeting.Fits fun _ => true := by
  refine .mk ⟨by decide, by decide, by decide, by decide, by decide, by decide, by decide, by decide⟩
    (by decide) fun q hq => ?_
  obtain rfl := List.mem_singleton.1 hq
  exact .mk ⟨by decide, by decide, by decide, by decide, by decide, by decide, by decide, by decide⟩
    (by decide) (List.forall_mem_nil _)

/-- Bytecode is loaded as it was saved, from any reader and in whatever pieces. -/
theorem luaUUndump_luaUDump {name : Str} {z z' : Zio δ} (hfuel : f.depth ≤ fuel) (h : f.Fits allocates)
    (hz : Feeds (zgetc reader) z (luaUDump strip f).tail z') :
    luaUUndump allocates reader fuel name z = .ok (f.reloaded strip, z') :=
  (loads_luaUUndump name hfuel h).returns z z' hz

/-- Three bytes at a time. -/
theorem luaUUndump_luaUDump_greeting :
    luaUUndump (fun _ => true) (fun l : List UInt8 => (l.take 3, l.drop 3)) 2 []
        ⟨[], (luaUDump false greeting).tail⟩ = .ok (greeting.reloaded false, ⟨[], []⟩) :=
  luaUUndump_luaUDump (by decide) greeting_fits
    (takes_eq_some.1 (by decide +kernel : takes _ (luaUDump false greeting).tail.length _ = some _)).2

/-- Bytecode whose end is missing is not loaded from a reader that ends. -/
theorem luaUUndump_prefix {name : Str} {bs : List UInt8} {z z' : Zio δ} (hfuel : f.depth ≤ fuel)
    (h : f.Fits allocates) (hbs : bs <+: (luaUDump strip f).tail) (hne : bs ≠ (luaUDump strip f).tail)
    (hz : Feeds (zgetc reader) z bs z') (hend : zgetc reader z' = none) :
    luaUUndump allocates reader fuel name z =
      .error (.errSyntax (chunkName name ++ ": truncated precompiled chunk".toList)) := by
  rw [(loads_luaUUndump name hfuel h).starves bs z z' hbs hne hz hend]
  simp only [truncated, chunkError, List.append_assoc]
  rfl

/-- The dump of `greeting` without its last byte. -/
theorem luaUUndump_prefix_greeting :
    luaUUndump (fun _ => true) (fun l : List UInt8 => (l.take 3, l.drop 3)) 2 "@x".toList
        ⟨[], (luaUDump false greeting).tail.dropLast⟩ =
      .error (.errSyntax ("x".toList ++ ": truncated precompiled chunk".toList)) :=
  luaUUndump_prefix (by decide) greeting_fits (List.dropLast_prefix (luaUDump false greeting).tail)
    (by decide +kernel)
    (takes_eq_some.1
      (by decide +kernel :
        takes _ (luaUDump false greeting).tail.dropLast.length _ = some (_, ⟨[], []⟩))).2
    rfl

/-! ## Streams -/

theorem feeds_buffer {bs l : List UInt8} {data : δ} :
    Feeds (zgetc reader) ⟨bs ++ l, data⟩ bs ⟨l, data⟩ := by
  have hlen : bs.length ≤ (bs ++ l).length := by simp
  have htakes : takes (zgetc reader) _ ⟨bs ++ l, data⟩ = _ := takes_buffer hlen
  rw [List.take_left, List.drop_left] at htakes
  exact (takes_eq_some.1 htakes).2

theorem luaUUndumpFromStream_luaUDump {name : Str} {rest : List UInt8} (hfuel : f.depth ≤ fuel)
    (h : f.Fits allocates) :
    luaUUndumpFromStream allocates fuel (luaUDump strip f ++ rest) name = .ok (f.reloaded strip) := by
  show (luaUUndump allocates _ fuel name ⟨(luaUDump strip f).tail ++ rest, ()⟩).map Prod.fst = _
  rw [(loads_luaUUndump name hfuel h).returns _ _ feeds_buffer]
  rfl

end Undump

/-! ## The check of what is loaded -/

section Checking

/-- The bytes of a string as the check compares them. -/
def TString.text (s : TString) : Str := s.map fun b => Char.ofNat b.toNat

def TValue.constant : TValue → Constant
  | .nil => .nil
  | .boolean b => .boolean (b ≠ 0)
  | .number bits => .number bits
  | .integer i => .integer i
  | .string s => .string (TString.text s)

/-- What of a prototype the check looks at. -/
def ProtoData.checked (f : ProtoData) : Bytecode.ProtoData where
  k := f.k.map TValue.constant
  code := f.code
  upvalues := f.upvalues.map fun u => ⟨u.name.map TString.text, u.instack, u.idx⟩
  locvars := f.locvars.map fun v => v.varname.map TString.text

mutual

def Proto.checked : Proto → Bytecode.Proto
  | .mk f p => .mk f.checked (checkedProtos p)

def checkedProtos : List Proto → List Bytecode.Proto
  | [] => []
  | f :: p => f.checked :: checkedProtos p

end

theorem ProtoData.checked_loaded (psource : Option TString) (f : ProtoData) :
    (f.loaded false psource).checked = f.checked := by
  have hlocvars : (f.locvars.map LocVar.untyped).map (fun v => v.varname.map TString.text) =
      f.locvars.map fun v => v.varname.map TString.text := List.map_map
  simp only [loaded, checked, hlocvars, Bool.false_eq_true, if_false]

mutual

theorem Proto.checked_loaded (psource : Option TString) :
    ∀ f : Proto, (f.loaded false psource).checked = f.checked
  | .mk f p => congrArg₂ Bytecode.Proto.mk (f.checked_loaded psource) (checkedProtos_loaded psource p)

theorem checkedProtos_loaded (psource : Option TString) :
    ∀ p : List Proto, checkedProtos (loadedProtos false psource p) = checkedProtos p
  | [] => rfl
  | f :: p => congrArg₂ List.cons (Proto.checked_loaded psource f) (checkedProtos_loaded psource p)

end

/-- The check finds of saved bytecode what it finds of the prototype that was saved. -/
theorem checkContractProto_fromStream {allocates : Nat → Bool} {fuel : Nat} {f : Proto} {name : Str}
    (S : Surroundings) (hfuel : f.depth ≤ fuel) (h : f.Fits allocates) :
    (luaUUndumpFromStream allocates fuel (luaUDump false f) name).map
        (fun cl => checkContractProto S [] cl.p.checked) = .ok (checkContractProto S [] f.checked) := by
  rw [← List.append_nil (luaUDump false f), luaUUndumpFromStream_luaUDump hfuel h]
  exact congrArg _ (congrArg _ (Proto.checked_loaded none f))

theorem checkContractProto_fromStream_greeting :
    (luaUUndumpFromStream (fun _ => true) 2 (luaUDump false greeting) []).map
        (fun cl => checkContractProto bareSurroundings [] cl.p.checked) =
      .ok (checkContractProto bareSurroundings [] greeting.checked) :=
  checkContractProto_fromStream _ (by decide) greeting_fits

end Checking

end Achain.Glua.Dump
