import Achain.ContractFile

/-!
# What a contract file holds

`reads_readCode`: the reader returns exactly where the file starts with complete `Contents`, and returns
their code. `readsSafely_iff`: it uses a length out of bounds exactly where, behind complete entries, the
length of a name is below zero, beyond the bytes left or the greatest `int`.
-/

namespace Achain.ContractFile

open ByKey Readers Readers.Reader

/-! ## The integers of the file -/

theorem and_mask_shiftRight (u k : Nat) : (u &&& (255 <<< k)) >>> k = u / 2 ^ k % 256 := by
  rw [Nat.shiftRight_and_distrib, Nat.shiftLeft_shiftRight, show 255 = 2 ^ 8 - 1 from rfl,
    Nat.and_two_pow_sub_one_eq_mod, Nat.shiftRight_eq_div_pow]

theorem toNat_byte (u m k : UInt32) (n : Nat) (hk : k.toNat % 32 = n) (hm : m.toNat = 255 <<< n) :
    ((u &&& m) >>> k).toUInt8.toNat = u.toNat / 2 ^ n % 256 := by
  rw [UInt32.toNat_toUInt8, UInt32.toNat_shiftRight, UInt32.toNat_and, hk, hm, and_mask_shiftRight]
  exact Nat.mod_mod _ _

theorem toNat_word (uc4 uc3 uc2 uc1 : UInt8) :
    ((uc4.toUInt32 <<< 24) + (uc3.toUInt32 <<< 16) + (uc2.toUInt32 <<< 8) + uc1.toUInt32).toNat =
      uc4.toNat * 2 ^ 24 + uc3.toNat * 2 ^ 16 + uc2.toNat * 2 ^ 8 + uc1.toNat := by
  have h4 := uc4.toNat_lt
  have h3 := uc3.toNat_lt
  have h2 := uc2.toNat_lt
  have h1 := uc1.toNat_lt
  simp [UInt32.toNat_add, UInt32.toNat_shiftLeft, Nat.shiftLeft_eq]
  omega

theorem commonFwriteInt_eq (n : Int32) :
    ∃ uc4 uc3 uc2 uc1 : UInt8, commonFwriteInt n = [uc4, uc3, uc2, uc1] ∧
      uc4.toNat = n.toUInt32.toNat / 2 ^ 24 % 256 ∧ uc3.toNat = n.toUInt32.toNat / 2 ^ 16 % 256 ∧
      uc2.toNat = n.toUInt32.toNat / 2 ^ 8 % 256 ∧ uc1.toNat = n.toUInt32.toNat % 256 := by
  have hlow := toNat_byte n.toUInt32 0x000000FF 0 0 rfl rfl
  rw [Nat.pow_zero, Nat.div_one] at hlow
  refine ⟨_, _, _, _, rfl, toNat_byte _ _ _ 24 rfl rfl, toNat_byte _ _ _ 16 rfl rfl,
    toNat_byte _ _ _ 8 rfl rfl, ?_⟩
  rw [← hlow]
  rfl

theorem length_commonFwriteInt (n : Int32) : (commonFwriteInt n).length = 4 := rfl

theorem commonFreadInt_write (n : Int32) (fails : FileException) (rest : Bytes) :
    commonFreadInt fails (commonFwriteInt n ++ rest) = ⟨[], .returns (n, rest)⟩ := by
  obtain ⟨uc4, uc3, uc2, uc1, hwrite, h4, h3, h2, h1⟩ := commonFwriteInt_eq n
  have hword : (uc4.toUInt32 <<< 24) + (uc3.toUInt32 <<< 16) + (uc2.toUInt32 <<< 8) + uc1.toUInt32 =
      n.toUInt32 := by
    have hlt := n.toUInt32.toNat_lt
    rw [← UInt32.toNat_inj, toNat_word]
    omega
  rw [hwrite]
  show (⟨[], .returns (UInt32.toInt32 _, rest)⟩ : Run FileException UInt8 Int32) = _
  rw [hword, Int32.toInt32_toUInt32]

theorem commonFwriteInt_word (uc4 uc3 uc2 uc1 : UInt8) :
    commonFwriteInt ((uc4.toUInt32 <<< 24) + (uc3.toUInt32 <<< 16) + (uc2.toUInt32 <<< 8) +
      uc1.toUInt32).toInt32 = [uc4, uc3, uc2, uc1] := by
  obtain ⟨b4, b3, b2, b1, hwrite, h4, h3, h2, h1⟩ := commonFwriteInt_eq
    ((uc4.toUInt32 <<< 24) + (uc3.toUInt32 <<< 16) + (uc2.toUInt32 <<< 8) + uc1.toUInt32).toInt32
  rw [UInt32.toUInt32_toInt32, toNat_word] at h4 h3 h2 h1
  have hu4 := uc4.toNat_lt
  have hu3 := uc3.toNat_lt
  have hu2 := uc2.toNat_lt
  have hu1 := uc1.toNat_lt
  have e4 : b4 = uc4 := UInt8.toNat_inj.1 (by omega)
  have e3 : b3 = uc3 := UInt8.toNat_inj.1 (by omega)
  have e2 : b2 = uc2 := UInt8.toNat_inj.1 (by omega)
  have e1 : b1 = uc1 := UInt8.toNat_inj.1 (by omega)
  rw [hwrite, e4, e3, e2, e1]

theorem codes_commonFreadInt (fails : FileException) :
    Codes (commonFreadInt fails) commonFwriteInt (fun _ => True) id := by
  constructor
  intro rest n rest'
  constructor
  · intro h
    match rest, h with
    | uc4 :: uc3 :: uc2 :: uc1 :: rest, h =>
      cases h
      exact ⟨_, trivial, congrArg (· ++ rest') (commonFwriteInt_word uc4 uc3 uc2 uc1).symm, rfl⟩
  · rintro ⟨n, -, rfl, rfl⟩
    rw [Reads, commonFreadInt_write]
    rfl

theorem not_overruns_commonFreadInt {fails : FileException} {rest : Bytes} :
    ¬Overruns (commonFreadInt fails) rest := by
  rintro (⟨x, hx, -⟩ | h) <;> unfold commonFreadInt at * <;> split at * <;> simp_all

theorem distinct_int : Distinct commonFwriteInt fun _ => True := by
  refine Distinct.of_length (fun n _ => length_commonFwriteInt n) fun {n m} _ _ h => ?_
  have hn := commonFreadInt_write n .readApiFail []
  rw [h, commonFreadInt_write m .readApiFail []] at hn
  cases hn
  rfl

/-! ## Strings -/

theorem reads_mallocBuf {len : Int32} {rest rest' : Bytes} {u : Unit} :
    Reads (mallocBuf len) rest u rest' ↔ len.toInt + 1 < 2 ^ 31 ∧ rest = rest' := by
  unfold mallocBuf
  split_ifs with h
  · rw [reads_pure]
    exact ⟨fun hr => ⟨h, hr.2⟩, fun hr => ⟨rfl, hr.2⟩⟩
  · exact ⟨nofun, fun hr => absurd hr.1 h⟩

theorem overruns_mallocBuf {len : Int32} {rest : Bytes} :
    Overruns (mallocBuf len) rest ↔ ¬len.toInt + 1 < 2 ^ 31 := by
  unfold mallocBuf
  split_ifs with h
  · exact iff_of_false not_overruns_pure (not_not_intro h)
  · exact iff_of_true (.inr rfl) h

variable {len : Int32} {fails : FileException} {rest rest' buf s : Bytes}

theorem reads_commonFreadOctets :
    Reads (commonFreadOctets len fails) rest buf rest' ↔
      0 < len.toInt ∧ buf.length = len.toInt ∧ rest = buf ++ rest' := by
  unfold commonFreadOctets Reads
  dsimp only
  split_ifs with h hneg
  · rw [Outcome.returns.injEq, Prod.mk.injEq]
    constructor
    · rintro ⟨rfl, rfl⟩
      refine ⟨h.1, ?_, (List.take_append_drop _ _).symm⟩
      rw [List.length_take]
      omega
    · rintro ⟨-, hlen, rfl⟩
      rw [← hlen, Int.toNat_natCast]
      exact ⟨List.take_left, List.drop_left⟩
  all_goals
    refine ⟨nofun, ?_⟩
    rintro ⟨hpos, hlen, rfl⟩
    refine absurd ⟨hpos, ?_⟩ h
    rw [List.length_append]
    omega

theorem overruns_commonFreadOctets :
    Overruns (commonFreadOctets len fails) rest ↔ ¬(0 ≤ len.toInt ∧ len.toInt ≤ rest.length) := by
  constructor
  · rintro (⟨x, hx, hbad⟩ | h)
    · obtain rfl := List.mem_singleton.1 hx
      exact hbad
    · unfold commonFreadOctets at h
      dsimp only at h
      split_ifs at h with _ hneg
      omega
  · exact fun h => .inl ⟨_, List.mem_singleton_self _, h⟩

/-- A string after its length. -/
def encString (s : Bytes) : Bytes := commonFwriteInt (Int32.ofNat s.length) ++ s

/-- Not empty, and with room for the zero at its end. -/
def Readable (s : Bytes) : Prop := 0 < s.length ∧ s.length + 1 < 2 ^ 31

/-- What comes next is a length below zero, beyond the bytes left or too great for the buffer. -/
def BadLength (rest : Bytes) : Prop :=
  ∃ (len : Int32) (tail : Bytes), rest = commonFwriteInt len ++ tail ∧
    (len.toInt < 0 ∨ tail.length < len.toInt ∨ len.toInt + 1 = 2 ^ 31)

theorem codes_readString (lenFails fails : FileException) :
    Codes (readString lenFails fails) encString Readable cString := by
  constructor
  intro rest a rest'
  simp only [readString, reads_bind, (codes_commonFreadInt lenFails).reads_iff, reads_mallocBuf,
    reads_commonFreadOctets, reads_pure]
  constructor
  · rintro ⟨_, _, ⟨len, -, rfl, rfl⟩, _, _, ⟨hmalloc, rfl⟩, buf, _, ⟨hpos, hlen, rfl⟩, rfl, rfl⟩
    rw [id] at hmalloc hpos hlen
    refine ⟨buf, ⟨by omega, by omega⟩, ?_, rfl⟩
    have hcount : Int32.ofNat buf.length = len := by
      rw [← Int32.toInt_inj, Int32.toInt_ofNat_of_lt (by omega), hlen]
    rw [encString, hcount, List.append_assoc]
  · rintro ⟨buf, ⟨hpos, hlt⟩, rfl, rfl⟩
    have hlen : (Int32.ofNat buf.length).toInt = buf.length := Int32.toInt_ofNat_of_lt (by omega)
    refine ⟨_, _, ⟨_, trivial, List.append_assoc _ _ _, rfl⟩, (), _, ⟨?_, rfl⟩, buf, _,
      ⟨?_, ?_, rfl⟩, rfl, rfl⟩ <;> rw [id, hlen] <;> omega

theorem overruns_readString (lenFails fails : FileException) :
    Overruns (readString lenFails fails) rest ↔ BadLength rest := by
  simp only [readString, overruns_bind, not_overruns_commonFreadInt,
    (codes_commonFreadInt lenFails).reads_iff,
    overruns_mallocBuf, reads_mallocBuf, overruns_commonFreadOctets, not_overruns_pure, false_or,
    and_false, exists_false, or_false]
  constructor
  · rintro ⟨_, tail, ⟨len, -, rfl, rfl⟩, h⟩
    have hlt := len.toInt_lt
    rw [id] at h
    refine ⟨len, tail, rfl, ?_⟩
    obtain h | ⟨_, _, ⟨-, rfl⟩, h⟩ := h <;> omega
  · rintro ⟨len, tail, rfl, h⟩
    refine ⟨_, tail, ⟨len, trivial, rfl, rfl⟩, ?_⟩
    rw [id]
    by_cases hmalloc : len.toInt + 1 < 2 ^ 31
    · exact .inr ⟨(), tail, ⟨hmalloc, rfl⟩, by omega⟩
    · exact .inl hmalloc

theorem distinct_string : Distinct encString fun s => s.length < 2 ^ 31 := by
  intro s t rest rest' hs ht h
  rw [encString, encString, List.append_assoc, List.append_assoc] at h
  obtain ⟨hlen, htail⟩ := distinct_int trivial trivial h
  rw [← Int32.toInt_inj, Int32.toInt_ofNat_of_lt hs, Int32.toInt_ofNat_of_lt ht] at hlen
  exact List.append_inj htail (Int.ofNat.inj hlen)

/-! ## Sections -/

/-- A storage property: its name and its type. -/
def encProperty (info : Bytes × StorageType) : Bytes := encString info.1 ++ commonFwriteInt info.2

theorem codes_readProperty (e e' e'' : FileException) :
    Codes (readProperty e e' e'') encProperty (fun info => Readable info.1)
      fun info => (cString info.1, info.2) := by
  constructor
  intro rest a rest'
  simp only [readProperty, reads_bind, (codes_readString e e').reads_iff,
    (codes_commonFreadInt e'').reads_iff, reads_pure]
  constructor
  · rintro ⟨_, _, ⟨s, hs, rfl, rfl⟩, _, _, ⟨n, -, rfl, rfl⟩, rfl, rfl⟩
    exact ⟨(s, n), hs, (List.append_assoc _ _ _).symm, rfl⟩
  · rintro ⟨⟨s, n⟩, hs, rfl, rfl⟩
    exact ⟨_, _, ⟨s, hs, List.append_assoc _ _ _, rfl⟩, n, _, ⟨n, trivial, rfl, rfl⟩, rfl, rfl⟩

theorem overruns_readProperty (e e' e'' : FileException) :
    Overruns (readProperty e e' e'') rest ↔ BadLength rest := by
  simp only [readProperty, overruns_bind, overruns_readString, not_overruns_commonFreadInt,
    not_overruns_pure, or_self, and_false, exists_false, or_false]

theorem distinct_property : Distinct encProperty fun info => info.1.length < 2 ^ 31 :=
  (distinct_string.pair distinct_int).mono fun _ h => ⟨h, trivial⟩

/-- A count and some entries. -/
abbrev Section (ι : Type) := Int32 × List ι

section entries

variable {ι α γ : Type} (enc : ι → Bytes) (valid : ι → Prop)

def encSection (s : Section ι) : Bytes := commonFwriteInt s.1 ++ s.2.flatMap enc

/-- As many entries as the count says, and all valid. -/
def Complete (s : Section ι) : Prop := s.2.length = s.1.toInt.toNat ∧ ∀ i ∈ s.2, valid i

/-- After a count and fewer valid entries there is a bad length. -/
def BadSection (rest : Bytes) : Prop :=
  ∃ (count : Int32) (entries : List ι) (tail : Bytes), entries.length < count.toInt ∧
    (∀ i ∈ entries, valid i) ∧ rest = commonFwriteInt count ++ (entries.flatMap enc ++ tail) ∧
    BadLength tail

variable {enc valid} {item : FileReader α} {val : ι → α}

/-- A section of entries that a reader reads. -/
theorem codes_section (h : Codes item enc valid val) (e : FileException) (f : γ → α → γ) (c : γ) :
    Codes (do
      let count ← commonFreadInt e
      fold item f count.toInt.toNat c) (encSection enc) (Complete valid)
      fun s => (s.2.map val).foldl f c := by
  constructor
  intro rest a rest'
  simp only [reads_bind, (codes_commonFreadInt e).reads_iff, h.fold]
  constructor
  · rintro ⟨_, _, ⟨n, -, rfl, rfl⟩, is, hlen, his, rfl, rfl⟩
    exact ⟨(n, is), ⟨hlen, his⟩, (List.append_assoc _ _ _).symm, rfl⟩
  · rintro ⟨⟨n, is⟩, ⟨hlen, his⟩, rfl, rfl⟩
    exact ⟨n, _, ⟨n, trivial, List.append_assoc _ _ _, rfl⟩, is, hlen, his, rfl, rfl⟩

theorem overruns_section (h : Codes item enc valid val)
    (hbad : ∀ {rest}, Overruns item rest ↔ BadLength rest) (e : FileException) (f : γ → α → γ) (c : γ) :
    Overruns (do
      let count ← commonFreadInt e
      fold item f count.toInt.toNat c) rest ↔ BadSection enc valid rest := by
  simp only [overruns_bind, not_overruns_commonFreadInt, (codes_commonFreadInt e).reads_iff,
    h.overruns_fold, hbad, false_or]
  constructor
  · rintro ⟨_, _, ⟨n, -, rfl, rfl⟩, is, tail, hlt, his, rfl, htail⟩
    rw [id] at hlt
    exact ⟨n, is, tail, by omega, his, rfl, htail⟩
  · rintro ⟨n, is, tail, hlt, his, rfl, htail⟩
    exact ⟨n, _, ⟨n, trivial, rfl, rfl⟩, is, tail, by omega, his, rfl, htail⟩

theorem distinct_section (h : Distinct enc valid) : Distinct (encSection enc) (Complete valid) :=
  Distinct.counted (fun n : Int32 => n.toInt.toNat) h distinct_int

end entries

/-! ## The byte code -/

variable {sha : Sha1} {digest : List UInt32} {size : Nat} {byteCode : Bytes}

theorem length_writeDigest : (writeDigest digest).length = 4 * digest.length := by
  induction digest with
  | nil => rfl
  | cons d ds ih =>
    rw [writeDigest, List.flatMap_cons, List.length_append, length_commonFwriteInt, List.length_cons]
    rw [writeDigest] at ih
    omega

theorem foldl_digest (is : List Int32) (ds : List UInt32) :
    is.foldl (fun ds d => ds ++ [d.toUInt32]) ds = ds ++ is.map Int32.toUInt32 := by
  induction is generalizing ds with
  | nil => exact (List.append_nil ds).symm
  | cons d is ih => rw [List.foldl_cons, ih, List.append_assoc, List.map_cons, List.singleton_append]

theorem reads_digest : Reads (fold (commonFreadInt fails) (fun ds d => ds ++ [d.toUInt32]) 5 []) rest
    digest rest' ↔ digest.length = 5 ∧ rest = writeDigest digest ++ rest' := by
  rw [(codes_commonFreadInt fails).fold]
  constructor
  · rintro ⟨is, hlen, -, rfl, rfl⟩
    rw [List.map_id, foldl_digest, List.nil_append]
    refine ⟨by rw [List.length_map, hlen], ?_⟩
    rw [writeDigest, List.flatMap_map]
    rfl
  · rintro ⟨hlen, rfl⟩
    refine ⟨digest.map UInt32.toInt32, by rw [List.length_map, hlen], fun _ _ => trivial, ?_, ?_⟩
    · rw [writeDigest, List.flatMap_map]
    · rw [List.map_id, foldl_digest, List.nil_append, List.map_map]
      exact List.map_id'' (fun d => UInt32.toUInt32_toInt32 d) digest

theorem toInt_ofNat_le (n : Nat) : (Int32.ofNat n).toInt ≤ n := by
  rw [Int32.toInt_ofNat', Int.bmod_def, show (Int32.size : Int) = 2 ^ 32 from rfl]
  split_ifs <;> omega

/-- The digest of the byte code, and the byte code after its length. -/
def header (sha : Sha1) (byteCode : Bytes) : Bytes :=
  writeDigest (sha.digest byteCode) ++ encString byteCode

/-- A byte code that is not empty and ends before the size of its file does, as an `int`. -/
def Fits (byteCode : Bytes) (size : Nat) : Prop :=
  0 < byteCode.length ∧ 24 + byteCode.length < (Int32.ofNat size).toInt

theorem Fits.length_lt (h : Fits byteCode size) : byteCode.length + 24 < 2 ^ 31 := by
  have hlt := (Int32.ofNat size).toInt_lt
  have hfits := h.2
  omega

theorem reads_readByteCode (hsize : rest.length = size) :
    Reads (readByteCode sha size) rest byteCode rest' ↔
      Fits byteCode size ∧ rest = header sha byteCode ++ rest' := by
  simp only [readByteCode, reads_bind, reads_digest, (codes_commonFreadInt _).reads_iff, reads_left,
    reads_ensure, reads_commonFreadOctets, reads_pure]
  constructor
  · rintro ⟨ds, _, ⟨hds, rfl⟩, _, rest₁, ⟨len, -, rfl, rfl⟩, n, _, ⟨hn, rfl⟩, _, _, ⟨hrange, rfl⟩, b, _,
      ⟨hpos, hlen, rfl⟩, _, _, ⟨rfl, rfl⟩, rfl, rfl⟩
    rw [List.length_append, List.length_append, length_writeDigest, length_commonFwriteInt, hn, hds]
      at hsize
    rw [id] at hrange hpos hlen
    have hfits : Fits b size := ⟨by omega, by omega⟩
    have hcount : Int32.ofNat b.length = len := by
      rw [← Int32.toInt_inj, Int32.toInt_ofNat_of_lt (by have := hfits.length_lt; omega), hlen]
    exact ⟨hfits, by rw [header, encString, hcount, List.append_assoc, List.append_assoc]⟩
  · rintro ⟨hfits, rfl⟩
    have hlen : (Int32.ofNat byteCode.length).toInt = byteCode.length :=
      Int32.toInt_ofNat_of_lt (by have := hfits.length_lt; omega)
    have hfits' := hfits.2
    rw [header, encString, List.length_append, List.length_append, List.length_append,
      length_writeDigest, length_commonFwriteInt, sha.length] at hsize
    refine ⟨_, _, ⟨sha.length _, by rw [header, encString, List.append_assoc]⟩, _, _,
      ⟨_, trivial, List.append_assoc _ _ _, rfl⟩, _, _, ⟨rfl, rfl⟩, (), _, ⟨?_, rfl⟩, byteCode, _,
      ⟨?_, ?_, rfl⟩, (), _, ⟨rfl, rfl⟩, rfl, rfl⟩
    · rw [id, hlen, List.length_append]
      omega
    · rw [id, hlen]
      exact Int.natCast_pos.2 hfits.1
    · rw [id, hlen]

theorem not_overruns_readByteCode : ¬Overruns (readByteCode sha rest.length) rest := by
  simp only [readByteCode, overruns_bind, (codes_commonFreadInt _).overruns_fold,
    not_overruns_commonFreadInt, reads_digest, (codes_commonFreadInt _).reads_iff, not_overruns_left,
    reads_left, not_overruns_ensure, reads_ensure, overruns_commonFreadOctets, not_overruns_pure, and_false,
    exists_false, false_or, or_false]
  rintro ⟨ds, rest₁, ⟨hds, hrest⟩, _, rest₂, ⟨len, -, rfl, rfl⟩, n, _, ⟨rfl, rfl⟩, _, _, ⟨hrange, rfl⟩,
    hbad⟩
  have hle := toInt_ofNat_le rest.length
  have hlength := congrArg List.length hrest
  rw [List.length_append, List.length_append] at hlength
  omega

/-! ## The file -/

/-- What a file holds: the byte code and the sections, as they are written. -/
structure Contents where
  byteCode : Bytes
  abi : Section Bytes
  offlineAbi : Section Bytes
  events : Section Bytes
  storageProperties : Section (Bytes × StorageType)

namespace Contents

def sections (c : Contents) : Bytes :=
  encSection encString c.abi ++ (encSection encString c.offlineAbi ++
    (encSection encString c.events ++ encSection encProperty c.storageProperties))

def bytes (sha : Sha1) (c : Contents) : Bytes := header sha c.byteCode ++ c.sections

/-- The sections are complete, with valid names. -/
structure Holds (valid : Bytes → Prop) (c : Contents) : Prop where
  abi : Complete valid c.abi
  offlineAbi : Complete valid c.offlineAbi
  events : Complete valid c.events
  storageProperties : Complete (fun info => valid info.1) c.storageProperties

/-- The code with these contents: every name up to its first zero, and the first type of a name. -/
def code (sha : Sha1) (c : Contents) : Code where
  abi := .ofList byteKey (c.abi.2.map cString)
  offlineAbi := .ofList byteKey (c.offlineAbi.2.map cString)
  events := .ofList byteKey (c.events.2.map cString)
  storageProperties :=
    .ofList (fun e => byteKey e.1) (c.storageProperties.2.map fun info => (cString info.1, info.2))
  byteCode := c.byteCode
  codeHash := getHash sha c.byteCode

end Contents

theorem codes_initApiFromFile (e₁ e₂ e₃ : FileException) :
    Codes (initApiFromFile e₁ e₂ e₃) (encSection encString) (Complete Readable)
      fun s => .ofList byteKey (s.2.map cString) :=
  codes_section (codes_readString e₂ e₃) e₁ _ _

theorem codes_initStorageFromFile (e₁ e₂ e₃ e₄ : FileException) :
    Codes (initStorageFromFile e₁ e₂ e₃ e₄) (encSection encProperty)
      (Complete fun info => Readable info.1)
      fun s => .ofList (fun e => byteKey e.1) (s.2.map fun info => (cString info.1, info.2)) :=
  codes_section (codes_readProperty e₂ e₃ e₄) e₁ _ _

variable {code : Code} {file : Bytes}

theorem reads_readSections : Reads (readSections sha byteCode) rest code rest' ↔
    ∃ c : Contents, c.byteCode = byteCode ∧ c.Holds Readable ∧ rest = c.sections ++ rest' ∧
      c.code sha = code := by
  simp only [readSections, reads_bind, (codes_initApiFromFile _ _ _).reads_iff,
    (codes_initStorageFromFile _ _ _ _).reads_iff, reads_pure]
  constructor
  · rintro ⟨_, _, ⟨abi, habi, rfl, rfl⟩, _, _, ⟨offline, hoffline, rfl, rfl⟩, _, _,
      ⟨events, hevents, rfl, rfl⟩, _, _, ⟨storage, hstorage, rfl, rfl⟩, rfl, rfl⟩
    refine ⟨⟨byteCode, abi, offline, events, storage⟩, rfl, ⟨habi, hoffline, hevents, hstorage⟩, ?_, rfl⟩
    rw [Contents.sections, List.append_assoc, List.append_assoc, List.append_assoc]
  · rintro ⟨c, rfl, h, rfl, rfl⟩
    refine ⟨_, _, ⟨c.abi, h.abi, ?_, rfl⟩, _, _, ⟨c.offlineAbi, h.offlineAbi, rfl, rfl⟩, _, _,
      ⟨c.events, h.events, rfl, rfl⟩, _, _, ⟨c.storageProperties, h.storageProperties, rfl, rfl⟩, rfl, rfl⟩
    rw [Contents.sections, List.append_assoc, List.append_assoc, List.append_assoc]

/-- The reader returns exactly where the file starts with complete contents. -/
theorem reads_readCode : (readCode sha file).outcome = .returns (code, rest) ↔
    ∃ c : Contents, Fits c.byteCode file.length ∧ c.Holds Readable ∧ file = c.bytes sha ++ rest ∧
      c.code sha = code := by
  show Reads (readByteCode sha file.length >>= readSections sha) file code rest ↔ _
  simp only [reads_bind, reads_readByteCode rfl, reads_readSections]
  constructor
  · rintro ⟨_, _, ⟨hfits, hfile⟩, c, rfl, h, rfl, rfl⟩
    exact ⟨c, hfits, h, by rw [Contents.bytes, List.append_assoc, ← hfile], rfl⟩
  · rintro ⟨c, hfits, h, hfile, rfl⟩
    exact ⟨c.byteCode, _, ⟨hfits, by rw [hfile, Contents.bytes, List.append_assoc]⟩, c, rfl, h, rfl, rfl⟩

/-! ## Lengths out of bounds -/

theorem overruns_initApiFromFile (e₁ e₂ e₃ : FileException) :
    Overruns (initApiFromFile e₁ e₂ e₃) rest ↔ BadSection encString Readable rest :=
  overruns_section (codes_readString e₂ e₃) (overruns_readString e₂ e₃) e₁ _ _

theorem overruns_initStorageFromFile (e₁ e₂ e₃ e₄ : FileException) :
    Overruns (initStorageFromFile e₁ e₂ e₃ e₄) rest ↔
      BadSection encProperty (fun info => Readable info.1) rest :=
  overruns_section (codes_readProperty e₂ e₃ e₄) (overruns_readProperty e₂ e₃ e₄) e₁ _ _

/-- A bad length in one of the next sections: so many of names, and then the storage properties. -/
def BadSections : Nat → Bytes → Prop
  | 0, rest => BadSection encProperty (fun info => Readable info.1) rest
  | n + 1, rest => BadSection encString Readable rest ∨
    ∃ (s : Section Bytes) (rest' : Bytes), Complete Readable s ∧ rest = encSection encString s ++ rest' ∧
      BadSections n rest'

theorem overruns_bind_names {α : Type} {k : StringSet → FileReader α} {n : Nat} (e₁ e₂ e₃ : FileException)
    (hk : ∀ names rest, Overruns (k names) rest ↔ BadSections n rest) :
    Overruns (initApiFromFile e₁ e₂ e₃ >>= k) rest ↔ BadSections (n + 1) rest := by
  rw [overruns_bind, overruns_initApiFromFile, BadSections]
  refine or_congr_right ?_
  simp only [(codes_initApiFromFile e₁ e₂ e₃).reads_iff, hk]
  constructor
  · rintro ⟨_, rest', ⟨s, hs, rfl, rfl⟩, hbad⟩
    exact ⟨s, rest', hs, rfl, hbad⟩
  · rintro ⟨s, rest', hs, rfl, hbad⟩
    exact ⟨_, rest', ⟨s, hs, rfl, rfl⟩, hbad⟩

theorem overruns_readSections : Overruns (readSections sha byteCode) rest ↔ BadSections 3 rest := by
  refine overruns_bind_names _ _ _ fun _ _ => overruns_bind_names _ _ _ fun _ _ =>
    overruns_bind_names _ _ _ fun _ _ => ?_
  rw [overruns_bind, overruns_initStorageFromFile]
  simp only [not_overruns_pure, and_false, exists_false, or_false]
  rfl

/-- The byte code is read, and some complete sections and entries after it there is a bad length. -/
def ReachesBadLength (sha : Sha1) (file : Bytes) : Prop :=
  ∃ byteCode rest, Fits byteCode file.length ∧ file = header sha byteCode ++ rest ∧ BadSections 3 rest

/-- All lengths are in bounds, and the reader throws or returns the code of what it has read. -/
def ReadsSafely (sha : Sha1) (file : Bytes) : Prop :=
  (∀ x ∈ (readCode sha file).lengths, 0 ≤ x.1 ∧ x.1 ≤ x.2) ∧
    ((∃ e, (readCode sha file).outcome = .throws e) ∨
      ∃ code rest, (readCode sha file).outcome = .returns (code, rest) ∧
        ∃ c : Contents, c.Holds Readable ∧ file = c.bytes sha ++ rest ∧ c.code sha = code)

theorem readsSafely_iff (sha : Sha1) (file : Bytes) :
    ReadsSafely sha file ↔ ¬ReachesBadLength sha file := by
  have hover : Overruns (readByteCode sha file.length >>= readSections sha) file ↔
      ReachesBadLength sha file := by
    rw [overruns_bind, iff_false_intro not_overruns_readByteCode, false_or]
    simp only [reads_readByteCode rfl, overruns_readSections, and_assoc]
    rfl
  rw [← hover, Overruns, not_or]
  push Not
  refine and_congr Iff.rfl ?_
  change _ ↔ (readCode sha file).outcome ≠ _
  constructor
  · rintro (⟨e, h⟩ | ⟨code, rest, h, -⟩) <;> rw [h] <;> nofun
  · intro h
    cases hout : (readCode sha file).outcome with
    | undefined => exact absurd hout h
    | throws e => exact .inl ⟨e, rfl⟩
    | returns a =>
      obtain ⟨c, -, hc⟩ := reads_readCode.1 hout
      exact .inr ⟨a.1, a.2, rfl, c, hc⟩

/-- SHA-1 as it is at the byte code of one zero byte. -/
def zeroSha : Sha1 := ⟨fun _ => [0x5ba93c9d, 0xb0cff93f, 0x52b521d7, 0x420e43f6, 0xeda2784f], fun _ => rfl⟩

/-- A file of one byte of byte code and one api, whose name has the length -1. -/
def negativeLengthFile : Bytes :=
  header zeroSha [0] ++ commonFwriteInt 1 ++ commonFwriteInt (-1) ++ commonFwriteInt 0

theorem negative_length_used : ¬∀ sha file, ReadsSafely sha file := by
  intro h
  have hlengths : (readCode zeroSha negativeLengthFile).lengths = [(1, 13), (-1, 4)] := by decide
  have hbad := (h zeroSha negativeLengthFile).1 (-1, 4) (by rw [hlengths]; decide)
  exact absurd hbad (by decide)

end Achain.ContractFile
