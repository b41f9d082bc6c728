import Achain.Lib.Stateful
import Mathlib.Tactic.Ring

/-!
# Streams that take and give what they like

A stream gives some of what it is asked for and takes some of what it is offered, and `read` and
`write` go on until all is done. `Serves` and `Accepts` say which elements a stream still holds and
which it has taken, in whole blocks; reading and writing then do not depend on the pieces.
-/

namespace Streams

variable {ε σ α : Type}

/-- What is known of a `read` made of a `readsome`. -/
structure ReadLaw (readsome : Nat → EStateM ε σ (List α)) (read : Nat → EStateM ε σ (List α)) :
    Prop where
  nothing : ∀ s, read 0 s = .ok [] s
  more : ∀ {len s got s₁}, 0 < len → readsome len s = .ok got s₁ → 0 < got.length →
    got.length ≤ len → read len s = ((got ++ ·) <$> read (len - got.length)) s₁
  throws : ∀ {len s e s₁}, 0 < len → readsome len s = .error e s₁ → read len s = .error e s₁

/-- What is known of a `write` made of a `writesome`. -/
structure WriteLaw (writesome : List α → EStateM ε σ Nat) (write : List α → EStateM ε σ Unit) :
    Prop where
  nothing : ∀ s, write [] s = .ok () s
  more : ∀ {data s n s₁}, data ≠ [] → writesome data s = .ok n s₁ → 0 < n → n ≤ data.length →
    write data s = write (data.drop n) s₁

/-- `readsome` gives what `holds` says is still to come, in whole blocks, and throws at the end. -/
structure Serves (size : Nat) (holds : σ → List α → Prop) (eof : ε)
    (readsome : Nat → EStateM ε σ (List α)) : Prop where
  gives : ∀ {len s data}, 0 < len → size ∣ len → data ≠ [] → holds s data →
    ∃ n s', 0 < n ∧ n ≤ len ∧ n ≤ data.length ∧ size ∣ n ∧
      readsome len s = .ok (data.take n) s' ∧ holds s' (data.drop n)
  ends : ∀ {len s}, 0 < len → size ∣ len → holds s [] →
    ∃ s', readsome len s = .error eof s' ∧ holds s' []

/-- `writesome` takes some of what it is offered, in whole blocks, after what `taken` says it has. -/
structure Accepts (size : Nat) (taken : σ → List α → Prop)
    (writesome : List α → EStateM ε σ Nat) : Prop where
  takes : ∀ {data s before}, data ≠ [] → size ∣ data.length → taken s before →
    ∃ n s', 0 < n ∧ n ≤ data.length ∧ size ∣ n ∧ writesome data s = .ok n s' ∧
      taken s' (before ++ data.take n)

variable {size : Nat} {holds taken : σ → List α → Prop} {eof : ε}
  {readsome read : Nat → EStateM ε σ (List α)} {writesome : List α → EStateM ε σ Nat}
  {write : List α → EStateM ε σ Unit}

/-- However the stream cuts what it gives, `read` returns the next elements. -/
theorem ReadLaw.of_serves (hread : ReadLaw readsome read) (hserves : Serves size holds eof readsome) :
    ∀ {len : Nat} {data : List α} {s : σ}, size ∣ len → len ≤ data.length → holds s data →
      ∃ s', read len s = .ok (data.take len) s' ∧ holds s' (data.drop len) := by
  intro len
  induction len using Nat.strong_induction_on with
  | _ len ih =>
    intro data s hsize hlen hs
    obtain rfl | hpos := Nat.eq_zero_or_pos len
    · exact ⟨s, hread.nothing s, hs⟩
    have hdata : data ≠ [] := by
      rintro rfl
      rw [List.length_nil] at hlen
      omega
    obtain ⟨n, s₁, hn, hnlen, hndata, hdvd, hsome, hs₁⟩ := hserves.gives hpos hsize hdata hs
    have hgot : (data.take n).length = n := List.length_take_of_le hndata
    obtain ⟨s', hrest, hs'⟩ := ih (len - n) (by omega) (Nat.dvd_sub hsize hdvd)
      (by rw [List.length_drop]; omega) hs₁
    refine ⟨s', ?_, ?_⟩
    · rw [hread.more hpos hsome (by omega) (by omega), hgot]
      refine (Stateful.bind_of_ok hrest).trans ?_
      show EStateM.Result.ok (data.take n ++ (data.drop n).take (len - n)) s' = _
      rw [← List.take_add, Nat.add_sub_cancel' hnlen]
    · rwa [List.drop_drop, Nat.add_sub_cancel' hnlen] at hs'

/-- With nothing left, `read` throws and takes nothing. -/
theorem ReadLaw.of_ends (hread : ReadLaw readsome read) (hserves : Serves size holds eof readsome)
    {len : Nat} {s : σ} (hpos : 0 < len) (hsize : size ∣ len) (hs : holds s []) :
    ∃ s', read len s = .error eof s' ∧ holds s' [] := by
  obtain ⟨s', hsome, hs'⟩ := hserves.ends hpos hsize hs
  exact ⟨s', hread.throws hpos hsome, hs'⟩

/-- However the stream cuts what it takes, `write` has it take everything. -/
theorem WriteLaw.of_accepts (hwrite : WriteLaw writesome write)
    (haccepts : Accepts size taken writesome) :
    ∀ {data : List α} {s : σ} {before : List α}, size ∣ data.length → taken s before →
      ∃ s', write data s = .ok () s' ∧ taken s' (before ++ data) := by
  intro data
  induction hlen : data.length using Nat.strong_induction_on generalizing data with
  | _ len ih =>
    intro s before hsize hs
    obtain rfl | hdata := eq_or_ne data []
    · exact ⟨s, hwrite.nothing s, by rwa [List.append_nil]⟩
    obtain ⟨n, s₁, hn, hnlen, hdvd, hsome, hs₁⟩ := haccepts.takes hdata (hlen ▸ hsize) hs
    obtain ⟨s', hrest, hs'⟩ := ih (data.drop n).length (by rw [List.length_drop]; omega) rfl
      (by rw [List.length_drop, hlen]; exact Nat.dvd_sub hsize hdvd) hs₁
    refine ⟨s', (hwrite.more hdata hsome hn hnlen).trans hrest, ?_⟩
    rwa [List.append_assoc, List.take_append_drop] at hs'

/-! ## Ciphers that work block by block -/

section Cipher

variable {E D : Type} (size : Nat) (encode : List α → E → List α × E)
  (decode : List α → D → List α × D)

/-- Two streams that are inverse to each other when they are fed whole blocks in order. `paired`
relates the states in which the one can decode what the other encodes next. -/
structure Inverse (paired : E → D → Prop) : Prop where
  encode_append : ∀ {x : List α} (y : List α) (e : E), size ∣ x.length →
    encode (x ++ y) e =
      ((encode x e).1 ++ (encode y (encode x e).2).1, (encode y (encode x e).2).2)
  decode_append : ∀ {x : List α} (y : List α) (d : D), size ∣ x.length →
    decode (x ++ y) d =
      ((decode x d).1 ++ (decode y (decode x d).2).1, (decode y (decode x d).2).2)
  length_encode : ∀ {x : List α} (e : E), x.length = size → (encode x e).1.length = size
  decode_encode : ∀ {x : List α} {e : E} {d : D}, x.length = size → paired e d →
    (decode (encode x e).1 d).1 = x ∧ paired (encode x e).2 (decode (encode x e).1 d).2

/-- A decoder that is fed a list block by block gives another one. -/
inductive Carries : D → List α → List α → D → Prop where
  | nil (d : D) : Carries d [] [] d
  | block {d d' d'' : D} {c x cs xs : List α} : c.length = size → x.length = size →
    decode c d = (x, d') → Carries d' cs xs d'' → Carries d (c ++ cs) (x ++ xs) d''

variable {size encode decode} {paired : E → D → Prop} {d d' d'' : D} {c cs x xs : List α}

theorem Carries.length_eq (h : Carries size decode d cs xs d') : cs.length = xs.length := by
  induction h with
  | nil => rfl
  | block hc hx _ _ ih => rw [List.length_append, List.length_append, hc, hx, ih]

theorem Carries.dvd_length (h : Carries size decode d cs xs d') : size ∣ cs.length := by
  induction h with
  | nil => exact dvd_zero _
  | block hc _ _ _ ih =>
    rw [List.length_append, hc]
    exact Nat.dvd_add (Nat.dvd_refl _) ih

theorem Carries.append (h : Carries size decode d cs xs d') (h' : Carries size decode d' c x d'') :
    Carries size decode d (cs ++ c) (xs ++ x) d'' := by
  induction h with
  | nil => exact h'
  | block hc hx hdecode _ ih =>
    rw [List.append_assoc, List.append_assoc]
    exact .block hc hx hdecode (ih h')

/-- The first blocks come out as they went in, and the rest is still carried. -/
theorem Carries.decode_take (hinv : Inverse size encode decode paired)
    (h : Carries size decode d cs xs d') :
    ∀ {n : Nat}, 0 < n → size ∣ n → n ≤ cs.length →
      (decode (cs.take n) d).1 = xs.take n ∧
        Carries size decode (decode (cs.take n) d).2 (cs.drop n) (xs.drop n) d' := by
  induction h with
  | nil => exact fun hpos _ hn => absurd hn (Nat.not_le.2 hpos)
  | @block d d₁ d' c x cs xs hc hx hdecode hrest ih =>
    rintro n hpos ⟨k, rfl⟩ hn
    obtain ⟨j, rfl⟩ : ∃ j, k = j + 1 := Nat.exists_eq_succ_of_ne_zero (by rintro rfl; simp at hpos)
    have hsplit : size * (j + 1) = size + size * j := by ring
    have htakes : ∀ {l : List α} (rest : List α), l.length = size →
        (l ++ rest).take (size + size * j) = l ++ rest.take (size * j) := by
      rintro l rest rfl
      exact List.take_length_add_append _
    have hdrops : ∀ {l : List α} (rest : List α), l.length = size →
        (l ++ rest).drop (size + size * j) = rest.drop (size * j) := by
      rintro l rest rfl
      exact List.drop_length_add_append _
    rw [hsplit, htakes _ hc, htakes _ hx, hdrops _ hc, hdrops _ hx]
    obtain hj | hj := Nat.eq_zero_or_pos (size * j)
    · rw [hj, List.take_zero, List.take_zero, List.append_nil, List.append_nil, List.drop_zero,
        List.drop_zero, hdecode]
      exact ⟨rfl, hrest⟩
    · obtain ⟨htake, hdrop⟩ := ih hj (dvd_mul_right _ _)
        (by rw [List.length_append, hc, hsplit] at hn; omega)
      rw [hinv.decode_append _ _ (by rw [hc]), hdecode, htake]
      exact ⟨rfl, hdrop⟩

/-- What the encoder makes of whole blocks is carried to a decoder that is in step with it. -/
theorem Inverse.carries (hinv : Inverse size encode decode paired) :
    ∀ {k : Nat} {x : List α} {e : E} {d : D}, x.length = size * (k + 1) → paired e d →
      ∃ d', Carries size decode d (encode x e).1 x d' ∧ paired (encode x e).2 d' := by
  intro k
  induction k with
  | zero =>
    intro x e d hx hpaired
    rw [Nat.zero_add, mul_one] at hx
    obtain ⟨hdecode, hnext⟩ := hinv.decode_encode hx hpaired
    refine ⟨_, ?_, hnext⟩
    have := Carries.block (hinv.length_encode e hx) hx (Prod.ext hdecode rfl)
      (show Carries size decode _ [] [] _ from .nil _)
    rwa [List.append_nil, List.append_nil] at this
  | succ k ih =>
    intro x e d hx hpaired
    have hle : size ≤ x.length := by rw [hx]; exact Nat.le_mul_of_pos_right _ (Nat.succ_pos _)
    have hfirst : (x.take size).length = size := List.length_take_of_le hle
    have hrest : (x.drop size).length = size * (k + 1) := by
      rw [List.length_drop, hx, mul_add, mul_one, Nat.add_sub_cancel]
    obtain ⟨hdecode, hnext⟩ := hinv.decode_encode hfirst hpaired
    obtain ⟨d', hcarries, hpaired'⟩ := ih hrest hnext
    have happend := hinv.encode_append (x.drop size) e (Dvd.intro 1 (by rw [hfirst, mul_one]))
    rw [List.take_append_drop] at happend
    refine ⟨d', ?_, by rwa [happend]⟩
    have hblock := Carries.block (hinv.length_encode e hfirst) hfirst (Prod.ext hdecode rfl) hcarries
    rw [happend]
    rwa [List.take_append_drop] at hblock

end Cipher

end Streams
