import Achain.Lib.Sources
import Mathlib.Logic.Equiv.Defs

/-!
# Codecs

A codec writes values and reads them. `Fits` says of which values it reads again what it wrote: it
recovers these, and from what it wrote of others it reads another value or none. Codecs are put together
as the values are: fields one after the other, lists after their length, options after a flag.
-/

namespace Codecs

open Sources

variable {ε β α γ : Type} {e : ε}

structure Codec (e : ε) (β α : Type) where
  pack : α → List β
  unpack : StateT (List β) (Except ε) α
  Fits : α → Prop
  recovers : ∀ {a}, Fits a → Recovers head e unpack (pack a) a
  strays : ∀ {a}, ¬Fits a → ∀ l l', unpack (pack a ++ l) ≠ .ok (a, l')

namespace Codec

variable (c : Codec e β α) (d : Codec e β γ)

/-- A value is read again, and nothing after it, just if it fits. -/
theorem unpack_pack {a : α} {l : List β} : c.unpack (c.pack a ++ l) = .ok (a, l) ↔ c.Fits a :=
  ⟨fun h => by_contra fun ha => c.strays ha l l h, fun ha => (c.recovers ha).get_append⟩

/-- One after the other. -/
def pair : Codec e β (α × γ) where
  pack x := c.pack x.1 ++ d.pack x.2
  unpack := do
    let a ← c.unpack
    let b ← d.unpack
    return (a, b)
  Fits x := c.Fits x.1 ∧ d.Fits x.2
  recovers h := (c.recovers h.1).bind (d.recovers h.2).last
  strays := by
    rintro ⟨a, b⟩ hfits l l' h
    obtain ⟨a', t, ha, h⟩ := bind_eq_ok.1 h
    obtain ⟨b', t', hb, h⟩ := bind_eq_ok.1 h
    obtain ⟨heq, rfl⟩ := pure_eq_ok.1 h
    obtain ⟨rfl, rfl⟩ := Prod.mk.inj heq
    rw [List.append_assoc] at ha
    by_cases hfit : c.Fits a'
    · rw [(c.recovers hfit).get_append, Except.ok.injEq, Prod.mk.injEq] at ha
      obtain ⟨-, rfl⟩ := ha
      exact d.strays (fun hd => hfits ⟨hfit, hd⟩) _ _ hb
    · exact c.strays hfit _ _ ha

/-- The same values in another form. -/
def iso (f : α ≃ γ) : Codec e β γ where
  pack b := c.pack (f.symm b)
  unpack := do return f (← c.unpack)
  Fits b := c.Fits (f.symm b)
  recovers {b} h := by
    have hlast := (c.recovers h).last (f := f)
    rwa [f.apply_symm_apply] at hlast
  strays := by
    intro b hfits l l' h
    obtain ⟨a, t, ha, h⟩ := bind_eq_ok.1 h
    obtain ⟨rfl, rfl⟩ := pure_eq_ok.1 h
    rw [f.symm_apply_apply] at ha hfits
    exact c.strays hfits _ _ ha

/-- After a flag, if there is a value. -/
def option (flag : Codec e β Bool) : Codec e β (Option α) where
  pack
    | none => flag.pack false
    | some a => flag.pack true ++ c.pack a
  unpack := do
    let b ← flag.unpack
    if b then return some (← c.unpack) else return none
  Fits
    | none => flag.Fits false
    | some a => flag.Fits true ∧ c.Fits a
  recovers := by
    intro o h
    cases o with
    | none =>
      show Recovers head e _ (flag.pack false) none
      rw [← List.append_nil (flag.pack false)]
      exact (flag.recovers h).bind .pure
    | some a => exact (flag.recovers h.1).bind (c.recovers h.2).last
  strays := by
    intro o hfits l l' h
    obtain ⟨b, t, hb, h⟩ := bind_eq_ok.1 h
    cases o with
    | none =>
      cases b with
      | false => exact flag.strays hfits _ _ hb
      | true =>
        obtain ⟨a, t', -, h⟩ := bind_eq_ok.1 h
        exact Option.some_ne_none a (pure_eq_ok.1 h).1
    | some a =>
      cases b with
      | false => exact Option.some_ne_none a (pure_eq_ok.1 h).1.symm
      | true =>
        obtain ⟨a', t', ha, h⟩ := bind_eq_ok.1 h
        obtain rfl := Option.some.inj (pure_eq_ok.1 h).1
        change flag.unpack ((flag.pack true ++ c.pack a') ++ l) = _ at hb
        rw [List.append_assoc] at hb
        by_cases hflag : flag.Fits true
        · rw [(flag.recovers hflag).get_append, Except.ok.injEq, Prod.mk.injEq] at hb
          obtain ⟨-, rfl⟩ := hb
          exact c.strays (fun hc => hfits ⟨hflag, hc⟩) _ _ ha
        · exact flag.strays hflag _ _ hb

/-- After how much of it there is, if that is allowed. -/
def counted (count : Codec e β Nat) (allowed : Nat → Prop) [DecidablePred allowed] (e' : ε)
    (size : α → Nat) (body : α → List β) (read : Nat → StateT (List β) (Except ε) α) (Fits : α → Prop)
    (recovers : ∀ {a}, Fits a → Recovers head e (read (size a)) (body a) a)
    (strays : ∀ {a}, ¬Fits a → ∀ l l', read (size a) (body a ++ l) ≠ .ok (a, l'))
    (size_read : ∀ {n a s s'}, read n s = .ok (a, s') → size a = n) : Codec e β α where
  pack a := count.pack (size a) ++ body a
  unpack := do
    let n ← count.unpack
    if allowed n then read n else throw e'
  Fits a := count.Fits (size a) ∧ allowed (size a) ∧ Fits a
  recovers := by
    intro a h
    refine (count.recovers h.1).bind ?_
    rw [if_pos h.2.1]
    exact recovers h.2.2
  strays := by
    intro a hfits l l' h
    obtain ⟨n, t, hn, h⟩ := bind_eq_ok.1 h
    split_ifs at h with hallowed
    · obtain rfl := size_read h
      rw [List.append_assoc] at hn
      by_cases hcount : count.Fits (size a)
      · rw [(count.recovers hcount).get_append, Except.ok.injEq, Prod.mk.injEq] at hn
        obtain ⟨-, rfl⟩ := hn
        exact strays (fun ha => hfits ⟨hcount, hallowed, ha⟩) _ _ h
      · exact count.strays hcount _ _ hn
    · cases h

theorem times_strays {as : List α} (h : ¬∀ a ∈ as, c.Fits a) (l l' : List β) :
    times c.unpack as.length (as.flatMap c.pack ++ l) ≠ .ok (as, l') := by
  induction as generalizing l with
  | nil => exact absurd (List.forall_mem_nil _) h
  | cons a as ih =>
    intro hget
    obtain ⟨b, t, hb, hget⟩ := bind_eq_ok.1 hget
    obtain ⟨bs, t', hbs, hget⟩ := bind_eq_ok.1 hget
    obtain ⟨heq, rfl⟩ := pure_eq_ok.1 hget
    obtain ⟨rfl, rfl⟩ := List.cons.inj heq
    rw [List.flatMap_cons, List.append_assoc] at hb
    by_cases hfit : c.Fits b
    · rw [(c.recovers hfit).get_append, Except.ok.injEq, Prod.mk.injEq] at hb
      obtain ⟨-, rfl⟩ := hb
      exact ih (fun has => h (List.forall_mem_cons.2 ⟨hfit, has⟩)) l hbs
    · exact c.strays hfit _ _ hb

/-- A list, after its length. -/
def list (count : Codec e β Nat) (allowed : Nat → Prop) [DecidablePred allowed] (e' : ε) :
    Codec e β (List α) :=
  counted count allowed e' List.length (fun as => as.flatMap c.pack) (times c.unpack)
    (fun as => ∀ a ∈ as, c.Fits a)
    (fun {as} h => by
      have htimes := Recovers.times (f := id) fun a ha => c.recovers (h a ha)
      rwa [List.map_id] at htimes)
    (fun h => c.times_strays h) length_of_times

end Codec

end Codecs
