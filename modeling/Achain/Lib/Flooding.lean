import Achain.Lib.Networks
import Mathlib.Data.Set.Insert
import Mathlib.Data.Set.Lattice

/-!
# Flooding

How one item gets to all nodes of a network. Who has it and has not said so yet offers it to its
neighbours, except to those that offered it themselves. Who is offered it, and has offered it to nobody,
asks one of those that did. What comes is checked and, unless it is refused, kept and offered on. Copies
are refused only while there is another one.

When nothing is on its way and nobody has anything left to do, the neighbours of one who has the item
have it.
-/

namespace Flooding

open Networks Relation

/-- The item is offered, asked for, or there. -/
inductive Message where
  | offer | request | item
  deriving DecidableEq

/-- What a node knows of the item, and what it has to do with it. -/
structure Local (ν : Type) where
  has : Prop
  fresh : Prop
  wanted : Prop
  checking : Nat
  told : Set ν
  heard : Set ν
  asked : Set ν

/-- Nothing of an item. -/
def Local.empty (ν : Type) : Local ν := ⟨False, False, False, 0, ∅, ∅, ∅⟩

abbrev Flood (ν : Type) := Network ν (Local ν) Message

variable {ν : Type} (adj : ν → ν → Prop)

section Rules

variable (u v : ν) (x : Local ν)

inductive Acts : Outcome ν (Local ν) Message → Prop
  | announce : Acts ⟨{ x with has := True, fresh := True }, []⟩
  | advertise {l : List ν} (hfresh : x.fresh) (hl : l.Nodup)
      (hmem : ∀ v, v ∈ l ↔ adj u v ∧ v ∉ x.told ∧ v ∉ x.heard) :
      Acts ⟨{ x with fresh := False, told := x.told ∪ {v | v ∈ l} }, l.map fun v => (v, .offer)⟩
  | ask {v : ν} (hwanted : x.wanted) (hv : v ∈ x.heard) :
      Acts ⟨{ x with wanted := False, asked := insert v x.asked }, [(v, .request)]⟩
  | accept (hchecking : 0 < x.checking) :
      Acts ⟨{ x with has := True, fresh := True, checking := x.checking - 1 }, []⟩
  | refuse (hother : 1 < x.checking ∨ 0 < x.checking ∧ x.has) :
      Acts ⟨{ x with checking := x.checking - 1 }, []⟩

inductive Receives : Message → Outcome ν (Local ν) Message → Prop
  | known (htold : ∃ w, w ∈ x.told) : Receives .offer ⟨x, []⟩
  | offer (htold : ∀ w, w ∉ x.told) :
      Receives .offer ⟨{ x with heard := insert v x.heard, wanted := x.wanted ∨ ∀ w, w ∉ x.asked }, []⟩
  | request (hhas : x.has) : Receives .request ⟨x, [(v, .item)]⟩
  | item (hasked : v ∈ x.asked) :
      Receives .item ⟨{ x with asked := x.asked \ {v}, checking := x.checking + 1 }, []⟩

end Rules

def flooding : Protocol ν (Local ν) Message where
  acts u x o := Acts adj u x o
  receives _ v m x o := Receives v x m o

/-! ## What holds in every flood -/

/-- Whoever has the item has offered it to a neighbour, has yet to, or was offered it. An offer arrives
and makes the node ask for the item, which is on its way from then on. Only who has the item offers it. -/
structure Inv (t : Flood ν) : Prop where
  spread : ∀ u v, (t.node u).has → adj u v →
    (t.node u).fresh ∨ v ∈ (t.node u).told ∨ v ∈ (t.node u).heard
  told : ∀ u v, v ∈ (t.node u).told → .offer ∈ t.link u v ∨ u ∈ (t.node v).heard ∨ (t.node v).has
  heard : ∀ u v, v ∈ (t.node u).heard → (t.node u).has ∨ (t.node u).wanted ∨
    (∃ w, w ∈ (t.node u).asked) ∨ 0 < (t.node u).checking
  asked : ∀ u v, v ∈ (t.node u).asked → (t.link u v).count .request + (t.link v u).count .item = 1
  unasked : ∀ u v, v ∉ (t.node u).asked → (t.link u v).count .request + (t.link v u).count .item = 0
  wanted : ∀ u v, (t.node u).wanted → v ∉ (t.node u).asked
  has_fresh : ∀ u, (t.node u).fresh → (t.node u).has
  has_told : ∀ u v, v ∈ (t.node u).told → (t.node u).has
  has_offer : ∀ u v, .offer ∈ t.link u v → (t.node u).has
  has_heard : ∀ u v, v ∈ (t.node u).heard → (t.node v).has
  has_asked : ∀ u v, v ∈ (t.node u).asked → (t.node v).has

theorem Inv.empty : Inv adj (⟨fun _ => .empty ν, fun _ _ => []⟩ : Flood ν) := by
  constructor <;> simp [Local.empty]

variable {adj} {t t' : Flood ν} {u v : ν}

/-- The item is sent only to who asked for it. -/
theorem Inv.asked_of_item (h : Inv adj t) (hitem : .item ∈ t.link v u) : v ∈ (t.node u).asked := by
  by_contra hasked
  have hnone := h.unasked u v hasked
  have hpos := List.count_pos_iff.2 hitem
  omega

/-- Who is asked for the item has it. -/
theorem Inv.has_of_request (h : Inv adj t) (hrequest : .request ∈ t.link v u) : (t.node u).has := by
  refine h.has_asked v u (by_contra fun hasked => ?_)
  have hnone := h.unasked v u hasked
  have hpos := List.count_pos_iff.2 hrequest
  omega

section Steps

variable [DecidableEq ν] {o : Outcome ν (Local ν) Message}

theorem Inv.act (h : Inv adj t) (hact : Acts adj u (t.node u) o) : Inv adj (t.perform u o) := by
  cases hact with
  | announce =>
    constructor <;>
      simp only [Network.perform_node, Network.perform_link, sentTo_nil, List.append_nil, ite_self] <;>
      grind [Inv]
  | advertise hfresh hl hmem =>
    -- the neighbours that are not told now were told before, or have offered the item themselves
    constructor <;>
      simp only [Network.perform_node, Network.perform_link, sentTo_map_const _ _ _ hl] <;>
      grind [Inv]
  | ask hwanted hv =>
    -- who wants the item has asked nobody, so that there is one request
    constructor <;>
      simp only [Network.perform_node, Network.perform_link, sentTo_cons, sentTo_nil] <;>
      grind [Inv]
  | accept hchecking =>
    constructor <;>
      simp only [Network.perform_node, Network.perform_link, sentTo_nil, List.append_nil, ite_self] <;>
      grind [Inv]
  | refuse hother =>
    constructor <;>
      simp only [Network.perform_node, Network.perform_link, sentTo_nil, List.append_nil, ite_self] <;>
      grind [Inv]

theorem Inv.receive (h : Inv adj t) {m : Message} {rest : List Message} (hlink : t.link v u = m :: rest)
    (hreceive : Receives v (t.node u) m o) : Inv adj ((t.take v u rest).perform u o) := by
  cases hreceive with
  | known htold =>
    -- the offer is lost on a node that has the item
    constructor <;>
      simp only [Network.perform_node, Network.perform_link, Network.take_node, Network.take_link,
        sentTo_nil, List.append_nil, ite_self] <;>
      grind [Inv]
  | offer htold =>
    constructor <;>
      simp only [Network.perform_node, Network.perform_link, Network.take_node, Network.take_link,
        sentTo_nil, List.append_nil, ite_self] <;>
      grind [Inv]
  | request hhas =>
    -- the item is on its way in place of the request
    constructor <;>
      simp only [Network.perform_node, Network.perform_link, Network.take_node, Network.take_link,
        sentTo_cons, sentTo_nil] <;>
      grind [Inv]
  | item hasked =>
    constructor <;>
      simp only [Network.perform_node, Network.perform_link, Network.take_node, Network.take_link,
        sentTo_nil, List.append_nil, ite_self] <;>
      grind [Inv]

theorem Inv.steps (h : Inv adj t) (hsteps : ReflTransGen (flooding adj).Step t t') : Inv adj t' := by
  induction hsteps with
  | refl => exact h
  | tail _ hstep ih =>
    cases hstep with
    | act u hact => exact ih.act hact
    | receive u v hlink hreceive => exact ih.receive hlink hreceive

/-- Who has the item keeps it. -/
theorem has_of_steps (hsteps : ReflTransGen (flooding adj).Step t t') (hhas : (t.node u).has) :
    (t'.node u).has := by
  induction hsteps with
  | refl => exact hhas
  | tail _ hstep ih =>
    cases hstep with
    | act w hact =>
      rw [Network.perform_node]
      split_ifs with hu
      · subst hu
        cases hact with
        | announce | accept => trivial
        | advertise | ask | refuse => exact ih
      · exact ih
    | receive w v hlink hreceive =>
      rw [Network.perform_node, Network.take_node]
      split_ifs with hu
      · subst hu
        cases hreceive <;> exact ih
      · exact ih

end Steps

/-! ## When nothing is left to do -/

/-- Nothing is on its way, and nobody has anything to do. -/
structure Quiet (t : Flood ν) : Prop where
  link : ∀ u v, t.link u v = []
  fresh : ∀ u, ¬(t.node u).fresh
  wanted : ∀ u, ¬(t.node u).wanted
  checking : ∀ u, (t.node u).checking = 0

theorem Inv.not_asked (h : Inv adj t) (hlink : ∀ u v, t.link u v = []) (u v : ν) :
    v ∉ (t.node u).asked := by
  intro hasked
  have hone := h.asked u v hasked
  rw [hlink, hlink] at hone
  exact absurd hone (by simp)

theorem Inv.neighbour (h : Inv adj t) (hquiet : Quiet t) (hadj : adj u v) (hu : (t.node u).has) :
    (t.node v).has := by
  have hheard : ∀ w x, x ∈ (t.node w).heard → (t.node w).has := by
    intro w x hx
    obtain hw | hw | ⟨y, hw⟩ | hw := h.heard w x hx
    · exact hw
    · exact absurd hw (hquiet.wanted w)
    · exact absurd hw (h.not_asked hquiet.link w y)
    · exact absurd (hquiet.checking w) hw.ne'
  obtain hfresh | htold | hv := h.spread u v hu hadj
  · exact absurd hfresh (hquiet.fresh u)
  · obtain hoffer | hv | hv := h.told u v htold
    · rw [hquiet.link] at hoffer
      cases hoffer
    · exact hheard v u hv
    · exact hv
  · exact h.has_heard u v hv

/-- Everybody has the item who is connected with one who has it. -/
theorem Inv.everybody (h : Inv adj t) (hquiet : Quiet t) (hpath : ReflTransGen adj u v)
    (hu : (t.node u).has) : (t.node v).has := by
  induction hpath with
  | refl => exact hu
  | tail _ hadj ih => exact h.neighbour hquiet hadj ih

end Flooding
