import Mathlib.Logic.Function.Basic
import Mathlib.Logic.Relation
import Mathlib.Data.List.Flatten
import Mathlib.Tactic.SplitIfs

/-!
# Networks

Nodes with a state each, and what is on its way from one to another, which arrives in the order in which
it was sent. A protocol says what a node may do by itself and what with a message. Where every step of a
node is some steps of a node of another protocol, with states and messages seen through two functions,
every step of the network is some steps of the other's.
-/

namespace Networks

open Relation

variable {ν σ μ σ' μ' : Type}

/-- Nodes, and what is on its way from one to another. -/
@[ext] structure Network (ν σ μ : Type) where
  node : ν → σ
  link : ν → ν → List μ

/-- What a node comes to in a step, and what it sends to whom. -/
structure Outcome (ν σ μ : Type) where
  node : σ
  sent : List (ν × μ)

/-- What a node may come to by itself, and with a message of another. -/
structure Protocol (ν σ μ : Type) where
  acts : ν → σ → Outcome ν σ μ → Prop
  receives : ν → ν → μ → σ → Outcome ν σ μ → Prop

section Steps

variable [DecidableEq ν]

/-- What is sent to one node. -/
def sentTo (v : ν) (sent : List (ν × μ)) : List μ :=
  sent.filterMap fun m => if m.1 = v then some m.2 else none

@[simp] theorem sentTo_nil (v : ν) : sentTo v ([] : List (ν × μ)) = [] := rfl

@[simp] theorem sentTo_cons (v : ν) (m : ν × μ) (sent : List (ν × μ)) :
    sentTo v (m :: sent) = if m.1 = v then m.2 :: sentTo v sent else sentTo v sent := by
  unfold sentTo
  rw [List.filterMap_cons]
  split_ifs <;> rfl

@[simp] theorem sentTo_append (v : ν) (sent sent' : List (ν × μ)) :
    sentTo v (sent ++ sent') = sentTo v sent ++ sentTo v sent' := List.filterMap_append

theorem mem_sentTo {v : ν} {m : μ} {sent : List (ν × μ)} : m ∈ sentTo v sent ↔ (v, m) ∈ sent := by
  unfold sentTo
  rw [List.mem_filterMap]
  constructor
  · rintro ⟨⟨w, m'⟩, hmem, heq⟩
    split_ifs at heq with hw
    obtain rfl := Option.some.inj heq
    exact hw ▸ hmem
  · exact fun hmem => ⟨(v, m), hmem, if_pos rfl⟩

theorem sentTo_map_const (v : ν) (m : μ) (l : List ν) (h : l.Nodup) :
    sentTo v (l.map fun w => (w, m)) = if v ∈ l then [m] else [] := by
  induction l with
  | nil => rfl
  | cons w l ih =>
    obtain ⟨hw, hl⟩ := List.nodup_cons.1 h
    rw [List.map_cons, sentTo_cons, ih hl]
    by_cases hv : w = v
    · subst hv
      simp [hw]
    · simp [hv, Ne.symm hv]

theorem sentTo_flatMap (v : ν) (g : μ → List μ') (sent : List (ν × μ)) :
    sentTo v (sent.flatMap fun m => (g m.2).map fun m' => (m.1, m')) = (sentTo v sent).flatMap g := by
  induction sent with
  | nil => rfl
  | cons m sent ih =>
    have hone : sentTo v ((g m.2).map fun m' => (m.1, m')) = if m.1 = v then g m.2 else [] := by
      induction g m.2 with
      | nil => simp
      | cons m' ms ihms =>
        rw [List.map_cons, sentTo_cons, ihms]
        split_ifs <;> rfl
    rw [List.flatMap_cons, sentTo_append, ih, hone, sentTo_cons]
    split_ifs <;> rfl

/-- Node `u` comes to an outcome. -/
def Network.perform (t : Network ν σ μ) (u : ν) (o : Outcome ν σ μ) : Network ν σ μ where
  node := Function.update t.node u o.node
  link a b := if a = u then t.link a b ++ sentTo b o.sent else t.link a b

/-- From `v` to `u` there is only `rest` on its way. -/
def Network.take (t : Network ν σ μ) (v u : ν) (rest : List μ) : Network ν σ μ where
  node := t.node
  link a b := if a = v ∧ b = u then rest else t.link a b

section Simp

variable (t : Network ν σ μ) (u v a b : ν) (o : Outcome ν σ μ) (rest : List μ)

@[simp] theorem Network.perform_node_self : (t.perform u o).node u = o.node := Function.update_self ..

theorem Network.perform_node : (t.perform u o).node a = if a = u then o.node else t.node a :=
  Function.update_apply ..

@[simp] theorem Network.take_node : (t.take v u rest).node = t.node := rfl

theorem Network.perform_link : (t.perform u o).link a b =
    if a = u then t.link a b ++ sentTo b o.sent else t.link a b := rfl

theorem Network.take_link : (t.take v u rest).link a b =
    if a = v ∧ b = u then rest else t.link a b := rfl

end Simp

variable (P : Protocol ν σ μ)

/-- A node does something by itself, or with the first message on its way from another. -/
inductive Protocol.Step : Network ν σ μ → Network ν σ μ → Prop
  | act {t : Network ν σ μ} (u : ν) {o : Outcome ν σ μ} : P.acts u (t.node u) o → Step t (t.perform u o)
  | receive {t : Network ν σ μ} (u v : ν) {m : μ} {rest : List μ} {o : Outcome ν σ μ} :
      t.link v u = m :: rest → P.receives u v m (t.node u) o → Step t ((t.take v u rest).perform u o)

/-- Steps of the node `u` in which it receives just these messages of `v`. -/
inductive Protocol.Works (u v : ν) : List μ → σ → Outcome ν σ μ → Prop
  | done (x : σ) : Works u v [] x ⟨x, []⟩
  | act {ms : List μ} {x : σ} {o o' : Outcome ν σ μ} : P.acts u x o → Works u v ms o.node o' →
      Works u v ms x ⟨o'.node, o.sent ++ o'.sent⟩
  | receive {m : μ} {ms : List μ} {x : σ} {o o' : Outcome ν σ μ} : P.receives u v m x o →
      Works u v ms o.node o' → Works u v (m :: ms) x ⟨o'.node, o.sent ++ o'.sent⟩

variable {P} {u v : ν} {ms ms' : List μ} {x : σ} {o o' : Outcome ν σ μ}

omit [DecidableEq ν] in
theorem Protocol.Works.one_act (h : P.acts u x o) : P.Works u v [] x o := by
  have hwork := Protocol.Works.act h (.done (v := v) o.node)
  rwa [List.append_nil] at hwork

omit [DecidableEq ν] in
theorem Protocol.Works.one_receive {m : μ} (h : P.receives u v m x o) : P.Works u v [m] x o := by
  have hwork := Protocol.Works.receive h (.done (v := v) o.node)
  rwa [List.append_nil] at hwork

omit [DecidableEq ν] in
/-- A message that is not answered. -/
theorem Protocol.Works.receive_silent {m : μ} {y : σ} (h : P.receives u v m x ⟨y, []⟩)
    (h' : P.Works u v ms y o) : P.Works u v (m :: ms) x o := Protocol.Works.receive h h'

/-- What is left on a link while the node it leads to sends something itself. -/
def Network.rest (v u : ν) (rest : List μ) (sent : List (ν × μ)) : List μ :=
  if v = u then rest ++ sentTo u sent else rest

theorem Network.perform_link_rest {t : Network ν σ μ} {rest : List μ} (hlink : t.link v u = ms ++ rest) :
    (t.perform u o).link v u = ms ++ Network.rest v u rest o.sent := by
  rw [Network.perform_link, Network.rest, hlink]
  split_ifs
  · exact List.append_assoc ..
  · rfl

theorem Network.perform_take_perform (t : Network ν σ μ) (rest : List μ) :
    ((t.perform u o).take v u (Network.rest v u rest o.sent)).perform u o' =
      (t.take v u rest).perform u ⟨o'.node, o.sent ++ o'.sent⟩ := by
  ext1
  · exact Function.update_idem ..
  · funext a b
    simp only [Network.rest, Network.perform_link, Network.take_link, sentTo_append]
    split_ifs <;> grind

theorem Network.take_take (t : Network ν σ μ) (rest rest' : List μ) :
    (t.take v u rest).take v u rest' = t.take v u rest' := by
  ext1
  · rfl
  · funext a b
    simp only [Network.take_link]
    split_ifs <;> rfl

theorem Network.take_link_self (t : Network ν σ μ) : t.take v u (t.link v u) = t := by
  ext1
  · rfl
  · funext a b
    rw [Network.take_link]
    split_ifs with hab
    · rw [hab.1, hab.2]
    · rfl

theorem Network.perform_self (t : Network ν σ μ) (u : ν) : t.perform u ⟨t.node u, []⟩ = t := by
  ext1
  · exact Function.update_eq_self u t.node
  · funext a b
    rw [Network.perform_link, sentTo_nil, List.append_nil, ite_self]

/-- What one node works the network does. -/
theorem Protocol.Works.steps {t : Network ν σ μ} {rest : List μ} (h : P.Works u v ms (t.node u) o)
    (hlink : t.link v u = ms ++ rest) : ReflTransGen P.Step t ((t.take v u rest).perform u o) := by
  generalize hx : t.node u = x at h
  induction h generalizing t rest with
  | done x =>
    obtain rfl : t.link v u = rest := hlink
    rw [Network.take_link_self, ← hx, Network.perform_self]
  | @act ms x o o' hact _ ih =>
    have hsteps := ih (Network.perform_link_rest hlink) (Network.perform_node_self t u o)
    rw [Network.perform_take_perform] at hsteps
    exact .head (.act u (hx ▸ hact)) hsteps
  | @receive m ms x o o' hreceive _ ih =>
    have hlink' : (t.take v u (ms ++ rest)).link v u = ms ++ rest := if_pos ⟨rfl, rfl⟩
    have hsteps := ih (Network.perform_link_rest hlink') (Network.perform_node_self _ u o)
    rw [Network.perform_take_perform, Network.take_take] at hsteps
    exact .head (.receive u v (hlink.trans (List.cons_append ..)) (hx ▸ hreceive)) hsteps

end Steps

/-! ## Simulation -/

section Simulation

/-- States and messages seen through two functions. A message may be seen as some, or as none. -/
def Outcome.map (f : σ → σ') (g : μ → List μ') (o : Outcome ν σ μ) : Outcome ν σ' μ' where
  node := f o.node
  sent := o.sent.flatMap fun m => (g m.2).map fun m' => (m.1, m')

def Network.map (f : σ → σ') (g : μ → List μ') (t : Network ν σ μ) : Network ν σ' μ' where
  node u := f (t.node u)
  link u v := (t.link u v).flatMap g

variable (P : Protocol ν σ μ) (Q : Protocol ν σ' μ') (f : σ → σ') (g : μ → List μ')

/-- A node that keeps `I`, and is sent only what `A` admits, works as one of the other protocol. -/
structure Simulates (I : ν → σ → Prop) (A : ν → ν → μ → σ → Prop) : Prop where
  acts : ∀ {u x o}, I u x → P.acts u x o → Q.Works u u [] (f x) (o.map f g)
  receives : ∀ {u v m x o}, I u x → A u v m x → P.receives u v m x o →
    Q.Works u v (g m) (f x) (o.map f g)

variable {P Q f g} [DecidableEq ν] {t t' : Network ν σ μ} {u v : ν}

theorem Network.map_perform (o : Outcome ν σ μ) :
    (t.perform u o).map f g = (t.map f g).perform u (o.map f g) := by
  ext1
  · exact Function.comp_update f t.node u o.node
  · funext a b
    show (if a = u then t.link a b ++ sentTo b o.sent else t.link a b).flatMap g =
      if a = u then (t.link a b).flatMap g ++ sentTo b (o.map f g).sent else (t.link a b).flatMap g
    rw [Outcome.map, sentTo_flatMap]
    split_ifs
    · exact List.flatMap_append
    · rfl

theorem Network.map_take (rest : List μ) :
    (t.take v u rest).map f g = (t.map f g).take v u (rest.flatMap g) := by
  ext1
  · rfl
  · funext a b
    show (if a = v ∧ b = u then rest else t.link a b).flatMap g =
      if a = v ∧ b = u then rest.flatMap g else (t.link a b).flatMap g
    split_ifs <;> rfl

theorem Simulates.step {I : ν → σ → Prop} {A : ν → ν → μ → σ → Prop} (h : Simulates P Q f g I A)
    (hI : ∀ u, I u (t.node u)) (hA : ∀ u v m rest, t.link v u = m :: rest → A u v m (t.node u))
    (hstep : P.Step t t') : ReflTransGen Q.Step (t.map f g) (t'.map f g) := by
  cases hstep with
  | act u hact =>
    have hwork := h.acts (hI u) hact
    have hsteps := Protocol.Works.steps (t := t.map f g) hwork (List.nil_append _).symm
    rw [Network.take_link_self] at hsteps
    rw [Network.map_perform]
    exact hsteps
  | receive u v hlink hreceive =>
    have hwork := h.receives (hI u) (hA u v _ _ hlink) hreceive
    rw [Network.map_perform, Network.map_take]
    refine Protocol.Works.steps (t := t.map f g) hwork ?_
    show (t.link v u).flatMap g = _
    rw [hlink, List.flatMap_cons]

end Simulation

end Networks
