import Mathlib.Data.List.Basic

/-!
# Runs of calls

A run makes a list of calls one after the other. `Along` says that every call of a run is made in a
state that meets a condition; what such calls keep holds after the run, and a relation to another
system that they keep relates the two runs.
-/

namespace Traces

variable {S A C : Type} (step : S → C → S)

/-- The state after a list of calls. -/
def run (s : S) (calls : List C) : S := calls.foldl step s

/-- Every call of a run is made in a state that meets a condition. -/
def Along (ok : S → C → Prop) : S → List C → Prop
  | _, [] => True
  | s, c :: calls => ok s c ∧ Along ok (step s c) calls

variable {step} {ok : S → C → Prop}

@[simp] theorem run_nil (s : S) : run step s [] = s := rfl

@[simp] theorem run_cons (s : S) (c : C) (calls : List C) :
    run step s (c :: calls) = run step (step s c) calls := rfl

theorem run_append (s : S) (calls calls' : List C) :
    run step s (calls ++ calls') = run step (run step s calls) calls' :=
  List.foldl_append

instance instDecidableAlong [∀ s c, Decidable (ok s c)] :
    ∀ (s : S) (calls : List C), Decidable (Along step ok s calls)
  | _, [] => isTrue trivial
  | s, c :: calls =>
    have := instDecidableAlong (step s c) calls
    inferInstanceAs (Decidable (ok s c ∧ _))

theorem along_append {s : S} : ∀ {calls calls' : List C},
    Along step ok s (calls ++ calls') ↔
      Along step ok s calls ∧ Along step ok (run step s calls) calls' := by
  intro calls
  induction calls generalizing s with
  | nil => simp [Along]
  | cons c calls ih => simp [Along, ih, and_assoc]

/-- A condition along a run is one on every call and the state before it. -/
theorem along_iff_forall {s : S} {calls : List C} :
    Along step ok s calls ↔
      ∀ before c after, calls = before ++ c :: after → ok (run step s before) c := by
  constructor
  · rintro h before c after rfl
    exact (along_append.1 h).2.1
  · intro h
    induction calls generalizing s with
    | nil => trivial
    | cons c calls ih =>
      refine ⟨h [] c calls rfl, ih fun before c' after hsplit => ?_⟩
      exact h (c :: before) c' after (by rw [hsplit, List.cons_append])

/-- What every call keeps holds after a run. -/
theorem Along.keeps {I : S → Prop} (hstep : ∀ s c, I s → ok s c → I (step s c)) :
    ∀ {calls : List C} {s : S}, I s → Along step ok s calls → I (run step s calls) := by
  intro calls
  induction calls with
  | nil => exact fun hs _ => hs
  | cons c calls ih => exact fun hs h => ih (hstep _ c hs h.1) h.2

/-- Two systems whose related states stay related under every call are related after a run. -/
theorem Along.simulates {step' : A → C → A} {R : S → A → Prop}
    (hstep : ∀ s a c, R s a → ok s c → R (step s c) (step' a c)) :
    ∀ {calls : List C} {s : S} {a : A}, R s a → Along step ok s calls →
      R (run step s calls) (run step' a calls) := by
  intro calls
  induction calls with
  | nil => exact fun hs _ => hs
  | cons c calls ih => exact fun hs h => ih (hstep _ _ c hs h.1) h.2

/-- Where a call keeps two systems related exactly under a condition, they are related all along a run if
and only if each of its calls meets the condition. -/
theorem simulates_iff_along {step' : A → C → A} {R : S → A → Prop} {ok : A → C → Prop}
    (hstep : ∀ s a c, R s a → (R (step s c) (step' a c) ↔ ok a c)) {s : S} {a : A} (h : R s a)
    (calls : List C) :
    (∀ before after, calls = before ++ after → R (run step s before) (run step' a before)) ↔
      Along step' ok a calls := by
  induction calls generalizing s a with
  | nil =>
    refine iff_of_true (fun before after hsplit => ?_) trivial
    rw [(List.append_eq_nil_iff.1 hsplit.symm).1]
    exact h
  | cons c calls ih =>
    constructor
    · intro hall
      have hnext : R (step s c) (step' a c) := hall [c] calls rfl
      refine ⟨(hstep s a c h).1 hnext, (ih hnext).1 fun before after hsplit => ?_⟩
      exact hall (c :: before) after (by rw [hsplit, List.cons_append])
    · rintro ⟨hok, halong⟩ before after hsplit
      have hnext := (hstep s a c h).2 hok
      cases before with
      | nil => exact h
      | cons c' before =>
        obtain ⟨rfl, hrest⟩ := List.cons.inj hsplit
        exact (ih hnext).2 halong before after hrest

/-- Where an invariant implies a property, is kept by the calls that meet a condition and makes the property
fail after any other, the property holds all along a run if and only if each of its calls meets the
condition. -/
theorem forall_iff_along {I P : S → Prop} (hI : ∀ s, I s → P s)
    (hstep : ∀ s c, I s → ok s c → I (step s c)) (hbad : ∀ s c, I s → ¬ ok s c → ¬ P (step s c))
    {s : S} (h : I s) (calls : List C) :
    (∀ before after, calls = before ++ after → P (run step s before)) ↔ Along step ok s calls := by
  constructor
  · intro hall
    induction calls generalizing s with
    | nil => trivial
    | cons c calls ih =>
      have hok : ok s c := by
        by_contra hok
        exact hbad s c h hok (hall [c] calls rfl)
      refine ⟨hok, ih (hstep s c h hok) fun before after hsplit => ?_⟩
      exact hall (c :: before) after (by rw [hsplit, List.cons_append])
  · rintro halong before after rfl
    exact hI _ ((along_append.1 halong).1.keeps hstep h)

/-! ## Logs -/

/-- What is in the log has a reason in what is there before it. -/
def Justified {E : Type} (because : List E → E → Prop) (log : List E) : Prop :=
  ∀ before e rest, log = before ++ e :: rest → because before e

/-- A reason that is there stays one. -/
theorem Justified.append {E : Type} {because : List E → E → Prop} {log new : List E}
    (h : Justified because log)
    (hmono : ∀ before more e, because before e → because (before ++ more) e)
    (hnew : ∀ e ∈ new, because log e) : Justified because (log ++ new) := by
  intro before e rest hsplit
  obtain ⟨more, hbefore, hrest⟩ | ⟨more, hlog, hmore⟩ := List.append_eq_append_iff.1 hsplit
  · rw [hbefore]
    exact hmono log more e (hnew e (hrest ▸ List.mem_append_right _ List.mem_cons_self))
  · cases more with
    | nil =>
      rw [List.append_nil] at hlog
      have hfirst : new = e :: rest := hmore.symm
      exact hlog ▸ hnew e (hfirst ▸ List.mem_cons_self)
    | cons e' more =>
      obtain ⟨rfl, -⟩ := List.cons.inj hmore
      exact h before e more hlog

end Traces
