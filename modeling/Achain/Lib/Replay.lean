import Achain.Lib.Table

/-!
# Replaying an overlay through hooks

A table is written through two hooks, one that removes a key and one that stores an entry. The
hooks say what they do to what is read; then replaying the removed keys and the stored entries of an
overlay, in any order of iteration, leaves the table reading as the overlay did, and replaying the
entries the table had at these keys restores what it read before.
-/

namespace Table

variable {σ τ K V : Type} [DecidableEq K]

/-- What the hooks of a table do to what is read from it. -/
structure Hooks (read : σ → K → Option V) (remove : σ → K → σ) (store : σ → K → V → σ) :
    Prop where
  read_remove : ∀ db k k', read (remove db k) k' = if k' = k then none else read db k'
  read_store : ∀ db k v k', read (store db k v) k' = if k' = k then some v else read db k'

variable {read : σ → K → Option V} {remove : σ → K → σ} {store : σ → K → V → σ}

namespace Hooks

variable (h : Hooks read remove store)

include h

theorem read_removes (k' : K) : ∀ (ks : List K) (db : σ),
    read (ks.foldl remove db) k' = if k' ∈ ks then none else read db k'
  | [], db => by simp
  | k :: ks, db => by
    rw [List.foldl_cons, read_removes k' ks, h.read_remove]
    by_cases hk : k' = k <;> simp [hk]

theorem read_stores_of_notMem {k' : K} : ∀ {items : List (K × V)} {db : σ},
    k' ∉ items.map Prod.fst →
      read (items.foldl (fun db e => store db e.1 e.2) db) k' = read db k'
  | [], _, _ => rfl
  | e :: items, db, hmem => by
    rw [List.map_cons, List.mem_cons, not_or] at hmem
    rw [List.foldl_cons, read_stores_of_notMem hmem.2, h.read_store, if_neg hmem.1]

/-- Entries stored under distinct keys are read back. -/
theorem read_stores_of_mem {k' : K} {v : V} : ∀ {items : List (K × V)} {db : σ},
    (items.map Prod.fst).Nodup → (k', v) ∈ items →
      read (items.foldl (fun db e => store db e.1 e.2) db) k' = some v
  | e :: items, db, hnodup, hmem => by
    rw [List.map_cons, List.nodup_cons] at hnodup
    rw [List.foldl_cons]
    rcases List.mem_cons.1 hmem with rfl | hmem
    · rw [h.read_stores_of_notMem hnodup.1, h.read_store, if_pos rfl]
    · exact read_stores_of_mem hnodup.2 hmem

/-- The entries of a map, in any order, over what was read before. -/
theorem read_stores {items : List (K × V)} {m : Map K V}
    (hitems : items.Perm (m.entries.map fun e => (e.1, e.2))) (db : σ) (k' : K) :
    read (items.foldl (fun db e => store db e.1 e.2) db) k' =
      match m.lookup k' with
      | some v => some v
      | none => read db k' := by
  have hkeys : (items.map Prod.fst).Perm m.keys := by
    refine (hitems.map Prod.fst).trans ?_
    rw [List.map_map]
    exact .refl _
  cases hm : m.lookup k' with
  | some v =>
    refine h.read_stores_of_mem (hkeys.nodup_iff.2 m.keys_nodup) (hitems.mem_iff.2 ?_)
    exact List.mem_map.2 ⟨⟨k', v⟩, AList.mem_lookup_iff.1 hm, rfl⟩
  | none =>
    refine h.read_stores_of_notMem fun hmem => ?_
    exact AList.lookup_eq_none.1 hm (AList.mem_keys.2 (hkeys.mem_iff.1 hmem))

/-- Removed keys that the previous table has are stored again. -/
theorem read_restores (prev : K → Option V) {f : σ → K → σ}
    (hsome : ∀ db k v, prev k = some v → f db k = store db k v)
    (hnone : ∀ db k, prev k = none → f db k = db) (k' : K) : ∀ (ks : List K) (db : σ), ks.Nodup →
    (∀ k ∈ ks, read db k = none) →
    read (ks.foldl f db) k' = if k' ∈ ks then prev k' else read db k'
  | [], db, _, _ => by simp
  | k :: ks, db, hnodup, hempty => by
    rw [List.nodup_cons] at hnodup
    have hstep : ∀ k'', read (f db k) k'' = if k'' = k then prev k else read db k'' := by
      intro k''
      cases hprev : prev k with
      | some v => rw [hsome db k v hprev, h.read_store]
      | none =>
        rw [hnone db k hprev]
        by_cases hk : k'' = k
        · rw [if_pos hk, hk]
          exact hempty k (List.mem_cons_self ..)
        · rw [if_neg hk]
    rw [List.foldl_cons, read_restores prev hsome hnone k' ks _ hnodup.2, hstep]
    · by_cases hk : k' = k <;> simp [hk]
    · intro k'' hk''
      have hne : k'' ≠ k := by
        rintro rfl
        exact hnodup.1 hk''
      rw [hstep, if_neg hne]
      exact hempty k'' (List.mem_cons_of_mem _ hk'')

/-- Stored keys are set to what the previous table has at them. -/
theorem read_resets (prev : K → Option V) {f : σ → K × V → σ}
    (hsome : ∀ db e v, prev e.1 = some v → f db e = store db e.1 v)
    (hnone : ∀ db e, prev e.1 = none → f db e = remove db e.1) (k' : K) :
    ∀ (items : List (K × V)) (db : σ), read (items.foldl f db) k' =
      if k' ∈ items.map Prod.fst then prev k' else read db k'
  | [], db => by simp
  | e :: items, db => by
    have hstep : read (f db e) k' = if k' = e.1 then prev e.1 else read db k' := by
      cases hprev : prev e.1 with
      | some v => rw [hsome db e v hprev, h.read_store]
      | none => rw [hnone db e hprev, h.read_remove]
    rw [List.foldl_cons, read_resets prev hsome hnone k' items, hstep]
    by_cases hk : k' = e.1
    · rw [hk, if_pos rfl, ite_self]
      simp
    · simp only [List.map_cons, List.mem_cons, hk, false_or, if_false]

end Hooks

/-! ## Parts of a state -/

/-- A part of a state, such as a table with its indexes, that can be read and replaced. -/
structure Part (σ τ : Type) where
  get : σ → τ
  set : σ → τ → σ
  set_get : ∀ db, set db (get db) = db
  set_set : ∀ db x y, set (set db x) y = set db y

namespace Part

variable {p : Part σ τ}

/-- Only this part has changed. -/
def Only (p : Part σ τ) (db db' : σ) : Prop := ∃ x, db' = p.set db x

theorem Only.refl (db : σ) : p.Only db db := ⟨p.get db, (p.set_get db).symm⟩

theorem Only.trans {db₁ db₂ db₃ : σ} (h₁ : p.Only db₁ db₂) (h₂ : p.Only db₂ db₃) :
    p.Only db₁ db₃ := by
  obtain ⟨x, rfl⟩ := h₁
  obtain ⟨y, rfl⟩ := h₂
  exact ⟨y, p.set_set db₁ x y⟩

theorem Only.ite {c : Prop} [Decidable c] {db a b : σ} (ha : p.Only db a) (hb : p.Only db b) :
    p.Only db (if c then a else b) := by
  split_ifs
  · exact ha
  · exact hb

theorem Only.foldl {α : Type} {f : σ → α → σ} (hf : ∀ db a, p.Only db (f db a)) :
    ∀ (l : List α) (db : σ), p.Only db (l.foldl f db)
  | [], db => .refl db
  | a :: l, db => (hf db a).trans (foldl hf l (f db a))

end Part

/-- The hooks of a table that change only the part of the state the table is in. -/
structure TableHooks (part : Part σ τ) (read : σ → K → Option V) (remove : σ → K → σ)
    (store : σ → K → V → σ) : Prop extends Hooks read remove store where
  only_remove : ∀ db k, part.Only db (remove db k)
  only_store : ∀ db k v, part.Only db (store db k v)

namespace TableHooks

variable {part : Part σ τ}

/-- Hooks that insert into a table and erase from it the keys it has. -/
theorem ofTab {get : σ → Tab K V}
    (hremove : ∀ db k, (get db).lookup k = none ∧ remove db k = db ∨
      part.Only db (remove db k) ∧ get (remove db k) = (get db).erase k)
    (hstore : ∀ db k v,
      part.Only db (store db k v) ∧ get (store db k v) = (get db).insert k v) :
    TableHooks part (fun db k => (get db).lookup k) remove store where
  read_remove db k k' := by
    rcases hremove db k with ⟨hnone, he⟩ | ⟨-, he⟩
    · by_cases hk : k' = k
      · rw [he, if_pos hk, hk, hnone]
      · rw [he, if_neg hk]
    · by_cases hk : k' = k
      · rw [he, if_pos hk, hk, Finmap.lookup_erase]
      · rw [he, if_neg hk, Finmap.lookup_erase_ne hk]
  read_store db k v k' := by
    by_cases hk : k' = k
    · rw [(hstore db k v).2, if_pos hk, hk, Finmap.lookup_insert]
    · rw [(hstore db k v).2, if_neg hk, Finmap.lookup_insert_of_ne _ hk]
  only_remove db k := by
    rcases hremove db k with ⟨-, he⟩ | ⟨h, -⟩
    · rw [he]
      exact .refl db
    · exact h
  only_store db k v := (hstore db k v).1

/-- Hooks that insert into an overlay and erase from it the keys read through it. -/
theorem ofOverlay {get : σ → Overlay K V} {base : σ → K → Option V}
    (hbase : ∀ db x, base (part.set db x) = base db)
    (hremove : ∀ db k, (get db).lookup (base db) k = none ∧ remove db k = db ∨
      part.Only db (remove db k) ∧ get (remove db k) = (get db).erase k)
    (hstore : ∀ db k v,
      part.Only db (store db k v) ∧ get (store db k v) = (get db).insert k v) :
    TableHooks part (fun db k => (get db).lookup (base db) k) remove store where
  read_remove db k k' := by
    rcases hremove db k with ⟨hnone, he⟩ | ⟨⟨x, hx⟩, he⟩
    · by_cases hk : k' = k
      · rw [he, if_pos hk, hk, hnone]
      · rw [he, if_neg hk]
    · rw [he, hx, hbase, Overlay.lookup_erase]
  read_store db k v k' := by
    obtain ⟨⟨x, hx⟩, he⟩ := hstore db k v
    rw [he, hx, hbase, Overlay.lookup_insert]
  only_remove db k := by
    rcases hremove db k with ⟨-, he⟩ | ⟨h, -⟩
    · rw [he]
      exact .refl db
    · exact h
  only_store db k v := (hstore db k v).1

end TableHooks

end Table
