import Mathlib.Data.List.Nodup

/-!
# Rows that are inserted or touched

A table with a primary key, as the list of its rows: an insert that meets a row of its key
changes that row in place.
-/

universe u v

namespace Hekla.Library.Upsert

variable {ρ : Type u} {κ : Type v} [DecidableEq κ] (key : ρ → κ) (touch : ρ → ρ → ρ)

/-- The row under a key. -/
def filed (rows : List ρ) (at_ : κ) : Option ρ := rows.find? fun held => decide (key held = at_)

/-- Insert a row, or touch the one that has its key. -/
def upsert (rows : List ρ) (row : ρ) : List ρ :=
  if (filed key rows (key row)).isSome then
    rows.map fun held => if key held = key row then touch held row else held
  else rows ++ [row]

variable {key touch} {rows given : List ρ} {row : ρ} {at_ : κ}

theorem mem_of_filed (found : filed key rows at_ = some row) : row ∈ rows ∧ key row = at_ :=
  ⟨List.mem_of_find?_eq_some found, by simpa using List.find?_some found⟩

theorem filed_eq_none_iff : filed key rows at_ = none ↔ at_ ∉ rows.map key := by
  simp [filed]

theorem filed_of_mem (distinct : (rows.map key).Nodup) (member : row ∈ rows) :
    filed key rows (key row) = some row := by
  cases found : filed key rows (key row) with
  | none => exact absurd (List.mem_map_of_mem member) (filed_eq_none_iff.mp found)
  | some held =>
      obtain ⟨there, same⟩ := mem_of_filed found
      rw [List.inj_on_of_nodup_map distinct there member same]

theorem filed_eq_some_iff (distinct : (rows.map key).Nodup) :
    filed key rows at_ = some row ↔ row ∈ rows ∧ key row = at_ := by
  refine ⟨mem_of_filed, ?_⟩
  rintro ⟨member, rfl⟩
  exact filed_of_mem distinct member

/-- A change that keeps the keys is seen under each of them. -/
theorem filed_map {change : ρ → ρ} (kept : ∀ held, key (change held) = key held) (rows : List ρ) (at_ : κ) :
    filed key (rows.map change) at_ = (filed key rows at_).map change := by
  simp only [filed, List.find?_map, Function.comp_def, kept]

omit [DecidableEq κ] in
theorem keys_map {change : ρ → ρ} (kept : ∀ held, key (change held) = key held) (rows : List ρ) :
    (rows.map change).map key = rows.map key := by
  simp [Function.comp_def, kept]

omit [DecidableEq κ] in
/-- What is picked of rows of distinct keys, each under the key of its row, has distinct keys. -/
theorem nodup_picked {γ : Type*} {pick : ρ → Option γ} {place : γ → κ}
    (same : ∀ row one, pick row = some one → place one = key row) (distinct : (rows.map key).Nodup) :
    ((rows.filterMap pick).map place).Nodup := by
  rw [List.nodup_iff_pairwise_ne, List.pairwise_map] at distinct ⊢
  rw [List.pairwise_filterMap]
  refine distinct.imp ?_
  intro row row' apart one found one' found'
  rw [same row one found, same row' one' found']
  exact apart

section Touched

variable (kept : ∀ held row, key (touch held row) = key held)

include kept

theorem touching_key (row held : ρ) : key (if key held = key row then touch held row else held) = key held := by
  split
  · exact kept held row
  · rfl

/-- The keys of a table grow at its end, by those that are new. -/
theorem keys_upsert (rows : List ρ) (row : ρ) :
    (upsert key touch rows row).map key =
      if key row ∈ rows.map key then rows.map key else rows.map key ++ [key row] := by
  unfold upsert
  cases found : filed key rows (key row) with
  | none => simp [filed_eq_none_iff.mp found]
  | some held =>
      have member : key row ∈ rows.map key := by
        obtain ⟨there, same⟩ := mem_of_filed found
        exact same ▸ List.mem_map_of_mem there
      rw [Option.isSome_some, if_pos rfl, if_pos member]
      exact keys_map (touching_key kept row) rows

theorem nodup_upsert (distinct : (rows.map key).Nodup) (row : ρ) : ((upsert key touch rows row).map key).Nodup := by
  rw [keys_upsert kept]
  split
  · exact distinct
  · next absent => exact List.nodup_append.mpr ⟨distinct, List.nodup_singleton _, by
      rintro one member other here rfl
      exact absent (List.mem_singleton.mp here ▸ member)⟩

theorem filed_upsert (rows : List ρ) (row : ρ) (at_ : κ) :
    filed key (upsert key touch rows row) at_ =
      if key row = at_ then some ((filed key rows at_).elim row fun held => touch held row)
      else filed key rows at_ := by
  unfold upsert
  cases found : filed key rows (key row) with
  | none =>
      rw [Option.isSome_none, if_neg Bool.false_ne_true]
      by_cases same : key row = at_
      · subst same
        rw [if_pos rfl, found]
        unfold filed at found ⊢
        rw [List.find?_append, found]
        simp
      · unfold filed
        rw [List.find?_append, if_neg same]
        simp [same]
  | some held =>
      rw [Option.isSome_some, if_pos rfl, filed_map (touching_key kept row)]
      by_cases same : key row = at_
      · subst same
        rw [if_pos rfl, found]
        simp [(mem_of_filed found).2]
      · rw [if_neg same]
        cases other : filed key rows at_ with
        | none => rfl
        | some one =>
            have apart : key one ≠ key row := fun equal => same (equal.symm.trans (mem_of_filed other).2)
            simp [apart]

theorem nodup_upserts (distinct : (rows.map key).Nodup) (given : List ρ) :
    ((given.foldl (upsert key touch) rows).map key).Nodup := by
  induction given generalizing rows with
  | nil => exact distinct
  | cons row given ih => exact ih (nodup_upsert kept distinct row)

/-- Rows of distinct keys are each inserted, or touch what is there, and the others stay. -/
theorem filed_upserts (apart : (given.map key).Nodup) (rows : List ρ) (at_ : κ) :
    filed key (given.foldl (upsert key touch) rows) at_ =
      match filed key given at_ with
      | none => filed key rows at_
      | some row => some ((filed key rows at_).elim row fun held => touch held row) := by
  induction given generalizing rows with
  | nil => rfl
  | cons row given ih =>
      obtain ⟨absent, apart⟩ := List.nodup_cons.mp apart
      rw [List.foldl_cons, ih apart, filed_upsert kept]
      by_cases same : key row = at_
      · subst same
        have first : filed key (row :: given) (key row) = some row := by simp [filed]
        rw [first, filed_eq_none_iff.mpr absent, if_pos rfl]
      · have rest : filed key (row :: given) at_ = filed key given at_ := by simp [filed, same]
        rw [rest, if_neg same]

end Touched

end Hekla.Library.Upsert
