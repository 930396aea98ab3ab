import Mathlib.Data.List.Nodup
import Mathlib.Logic.Function.Basic

/-!
# Tables that list a map

A table of rows, each filed under the cell of its key, lists a map when it has
one row for each key that has a value, and that row holds the value.
-/

namespace Hekla.Library

universe u v w x

/-- The item of a list that a value tells apart from the others. -/
theorem find?_of_nodup {ρ : Type u} {χ : Type v} [DecidableEq χ] {rows : List ρ} (filedUnder : ρ → χ)
    (distinct : (rows.map filedUnder).Nodup) {row : ρ} (member : row ∈ rows) :
    rows.find? (fun held => filedUnder held == filedUnder row) = some row := by
  induction rows with
  | nil => cases member
  | cons first rest ih =>
      rw [List.map_cons, List.nodup_cons] at distinct
      rcases List.mem_cons.mp member with rfl | later
      · exact List.find?_cons_of_pos (by simp)
      · have apart : filedUnder first ≠ filedUnder row := by
          intro same
          exact distinct.1 (same ▸ List.mem_map_of_mem later)
        rw [List.find?_cons_of_neg (by simp [apart])]
        exact ih distinct.2 later

section Lists

variable {κ : Type u} {ν : Type v} {ρ : Type w} {χ : Type x}

/-- One row for each key of the map, and no other. -/
structure Lists (cellOf : κ → χ) (filedUnder : ρ → χ) (holds : ν → ρ → Prop) (map : κ → Option ν)
    (rows : List ρ) : Prop where
  distinct : (rows.map filedUnder).Nodup
  found : ∀ key value, map key = some value →
    ∃ row ∈ rows, filedUnder row = cellOf key ∧ holds value row
  known : ∀ row ∈ rows, ∃ key, (map key).isSome = true ∧ filedUnder row = cellOf key

namespace Lists

variable {cellOf : κ → χ} {filedUnder : ρ → χ} {holds : ν → ρ → Prop} {map : κ → Option ν}
  {rows : List ρ}

theorem empty : Lists cellOf filedUnder holds (fun _ => none) [] where
  distinct := List.nodup_nil
  found := nofun
  known := nofun

/-- Values that their rows still hold after they have changed. -/
theorem change {holds' : ν → ρ → Prop} (lists : Lists cellOf filedUnder holds map rows) (f : ν → ν)
    (kept : ∀ value row, holds value row → holds' (f value) row) :
    Lists cellOf filedUnder holds' (fun key => (map key).map f) rows where
  distinct := lists.distinct
  found := by
    intro key value changed
    obtain ⟨before, held, rfl⟩ := Option.map_eq_some_iff.mp changed
    obtain ⟨row, member, filed, holding⟩ := lists.found key before held
    exact ⟨row, member, filed, kept before row holding⟩
  known := by
    intro row member
    obtain ⟨key, held, filed⟩ := lists.known row member
    exact ⟨key, by rwa [Option.isSome_map], filed⟩

/-- Rows that hold their values in one sense hold them in another. -/
theorem imp {holds' : ν → ρ → Prop} (lists : Lists cellOf filedUnder holds map rows)
    (kept : ∀ value row, holds value row → holds' value row) :
    Lists cellOf filedUnder holds' map rows where
  distinct := lists.distinct
  found := by
    intro key value held
    obtain ⟨row, member, filed, holding⟩ := lists.found key value held
    exact ⟨row, member, filed, kept value row holding⟩
  known := lists.known

/-- The keys that have a value, in the order of their rows. -/
theorem live (lists : Lists cellOf filedUnder holds map rows) (injective : cellOf.Injective) :
    ∃ keys : List κ, keys.Nodup ∧ (∀ key, key ∈ keys ↔ (map key).isSome = true) ∧
      rows.map filedUnder = keys.map cellOf := by
  have listed : ∃ keys : List κ, (∀ key ∈ keys, (map key).isSome = true) ∧
      rows.map filedUnder = keys.map cellOf := by
    have known := lists.known
    clear lists
    induction rows with
    | nil => exact ⟨[], nofun, rfl⟩
    | cons row rest ih =>
        obtain ⟨key, held, filed⟩ := known row List.mem_cons_self
        obtain ⟨keys, have_, same⟩ := ih fun row member => known row (List.mem_cons_of_mem _ member)
        refine ⟨key :: keys, ?_, by rw [List.map_cons, List.map_cons, filed, same]⟩
        intro other member
        rcases List.mem_cons.mp member with rfl | later
        · exact held
        · exact have_ other later
  obtain ⟨keys, have_, same⟩ := listed
  have distinct := lists.distinct
  rw [same] at distinct
  refine ⟨keys, distinct.of_map, fun key => ⟨have_ key, ?_⟩, same⟩
  intro held
  obtain ⟨value, held⟩ := Option.isSome_iff_exists.mp held
  obtain ⟨row, member, filed, -⟩ := lists.found key value held
  have cell := List.mem_map_of_mem member (f := filedUnder)
  rw [same, filed] at cell
  obtain ⟨other, present, cells⟩ := List.mem_map.mp cell
  rwa [injective cells] at present

variable [DecidableEq χ]

/-- The row that is found under a key. -/
theorem find_some (lists : Lists cellOf filedUnder holds map rows) {key : κ} {value : ν}
    (held : map key = some value) :
    ∃ row, rows.find? (fun row => filedUnder row == cellOf key) = some row ∧ holds value row := by
  obtain ⟨row, member, filed, holding⟩ := lists.found key value held
  exact ⟨row, filed ▸ find?_of_nodup filedUnder lists.distinct member, holding⟩

theorem find_none (lists : Lists cellOf filedUnder holds map rows) (injective : cellOf.Injective)
    {key : κ} (free : map key = none) :
    rows.find? (fun row => filedUnder row == cellOf key) = none := by
  rw [List.find?_eq_none]
  intro row member filed
  obtain ⟨other, held, cell⟩ := lists.known row member
  have same : other = key := injective (cell.symm.trans (by simpa using filed))
  rw [same, free] at held
  cases held

variable [DecidableEq κ]

/-- A row is put in place of the one of its key. -/
theorem put (lists : Lists cellOf filedUnder holds map rows) (injective : cellOf.Injective)
    {key : κ} {value : ν} {row : ρ} (filed : filedUnder row = cellOf key) (holding : holds value row) :
    Lists cellOf filedUnder holds (Function.update map key (some value))
      ((rows.filter fun held => filedUnder held != filedUnder row) ++ [row]) where
  distinct := by
    rw [List.map_append, List.nodup_append]
    refine ⟨lists.distinct.sublist (List.filter_sublist.map _), List.nodup_singleton _, ?_⟩
    intro cell kept other last same
    obtain ⟨held, member, rfl⟩ := List.mem_map.mp kept
    obtain rfl := List.mem_singleton.mp last
    simpa [same] using (List.mem_filter.mp member).2
  found := by
    intro other given held
    by_cases same : other = key
    · subst same
      rw [Function.update_self] at held
      cases held
      exact ⟨row, List.mem_append_right _ (List.mem_singleton_self row), filed, holding⟩
    · rw [Function.update_of_ne same] at held
      obtain ⟨old, member, under, holds⟩ := lists.found other given held
      have apart : filedUnder old ≠ filedUnder row := by
        rw [under, filed]
        exact fun cells => same (injective cells)
      refine ⟨old, List.mem_append_left _ (List.mem_filter.mpr ⟨member, ?_⟩), under, holds⟩
      exact bne_iff_ne.mpr apart
  known := by
    intro held member
    rcases List.mem_append.mp member with kept | last
    · obtain ⟨old, apart⟩ := List.mem_filter.mp kept
      obtain ⟨other, valued, under⟩ := lists.known held old
      have distinct : other ≠ key := by
        rintro rfl
        rw [under, filed] at apart
        exact (bne_iff_ne.mp apart) rfl
      exact ⟨other, by rwa [Function.update_of_ne distinct], under⟩
    · obtain rfl := List.mem_singleton.mp last
      exact ⟨key, by rw [Function.update_self]; rfl, filed⟩

/-- The row of a key is deleted, and no other. -/
theorem delete (lists : Lists cellOf filedUnder holds map rows) (injective : cellOf.Injective)
    (key : κ) : Lists cellOf filedUnder holds (Function.update map key none)
      (rows.filter fun held => filedUnder held != cellOf key) where
  distinct := lists.distinct.sublist (List.filter_sublist.map _)
  found := by
    intro other given held
    by_cases same : other = key
    · rw [same, Function.update_self] at held
      cases held
    · rw [Function.update_of_ne same] at held
      obtain ⟨old, member, under, holding⟩ := lists.found other given held
      refine ⟨old, List.mem_filter.mpr ⟨member, ?_⟩, under, holding⟩
      rw [under]
      exact bne_iff_ne.mpr fun cells => same (injective cells)
  known := by
    intro held member
    obtain ⟨old, apart⟩ := List.mem_filter.mp member
    obtain ⟨other, valued, under⟩ := lists.known held old
    have distinct : other ≠ key := by
      rintro rfl
      exact (bne_iff_ne.mp apart) under
    exact ⟨other, by rwa [Function.update_of_ne distinct], under⟩

end Lists

end Lists

end Hekla.Library
