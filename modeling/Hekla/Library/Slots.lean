import Hekla.Library.Passes

/-!
# Slots filled from a list of entries

A record is read off a list of named entries in one pass.  The slot of a name
takes the first entry of that name and refuses another, so a pass that goes
through has met each name at most once, and what the slots then hold depends on
neither the order of the entries nor those of other names.
-/

namespace Hekla.Library.Slots

universe u v w x

variable {κ : Type u} {ν : Type v} {α : Type v} {ε : Type w} [DecidableEq κ]

/-- The values that entries give under a name, in their order. -/
def valuesOf (name : κ) (entries : List (κ × ν)) : List ν :=
  entries.filterMap fun entry => if entry.1 = name then some entry.2 else none

/-- Read a value into a slot that is still empty. -/
def fill (read : ν → Except ε α) (repeated : ε) (slot : Option α) (value : ν) :
    Except ε (Option α) :=
  if slot.isSome then .error repeated else (read value).map some

/-- The step of one slot: an entry of another name leaves it alone. -/
def fillNamed (name : κ) (read : ν → Except ε α) (repeated : ε) (slot : Option α)
    (entry : κ × ν) : Except ε (Option α) :=
  if entry.1 = name then fill read repeated slot entry.2 else .ok slot

variable {name : κ} {read : ν → Except ε α} {repeated : ε}

@[simp]
theorem valuesOf_nil : valuesOf name ([] : List (κ × ν)) = [] := rfl

theorem valuesOf_cons_self {entry : κ × ν} {rest : List (κ × ν)} (named : entry.1 = name) :
    valuesOf name (entry :: rest) = entry.2 :: valuesOf name rest := by
  unfold valuesOf
  rw [List.filterMap_cons, if_pos named]

theorem valuesOf_cons_ne {entry : κ × ν} {rest : List (κ × ν)} (other : entry.1 ≠ name) :
    valuesOf name (entry :: rest) = valuesOf name rest := by
  unfold valuesOf
  rw [List.filterMap_cons, if_neg other]

/-- A filled slot stays as it is, and nothing more may come for it. -/
theorem filled_ok {held : α} {entries : List (κ × ν)} {final : Option α} :
    entries.foldlM (fillNamed name read repeated) (some held) = .ok final ↔
      valuesOf name entries = [] ∧ final = some held := by
  induction entries with
  | nil => exact ⟨fun done => ⟨rfl, (Except.ok.inj done).symm⟩, fun held => by rw [held.2]; rfl⟩
  | cons entry rest ih =>
      rw [foldlM_cons_ok]
      by_cases named : entry.1 = name
      · rw [valuesOf_cons_self named]
        constructor
        · rintro ⟨next, filled, -⟩
          rw [fillNamed, if_pos named, fill, if_pos Option.isSome_some] at filled
          cases filled
        · rintro ⟨none, -⟩
          cases none
      · rw [valuesOf_cons_ne named]
        constructor
        · rintro ⟨next, filled, passed⟩
          rw [fillNamed, if_neg named] at filled
          cases filled
          exact ih.mp passed
        · intro kept
          exact ⟨some held, by rw [fillNamed, if_neg named], ih.mpr kept⟩

/-- A slot ends empty when no entry has its name, and with the one value there
is when that reads; otherwise the pass does not go through. -/
theorem filling_ok {entries : List (κ × ν)} {final : Option α} :
    entries.foldlM (fillNamed name read repeated) none = .ok final ↔
      (valuesOf name entries = [] ∧ final = none) ∨
        ∃ value held, valuesOf name entries = [value] ∧ read value = .ok held ∧
          final = some held := by
  induction entries with
  | nil =>
      constructor
      · intro done
        exact .inl ⟨rfl, (Except.ok.inj done).symm⟩
      · rintro (⟨-, rfl⟩ | ⟨value, held, one, -⟩)
        · rfl
        · cases one
  | cons entry rest ih =>
      rw [foldlM_cons_ok]
      by_cases named : entry.1 = name
      · rw [valuesOf_cons_self named]
        constructor
        · rintro ⟨next, filled, passed⟩
          rw [fillNamed, if_pos named, fill, if_neg (by simp)] at filled
          cases opened : read entry.2 with
          | error why =>
              rw [opened] at filled
              cases filled
          | ok held =>
              rw [opened] at filled
              cases filled
              obtain ⟨last, rfl⟩ := filled_ok.mp passed
              exact .inr ⟨entry.2, held, by rw [last], opened, rfl⟩
        · rintro (⟨none, -⟩ | ⟨value, held, one, opened, rfl⟩)
          · cases none
          · obtain ⟨rfl, last⟩ := List.cons.inj one
            refine ⟨some held, ?_, filled_ok.mpr ⟨last, rfl⟩⟩
            rw [fillNamed, if_pos named, fill, if_neg (by simp), opened]
            rfl
      · rw [valuesOf_cons_ne named]
        constructor
        · rintro ⟨next, filled, passed⟩
          rw [fillNamed, if_neg named] at filled
          cases filled
          exact ih.mp passed
        · intro held
          exact ⟨none, by rw [fillNamed, if_neg named], ih.mpr held⟩

/-- Only what stands under a name, and not where, is in its values. -/
theorem valuesOf_perm (known : κ → Bool) {one other : List (κ × ν)}
    (permuted : (one.filter fun entry => known entry.1).Perm
      (other.filter fun entry => known entry.1)) (mine : known name = true) :
    (valuesOf name one).Perm (valuesOf name other) := by
  have known_only (entries : List (κ × ν)) :
      valuesOf name entries = valuesOf name (entries.filter fun entry => known entry.1) := by
    unfold valuesOf
    rw [List.filterMap_filter]
    congr 1
    funext entry
    by_cases named : entry.1 = name
    · rw [if_pos named, named, if_pos mine]
    · rw [if_neg named, ite_self]
  rw [known_only one, known_only other]
  exact permuted.filterMap _

end Hekla.Library.Slots
