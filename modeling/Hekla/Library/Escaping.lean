import Mathlib.Data.List.Basic

/-!
# Escaped texts and joined fields

A text is escaped symbol by symbol.  Where the codes of two symbols never start
alike, an escaped text spells one text only; where no code holds a separator,
texts joined by that separator can be told apart again.
-/

namespace Hekla.Library.Escaping

variable {α β : Type}

/-- No symbol has an empty code, and what follows a code does not change which symbol it is of. -/
structure PrefixFree (code : α → List β) : Prop where
  nonempty : ∀ symbol, code symbol ≠ []
  separate : ∀ {first second rest tail},
    code first ++ rest = code second ++ tail → first = second

/-- A prefix-free code is read back symbol by symbol. -/
theorem flatMap_injective {code : α → List β} (free : PrefixFree code) {one two : List α}
    (same : one.flatMap code = two.flatMap code) : one = two := by
  induction one generalizing two with
  | nil =>
      cases two with
      | nil => rfl
      | cons symbol rest =>
          have none := List.append_eq_nil_iff.mp same.symm
          exact absurd none.1 (free.nonempty symbol)
  | cons first rest ih =>
      cases two with
      | nil =>
          have none := List.append_eq_nil_iff.mp same
          exact absurd none.1 (free.nonempty first)
      | cons second tail =>
          rw [List.flatMap_cons, List.flatMap_cons] at same
          obtain rfl := free.separate same
          rw [ih (List.append_cancel_left same)]

/-- What no code holds, no escaped text holds. -/
theorem notMem_flatMap {code : α → List β} {separator : β}
    (without : ∀ symbol, separator ∉ code symbol) (text : List α) :
    separator ∉ text.flatMap code := by
  intro member
  obtain ⟨symbol, -, held⟩ := List.mem_flatMap.mp member
  exact without symbol held

/-- Joined codes that hold no separator are the codes of one list only. -/
theorem join_injective [DecidableEq β] {code : α → List β} {separator : β}
    (injective : Function.Injective code) (nonempty : ∀ symbol, code symbol ≠ [])
    (without : ∀ symbol, separator ∉ code symbol) {one two : List α}
    (same : [separator].intercalate (one.map code) = [separator].intercalate (two.map code)) :
    one = two := by
  have read {codes : List α} (some_ : codes ≠ []) :
      ([separator].intercalate (codes.map code)).splitOn separator = codes.map code := by
    refine List.splitOn_intercalate separator ?_ fun none => some_ (List.map_eq_nil_iff.mp none)
    intro part member
    obtain ⟨symbol, -, rfl⟩ := List.mem_map.mp member
    exact without symbol
  have empty {codes : List α} (none : [] = [separator].intercalate (codes.map code)) : codes = [] := by
    by_contra some_
    have back := read some_
    rw [← none, List.splitOn_nil] at back
    cases codes with
    | nil => exact some_ rfl
    | cons symbol rest => exact nonempty symbol (List.cons.inj back).1.symm
  by_cases noOne : one = []
  · rw [noOne] at same ⊢
    exact (empty same).symm
  · by_cases noTwo : two = []
    · rw [noTwo] at same ⊢
      exact empty same.symm
    · have mapped : one.map code = two.map code := by
        rw [← read noOne, same, read noTwo]
      exact List.map_injective_iff.mpr injective mapped

end Hekla.Library.Escaping
