import Mathlib.Data.List.Basic
import Mathlib.Algebra.Group.Nat.Defs

/-!
# Numerals

What a numeral holds, and that no two numbers share one.
-/

namespace Hekla.Library

/-- A numeral holds digits and a sign only. -/
theorem notMem_toString (char : Char) (digit : char.isDigit = false) (sign : char ≠ '-')
    (value : Int) : char ∉ (toString value).toList := by
  have digits (natural : Nat) : char ∉ natural.repr.toList := by
    intro member
    rw [Nat.toList_repr] at member
    have some_ := Nat.isDigit_of_mem_toDigits (by decide) (by decide) member
    rw [digit] at some_
    cases some_
  rw [Int.toString_eq_repr, Int.repr_eq_if]
  split
  · exact digits _
  · rw [String.toList_append, List.mem_append]
    rintro (member | member)
    · exact sign (List.mem_singleton.mp member)
    · exact digits _ member

theorem repr_injective {one two : Nat} (same : one.repr.toList = two.repr.toList) : one = two := by
  rw [Nat.toList_repr, Nat.toList_repr] at same
  rw [← Nat.ofDigitChars_ten_toDigits (n := one), same, Nat.ofDigitChars_ten_toDigits]

theorem toString_injective {one two : Int} (same : toString one = toString two) : one = two := by
  have sign {natural other : Nat} : natural.repr ≠ "-" ++ other.repr := by
    intro same
    have member : '-' ∈ natural.repr.toList := by
      rw [same, String.toList_append]
      exact List.mem_append_left _ (List.mem_singleton.mpr rfl)
    rw [Nat.toList_repr] at member
    exact absurd (Nat.isDigit_of_mem_toDigits (by decide) (by decide) member) (by decide)
  rw [Int.toString_eq_repr, Int.toString_eq_repr, Int.repr_eq_if, Int.repr_eq_if] at same
  split at same
  · split at same
    · have naturals := repr_injective (congrArg String.toList same)
      omega
    · exact absurd same sign
  · split at same
    · exact absurd same.symm sign
    · have tails : (-one).toNat.repr.toList = (-two).toNat.repr.toList := by
        have listed := congrArg String.toList same
        rw [String.toList_append, String.toList_append] at listed
        exact List.append_cancel_left listed
      have naturals := repr_injective tails
      omega

end Hekla.Library
