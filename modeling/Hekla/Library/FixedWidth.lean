import Mathlib.Data.List.Lex
import Mathlib.Data.Nat.Basic
import Mathlib.Algebra.Group.Nat.Defs

/-!
# Numerals of a fixed width

Numbers that are spelled with as many digits as there is room for stand in the
order of their numerals, and so do rows of them whose fields stand at the same
places.
-/

namespace Hekla.Library

/-! ## Words of one length -/

section Words

universe u

variable {α : Type u} [LT α]

/-- Words whose fronts are of one length are ordered by their fronts first. -/
theorem append_lt_append_iff {front other back last : List α} (length : front.length = other.length) :
    front ++ back < other ++ last ↔ front < other ∨ front = other ∧ back < last := by
  induction front generalizing other with
  | nil =>
      obtain rfl := List.length_eq_zero_iff.mp length.symm
      simp
  | cons char front ih =>
      cases other with
      | nil => cases length
      | cons char' other =>
          rw [List.length_cons, List.length_cons, Nat.succ_inj] at length
          rw [List.cons_append, List.cons_append, List.cons_lt_cons_iff, List.cons_lt_cons_iff, ih length,
            List.cons.injEq, and_or_left, or_assoc, and_assoc]

end Words

/-! ## Numerals -/

/-- A numeral with zeros before it, up to a width. -/
def padded (width number : Nat) : List Char := (Nat.toDigits 10 number).leftpad width '0'

/-- The last digits of a number. -/
def lastDigits : Nat → Nat → List Char
  | 0, _ => []
  | width + 1, number => lastDigits width (number / 10) ++ [(number % 10).digitChar]

theorem length_lastDigits (width number : Nat) : (lastDigits width number).length = width := by
  induction width generalizing number with
  | zero => rfl
  | succ width ih => rw [lastDigits, List.length_append, ih, List.length_singleton]

theorem lastDigits_zero (width : Nat) : lastDigits width 0 = List.replicate width '0' := by
  induction width with
  | zero => rfl
  | succ width ih =>
      rw [lastDigits, Nat.zero_div, ih, List.replicate_succ']
      rfl

theorem length_toDigits_le {width number : Nat} (positive : 0 < width) (fits : number < 10 ^ width) :
    (Nat.toDigits 10 number).length ≤ width := by
  rw [Nat.length_toDigits_le_iff (by decide) positive]
  exact fits

/-- A number that there is room for is padded to its last digits. -/
theorem padded_eq_lastDigits {width number : Nat} (positive : 0 < width) (fits : number < 10 ^ width) :
    padded width number = lastDigits width number := by
  induction width generalizing number with
  | zero => cases positive
  | succ width ih =>
      unfold padded at ih ⊢
      rw [lastDigits]
      by_cases small : number < 10
      · rw [Nat.toDigits_of_lt_base small, Nat.div_eq_of_lt small, Nat.mod_eq_of_lt small, lastDigits_zero]
        rfl
      · have large := Nat.not_lt.mp small
        have room : 0 < width := by
          refine Nat.pos_of_ne_zero fun none_ => ?_
          subst none_
          omega
        have rest : number / 10 < 10 ^ width := by
          rw [Nat.div_lt_iff_lt_mul (by decide), ← Nat.pow_succ]
          exact fits
        rw [← ih room rest, Nat.toDigits_of_base_le (by decide) large]
        unfold List.leftpad
        rw [List.length_append, List.length_singleton, Nat.add_sub_add_right, List.append_assoc]

theorem length_padded {width number : Nat} (positive : 0 < width) (fits : number < 10 ^ width) :
    (padded width number).length = width := by
  rw [padded_eq_lastDigits positive fits, length_lastDigits]

theorem digitChar_lt_iff {one other : Nat} (digit : one < 10) (digit' : other < 10) :
    one.digitChar < other.digitChar ↔ one < other := by
  have all : ∀ one other : Fin 10, one.val.digitChar < other.val.digitChar ↔ one.val < other.val := by decide
  exact all ⟨one, digit⟩ ⟨other, digit'⟩

/-- Last digits stand in the order of the numbers. -/
theorem lastDigits_lt_iff {width one other : Nat} (fits : one < 10 ^ width) (fits' : other < 10 ^ width) :
    (lastDigits width one < lastDigits width other ↔ one < other) ∧
      (lastDigits width one = lastDigits width other → one = other) := by
  induction width generalizing one other with
  | zero =>
      rw [Nat.pow_zero, Nat.lt_one_iff] at fits fits'
      subst fits fits'
      simp
  | succ width ih =>
      rw [Nat.pow_succ, ← Nat.div_lt_iff_lt_mul (by decide)] at fits fits'
      obtain ⟨less, same⟩ := ih fits fits'
      have digit := digitChar_lt_iff (Nat.mod_lt one (by decide)) (Nat.mod_lt other (by decide : 0 < 10))
      have lengths : (lastDigits width (one / 10)).length = (lastDigits width (other / 10)).length := by
        rw [length_lastDigits, length_lastDigits]
      have fronts : lastDigits width (one / 10) = lastDigits width (other / 10) ↔ one / 10 = other / 10 :=
        ⟨same, fun equal => by rw [equal]⟩
      constructor
      · have units : [(one % 10).digitChar] < [(other % 10).digitChar] ↔ one % 10 < other % 10 := by
          rw [List.cons_lt_cons_iff, digit]
          simp
        rw [lastDigits, lastDigits, append_lt_append_iff lengths, less, fronts, units]
        omega
      · intro equal
        obtain ⟨front, back⟩ := List.append_inj equal lengths
        have tens := same front
        have units : (one % 10).digitChar = (other % 10).digitChar := List.singleton_inj.mp back
        have apart : ¬ one % 10 < other % 10 := fun below => by
          rw [← digit, units] at below
          exact Char.lt_irrefl _ below
        have apart' : ¬ other % 10 < one % 10 := fun below => by
          rw [← digitChar_lt_iff (Nat.mod_lt other (by decide)) (Nat.mod_lt one (by decide)), units] at below
          exact Char.lt_irrefl _ below
        omega

/-! ## Rows of numerals -/

/-- A field of a row: how wide it is, and what stands after it. -/
abbrev Layout := List (Nat × Char)

/-- Numbers in their fields. -/
def spelled : Layout → List Nat → List Char
  | (width, mark) :: layout, number :: rest => padded width number ++ mark :: spelled layout rest
  | _, _ => []

/-- Numbers that there is room for. -/
inductive Fits : Layout → List Nat → Prop where
  | nil : Fits [] []
  | cons {width : Nat} {mark : Char} {layout : Layout} {number : Nat} {rest : List Nat} (positive : 0 < width)
      (room : number < 10 ^ width) (fits : Fits layout rest) : Fits ((width, mark) :: layout) (number :: rest)

/-- Rows of one layout stand in the order of their numbers. -/
theorem spelled_lt_iff {layout : Layout} {row other : List Nat} (fits : Fits layout row)
    (fits' : Fits layout other) : spelled layout row < spelled layout other ↔ row < other := by
  induction fits generalizing other with
  | nil =>
      cases fits'
      simp [spelled]
  | @cons width mark layout number rest positive room fits ih =>
      cases fits' with
      | @cons _ _ _ number' rest' _ room' fits' =>
          have lengths : (padded width number).length = (padded width number').length := by
            rw [length_padded positive room, length_padded positive room']
          have order := lastDigits_lt_iff room room'
          rw [← padded_eq_lastDigits positive room, ← padded_eq_lastDigits positive room'] at order
          have same : padded width number = padded width number' ↔ number = number' :=
            ⟨order.2, fun equal => by rw [equal]⟩
          rw [spelled, spelled, append_lt_append_iff lengths, order.1, same, List.cons_lt_cons_iff, ih fits',
            List.cons_lt_cons_iff]
          simp

/-- The numbers of a row, by their places. -/
def scanned : Layout → List Char → Option (List Nat)
  | [], [] => some []
  | (width, mark) :: layout, text =>
      if (text.take width).all Char.isDigit ∧ (text.drop width).head? = some mark then
        (scanned layout (text.drop (width + 1))).map (Nat.ofDigitChars 10 (text.take width) 0 :: ·)
      else none
  | _, _ => none

theorem ofDigitChars_padded (width number : Nat) :
    Nat.ofDigitChars 10 (padded width number) 0 = number := by
  unfold padded List.leftpad
  have zeros (count : Nat) : Nat.ofDigitChars 10 (List.replicate count '0') 0 = 0 := by
    induction count with
    | zero => rfl
    | succ count ih => exact ih
  rw [Nat.ofDigitChars_append, zeros, Nat.ofDigitChars_ten_toDigits]

theorem isDigit_padded (width number : Nat) : (padded width number).all Char.isDigit = true := by
  rw [List.all_eq_true]
  intro char member
  unfold padded List.leftpad at member
  rcases List.mem_append.mp member with zero | digit
  · rw [List.eq_of_mem_replicate zero]
    rfl
  · exact Nat.isDigit_of_mem_toDigits (by decide) (by decide) digit

/-- A row is read as the numbers it spells. -/
theorem scanned_spelled {layout : Layout} {row : List Nat} (fits : Fits layout row) :
    scanned layout (spelled layout row) = some row := by
  induction fits with
  | nil => rfl
  | @cons width mark layout number rest positive room fits ih =>
      have length := length_padded positive room
      have front : (padded width number ++ mark :: spelled layout rest).take width = padded width number := by
        rw [List.take_append_of_le_length length.ge, List.take_of_length_le length.le]
      have back : (padded width number ++ mark :: spelled layout rest).drop width =
          mark :: spelled layout rest := by
        rw [List.drop_append_of_le_length length.ge, List.drop_of_length_le length.le, List.nil_append]
      rw [spelled, scanned, front, ← List.drop_drop, back, List.drop_one, List.tail_cons, ih,
        if_pos ⟨isDigit_padded width number, rfl⟩, ofDigitChars_padded]
      rfl

end Hekla.Library
