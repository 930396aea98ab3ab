import Hekla.Library.Relation
import Hekla.Library.Keyset
import Mathlib.Data.List.Lex
import Mathlib.Data.Prod.Lex
import Mathlib.Data.String.Basic

/-!
# Selecting rows

Cells have a total order, in which rows are sorted, and a comparison that is
unknown beside a null, by which they are filtered.  Rows are compared column by
column, and the first pair that differs decides.  On tuples that hold no null
the two agree, so a row value in a filter marks a place in an ordering.
-/

namespace Hekla.Library

universe u v

namespace Cell

/-- Nulls come first, then integers, text by code point and blobs by byte. -/
def rank : Cell → ℕ ×ₗ ℤ ×ₗ String ×ₗ List ℕ
  | .null => toLex (0, toLex (0, toLex ("", [])))
  | .integer value => toLex (1, toLex (value.toInt, toLex ("", [])))
  | .text value => toLex (2, toLex (0, toLex (value, [])))
  | .blob bytes => toLex (3, toLex (0, toLex ("", bytes.map UInt8.toNat)))

theorem rank_injective : Function.Injective rank := by
  intro one other same
  cases one <;> cases other <;> simp [rank] at same ⊢
  · exact Int64.toInt_inj.mp same
  · exact same
  · exact List.map_injective_iff.mpr (fun _ _ => UInt8.toNat_inj.mp) same

instance : LinearOrder Cell := LinearOrder.lift' rank rank_injective

/-- How two cells compare in a filter, which is unknown beside a null. -/
def versus (one other : Cell) : Option Ordering :=
  if one = .null ∨ other = .null then none else some (compare one other)

end Cell

/-- How two row values compare in a filter. -/
def versus : List Cell → List Cell → Option Ordering
  | [], [] => some .eq
  | one :: rest, other :: others =>
      match one.versus other with
      | some .eq => versus rest others
      | decided => decided
  | _, _ => none

theorem Cell.versus_of_present {one other : Cell} (left : one ≠ .null) (right : other ≠ .null) :
    one.versus other = some (compare one other) := by
  unfold Cell.versus
  rw [if_neg (not_or.mpr ⟨left, right⟩)]

/-- Tuples that hold no null compare as the places they are. -/
theorem versus_of_present {one other : List Cell} (left : .null ∉ one) (right : .null ∉ other)
    (width : one.length = other.length) :
    (versus one other = some .lt ↔ one < other) ∧ (versus one other = some .gt ↔ other < one) := by
  induction one generalizing other with
  | nil =>
      cases other with
      | nil => simp [versus]
      | cons cell rest => cases width
  | cons cell rest ih =>
      cases other with
      | nil => cases width
      | cons cell' rest' =>
          rw [List.mem_cons, not_or] at left right
          have further := ih left.2 right.2 (Nat.succ.inj width)
          rw [versus, Cell.versus_of_present (Ne.symm left.1) (Ne.symm right.1),
            List.cons_lt_cons_iff, List.cons_lt_cons_iff]
          cases found : compare cell cell' with
          | lt =>
              have lower := compare_lt_iff_lt.mp found
              simp [lower, lower.not_gt, lower.ne']
          | gt =>
              have lower := compare_gt_iff_gt.mp found
              simp [lower, lower.not_gt, lower.ne']
          | eq => simp [compare_eq_iff_eq.mp found, further]

/-- The comparisons a filter makes. -/
inductive Operator where
  | eq
  | lt
  | le
  | gt
  | ge
  deriving DecidableEq

def Operator.holds : Operator → Ordering → Bool
  | .eq, found => found == .eq
  | .lt, found => found == .lt
  | .le, found => found != .gt
  | .gt, found => found == .gt
  | .ge, found => found != .lt

/-- One condition of a filter: a row value against bound cells, or a column that
holds something. -/
inductive Condition (γ : Type u) where
  | compares (columns : List γ) (operator : Operator) (bounds : List Cell)
  | present (column : γ)
  deriving DecidableEq

section Selecting

variable {γ : Type u}

/-- A condition admits the rows it is known to hold of. -/
def Condition.holds (row : γ → Cell) : Condition γ → Bool
  | .compares columns operator bounds => (versus (columns.map row) bounds).any operator.holds
  | .present column => row column != .null

/-- The places of an ordering, in the direction it is read in. -/
def follows (descending : Bool) (one other : List Cell) : Prop :=
  if descending then other < one else one < other

instance (descending : Bool) : DecidableRel (follows descending) := fun one other => by
  unfold follows
  exact inferInstance

instance (descending : Bool) : IsStrictTotalOrder (List Cell) (follows descending) := by
  cases descending with
  | false => exact (inferInstance : IsStrictTotalOrder (List Cell) (· < ·))
  | true => exact (inferInstance : IsStrictTotalOrder (List Cell) (· > ·))

/-- What a row is sorted by. -/
def placeOf (order : List γ) (row : γ → Cell) : List Cell := order.map row

structure Statement (γ : Type u) where
  conditions : List (Condition γ)
  order : List γ
  descending : Bool
  limit : Nat
  deriving DecidableEq

namespace Statement

def admits (conditions : List (Condition γ)) (row : γ → Cell) : Bool :=
  conditions.all (Condition.holds row)

/-- The rows a filter leaves, in order. -/
def sorted (conditions : List (Condition γ)) (order : List γ) (descending : Bool)
    (rows : List (γ → Cell)) : List (γ → Cell) :=
  ordered (follows descending) (placeOf order) (rows.filter (admits conditions))

/-- The rows of a statement over a table. -/
def select (statement : Statement γ) (rows : List (γ → Cell)) : List (γ → Cell) :=
  (sorted statement.conditions statement.order statement.descending rows).take statement.limit

/-- The rows after a place, in the direction an ordering is read in. -/
def after (order : List γ) (descending : Bool) (place : List Cell) : Condition γ :=
  .compares order (if descending then .lt else .gt) place

theorem holds_after {order : List γ} {descending : Bool} {row : γ → Cell} {place : List Cell}
    (present : .null ∉ placeOf order row) (bound : .null ∉ place)
    (width : place.length = order.length) :
    (after order descending place).holds row =
      decide (follows descending place (placeOf order row)) := by
  have wide : (placeOf order row).length = place.length := by
    unfold placeOf
    rw [List.length_map, width]
  have compared := versus_of_present present bound wide
  rw [Bool.eq_iff_iff, decide_eq_true_iff]
  unfold after follows Condition.holds
  dsimp only
  cases descending with
  | false =>
      rw [if_neg Bool.false_ne_true, if_neg Bool.false_ne_true, ← compared.2, Option.any_eq_true]
      simp [Operator.holds, placeOf]
  | true =>
      rw [if_pos rfl, if_pos rfl, ← compared.1, Option.any_eq_true]
      simp [Operator.holds, placeOf]

variable {conditions : List (Condition γ)} {order : List γ} {descending : Bool}
  {rows : List (γ → Cell)}

theorem admits_append (conditions : List (Condition γ)) (condition : Condition γ) (row : γ → Cell) :
    admits (conditions ++ [condition]) row = (admits conditions row && condition.holds row) := by
  simp [admits]

theorem admits_both (left right : List (Condition γ)) (row : γ → Cell) :
    admits (left ++ right) row = (admits left row && admits right row) := List.all_append

theorem mem_sorted {row : γ → Cell} :
    row ∈ sorted conditions order descending rows ↔ row ∈ rows ∧ admits conditions row = true := by
  unfold sorted
  rw [(ordered_perm _ _ _).mem_iff, List.mem_filter]

/-- The filter that resumes after a row leaves the rows that follow it. -/
theorem sorted_after (distinct : (rows.map (placeOf order)).Nodup)
    (present : ∀ row ∈ rows, admits conditions row = true → .null ∉ placeOf order row)
    {done rest : List (γ → Cell)} {last : γ → Cell}
    (split : sorted conditions order descending rows = done ++ rest)
    (ended : done.getLast? = some last) :
    sorted (conditions ++ [after order descending (placeOf order last)]) order descending rows =
      rest := by
  have held : last ∈ sorted conditions order descending rows := by
    rw [split]
    exact List.mem_append_left _ (List.mem_of_getLast? ended)
  have bound := present last (mem_sorted.mp held).1 (mem_sorted.mp held).2
  have kept : ((rows.filter (admits conditions)).map (placeOf order)).Nodup :=
    distinct.sublist (List.filter_sublist.map _)
  have narrowed : rows.filter
        (admits (conditions ++ [after order descending (placeOf order last)])) =
      (rows.filter (admits conditions)).filter
        fun row => decide (follows descending (placeOf order last) (placeOf order row)) := by
    rw [List.filter_filter]
    refine List.filter_congr ?_
    intro row member
    rw [admits_append]
    cases fits : admits conditions row with
    | false => simp
    | true =>
        rw [Bool.true_and, Bool.and_true]
        exact holds_after (present row member fits) bound (List.length_map _)
  unfold sorted at split ⊢
  rw [narrowed, ordered_filter _ _ kept]
  exact ordered_after _ _ kept split ended

/-- A filter that a page already resumed under may be dropped for the place of a
row it left, where it admits whatever follows a row that it admits. -/
theorem sorted_resume (distinct : (rows.map (placeOf order)).Nodup)
    (present : ∀ row ∈ rows, admits conditions row = true → .null ∉ placeOf order row)
    {earlier : List (Condition γ)}
    (closed : ∀ one ∈ rows, ∀ other ∈ rows, admits conditions one = true →
      admits conditions other = true → admits earlier one = true →
      follows descending (placeOf order one) (placeOf order other) → admits earlier other = true)
    {done rest : List (γ → Cell)} {last : γ → Cell}
    (split : sorted (conditions ++ earlier) order descending rows = done ++ rest)
    (ended : done.getLast? = some last) :
    sorted (conditions ++ [after order descending (placeOf order last)]) order descending rows =
      rest := by
  have held : last ∈ sorted (conditions ++ earlier) order descending rows := by
    rw [split]
    exact List.mem_append_left _ (List.mem_of_getLast? ended)
  obtain ⟨known, kept⟩ := mem_sorted.mp held
  rw [admits_both, Bool.and_eq_true] at kept
  have both : ∀ row ∈ rows, admits (conditions ++ earlier) row = true → .null ∉ placeOf order row := by
    intro row member fits
    rw [admits_both, Bool.and_eq_true] at fits
    exact present row member fits.1
  have resumed := sorted_after distinct both split ended
  rw [← resumed]
  unfold sorted
  congr 1
  refine List.filter_congr ?_
  intro row member
  rw [admits_append, admits_append, admits_both]
  cases fits : admits conditions row with
  | false => simp
  | true =>
      have place := present row member fits
      rw [holds_after place (present last known kept.1) (List.length_map _)]
      cases early : admits earlier row with
      | true => simp
      | false =>
          have behind : ¬ follows descending (placeOf order last) (placeOf order row) := by
            intro up
            have after := closed last known row member kept.1 fits kept.2 up
            rw [early] at after
            cases after
          simp [behind]

/-! ### Rows seen through other columns -/

variable {δ : Type v} (name : γ → δ)

/-- A condition on columns that go by other names. -/
def rename : Condition γ → Condition δ
  | .compares columns operator bounds => .compares (columns.map name) operator bounds
  | .present column => .present (name column)

theorem holds_rename (row : δ → Cell) (condition : Condition γ) :
    (rename name condition).holds row = condition.holds (row ∘ name) := by
  cases condition with
  | compares columns operator bounds =>
      unfold rename Condition.holds
      dsimp only
      rw [List.map_map]
  | present column => rfl

theorem admits_rename (row : δ → Cell) (conditions : List (Condition γ)) :
    admits (conditions.map (rename name)) row = admits conditions (row ∘ name) := by
  unfold admits
  rw [List.all_map]
  congr 1
  funext condition
  exact holds_rename name row condition

/-- A filter and an ordering by the columns of one table of a join leave the rows
they leave of that table, each as it was joined. -/
theorem sorted_rename {seen : (γ → Cell) → δ → Cell} (same : ∀ row ∈ rows, seen row ∘ name = row)
    (distinct : (rows.map (placeOf order)).Nodup) :
    sorted (conditions.map (rename name)) (order.map name) descending (rows.map seen) =
      (sorted conditions order descending rows).map seen := by
  have kept : (rows.map seen).filter (admits (conditions.map (rename name))) =
      (rows.filter (admits conditions)).map seen := by
    rw [List.filter_map]
    congr 1
    refine List.filter_congr ?_
    intro row member
    rw [Function.comp_apply, admits_rename, same row member]
  have placed {row : γ → Cell} (member : row ∈ rows) :
      placeOf (order.map name) (seen row) = placeOf order row := by
    have back := congrArg (placeOf order) (same row member)
    unfold placeOf at back ⊢
    rw [List.map_map, ← back]
  have apart : ((rows.filter (admits conditions)).map (placeOf order)).Nodup :=
    distinct.sublist (List.filter_sublist.map _)
  unfold sorted
  rw [kept]
  refine ordered_unique _ _ ?_ ((ordered_perm _ _ _).map seen)
  rw [List.pairwise_map]
  refine (ordered_pairwise (follows descending) (placeOf order) apart).imp_of_mem ?_
  intro one other member member' up
  rw [placed (List.mem_of_mem_filter ((ordered_perm _ _ _).mem_iff.mp member)),
    placed (List.mem_of_mem_filter ((ordered_perm _ _ _).mem_iff.mp member'))]
  exact up

end Statement

end Selecting

/-! ## Left joins -/

/-- The two tables of a join. -/
inductive Alias where
  | left
  | right
  deriving DecidableEq

/-- A row of a left join, which reads as null where nothing matched. -/
def joinedRow (row : Row) (matched : Option Row) : Alias × String → Cell
  | (.left, column) => row column
  | (.right, column) => matched.elim .null fun other => other column

def matchesOn (columns : List String) (row other : Row) : Bool :=
  columns.all fun column => (row column).versus (other column) == some .eq

def leftJoin (columns : List String) (left right : List Row) : List (Alias × String → Cell) :=
  left.flatMap fun row =>
    match right.filter (matchesOn columns row) with
    | [] => [joinedRow row none]
    | matched => matched.map fun other => joinedRow row (some other)

theorem filter_eq_find {α : Type u} {test : α → Bool} {items : List α}
    (single : items.Pairwise fun one other => ¬ (test one = true ∧ test other = true)) :
    items.filter test = (items.find? test).toList := by
  induction items with
  | nil => rfl
  | cons item rest ih =>
      rw [List.pairwise_cons] at single
      cases found : test item with
      | false =>
          rw [List.filter_cons_of_neg (by simp [found]), List.find?_cons_of_neg (by simp [found])]
          exact ih single.2
      | true =>
          have none_ : rest.filter test = [] := by
            rw [List.filter_eq_nil_iff]
            intro other member passed
            exact single.1 other member ⟨found, passed⟩
          rw [List.filter_cons_of_pos found, List.find?_cons_of_pos found, none_]
          rfl

theorem eq_of_matchesOn {columns : List String} {row other : Row}
    (matched : matchesOn columns row other = true) : columns.map row = columns.map other := by
  refine List.map_congr_left ?_
  intro column member
  have same := eq_of_beq (List.all_eq_true.mp matched column member)
  unfold Cell.versus at same
  split at same
  · cases same
  · exact compare_eq_iff_eq.mp (Option.some.inj same)

/-- A join on the key of its right table keeps each row of the left one, once. -/
theorem leftJoin_eq_map {columns : List String} {right : List Row}
    (distinct : (right.map fun row => columns.map row).Nodup) (left : List Row) :
    leftJoin columns left right =
      left.map fun row => joinedRow row (right.find? (matchesOn columns row)) := by
  unfold leftJoin
  rw [List.map_eq_flatMap]
  congr 1
  funext row
  have single : right.Pairwise fun one other =>
      ¬ (matchesOn columns row one = true ∧ matchesOn columns row other = true) := by
    rw [List.nodup_iff_pairwise_ne, List.pairwise_map] at distinct
    refine distinct.imp ?_
    rintro one other apart ⟨first, second⟩
    exact apart ((eq_of_matchesOn first).symm.trans (eq_of_matchesOn second))
  rw [filter_eq_find single]
  cases right.find? (matchesOn columns row) <;> rfl

end Hekla.Library
