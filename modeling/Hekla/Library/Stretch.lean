import Hekla.Library.Select
import Mathlib.Data.List.Infix

/-!
# Stretches of an ordering

Rows that a filter holds of whenever it holds of a row before and a row after them
stand next to one another.  In an ordering by several columns that is so of a
filter that fixes the columns which open it and bounds the one right after.
-/

namespace Hekla.Library

universe u

section Convex

variable {ρ : Type u} {before : ρ → ρ → Prop} {holds : ρ → Bool} {rows : List ρ}

/-- What is held by every row before one that it holds of is held by a front. -/
theorem filter_prefix (sorted : rows.Pairwise before)
    (closed : ∀ one ∈ rows, ∀ other ∈ rows, before one other → holds other = true → holds one = true) :
    rows.filter holds <+: rows := by
  induction rows with
  | nil => exact List.prefix_rfl
  | cons first rest ih =>
      rw [List.pairwise_cons] at sorted
      by_cases held : holds first = true
      · rw [List.filter_cons_of_pos held, List.prefix_cons_inj]
        exact ih sorted.2 fun one member other member' =>
          closed one (List.mem_cons_of_mem _ member) other (List.mem_cons_of_mem _ member')
      · have none_ : rest.filter holds = [] := by
          rw [List.filter_eq_nil_iff]
          intro other member kept
          exact held (closed first List.mem_cons_self other (List.mem_cons_of_mem _ member)
            (sorted.1 other member) kept)
        rw [List.filter_cons_of_neg held, none_]
        exact List.nil_prefix

/-- What is held by every row between two that it holds of is held by a stretch. -/
theorem filter_stretch (sorted : rows.Pairwise before)
    (convex : ∀ one ∈ rows, ∀ middle ∈ rows, ∀ other ∈ rows, before one middle → before middle other →
      holds one = true → holds other = true → holds middle = true) :
    rows.filter holds <:+: rows := by
  induction rows with
  | nil => exact List.infix_rfl
  | cons first rest ih =>
      rw [List.pairwise_cons] at sorted
      by_cases held : holds first = true
      · rw [List.filter_cons_of_pos held]
        refine List.IsPrefix.isInfix (List.prefix_cons_inj _ |>.mpr ?_)
        refine filter_prefix sorted.2 ?_
        intro one member other member' up kept
        exact convex first List.mem_cons_self one (List.mem_cons_of_mem _ member) other
          (List.mem_cons_of_mem _ member') (sorted.1 one member) up held kept
      · rw [List.filter_cons_of_neg held]
        refine (ih sorted.2 ?_).trans (List.suffix_cons first rest).isInfix
        intro one member middle member' other member''
        exact convex one (List.mem_cons_of_mem _ member) middle (List.mem_cons_of_mem _ member') other
          (List.mem_cons_of_mem _ member'')

end Convex

/-! ## Rows compared column by column -/

section Columns

variable {γ : Type u} {one middle other : γ → Cell}

/-- Rows are compared by some columns first, and by others where those are alike. -/
theorem append_lt_iff {run rest : List γ} :
    (run ++ rest).map one < (run ++ rest).map other ↔
      run.map one < run.map other ∨ run.map one = run.map other ∧ rest.map one < rest.map other := by
  induction run with
  | nil => simp
  | cons column run ih =>
      rw [List.cons_append, List.map_cons, List.map_cons, List.map_cons, List.map_cons,
        List.cons_lt_cons_iff, List.cons_lt_cons_iff, ih, List.cons.injEq]
      by_cases same : one column = other column <;> simp [same]

/-- Rows are compared by what comes after the columns that they share. -/
theorem map_append_lt {run rest : List γ} (shared : run.map one = run.map other) :
    (run ++ rest).map one < (run ++ rest).map other ↔ rest.map one < rest.map other := by
  rw [append_lt_iff]
  simp [shared]

/-- A column in which two rows are alike makes no difference between them. -/
theorem map_filter_lt {columns : List γ} {kept : γ → Bool}
    (alike : ∀ column ∈ columns, kept column = false → one column = other column) :
    (columns.filter kept).map one < (columns.filter kept).map other ↔
      columns.map one < columns.map other := by
  induction columns with
  | nil => rfl
  | cons column rest ih =>
      have further := ih fun column member => alike column (List.mem_cons_of_mem _ member)
      cases keeps : kept column with
      | true =>
          rw [List.filter_cons_of_pos keeps, List.map_cons, List.map_cons, List.map_cons, List.map_cons,
            List.cons_lt_cons_iff, List.cons_lt_cons_iff, further]
      | false =>
          have same := alike column List.mem_cons_self keeps
          rw [List.filter_cons_of_neg (by rw [keeps]; exact Bool.false_ne_true), further, List.map_cons,
            List.map_cons, List.cons_lt_cons_iff]
          simp [same]

/-- A row between two that share their first columns shares them too. -/
theorem between_shared {run rest : List γ} (shared : run.map one = run.map other)
    (lower : (run ++ rest).map one < (run ++ rest).map middle)
    (upper : (run ++ rest).map middle < (run ++ rest).map other) :
    run.map middle = run.map one ∧ rest.map one < rest.map middle ∧ rest.map middle < rest.map other := by
  induction run with
  | nil => exact ⟨rfl, lower, upper⟩
  | cons column run ih =>
      rw [List.map_cons, List.map_cons, List.cons.injEq] at shared
      rw [List.cons_append, List.map_cons, List.map_cons, List.cons_lt_cons_iff] at lower upper
      rcases lower with down | ⟨same, lower⟩
      · rcases upper with up | ⟨back, -⟩
        · exact absurd (shared.1 ▸ down.trans up) (lt_irrefl _)
        · exact absurd (shared.1 ▸ back ▸ down) (lt_irrefl _)
      · rcases upper with up | ⟨-, upper⟩
        · exact absurd (shared.1 ▸ same ▸ up) (lt_irrefl _)
        · obtain ⟨run_, further⟩ := ih shared.2 lower upper
          exact ⟨by rw [List.map_cons, List.map_cons, run_, same], further⟩

end Columns

/-! ## Filters of an ordering -/

section Filters

variable {γ : Type u}

/-- What a condition asks of one column, if it asks something of one only. -/
inductive Condition.Asks (column : γ) : Condition γ → Prop where
  | compares (operator : Operator) (bound : Cell) : Asks column (.compares [column] operator [bound])
  | present : Asks column (.present column)

/-- A filter that fixes the columns of a run and asks only of them and of the one
right after. -/
structure Fixes (run rest : List γ) (conditions : List (Condition γ)) : Prop where
  fixed : ∀ column ∈ run, ∃ bound, .compares [column] .eq [bound] ∈ conditions
  asks : ∀ condition ∈ conditions, ∃ column, condition.Asks column ∧
    (column ∈ run ∨ rest.head? = some column)

theorem Condition.holds_one {column : γ} {operator : Operator} {bound : Cell} {row : γ → Cell} :
    (Condition.compares [column] operator [bound]).holds row = true ↔
      row column ≠ .null ∧ bound ≠ .null ∧ operator.holds (compare (row column) bound) = true := by
  change (versus [row column] [bound]).any operator.holds = true ↔ _
  by_cases absent : row column = .null ∨ bound = .null
  · have unknown : versus [row column] [bound] = none := by
      unfold versus Cell.versus
      rw [if_pos absent]
    rw [unknown]
    rcases absent with same | same <;> simp [same]
  · rw [not_or] at absent
    have known : versus [row column] [bound] = some (compare (row column) bound) := by
      unfold versus
      rw [Cell.versus_of_present absent.1 absent.2]
      cases compare (row column) bound <;> rfl
    rw [known, Option.any_some]
    simp [absent.1, absent.2]

theorem Cell.null_le (cell : Cell) : .null ≤ cell := by
  change rank .null ≤ rank cell
  cases cell <;> simp [rank, Prod.Lex.le_iff]

/-- What is asked of one column holds between two cells that it holds of. -/
theorem Condition.Asks.between {column : γ} {condition : Condition γ} (asks : condition.Asks column)
    {one middle other : γ → Cell} (lower : one column ≤ middle column)
    (upper : middle column ≤ other column) (first : condition.holds one = true)
    (last : condition.holds other = true) : condition.holds middle = true := by
  have filled (there : one column ≠ .null) : middle column ≠ .null := by
    intro absent
    exact there (le_antisymm (absent ▸ lower) (Cell.null_le _))
  cases asks with
  | compares operator bound =>
      rw [Condition.holds_one] at first last ⊢
      refine ⟨filled first.1, first.2.1, ?_⟩
      have from_ := first.2.2
      have until_ := last.2.2
      cases operator with
      | eq =>
          rw [Operator.holds, beq_iff_eq, compare_eq_iff_eq] at from_ until_ ⊢
          exact le_antisymm (until_ ▸ upper) (from_ ▸ lower)
      | lt =>
          rw [Operator.holds, beq_iff_eq, compare_lt_iff_lt] at until_ ⊢
          exact lt_of_le_of_lt upper until_
      | le =>
          rw [Operator.holds, bne_iff_ne, ne_eq, compare_gt_iff_gt, not_lt] at until_ ⊢
          exact upper.trans until_
      | gt =>
          rw [Operator.holds, beq_iff_eq, compare_gt_iff_gt] at from_ ⊢
          exact lt_of_lt_of_le from_ lower
      | ge =>
          rw [Operator.holds, bne_iff_ne, ne_eq, compare_lt_iff_lt, not_lt] at from_ ⊢
          exact from_.trans lower
  | present =>
      unfold Condition.holds at first ⊢
      rw [bne_iff_ne] at first ⊢
      exact filled first

variable {run rest : List γ} {conditions resumed : List (Condition γ)} {one middle other : γ → Cell}
  {descending : Bool} {rows : List (γ → Cell)}

/-- Rows that a filter admits share the columns that it fixes. -/
theorem Fixes.shared (fixes : Fixes run rest conditions)
    (first : Statement.admits conditions one = true) (last : Statement.admits conditions other = true) :
    run.map one = run.map other := by
  refine List.map_congr_left ?_
  intro column member
  obtain ⟨bound, listed⟩ := fixes.fixed column member
  have left := (Condition.holds_one.mp (List.all_eq_true.mp first _ listed)).2.2
  have right := (Condition.holds_one.mp (List.all_eq_true.mp last _ listed)).2.2
  rw [Operator.holds, beq_iff_eq, compare_eq_iff_eq] at left right
  exact left.trans right.symm

/-- A filter of an ordering admits what lies between two rows that it admits. -/
theorem Fixes.between (fixes : Fixes run rest conditions)
    (lower : (run ++ rest).map one < (run ++ rest).map middle)
    (upper : (run ++ rest).map middle < (run ++ rest).map other)
    (first : Statement.admits conditions one = true) (last : Statement.admits conditions other = true) :
    Statement.admits conditions middle = true := by
  obtain ⟨same, down, up⟩ := between_shared (fixes.shared first last) lower upper
  refine List.all_eq_true.mpr ?_
  intro condition member
  have from_ := List.all_eq_true.mp first condition member
  have until_ := List.all_eq_true.mp last condition member
  obtain ⟨column, asks, placed⟩ := fixes.asks condition member
  rcases placed with fixed | next
  · have left : middle column = one column := List.map_inj_left.mp same column fixed
    have right : one column = other column :=
      List.map_inj_left.mp (fixes.shared first last) column fixed
    exact asks.between left.ge (left.trans right).le from_ until_
  · obtain ⟨tail, rfl⟩ := List.head?_eq_some_iff.mp next
    rw [List.map_cons, List.map_cons, List.cons_lt_cons_iff] at down up
    exact asks.between (down.elim le_of_lt fun down => down.1.le) (up.elim le_of_lt fun up => up.1.le)
      from_ until_

theorem Fixes.between_follows (fixes : Fixes run rest conditions)
    (lower : follows descending (placeOf (run ++ rest) one) (placeOf (run ++ rest) middle))
    (upper : follows descending (placeOf (run ++ rest) middle) (placeOf (run ++ rest) other))
    (first : Statement.admits conditions one = true) (last : Statement.admits conditions other = true) :
    Statement.admits conditions middle = true := by
  cases descending with
  | false => exact fixes.between lower upper first last
  | true => exact fixes.between upper lower last first

namespace Statement

variable {order : List γ}

theorem sorted_eq_filter (distinct : (rows.map (placeOf order)).Nodup) :
    sorted conditions order descending rows =
      (sorted [] order descending rows).filter (admits conditions) := by
  have whole : rows.filter (admits []) = rows := List.filter_eq_self.mpr fun _ _ => rfl
  unfold sorted
  rw [whole]
  exact ordered_filter _ _ distinct _

/-- From a place on, an ordering leaves a stretch of it. -/
theorem sorted_resumed_stretch (distinct : (rows.map (placeOf order)).Nodup)
    (closed : ∀ one ∈ rows, ∀ other ∈ rows, admits conditions one = true →
      admits conditions other = true → admits resumed one = true →
      follows descending (placeOf order one) (placeOf order other) → admits resumed other = true) :
    sorted (conditions ++ resumed) order descending rows <:+: sorted conditions order descending rows := by
  have known {row : γ → Cell} (member : row ∈ sorted conditions order descending rows) :
      row ∈ rows ∧ admits conditions row = true := mem_sorted.mp member
  have apart : ((rows.filter (admits conditions)).map (placeOf order)).Nodup :=
    distinct.sublist (List.filter_sublist.map _)
  have strict : (sorted conditions order descending rows).Pairwise fun one other =>
      follows descending (placeOf order one) (placeOf order other) := ordered_pairwise _ _ apart
  have left : sorted (conditions ++ resumed) order descending rows =
      (sorted conditions order descending rows).filter (admits resumed) := by
    unfold sorted
    rw [← ordered_filter _ _ apart, List.filter_filter]
    congr 1
    refine List.filter_congr ?_
    intro row _
    rw [admits_both, Bool.and_comm]
  rw [left]
  refine filter_stretch strict ?_
  intro one member middle member' other member'' lower upper first last
  obtain ⟨present, admitted⟩ := known member
  obtain ⟨present', admitted'⟩ := known member'
  exact closed one present middle present' admitted admitted' first lower

/-- A filter of an ordering leaves a stretch of it. -/
theorem sorted_stretch (fixes : Fixes run rest conditions)
    (distinct : (rows.map (placeOf (run ++ rest))).Nodup) :
    sorted conditions (run ++ rest) descending rows <:+: sorted [] (run ++ rest) descending rows := by
  rw [sorted_eq_filter distinct]
  have whole : rows.filter (admits []) = rows := List.filter_eq_self.mpr fun _ _ => rfl
  have strict : (sorted [] (run ++ rest) descending rows).Pairwise fun one other =>
      follows descending (placeOf (run ++ rest) one) (placeOf (run ++ rest) other) := by
    unfold sorted
    rw [whole]
    exact ordered_pairwise _ _ distinct
  refine filter_stretch strict ?_
  intro one _ middle _ other _ lower upper first last
  exact fixes.between_follows lower upper first last

/-- Filters of the same conditions leave the same rows. -/
theorem sorted_same {others : List (Condition γ)}
    (same : ∀ condition, condition ∈ conditions ↔ condition ∈ others) :
    sorted conditions order descending rows = sorted others order descending rows := by
  have admits_eq : admits conditions = admits others := by
    funext row
    rw [Bool.eq_iff_iff]
    unfold admits
    rw [List.all_eq_true, List.all_eq_true]
    exact forall_congr' fun condition => imp_congr (same condition) Iff.rfl
  unfold sorted
  rw [admits_eq]

/-- Rows are sorted alike by columns that tell the rows of a filter apart alike. -/
theorem sorted_congr {columns : List γ} (distinct : (rows.map (placeOf columns)).Nodup)
    (alike : ∀ one ∈ rows, ∀ other ∈ rows, admits conditions one = true →
      admits conditions other = true → (columns.map one < columns.map other ↔
        order.map one < order.map other)) :
    sorted conditions order descending rows = sorted conditions columns descending rows := by
  have kept {row : γ → Cell} (member : row ∈ ordered (follows descending) (placeOf columns)
      (rows.filter (admits conditions))) : row ∈ rows ∧ admits conditions row = true :=
    mem_sorted.mp member
  unfold sorted
  refine ordered_unique _ _ ?_ (ordered_perm _ _ _)
  refine (ordered_pairwise (follows descending) (placeOf columns)
    (distinct.sublist (List.filter_sublist.map _))).imp_of_mem ?_
  intro one other member member' up
  obtain ⟨known, first⟩ := kept member
  obtain ⟨known', last⟩ := kept member'
  cases descending with
  | false => exact (alike one known other known' first last).mp up
  | true => exact (alike other known' one known last first).mp up

end Statement

end Filters

end Hekla.Library
