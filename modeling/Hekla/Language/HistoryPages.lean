import Hekla.Language.HistorySteps
import Hekla.Reads.TableSound

/-!
# Following a history

A page holds the newest records that changed something, below the position that it
is asked for; the next page is asked for below the last of them.  What there is below a
position does not change as the log grows, so that a reader who follows a page to the
next is dealt every change once.
-/

namespace Hekla.Language.History

open Hekla.Library Hekla.Host Hekla.Reads
open Hekla.Derived (FieldKind)
open Hekla.Reads.Tables (rendered parseUsize readLimit readLimit_pos)

variable {spelling : Spelling} {language : Heklang}

theorem windowParam_positive {state after : Window × List (String × String)} {param : String × String}
    (positive : 0 < state.1.limit) (parsed : windowParam state param = .ok after) : 0 < after.1.limit := by
  unfold windowParam at parsed
  split at parsed
  · obtain ⟨limit, asked, rfl⟩ := map_ok.mp parsed
    exact readLimit_pos asked
  · split at parsed
    · obtain ⟨before, -, rfl⟩ := map_ok.mp parsed
      exact positive
    · split at parsed
      · obtain ⟨since, -, rfl⟩ := map_ok.mp parsed
        exact positive
      · cases parsed
        exact positive

/-- A page that is asked for holds something. -/
theorem parseWindow_positive {params rest : List (String × String)} {window : Window}
    (parsed : parseWindow params = .ok (window, rest)) : 0 < window.limit := by
  exact pass_keeps (fun _ => True) (fun state : Window × List (String × String) => 0 < state.1.limit)
    (fun _ => windowParam_positive) (fun _ _ => trivial) (by decide) parsed

/-- A read goes ahead only where every fold has a history. -/
theorem check_ok {columns : List (HistoryColumn spelling language)} :
    check columns = .ok () ↔ ∀ column ∈ columns, column.rangedThrough = none := by
  unfold check
  cases without : columns.filter fun column => column.rangedThrough.isSome with
  | nil =>
      refine ⟨fun _ column member => ?_, fun _ => rfl⟩
      exact Option.not_isSome_iff_eq_none.mp (List.filter_eq_nil_iff.mp without column member)
  | cons column rest =>
      refine ⟨fun refused => ?_, fun all => ?_⟩
      · cases refused
      have ranged := List.mem_filter.mp (without ▸ List.mem_cons_self : column ∈ columns.filter _)
      rw [all column ranged.1] at ranged
      cases ranged.2

/-- What the log has of a key, for columns that each have a fold of their own: records in
the order of the log, whose values their columns serve. -/
structure Recorded (source : Source language) (table : String) (parts : List (String × Reads.FieldMeta))
    (key : FoldKey) (columns : List (HistoryColumn spelling language)) where
  visits : HistoryColumn spelling language → Visits language
  folds : (columns.map HistoryColumn.fold).Nodup
  visited : ∀ column ∈ columns, ∃ args, argsOf source parts column key = .ok args ∧
    source.visits column.fold args = .ok (visits column)
  rising : ∀ column ∈ columns, ((visits column).map Prod.fst).Pairwise (· < ·)
  bounded : ∀ column ∈ columns, ∀ visit ∈ visits column, visit.1 + 1 < 2 ^ 64
  seeds : ∀ column ∈ columns, Shows source table column.toFoldColumn column.seed
  shows : ∀ column ∈ columns, ∀ visit ∈ visits column, Shows source table column.toFoldColumn visit.2

instance : IsStrictTotalOrder (Nat × Nat) newer where
  irrefl one below := by
    unfold newer at below
    omega
  trans one middle other upper lower := by
    unfold newer at *
    omega
  trichotomous one other := by
    intro above below
    unfold newer at above below
    exact Prod.ext (by omega) (by omega)

namespace Recorded

variable {source : Source language} {table : String} {parts : List (String × Reads.FieldMeta)} {key : FoldKey}
  {columns : List (HistoryColumn spelling language)} (recorded : Recorded source table parts key columns)

/-- The records of a fold below a head. -/
def below (column : HistoryColumn spelling language) (head : Nat) : Visits language :=
  (recorded.visits column).filter fun visit => visit.1 < head

/-- What a read to a head folds, in all columns. -/
def size (head : Nat) : Nat := (columns.map fun column => (recorded.below column head).length).sum

/-- The changes of a column, oldest first, as it serves them. -/
def changed (column : HistoryColumn spelling language) (head : Nat) : List (Nat × Json × Json) :=
  changes (Alike source table column.toFoldColumn) (shown source table column.toFoldColumn) column.seed
    ((recorded.below column head).map fun visit => (visit.1 + 1, visit.2))

/-- What a read collects of one column, and of all of them. -/
def stepsOf (head : Nat) (column : HistoryColumn spelling language × Nat) : List (Step language) :=
  stepsFrom source table column.1.toFoldColumn column.2 column.1.seed (recorded.below column.1 head)

def steps (head : Nat) : List (Step language) := columns.zipIdx.flatMap (recorded.stepsOf head)

/-- The records below a head stay as the log grows, and others come after them. -/
theorem below_grown {column : HistoryColumn spelling language} (known : column ∈ columns) {head later : Nat}
    (grown : head ≤ later) : ∃ more, recorded.below column later = recorded.below column head ++ more ∧
      ∀ visit ∈ more, head ≤ visit.1 := by
  have rising := recorded.rising column known
  unfold below
  generalize recorded.visits column = visits at rising
  refine ⟨visits.filter fun visit => head ≤ visit.1 && visit.1 < later, ?_, ?_⟩
  · induction visits with
    | nil => rfl
    | cons visit rest ih =>
        rw [List.map_cons, List.pairwise_cons] at rising
        have further := ih rising.2
        by_cases here : visit.1 < head
        · have later_ : visit.1 < later := lt_of_lt_of_le here grown
          simp [here, later_, further]
        · have none_ : rest.filter (fun visit => visit.1 < head) = [] := by
            rw [List.filter_eq_nil_iff]
            intro other member under
            have above := rising.1 _ (List.mem_map_of_mem member)
            have under := of_decide_eq_true under
            omega
          have front : (visit :: rest).filter (fun visit => visit.1 < head) = [] := by
            rw [List.filter_cons_of_neg (by simpa using here), none_]
          rw [none_, List.nil_append] at further
          rw [front, List.nil_append, List.filter_cons, List.filter_cons, further]
          simp [Nat.not_lt.mp here]
  · intro visit member
    have test := (List.mem_filter.mp member).2
    simp at test
    exact test.1

theorem known_of_zipIdx {column : HistoryColumn spelling language × Nat} (member : column ∈ columns.zipIdx) :
    column.1 ∈ columns ∧ columns[column.2]? = some column.1 := by
  have found := List.mem_zipIdx_iff_getElem?.mp member
  exact ⟨List.mem_of_getElem? found, found⟩

theorem stepped {head : Nat} {column : HistoryColumn spelling language × Nat} (member : column ∈ columns.zipIdx) :
    ∀ step ∈ recorded.stepsOf head column, Stepped source table column.1.toFoldColumn column.2
      (recorded.below column.1 head) step := by
  have known := (known_of_zipIdx member).1
  refine mem_stepsFrom (recorded.seeds _ known) ?_
  intro visit held
  exact recorded.shows _ known visit (List.mem_of_mem_filter held)

/-- The steps of a column stand in the order of the log. -/
theorem stepsOf_rising (head : Nat) {column : HistoryColumn spelling language × Nat}
    (known : column.1 ∈ columns) :
    ((recorded.stepsOf head column).map Step.position).Pairwise (· < ·) := by
  have rising := (recorded.rising _ known).sublist
    ((List.filter_sublist (p := fun visit => visit.1 < head)).map Prod.fst)
  refine List.Pairwise.sublist (stepsFrom_positions _ _ _) ?_
  rw [List.pairwise_map] at rising ⊢
  exact rising.imp fun less => Nat.succ_lt_succ less

/-- No two steps are of one column at one position. -/
theorem places_nodup (head : Nat) : ((recorded.steps head).map Step.place).Nodup := by
  unfold steps
  rw [List.map_flatMap, List.nodup_flatMap]
  constructor
  · intro column member
    have rising := recorded.stepsOf_rising head (known_of_zipIdx member).1
    rw [List.nodup_iff_pairwise_ne, List.pairwise_map]
    rw [List.pairwise_map] at rising
    exact rising.imp fun less same => absurd (congrArg Prod.fst same) less.ne
  · have indices : (columns.zipIdx.map Prod.snd).Nodup := by
      rw [List.zipIdx_map_snd]
      exact List.nodup_range' _
    rw [List.nodup_iff_pairwise_ne, List.pairwise_map] at indices
    refine indices.imp_of_mem ?_
    intro one other member member' apart place first second
    obtain ⟨step, held, rfl⟩ := List.mem_map.mp first
    obtain ⟨step', held', same⟩ := List.mem_map.mp second
    have column := congrArg Prod.snd same
    change step'.column = step.column at column
    rw [(recorded.stepped member step held).placed, (recorded.stepped member' step' held').placed] at column
    exact apart column.symm

/-! ## What a read collects -/

theorem foldColumn_ok (sound : source.Sound) {head folded : Nat} {steps : List (Step language)}
    {column : HistoryColumn spelling language × Nat} (known : column.1 ∈ columns)
    (few : folded + (recorded.below column.1 head).length ≤ maxFolded) :
    foldColumn source table parts key head (folded, steps) column =
      .ok (folded + (recorded.below column.1 head).length, steps ++ recorded.stepsOf head column) := by
  obtain ⟨args, read, visited⟩ := recorded.visited _ known
  have below : source.foldSteps column.1.fold args head = .ok (recorded.below column.1 head) := by
    unfold Source.foldSteps
    rw [visited]
    rfl
  refine bind_ok.mpr ⟨_, mapError_ok.mpr read, bind_ok.mpr ⟨_, mapError_ok.mpr below,
    bind_ok.mpr ⟨_, visits_ok sound few (recorded.seeds _ known) ?_, rfl⟩⟩⟩
  exact fun visit held => recorded.shows _ known visit (List.mem_of_mem_filter held)

theorem foldColumns_ok (sound : source.Sound) {head folded : Nat} (steps : List (Step language))
    {some_ : List (HistoryColumn spelling language × Nat)} (known : ∀ column ∈ some_, column.1 ∈ columns)
    (few : folded + (some_.map fun column => (recorded.below column.1 head).length).sum ≤ maxFolded) :
    some_.foldlM (foldColumn source table parts key head) (folded, steps) =
      .ok (folded + (some_.map fun column => (recorded.below column.1 head).length).sum,
        steps ++ some_.flatMap (recorded.stepsOf head)) := by
  induction some_ generalizing folded steps with
  | nil =>
      rw [List.flatMap_nil, List.append_nil]
      rfl
  | cons column rest ih =>
      rw [List.map_cons, List.sum_cons] at few ⊢
      have under : folded + (recorded.below column.1 head).length ≤ maxFolded := by omega
      refine bind_ok.mpr ⟨_, recorded.foldColumn_ok sound (known _ List.mem_cons_self) under, ?_⟩
      rw [ih _ (fun other member => known other (List.mem_cons_of_mem _ member)) (by omega), List.flatMap_cons,
        List.append_assoc, Nat.add_assoc]

/-- A read folds every column, where there is not too much to fold. -/
theorem folded_ok (sound : source.Sound) {head : Nat} (few : recorded.size head ≤ maxFolded) :
    columns.zipIdx.foldlM (foldColumn source table parts key head) (0, []) =
      .ok (recorded.size head, recorded.steps head) := by
  have sizes : (columns.zipIdx.map fun column => (recorded.below column.1 head).length) =
      columns.map fun column => (recorded.below column head).length := by
    have mapped := congrArg (List.map fun column => (recorded.below column head).length)
      (List.zipIdx_map_fst 0 columns)
    rwa [List.map_map] at mapped
  unfold size at few ⊢
  rw [← sizes] at few ⊢
  have whole := recorded.foldColumns_ok sound [] (fun column member => (known_of_zipIdx member).1)
    (by rw [Nat.zero_add]; exact few)
  rw [whole, Nat.zero_add]
  rfl

/-! ## The order of a history -/

/-- Every step of the columns below a head, newest first. -/
def sorted (head : Nat) : List (Step language) := ordered newer Step.place (recorded.steps head)

theorem sorted_newer (head : Nat) :
    (recorded.sorted head).Pairwise fun one other => newer one.place other.place :=
  ordered_pairwise newer Step.place (recorded.places_nodup head)

theorem mem_sorted {head : Nat} {step : Step language} :
    step ∈ recorded.sorted head ↔ step ∈ recorded.steps head :=
  (ordered_perm newer Step.place _).mem_iff

/-- Positions never rise. -/
theorem sorted_falling (head : Nat) :
    (recorded.sorted head).Pairwise fun one other => other.position ≤ one.position :=
  (recorded.sorted_newer head).imp fun later => later.elim (fun less => less.le) fun same => same.1.ge

theorem position_le {head : Nat} {column : HistoryColumn spelling language × Nat}
    (member : column ∈ columns.zipIdx) {step : Step language} (held : step ∈ recorded.stepsOf head column) :
    step.position ≤ head := by
  obtain ⟨visit, visited, same⟩ := List.mem_map.mp (recorded.stepped member step held).visited
  have below := of_decide_eq_true (List.mem_filter.mp visited).2
  omega

/-- The steps below a head are there as the log grows. -/
theorem stepsOf_grown {head later : Nat} (grown : head ≤ later)
    {column : HistoryColumn spelling language × Nat} (member : column ∈ columns.zipIdx) :
    (recorded.stepsOf later column).filter (fun step => step.position ≤ head) = recorded.stepsOf head column := by
  obtain ⟨more, split, above⟩ := recorded.below_grown (known_of_zipIdx member).1 grown
  have kept : (recorded.stepsOf head column).filter (fun step => step.position ≤ head) =
      recorded.stepsOf head column := by
    rw [List.filter_eq_self]
    exact fun step held => decide_eq_true (recorded.position_le member held)
  rw [stepsOf, split, stepsFrom_append, List.filter_append]
  change (recorded.stepsOf head column).filter _ ++ _ = _
  rw [kept]
  rw [List.filter_eq_nil_iff.mpr, List.append_nil]
  intro step held
  have position := (stepsFrom_positions _ _ more).subset (List.mem_map_of_mem held)
  obtain ⟨visit, visited, same⟩ := List.mem_map.mp position
  have beyond := above visit visited
  rw [decide_eq_true_eq]
  omega

theorem sorted_grown {head later : Nat} (grown : head ≤ later) :
    (recorded.sorted later).filter (fun step => step.position ≤ head) = recorded.sorted head := by
  unfold sorted
  rw [← ordered_filter newer Step.place (recorded.places_nodup later), steps, steps, List.filter_flatMap]
  exact congrArg _ (List.flatMap_congr fun column member => recorded.stepsOf_grown grown member)

/-- The steps of one column, newest first. -/
theorem sorted_column (head : Nat) {column : HistoryColumn spelling language × Nat}
    (member : column ∈ columns.zipIdx) :
    (recorded.sorted head).filter (fun step => step.column = column.2) =
      (recorded.stepsOf head column).reverse := by
  have mine : (recorded.steps head).filter (fun step => step.column = column.2) =
      recorded.stepsOf head column := by
    have indices : (columns.zipIdx.map Prod.snd).Nodup := by
      rw [List.zipIdx_map_snd]
      exact List.nodup_range' _
    unfold steps
    obtain ⟨front, back, split⟩ := List.append_of_mem member
    rw [split, List.map_append, List.map_cons] at indices
    have others {some_ : List (HistoryColumn spelling language × Nat)}
        (known : ∀ other ∈ some_, other ∈ columns.zipIdx ∧ other.2 ≠ column.2) :
        (some_.flatMap (recorded.stepsOf head)).filter (fun step => step.column = column.2) = [] := by
      rw [List.filter_eq_nil_iff]
      intro step held
      obtain ⟨other, listed, held⟩ := List.mem_flatMap.mp held
      rw [decide_eq_true_eq, (recorded.stepped (known other listed).1 step held).placed]
      exact (known other listed).2
    have itself : (recorded.stepsOf head column).filter (fun step => step.column = column.2) =
        recorded.stepsOf head column := by
      rw [List.filter_eq_self]
      exact fun step held => decide_eq_true (recorded.stepped member step held).placed
    rw [split, List.flatMap_append, List.flatMap_cons, List.filter_append, List.filter_append, itself,
      others, others, List.nil_append, List.append_nil]
    · intro other listed
      refine ⟨split ▸ List.mem_append_right _ (List.mem_cons_of_mem _ listed), fun same => ?_⟩
      have apart := (List.nodup_cons.mp (List.nodup_append.mp indices).2.1).1
      exact apart (same ▸ List.mem_map_of_mem listed)
    · intro other listed
      refine ⟨split ▸ List.mem_append_left _ listed, fun same => ?_⟩
      exact (List.nodup_append.mp indices).2.2 _ (List.mem_map_of_mem listed) _ List.mem_cons_self same
  unfold sorted
  rw [← ordered_filter newer Step.place (recorded.places_nodup head), mine]
  refine ordered_unique newer Step.place ?_ (List.reverse_perm _)
  have rising := recorded.stepsOf_rising head (known_of_zipIdx member).1
  rw [List.pairwise_map] at rising
  exact List.pairwise_reverse.mpr (rising.imp fun less => .inl less)

end Recorded

end Hekla.Language.History
