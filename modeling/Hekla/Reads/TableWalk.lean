import Hekla.Reads.TableSound
import Mathlib.Data.List.Perm.Subperm

/-!
# The one order that a scan walks

A table declares its key, the indexes of its ranged arms and an index for each
`@index`.  A scan that asks for no order and filters no fold seeks along one of
them; any other scan walks one `@index`, which is the one it asks for or the only
one that what it pins leads.
-/

namespace Hekla.Reads.Tables

open Hekla.Library Hekla.Host
open Hekla.Derived (FieldKind IndexDef)

/-! ## What is asked for -/

/-- The key parts and the folds' columns that a request pins, the one of either that
it bounds, and the fold that it orders by, in which direction. -/
structure Asked where
  parts : List String
  part : Option String
  folds : List String
  fold : Option String
  order : Option (Bool × String)

def Reading.asked (reading : Reading) : Asked where
  parts := reading.scan.equals.map Prod.fst
  part := reading.scan.range.map Prod.fst
  folds := reading.scan.values.map Prod.fst
  fold := reading.scan.valueRange.map Prod.fst
  order := reading.orderBy.map splitDash

/-- What is pinned is a run that leads an order, in whichever order it is pinned, and
what is bounded is the column right after it. -/
def Leads (columns pinned : List String) (bounded : Option String) : Prop :=
  ∃ run rest, columns = run ++ rest ∧ run.Perm pinned ∧
    ∀ column, bounded = some column → rest.head? = some column

/-- An `@index` is walked where what leads it is pinned, and nothing else but the fold
it orders by, which may be bounded instead. -/
def Walks (sort : SortDef) (asked : Asked) : Prop :=
  sort.lead.Perm asked.parts ∧
    ((sort.values ++ [sort.column]).Perm asked.folds ∧ asked.fold = none ∨
      sort.values.Perm asked.folds ∧ ∀ column, asked.fold = some column → column = sort.column)

/-- The order that a scan walks. -/
inductive OneOrder (sel : Selection) (asked : Asked) : Option Order → Prop where
  | seek (orderless : asked.order = none) (unfiltered : asked.folds = []) (unbounded : asked.fold = none)
      {columns : List String} (declared : columns ∈ leads sel.main)
      (led : Leads columns asked.parts asked.part) : OneOrder sel asked none
  | ordered {sort : SortDef} {descending : Bool} {fold : String} (declared : sort ∈ sel.main.sorts)
      (asks : asked.order = some (descending, fold)) (named : sel.foldOf sort.column = fold)
      (walks : Walks sort asked) (unranged : asked.part = none) :
      OneOrder sel asked (some ⟨sort.column, descending⟩)
  | implied {sort : SortDef} (declared : sort ∈ sel.main.sorts) (orderless : asked.order = none)
      (filtered : asked.folds ≠ [] ∨ asked.fold ≠ none) (walks : Walks sort asked)
      (alone : ∀ other ∈ sel.main.sorts, Walks other asked → other.column = sort.column)
      (unranged : asked.part = none) : OneOrder sel asked (some ⟨sort.column, false⟩)

/-- The columns of the index that an `@index` declares: what leads it, the fold, and
the rest of the key. -/
def walkOf (table : TableDef) (sort : SortDef) : List String :=
  sort.lead ++ sort.values ++ sort.column :: (table.key.map Prod.fst).filter (!sort.lead.contains ·)

/-- What the layout of a checked program gives the orders of a table: no column stands
twice in one, each `@index` has its index, and a column is known by its fold, whose
name is capitalised. -/
structure Arranged (table : TableDef) : Prop where
  folds : (table.columns.map ColumnDef.fold).Nodup
  capitals : ∀ column ∈ table.columns, startsUpper column.fold = true
  distinct : ∀ columns ∈ leads table, columns.Nodup
  sorts : ∀ sort ∈ table.sorts, walkOf table sort ∈ leads table

variable {spelling : Spelling} {sel : Selection} {sort : SortDef}

/-! ## Seeks -/

theorem perm_of_contains {some_ others : List String} (distinct : some_.Nodup)
    (listed : some_.all (others.contains ·) = true) (width : others.length ≤ some_.length) :
    some_.Perm others := by
  refine (distinct.subperm ?_).perm_of_length_le width
  intro item member
  simpa using List.all_eq_true.mp listed item member

theorem contains_of_perm {some_ others : List String} (perm : some_.Perm others) :
    some_.all (others.contains ·) = true := by
  refine List.all_eq_true.mpr ?_
  intro item member
  simpa using perm.mem_iff.mp member

theorem samePins_iff {lead pinned : List String} (distinct : lead.Nodup) :
    samePins lead pinned = true ↔ lead.Perm pinned := by
  unfold samePins
  rw [Bool.and_eq_true, beq_iff_eq]
  constructor
  · rintro ⟨width, listed⟩
    exact perm_of_contains distinct listed width.ge
  · intro perm
    exact ⟨perm.length_eq, contains_of_perm perm⟩

/-- A filter is served exactly where it leads a declared order. -/
theorem servable_iff {table : TableDef} (arranged : Arranged table) (equals : List (String × String))
    (ranged : Option String) :
    servable table equals ranged = true ↔
      ∃ columns ∈ leads table, Leads columns (equals.map Prod.fst) ranged := by
  unfold servable
  rw [List.any_eq_true]
  refine exists_congr fun columns => and_congr_right fun declared => ?_
  rw [Bool.and_eq_true, Bool.and_eq_true, decide_eq_true_iff]
  constructor
  · rintro ⟨⟨width, listed⟩, after⟩
    refine ⟨columns.take equals.length, columns.drop equals.length, (List.take_append_drop _ _).symm, ?_, ?_⟩
    · refine perm_of_contains ((arranged.distinct columns declared).sublist (List.take_sublist _ _)) listed ?_
      rw [List.length_map, List.length_take]
      exact Nat.le_min.mpr ⟨le_refl _, width⟩
    · rintro column rfl
      rw [List.head?_drop]
      simpa using after
  · rintro ⟨run, rest, rfl, perm, after⟩
    have width : run.length = equals.length := by
      rw [perm.length_eq, List.length_map]
    rw [← width, List.take_left, List.length_append]
    refine ⟨⟨Nat.le_add_right _ _, contains_of_perm perm⟩, ?_⟩
    cases ranged with
    | none => rfl
    | some column =>
        rw [Option.all_some, beq_iff_eq, List.getElem?_append_right (le_refl _), Nat.sub_self,
          ← List.head?_eq_getElem?]
        exact after column rfl

/-! ## Walks -/

theorem walkOf_nodup (arranged : Arranged sel.main) (declared : sort ∈ sel.main.sorts) :
    (sort.lead ++ (sort.values ++ [sort.column])).Nodup := by
  have distinct := arranged.distinct _ (arranged.sorts sort declared)
  unfold walkOf at distinct
  rw [List.append_cons, List.append_assoc] at distinct
  refine distinct.sublist ?_
  rw [List.append_assoc, ← List.append_assoc sort.values]
  exact List.Sublist.append_left (List.sublist_append_left _ _) _

theorem lead_nodup (arranged : Arranged sel.main) (declared : sort ∈ sel.main.sorts) : sort.lead.Nodup :=
  (List.nodup_append.mp (walkOf_nodup arranged declared)).1

theorem values_nodup (arranged : Arranged sel.main) (declared : sort ∈ sel.main.sorts) :
    (sort.values ++ [sort.column]).Nodup :=
  (List.nodup_append.mp (walkOf_nodup arranged declared)).2.1

/-- The folds pinned are those that lead an index, and perhaps the one it orders by. -/
theorem folds_iff {values folds : List String} {column : String} (distinct : (values ++ [column]).Nodup)
    (once : folds.Nodup) :
    (values.all (folds.contains ·) = true ∧ ∀ fold ∈ folds, fold = column ∨ fold ∈ values) ↔
      (values ++ [column]).Perm folds ∨ values.Perm folds := by
  have apart := (List.nodup_append.mp distinct).1
  constructor
  · rintro ⟨listed, only⟩
    by_cases pinned : column ∈ folds
    · left
      refine (List.perm_ext_iff_of_nodup distinct once).mpr ?_
      intro fold
      rw [List.mem_append, List.mem_singleton]
      constructor
      · rintro (member | rfl)
        · simpa using List.all_eq_true.mp listed fold member
        · exact pinned
      · intro member
        exact (only fold member).symm
    · right
      refine (List.perm_ext_iff_of_nodup apart once).mpr ?_
      intro fold
      constructor
      · intro member
        simpa using List.all_eq_true.mp listed fold member
      · intro member
        refine (only fold member).resolve_left ?_
        rintro rfl
        exact pinned member
  · rintro (perm | perm)
    · constructor
      · refine List.all_eq_true.mpr ?_
        intro fold member
        simpa using perm.mem_iff.mp (List.mem_append_left _ member)
      · intro fold member
        simpa [or_comm] using perm.mem_iff.mpr member
    · exact ⟨contains_of_perm perm, fun fold member => .inr (perm.mem_iff.mpr member)⟩

/-- An index that a scan fits is one that it walks. -/
theorem fits_iff (arranged : Arranged sel.main) (declared : sort ∈ sel.main.sorts) {reading : Reading}
    (once : (reading.scan.values.map Prod.fst).Nodup) :
    fits reading.scan sort = true ↔ Walks sort reading.asked := by
  have distinct := values_nodup arranged declared
  have alone : sort.column ∉ sort.values := by
    intro member
    exact (List.nodup_append.mp distinct).2.2 _ member _ (List.mem_singleton_self _) rfl
  have folds := folds_iff distinct once
  unfold fits Walks Reading.asked
  dsimp only
  rw [Bool.and_eq_true, Bool.and_eq_true, Bool.and_eq_true, samePins_iff (lead_nodup arranged declared)]
  have listed : ((reading.scan.values.map Prod.fst).all fun column =>
      column == sort.column || sort.values.contains column) = true ↔
        ∀ fold ∈ reading.scan.values.map Prod.fst, fold = sort.column ∨ fold ∈ sort.values := by
    simp
  rw [listed, and_assoc, and_assoc, ← and_assoc (b := ∀ fold ∈ _, _), folds]
  refine and_congr_right fun _ => ?_
  constructor
  · rintro ⟨perm, bounded⟩
    rcases perm with perm | perm
    · have pinned : sort.column ∈ reading.scan.values.map Prod.fst :=
        perm.mem_iff.mp (List.mem_append_right _ (List.mem_singleton_self _))
      refine .inl ⟨perm, ?_⟩
      cases ranged : reading.scan.valueRange with
      | none => rfl
      | some range =>
          rw [ranged, Option.all_some, Bool.and_eq_true] at bounded
          simp [pinned] at bounded
    · refine .inr ⟨perm, ?_⟩
      intro column asked
      obtain ⟨range, ranged, rfl⟩ := Option.map_eq_some_iff.mp asked
      rw [ranged, Option.all_some, Bool.and_eq_true, beq_iff_eq] at bounded
      exact bounded.1
  · rintro (⟨perm, unbounded⟩ | ⟨perm, bounded⟩)
    · rw [Option.map_eq_none_iff] at unbounded
      rw [unbounded]
      exact ⟨.inl perm, rfl⟩
    · refine ⟨.inr perm, ?_⟩
      cases ranged : reading.scan.valueRange with
      | none => rfl
      | some range =>
          have same := bounded range.1 (by rw [ranged]; rfl)
          have free : sort.column ∉ reading.scan.values.map Prod.fst := fun member =>
            alone (perm.mem_iff.mpr member)
          rw [Option.all_some, Bool.and_eq_true, beq_iff_eq]
          exact ⟨same, by simpa using free⟩

/-! ## Orderings -/

/-- A column that is ordered by is known by its fold. -/
theorem column_of_fold (formed : sel.main.Formed spelling) (arranged : Arranged sel.main)
    {other : SortDef} (declared : sort ∈ sel.main.sorts) (declared' : other ∈ sel.main.sorts)
    (same : sel.foldOf sort.column = sel.foldOf other.column) : sort.column = other.column := by
  obtain ⟨one, named, -⟩ := formed.sorts sort declared
  obtain ⟨two, named', -⟩ := formed.sorts other declared'
  unfold Selection.foldOf at same
  rw [named, named', Option.elim_some, Option.elim_some] at same
  obtain ⟨member, name⟩ := TableDef.column_mem named
  obtain ⟨member', name'⟩ := TableDef.column_mem named'
  rw [← name, ← name', List.inj_on_of_nodup_map arranged.folds member member' same]

/-- The name of a fold is not one that is reversed. -/
theorem splitDash_foldOf (formed : sel.main.Formed spelling) (arranged : Arranged sel.main)
    (declared : sort ∈ sel.main.sorts) :
    splitDash (sel.foldOf sort.column) = (false, sel.foldOf sort.column) := by
  obtain ⟨column, named, -⟩ := formed.sorts sort declared
  have capital := arranged.capitals column (TableDef.column_mem named).1
  have fold : sel.foldOf sort.column = column.fold := by
    unfold Selection.foldOf
    rw [named, Option.elim_some]
  rw [fold]
  unfold startsUpper at capital
  unfold splitDash
  split
  · next rest dashed =>
      rw [dashed] at capital
      have lower : ('-' : Char).isUpper = true := capital
      exact absurd lower (by decide)
  · rfl

theorem ordered_ok_iff (formed : sel.main.Formed spelling) (arranged : Arranged sel.main)
    {reading : Reading} (once : (reading.scan.values.map Prod.fst).Nodup) {raw : String}
    {filtering : Bool} {order : Order} :
    ordered sel reading.scan raw filtering = .ok order ↔
      ∃ sort ∈ sel.main.sorts, sel.foldOf sort.column = (splitDash raw).2 ∧
        Walks sort reading.asked ∧ reading.asked.part = none ∧
        order = ⟨sort.column, (splitDash raw).1⟩ := by
  have unranged : reading.asked.part = none ↔ reading.scan.range = none := Option.map_eq_none_iff
  have listed {sort : SortDef} :
      sort ∈ sel.main.sorts.filter (fun sort => sel.foldOf sort.column == (splitDash raw).2) ↔
        sort ∈ sel.main.sorts ∧ sel.foldOf sort.column = (splitDash raw).2 := by
    rw [List.mem_filter, beq_iff_eq]
  unfold ordered
  dsimp only
  cases found : sel.main.sorts.filter fun sort => sel.foldOf sort.column == (splitDash raw).2 with
  | nil =>
      rw [found] at listed
      constructor
      · exact nofun
      · rintro ⟨sort, declared, named, -⟩
        cases listed.mpr ⟨declared, named⟩
  | cons first rest =>
      rw [found] at listed
      obtain ⟨declared, named⟩ := listed.mp List.mem_cons_self
      dsimp only
      constructor
      · intro made
        split at made
        · cases made
        · next walked =>
            rw [Bool.or_eq_true, not_or, Bool.not_eq_true, Option.isSome_eq_false_iff,
              Option.isNone_iff_eq_none, Bool.not_eq_true', Bool.not_eq_false, List.any_eq_true] at walked
            obtain ⟨free, sort, member, fitting⟩ := walked
            obtain ⟨declared', named'⟩ := listed.mp member
            have same := column_of_fold formed arranged declared declared' (named.trans named'.symm)
            refine ⟨sort, declared', named', (fits_iff arranged declared' once).mp fitting,
              unranged.mpr free, ?_⟩
            rw [← same]
            exact (Except.ok.inj made).symm
      · rintro ⟨sort, declared', named', walks, free, rfl⟩
        have fitting : (first :: rest).any (fits reading.scan) = true :=
          List.any_eq_true.mpr ⟨sort, listed.mpr ⟨declared', named'⟩, (fits_iff arranged declared' once).mpr walks⟩
        rw [unranged.mp free, fitting, column_of_fold formed arranged declared declared' (named.trans named'.symm)]
        rfl

/-- A value filter leaves one ordering where all the indexes that it walks order by one
column. -/
theorem eraseReps_eq_singleton {items : List String} {item : String} :
    items.eraseReps = [item] ↔ items ≠ [] ∧ ∀ other ∈ items, other = item := by
  have loop (last : String) (rest done : List String) :
      List.eraseRepsBy.loop (· == ·) last rest done = [item] ↔
        done = [] ∧ last = item ∧ ∀ other ∈ rest, other = item := by
    induction rest generalizing last done with
    | nil =>
        cases done with
        | nil => simp [List.eraseRepsBy.loop]
        | cons one others =>
            constructor
            · intro single
              have width := congrArg List.length single
              simp [List.eraseRepsBy.loop] at width
            · rintro ⟨none_, -⟩
              cases none_
    | cons next rest ih =>
        unfold List.eraseRepsBy.loop
        cases same : last == next with
        | true =>
            rw [beq_iff_eq] at same
            subst same
            dsimp only
            rw [ih, List.forall_mem_cons]
            tauto
        | false =>
            dsimp only
            rw [ih, List.forall_mem_cons]
            rw [beq_eq_false_iff_ne] at same
            constructor
            · rintro ⟨none_, -⟩
              cases none_
            · rintro ⟨-, rfl, rfl, -⟩
              exact absurd rfl same
  cases items with
  | nil => simp [List.eraseReps, List.eraseRepsBy]
  | cons first rest =>
      change List.eraseRepsBy.loop (· == ·) first rest [] = [item] ↔ _
      rw [loop, List.forall_mem_cons]
      simp

theorem eraseReps_eq_nil {items : List String} (none_ : items.eraseReps = []) : items = [] := by
  have loop (last : String) (rest done : List String) :
      List.eraseRepsBy.loop (· == ·) last rest done ≠ [] := by
    induction rest generalizing last done with
    | nil => simp [List.eraseRepsBy.loop]
    | cons next rest ih =>
        unfold List.eraseRepsBy.loop
        cases last == next with
        | true => exact ih last done
        | false => exact ih next (last :: done)
  cases items with
  | nil => rfl
  | cons first rest => exact absurd none_ (loop first rest [])

theorem covers_iff (arranged : Arranged sel.main) (declared : sort ∈ sel.main.sorts) {folds : List String} :
    covers folds sort = true ↔ (sort.values ++ [sort.column]).Perm folds ∨ sort.values.Perm folds := by
  have distinct := values_nodup arranged declared
  have apart := (List.nodup_append.mp distinct).1
  have alone : sort.column ∉ sort.values := by
    intro member
    exact (List.nodup_append.mp distinct).2.2 _ member _ (List.mem_singleton_self _) rfl
  unfold covers
  rw [Bool.and_eq_true, beq_iff_eq]
  by_cases pinned : sort.column ∈ folds
  · rw [if_pos (by simpa using pinned)]
    constructor
    · rintro ⟨width, listed⟩
      refine .inl (perm_of_contains distinct ?_ ?_)
      · rw [List.all_append, listed]
        simpa using pinned
      · rw [← width, List.length_append, List.length_singleton]
    · rintro (perm | perm)
      · refine ⟨?_, ?_⟩
        · rw [← perm.length_eq, List.length_append, List.length_singleton]
        · exact (List.all_append ▸ contains_of_perm perm |> fun both => (Bool.and_eq_true _ _ ▸ both).1)
      · exact absurd (perm.mem_iff.mpr pinned) alone
  · rw [if_neg (by simpa using pinned)]
    constructor
    · rintro ⟨width, listed⟩
      exact .inr (perm_of_contains apart listed width.ge)
    · rintro (perm | perm)
      · exact absurd (perm.mem_iff.mp (List.mem_append_right _ (List.mem_singleton_self _))) pinned
      · exact ⟨perm.length_eq, contains_of_perm perm⟩

/-- Where no fold is bounded, an index that a value filter covers and that the pinned
parts lead is one that it walks. -/
theorem walks_iff (arranged : Arranged sel.main) (declared : sort ∈ sel.main.sorts) {reading : Reading}
    (unbounded : reading.asked.fold = none) :
    (covers (reading.scan.values.map Prod.fst) sort &&
      samePins sort.lead (reading.scan.equals.map Prod.fst)) = true ↔ Walks sort reading.asked := by
  rw [Bool.and_eq_true, covers_iff arranged declared, samePins_iff (lead_nodup arranged declared), and_comm]
  unfold Walks
  rw [unbounded]
  simp [Reading.asked]

/-- The columns of the indexes that a value filter walks. -/
theorem mem_fitting (arranged : Arranged sel.main) {reading : Reading}
    (unbounded : reading.asked.fold = none) {column : String} :
    column ∈ ((sel.main.sorts.filter fun sort =>
      covers (reading.scan.values.map Prod.fst) sort &&
        samePins sort.lead (reading.scan.equals.map Prod.fst)).map SortDef.column) ↔
      ∃ sort ∈ sel.main.sorts, Walks sort reading.asked ∧ sort.column = column := by
  rw [List.mem_map]
  refine exists_congr fun sort => ?_
  rw [List.mem_filter, and_assoc]
  exact and_congr_right fun declared => and_congr_left' (walks_iff arranged declared unbounded)

/-- The ordering that is implied is one that no other column's index could be walked for. -/
theorem alone_of_implied (arranged : Arranged sel.main) {reading : Reading} {raw : String}
    (implied : impliedOrder sel reading.scan = .ok (some raw)) :
    (reading.asked.folds ≠ [] ∨ reading.asked.fold ≠ none) ∧
      ∀ sort ∈ sel.main.sorts, Walks sort reading.asked → raw = sel.foldOf sort.column ∧
        ∀ other ∈ sel.main.sorts, Walks other reading.asked → other.column = sort.column := by
  unfold impliedOrder at implied
  cases ranged : reading.scan.valueRange with
  | some range =>
      have bounded : reading.asked.fold = some range.1 := by
        unfold Reading.asked
        rw [ranged]
        rfl
      have column {sort : SortDef} (walks : Walks sort reading.asked) : sort.column = range.1 := by
        rcases walks.2 with ⟨-, none_⟩ | ⟨-, same⟩
        · rw [bounded] at none_
          cases none_
        · exact (same _ bounded).symm
      refine ⟨.inr (by rw [bounded]; exact Option.some_ne_none _), ?_⟩
      intro sort _ walks
      rw [ranged] at implied
      refine ⟨?_, fun other _ walks' => (column walks').trans (column walks).symm⟩
      rw [column walks]
      exact (Option.some.inj (Except.ok.inj implied)).symm
  | none =>
      have unbounded : reading.asked.fold = none := by
        unfold Reading.asked
        rw [ranged]
        rfl
      rw [ranged] at implied
      dsimp only at implied
      cases pinned : reading.scan.values.map Prod.fst with
      | nil =>
          rw [pinned] at implied
          cases implied
      | cons first rest =>
          have some_ : reading.asked.folds ≠ [] := by
            change reading.scan.values.map Prod.fst ≠ []
            rw [pinned]
            exact List.cons_ne_nil _ _
          refine ⟨.inl some_, ?_⟩
          rw [pinned] at implied
          dsimp only at implied
          rw [← pinned] at implied
          intro sort declared walks
          have listed := (mem_fitting arranged unbounded).mpr ⟨sort, declared, walks, rfl⟩
          split at implied
          · next column only =>
              have same := (eraseReps_eq_singleton.mp only).2
              constructor
              · rw [same _ listed]
                exact (Option.some.inj (Except.ok.inj implied)).symm
              · intro other declared' walks'
                have listed' := (mem_fitting arranged unbounded).mpr ⟨other, declared', walks', rfl⟩
                exact (same _ listed').trans (same _ listed).symm
          · next none_ =>
              rw [eraseReps_eq_nil none_] at listed
              cases listed
          · cases implied

/-- Where only one column's indexes are walked, its fold is the ordering that is implied. -/
theorem implied_of_alone (arranged : Arranged sel.main) {reading : Reading}
    (filtered : reading.asked.folds ≠ [] ∨ reading.asked.fold ≠ none)
    (declared : sort ∈ sel.main.sorts) (walks : Walks sort reading.asked)
    (alone : ∀ other ∈ sel.main.sorts, Walks other reading.asked → other.column = sort.column) :
    impliedOrder sel reading.scan = .ok (some (sel.foldOf sort.column)) := by
  unfold impliedOrder
  cases ranged : reading.scan.valueRange with
  | some range =>
      have bounded : reading.asked.fold = some range.1 := by
        unfold Reading.asked
        rw [ranged]
        rfl
      rcases walks.2 with ⟨-, none_⟩ | ⟨-, same⟩
      · rw [bounded] at none_
        cases none_
      · exact congrArg (fun column => Except.ok (some (sel.foldOf column))) (same _ bounded)
  | none =>
      have unbounded : reading.asked.fold = none := by
        unfold Reading.asked
        rw [ranged]
        rfl
      have some_ : reading.scan.values.map Prod.fst ≠ [] := filtered.resolve_right fun other => other unbounded
      dsimp only
      cases pinned : reading.scan.values.map Prod.fst with
      | nil => exact absurd pinned some_
      | cons first rest =>
          have only : ((sel.main.sorts.filter fun sort => covers (first :: rest) sort &&
              samePins sort.lead (reading.scan.equals.map Prod.fst)).map SortDef.column).eraseReps =
                [sort.column] := by
            rw [← pinned, eraseReps_eq_singleton]
            refine ⟨List.ne_nil_of_mem ((mem_fitting arranged unbounded).mpr ⟨sort, declared, walks, rfl⟩), ?_⟩
            intro column member
            obtain ⟨other, declared', walks', rfl⟩ := (mem_fitting arranged unbounded).mp member
            exact alone other declared' walks'
          dsimp only
          rw [only]

theorem implied_none {reading : Reading} :
    impliedOrder sel reading.scan = .ok none ↔ reading.asked.folds = [] ∧ reading.asked.fold = none := by
  unfold impliedOrder Reading.asked
  cases reading.scan.valueRange with
  | some range => simp
  | none =>
      cases reading.scan.values.map Prod.fst with
      | nil => simp
      | cons first rest =>
          dsimp only
          split <;> simp

/-! ## What is accepted -/

/-- What is pinned leads the index of the `@index` that is walked. -/
theorem leads_of_walks (arranged : Arranged sel.main) (declared : sort ∈ sel.main.sorts) {asked : Asked}
    (walks : Walks sort asked) (unranged : asked.part = none) :
    ∃ columns ∈ leads sel.main, Leads columns asked.parts asked.part := by
  refine ⟨_, arranged.sorts sort declared, sort.lead, _, List.append_assoc _ _ _, walks.1, ?_⟩
  rw [unranged]
  exact nofun

theorem checkValueRange_ok (arranged : Arranged sel.main) {reading : Reading}
    (ordered : ∀ column, reading.asked.fold = some column →
      ∃ sort ∈ sel.main.sorts, sort.column = column ∧ Walks sort reading.asked) :
    checkValueRange sel reading.scan = .ok () := by
  unfold checkValueRange
  cases ranged : reading.scan.valueRange with
  | none => rfl
  | some range =>
      have bounded : reading.asked.fold = some range.1 := by
        unfold Reading.asked
        rw [ranged]
        rfl
      obtain ⟨sort, declared, same, walks⟩ := ordered _ bounded
      have apart : sort.column ∉ reading.scan.values.map Prod.fst := by
        intro member
        rcases walks.2 with ⟨-, none_⟩ | ⟨perm, -⟩
        · rw [bounded] at none_
          cases none_
        · have distinct := values_nodup arranged declared
          exact (List.nodup_append.mp distinct).2.2 _ (perm.mem_iff.mpr member) _ (List.mem_singleton_self _) rfl
      have free : (reading.scan.values.any fun given => given.1 == range.1) = false := by
        rw [List.any_eq_false]
        intro given member pinned
        rw [beq_iff_eq] at pinned
        exact apart (List.mem_map.mpr ⟨given, member, pinned.trans same.symm⟩)
      have named : (sel.main.sorts.any fun sort => sort.column == range.1) = true :=
        List.any_eq_true.mpr ⟨sort, declared, beq_iff_eq.mpr same⟩
      dsimp only
      rw [free, named]
      rfl

theorem checkRange_ok {reading : Reading}
    (apart : ∀ part, reading.asked.part = some part → part ∉ reading.asked.parts) :
    checkRange sel reading.scan = .ok () := by
  unfold checkRange
  cases ranged : reading.scan.range with
  | none => rfl
  | some range =>
      have bounded : reading.asked.part = some range.1 := by
        unfold Reading.asked
        rw [ranged]
        rfl
      have free : (reading.scan.equals.any fun given => given.1 == range.1) = false := by
        rw [List.any_eq_false]
        intro given member pinned
        rw [beq_iff_eq] at pinned
        exact apart _ bounded (List.mem_map.mpr ⟨given, member, pinned⟩)
      dsimp only
      rw [free]
      rfl

theorem checkServable_ok_iff (arranged : Arranged sel.main) {reading : Reading} :
    checkServable sel reading.scan = .ok () ↔
      ∃ columns ∈ leads sel.main, Leads columns reading.asked.parts reading.asked.part := by
  refine Iff.trans ?_ (servable_iff arranged reading.scan.equals (reading.scan.range.map Prod.fst))
  unfold checkServable
  dsimp only
  split
  · next served => simp [served]
  · next refused => simp [refused]

/-- A bounded column is not one of the run before it. -/
theorem Leads.apart {columns pinned : List String} {bounded : Option String} (distinct : columns.Nodup)
    (led : Leads columns pinned bounded) : ∀ column, bounded = some column → column ∉ pinned := by
  obtain ⟨run, rest, rfl, perm, after⟩ := led
  intro column asked member
  obtain ⟨tail, rfl⟩ := List.head?_eq_some_iff.mp (after column asked)
  exact (List.nodup_append.mp distinct).2.2 _ (perm.mem_iff.mpr member) _ List.mem_cons_self rfl

/-- A scan is accepted exactly where one declared order is walked, and in that order. -/
theorem settle_ok_iff (formed : sel.main.Formed spelling) (arranged : Arranged sel.main)
    {reading : Reading} (once : (reading.scan.values.map Prod.fst).Nodup) {order : Option Order} :
    settle sel reading = .ok order ↔ OneOrder sel reading.asked order := by
  constructor
  · intro settled
    obtain ⟨-, -, settled⟩ := bind_ok.mp settled
    obtain ⟨-, -, settled⟩ := bind_ok.mp settled
    obtain ⟨⟨⟩, served, settled⟩ := bind_ok.mp settled
    obtain ⟨columns, declared, led⟩ := (checkServable_ok_iff arranged).mp served
    unfold orderOf at settled
    cases asks : reading.orderBy with
    | some raw =>
        rw [asks] at settled
        dsimp only at settled
        cases made : ordered sel reading.scan raw false with
        | error why =>
            rw [made] at settled
            cases settled
        | ok by_ =>
            rw [made] at settled
            obtain rfl := Except.ok.inj settled
            obtain ⟨sort, declared, named, walks, unranged, rfl⟩ := (ordered_ok_iff formed arranged once).mp made
            exact .ordered declared (by simp [Reading.asked, asks]) named walks unranged
    | none =>
        have orderless : reading.asked.order = none := by simp [Reading.asked, asks]
        rw [asks] at settled
        obtain ⟨implied, found, settled⟩ := bind_ok.mp settled
        cases implied with
        | none =>
            obtain rfl := Except.ok.inj settled
            obtain ⟨unfiltered, unbounded⟩ := implied_none.mp found
            exact .seek orderless unfiltered unbounded declared led
        | some raw =>
            dsimp only at settled
            cases made : ordered sel reading.scan raw true with
            | error why =>
                rw [made] at settled
                cases settled
            | ok by_ =>
                rw [made] at settled
                obtain rfl := Except.ok.inj settled
                obtain ⟨sort, declared, named, walks, unranged, rfl⟩ := (ordered_ok_iff formed arranged once).mp made
                obtain ⟨filtered, alone⟩ := alone_of_implied arranged found
                obtain ⟨rfl, only⟩ := alone sort declared walks
                rw [splitDash_foldOf formed arranged declared]
                exact .implied declared orderless filtered walks only unranged
  · intro accepted
    have settles (range : checkValueRange sel reading.scan = .ok ())
        (part : checkRange sel reading.scan = .ok ())
        (served : ∃ columns ∈ leads sel.main, Leads columns reading.asked.parts reading.asked.part)
        (asks : orderOf sel reading.scan reading.orderBy = .ok order) : settle sel reading = .ok order :=
      bind_ok.mpr ⟨_, range, bind_ok.mpr ⟨_, part, bind_ok.mpr
        ⟨_, (checkServable_ok_iff arranged).mpr served, asks⟩⟩⟩
    have walked {sort : SortDef} (declared : sort ∈ sel.main.sorts) (walks : Walks sort reading.asked)
        (unranged : reading.asked.part = none) (asks : orderOf sel reading.scan reading.orderBy = .ok order) :
        settle sel reading = .ok order := by
      refine settles (checkValueRange_ok arranged ?_) (checkRange_ok ?_)
        (leads_of_walks arranged declared walks unranged) asks
      · intro column bounded
        rcases walks.2 with ⟨-, none_⟩ | ⟨-, same⟩
        · rw [bounded] at none_
          cases none_
        · exact ⟨sort, declared, (same column bounded).symm, walks⟩
      · rw [unranged]
        exact nofun
    cases accepted with
    | seek orderless unfiltered unbounded declared led =>
        refine settles (checkValueRange_ok arranged ?_) (checkRange_ok (led.apart (arranged.distinct _ declared)))
          ⟨_, declared, led⟩ ?_
        · rw [unbounded]
          exact nofun
        · rw [Option.map_eq_none_iff.mp orderless]
          exact bind_ok.mpr ⟨none, implied_none.mpr ⟨unfiltered, unbounded⟩, rfl⟩
    | @ordered sort descending fold declared asks named walks unranged =>
        obtain ⟨raw, asked, split_⟩ := Option.map_eq_some_iff.mp asks
        refine walked declared walks unranged ?_
        rw [asked]
        have made : ordered sel reading.scan raw false = .ok ⟨sort.column, descending⟩ :=
          (ordered_ok_iff formed arranged once).mpr
            ⟨sort, declared, by rw [split_]; exact named, walks, unranged, by rw [split_]⟩
        unfold orderOf
        dsimp only
        rw [made]
        rfl
    | @implied sort declared orderless filtered walks alone unranged =>
        refine walked declared walks unranged ?_
        rw [Option.map_eq_none_iff.mp orderless]
        have dash := splitDash_foldOf formed arranged declared
        have made : ordered sel reading.scan (sel.foldOf sort.column) true = .ok ⟨sort.column, false⟩ :=
          (ordered_ok_iff formed arranged once).mpr
            ⟨sort, declared, by rw [dash], walks, unranged, by rw [dash]⟩
        refine bind_ok.mpr ⟨_, implied_of_alone arranged filtered declared walks alone, ?_⟩
        dsimp only
        rw [made]
        rfl

end Hekla.Reads.Tables
