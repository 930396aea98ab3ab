import Hekla.Library.OrderedSet
import Hekla.Reads.TableWalk

/-!
# The orders of a table that is laid out

A checked program is laid out as one table for each key signature.  Its main table has
an index for the parts that a ranged arm pins, and for each `@index` of a fold one
that holds what leads it, the fold's column and the rest of the key.
-/

namespace Hekla.Reads.Tables

open Hekla.Library Hekla.Host
open Hekla.Derived (FieldKind IndexDef rangedIndex sortIndex)

/-- An `@index`: the places of the key's parts that lead it, and the sibling folds. -/
structure LayoutIndex where
  parts : List Nat
  folds : List String

/-- A fold's column, with the parts of the key that each arm pins. -/
structure LayoutColumn where
  column : ColumnDef
  arms : List (List Bool)
  indexes : List LayoutIndex

structure LayoutTable where
  id : String
  key : List (String × FieldMeta)
  columns : List LayoutColumn

namespace LayoutTable

variable (layout : LayoutTable)

/-- Whether a column belongs in the side table. -/
def collection (column : ColumnDef) : Bool :=
  match column.field.kind.base with
  | .json => true
  | _ => false

def scalars : List ColumnDef := (layout.columns.map LayoutColumn.column).filter (!collection ·)

def pinnedParts (arm : List Bool) : List String :=
  ((arm.zip layout.key).filter Prod.fst).map fun field => field.2.1

/-- An arm that leaves a part open and pins another is a range update over the open one. -/
def rangedParts (arm : List Bool) : Option (List String) :=
  if arm.all (fun pinned => pinned) then none
  else if (layout.pinnedParts arm).isEmpty then none
  else some (layout.pinnedParts arm)

def rangedIndexes : List IndexDef :=
  (OrderedSet.ofList (layout.columns.flatMap fun column =>
    column.arms.filterMap layout.rangedParts)).items.map rangedIndex

/-- The part at a place of the key. -/
def partAt (place : Nat) : Except String String :=
  (layout.key[place]?).elim (.error "index out of bounds") fun part => .ok part.1

/-- The column of a sibling fold. -/
def siblingOf (fold : String) : Except String String :=
  (layout.scalars.find? fun kept => kept.fold == fold).elim
    (.error "heklang keeps an index's sibling to a scalar column of its table") fun kept => .ok kept.name

def sortOf (column : ColumnDef) (index : LayoutIndex) : Except String (SortDef × IndexDef) := do
  let lead ← index.parts.mapM layout.partAt
  let values ← index.folds.mapM layout.siblingOf
  let made := sortIndex (layout.key.map Prod.fst) column.name lead values
  .ok (⟨column.name, lead, values, made.name⟩, made)

/-- The orderings that a fold of the main table declares. -/
def declared : List (ColumnDef × LayoutIndex) :=
  layout.columns.flatMap fun column =>
    if layout.scalars.any fun kept => kept.name == column.column.name then
      column.indexes.map fun index => (column.column, index)
    else []

def sortIndexes : Except String (List (SortDef × IndexDef)) :=
  layout.declared.mapM fun index => layout.sortOf index.1 index.2

/-- The main table of a key signature. -/
def main : Except String TableDef := do
  let sorted ← layout.sortIndexes
  .ok {
    name := layout.id
    source := layout.id
    key := layout.key
    columns := layout.scalars
    indexes := layout.rangedIndexes ++ sorted.map Prod.snd
    sorts := sorted.map Prod.fst
  }

/-- What heklang gives a layout.  A part of the key and a column are known by their names
and a column by its fold, whose name is capitalised; an `@index` names a part once, and
a fold once that is not its own. -/
structure Promised : Prop where
  names : (layout.key.map Prod.fst ++ layout.columns.map fun column => column.column.name).Nodup
  folds : (layout.columns.map fun column => column.column.fold).Nodup
  capitals : ∀ column ∈ layout.columns, startsUpper column.column.fold = true
  parts : ∀ column ∈ layout.columns, ∀ index ∈ column.indexes, index.parts.Nodup
  siblings : ∀ column ∈ layout.columns, ∀ index ∈ column.indexes,
    index.folds.Nodup ∧ column.column.fold ∉ index.folds

variable {layout}

theorem pinnedParts_sublist (arm : List Bool) : (layout.pinnedParts arm).Sublist (layout.key.map Prod.fst) := by
  unfold pinnedParts
  generalize layout.key = key
  induction arm generalizing key with
  | nil => exact List.nil_sublist _
  | cons pinned rest ih =>
      cases key with
      | nil => exact List.nil_sublist _
      | cons part others =>
          rw [List.zip_cons_cons, List.map_cons]
          cases pinned with
          | false => exact (ih others).cons _
          | true => exact (ih others).cons_cons _

theorem mem_rangedIndexes {index : IndexDef} (listed : index ∈ layout.rangedIndexes) :
    index.columns.Sublist (layout.key.map Prod.fst) := by
  obtain ⟨columns, member, rfl⟩ := List.mem_map.mp listed
  obtain ⟨column, -, kept⟩ := List.mem_flatMap.mp (OrderedSet.mem_ofList.mp member)
  obtain ⟨arm, -, asked⟩ := List.mem_filterMap.mp kept
  unfold rangedParts at asked
  split at asked
  · cases asked
  · split at asked
    · cases asked
    · obtain rfl := Option.some.inj asked
      exact pinnedParts_sublist arm

theorem partAt_ok {place : Nat} {part : String} :
    layout.partAt place = .ok part ↔ ((layout.key.map Prod.fst)[place]?) = some part := by
  unfold partAt
  rw [List.getElem?_map]
  cases layout.key[place]? <;> simp

theorem siblingOf_ok {fold name : String} (found : layout.siblingOf fold = .ok name) :
    ∃ column ∈ layout.columns, column.column.fold = fold ∧ column.column.name = name := by
  unfold siblingOf at found
  cases kept : layout.scalars.find? fun kept => kept.fold == fold with
  | none =>
      rw [kept] at found
      cases found
  | some column =>
      rw [kept] at found
      obtain ⟨column', member, rfl⟩ := List.mem_map.mp (List.mem_filter.mp (List.mem_of_find?_eq_some kept)).1
      exact ⟨column', member, by simpa using List.find?_some kept, Except.ok.inj found⟩

theorem declared_mem {column : ColumnDef} {index : LayoutIndex} (member : (column, index) ∈ layout.declared) :
    ∃ held ∈ layout.columns, held.column = column ∧ index ∈ held.indexes := by
  obtain ⟨held, known, listed⟩ := List.mem_flatMap.mp member
  split at listed
  · obtain ⟨index', declared, same⟩ := List.mem_map.mp listed
    cases same
    exact ⟨held, known, rfl, declared⟩
  · cases listed

/-- The columns of an `@index` are columns of its table, none of them twice. -/
theorem sortOf_nodup (promised : layout.Promised) {column : LayoutColumn} (known : column ∈ layout.columns)
    {index : LayoutIndex} (declared : index ∈ column.indexes) {sort : SortDef} {made : IndexDef}
    (found : layout.sortOf column.column index = .ok (sort, made)) :
    made.columns = sort.lead ++ sort.values ++ sort.column ::
        (layout.key.map Prod.fst).filter (!sort.lead.contains ·) ∧ made.columns.Nodup := by
  obtain ⟨lead, places, found⟩ := bind_ok.mp found
  obtain ⟨values, siblings, found⟩ := bind_ok.mp found
  cases found
  have columns : (sortIndex (layout.key.map Prod.fst) column.column.name lead values).columns =
      lead ++ values ++ column.column.name :: (layout.key.map Prod.fst).filter (!lead.contains ·) := by
    unfold sortIndex
    rw [List.append_assoc (lead ++ values), List.singleton_append]
  refine ⟨columns, ?_⟩
  obtain ⟨keyed, named, crossed⟩ := List.nodup_append.mp promised.names
  have part {name : String} (member : name ∈ lead) : name ∈ layout.key.map Prod.fst := by
    obtain ⟨place, -, read⟩ := (mem_of_mapM_ok places name).mp member
    exact List.mem_of_getElem? (partAt_ok.mp read)
  have sibling {name : String} (member : name ∈ values) : ∃ held ∈ layout.columns,
      held.column.fold ∈ index.folds ∧ held.column.name = name := by
    obtain ⟨fold, asked, read⟩ := (mem_of_mapM_ok siblings name).mp member
    obtain ⟨held, present, rfl, same⟩ := siblingOf_ok read
    exact ⟨held, present, asked, same⟩
  have led : lead.Nodup := by
    refine nodup_of_mapM_ok places (promised.parts column known index declared) ?_
    intro one other name first second
    rw [partAt_ok] at first second
    obtain ⟨within, -⟩ := List.getElem?_eq_some_iff.mp first
    exact (List.getElem?_inj within keyed).mp (first.trans second.symm)
  have valued : values.Nodup := by
    refine nodup_of_mapM_ok siblings (promised.siblings column known index declared).1 ?_
    intro one other name first second
    obtain ⟨held, present, rfl, same⟩ := siblingOf_ok first
    obtain ⟨held', present', rfl, same'⟩ := siblingOf_ok second
    rw [List.inj_on_of_nodup_map named present present' (same.trans same'.symm)]
  have apart : column.column.name ∉ values := by
    intro member
    obtain ⟨held, present, asked, same⟩ := sibling member
    rw [List.inj_on_of_nodup_map named present known same] at asked
    exact (promised.siblings column known index declared).2 asked
  have column_ : column.column.name ∈ layout.columns.map fun column => column.column.name :=
    List.mem_map_of_mem known
  have value_ {name : String} (member : name ∈ values) :
      name ∈ layout.columns.map fun column => column.column.name := by
    obtain ⟨held, present, -, rfl⟩ := sibling member
    exact List.mem_map_of_mem present
  rw [columns, List.append_assoc]
  refine List.nodup_append.mpr ⟨led, List.nodup_append.mpr ⟨valued, List.nodup_cons.mpr
    ⟨?_, keyed.filter _⟩, ?_⟩, ?_⟩
  · intro member
    exact crossed _ (List.mem_filter.mp member).1 _ column_ rfl
  · intro name member other later same
    subst same
    rcases List.mem_cons.mp later with rfl | rest
    · exact apart member
    · exact crossed _ (List.mem_filter.mp rest).1 _ (value_ member) rfl
  · intro name member other later same
    subst same
    rcases List.mem_append.mp later with value | rest
    · exact crossed _ (part member) _ (value_ value) rfl
    · rcases List.mem_cons.mp rest with rfl | more
      · exact crossed _ (part member) _ column_ rfl
      · simpa [member] using (List.mem_filter.mp more).2

/-- The main table of a layout has its orders arranged. -/
theorem arranged_of_main (promised : layout.Promised) {table : TableDef} (made : layout.main = .ok table) :
    Arranged table := by
  obtain ⟨sorted, listed, made⟩ := bind_ok.mp made
  cases made
  have of_declared {sort : SortDef} {index : IndexDef} (member : (sort, index) ∈ sorted) :
      index.columns = sort.lead ++ sort.values ++ sort.column ::
        (layout.key.map Prod.fst).filter (!sort.lead.contains ·) ∧ index.columns.Nodup := by
    obtain ⟨⟨column, asked⟩, declared, found⟩ := (mem_of_mapM_ok listed _).mp member
    obtain ⟨held, known, rfl, indexed⟩ := declared_mem declared
    exact sortOf_nodup promised known indexed found
  have scalar {column : ColumnDef} (member : column ∈ layout.scalars) :
      ∃ held ∈ layout.columns, held.column = column :=
    List.mem_map.mp (List.mem_filter.mp member).1
  constructor
  · have folds := promised.folds
    rw [← Function.comp_def ColumnDef.fold LayoutColumn.column, ← List.map_map] at folds
    exact folds.sublist (List.filter_sublist.map _)
  · intro column member
    obtain ⟨held, known, rfl⟩ := scalar member
    exact promised.capitals held known
  · intro columns member
    have keyed := (List.nodup_append.mp promised.names).1
    unfold leads at member
    rw [List.map_append, List.map_map, List.mem_cons, List.mem_append] at member
    rcases member with rfl | ranged | sorts
    · exact keyed
    · obtain ⟨index, listed, rfl⟩ := List.mem_map.mp ranged
      exact keyed.sublist (mem_rangedIndexes listed)
    · obtain ⟨⟨sort, index⟩, listed, rfl⟩ := List.mem_map.mp sorts
      exact (of_declared listed).2
  · intro sort member
    obtain ⟨⟨sort, index⟩, listed, rfl⟩ := List.mem_map.mp member
    unfold leads walkOf
    rw [← (of_declared listed).1]
    refine List.mem_cons_of_mem _ (List.mem_map_of_mem (List.mem_append_right _ ?_))
    exact List.mem_map_of_mem (f := Prod.snd) listed

end LayoutTable

end Hekla.Reads.Tables
