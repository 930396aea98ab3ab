import Hekla.Reads.Indexes
import Hekla.Reads.Pagination

/-!
# Scans pinned to their indexes

A filter is served by an index that its equality columns lead, in any order, with the
column of its range right after them.  The statement names the index it is to go through,
and fails where its table has none of that name.
-/

namespace Hekla.Reads

open Hekla.Library Hekla.Host
open Hekla.Derived (FieldKind IndexDef)

/-! ## The index that serves a filter -/

/-- A filter as a request is read: no column twice, and the range over another one. -/
structure Filter.Plain (filter : Filter) : Prop where
  distinct : (filter.equals.map Prod.fst).Nodup
  apart : ∀ ranged ∈ filter.range, ranged.1 ∉ filter.equals.map Prod.fst

/-- The equality columns of a filter lead some columns, as a set, and its range column is the
one right after them. -/
def Leads (filter : Filter) (columns : List String) : Prop :=
  ∃ leading rest, columns = leading ++ rest ∧ leading.Perm (filter.equals.map Prod.fst) ∧
    ∀ ranged ∈ filter.range, rest.head? = some ranged.1

/-- Of the indexes that fit the one with the fewest columns, the first declared of several. -/
def FirstNarrowest (indexes : List IndexDef) (fits : IndexDef → Prop) (index : IndexDef) : Prop :=
  ∃ before after, indexes = before ++ index :: after ∧ fits index ∧
    (∀ other ∈ before, fits other → index.columns.length < other.columns.length) ∧
    ∀ other ∈ after, fits other → index.columns.length ≤ other.columns.length

/-- How a filter is to be served in an ordering: through the index it names; and otherwise by
the key, or the narrowest index there is. -/
def Chosen (entity : EntityDef) (filter : Filter) (order : Order) : Access → Prop
  | .key => order.index = none ∧ Leads filter [entity.key]
  | .index name =>
      match order.index with
      | some named => name = named ∧ ∃ index,
          entity.indexes.find? (fun index => index.name == named) = some index ∧
            Leads filter index.columns
      | none => ¬Leads filter [entity.key] ∧ ∃ index, name = index.name ∧
          FirstNarrowest entity.indexes (fun index => Leads filter index.columns) index

section Choice

variable {filter : Filter}

theorem serves_iff (plain : filter.Plain) (index : IndexDef) :
    serves index filter = true ↔ Leads filter index.columns := by
  have asked : (filter.equals.map Prod.fst).length = filter.equals.length := List.length_map _
  have next (column : String) : index.columns[filter.equals.length]? = some column ↔
      (index.columns.drop filter.equals.length).head? = some column := by
    rw [List.head?_drop]
  unfold serves
  rw [Bool.and_eq_true, Bool.and_eq_true, decide_eq_true_eq, List.all_eq_true]
  constructor
  · rintro ⟨⟨wide, covered⟩, ranged⟩
    refine ⟨index.columns.take filter.equals.length, index.columns.drop filter.equals.length,
      (List.take_append_drop _ _).symm, ?_, ?_⟩
    · have within : filter.equals.map Prod.fst ⊆ index.columns.take filter.equals.length := by
        intro column member
        obtain ⟨equal, listed, rfl⟩ := List.mem_map.mp member
        exact List.contains_iff_mem.mp (covered equal listed)
      have short : (index.columns.take filter.equals.length).length ≤
          (filter.equals.map Prod.fst).length := by
        rw [asked]
        exact List.length_take_le _ _
      exact ((List.subperm_of_subset plain.distinct within).perm_of_length_le short).symm
    · intro range found
      rw [Option.mem_def.mp found] at ranged
      exact (next range.1).mp (beq_iff_eq.mp ranged)
  · rintro ⟨leading, rest, split, same, ranged⟩
    have wide : leading.length = filter.equals.length := same.length_eq.trans asked
    rw [split, ← wide, List.length_append, List.take_left]
    refine ⟨⟨Nat.le_add_right _ _, ?_⟩, ?_⟩
    · intro equal listed
      exact List.contains_iff_mem.mpr (same.mem_iff.mpr (List.mem_map_of_mem listed))
    · cases found : filter.range with
      | none => rfl
      | some range =>
          have head := ranged range found
          rw [beq_iff_eq, List.getElem?_append_right (Nat.le_refl _), Nat.sub_self,
            ← List.head?_eq_getElem?]
          exact head

/-- A filter that asks nothing of another column than the key is served by the key. -/
theorem key_serves_iff (plain : filter.Plain) (key : String) :
    filter.columns.all (· == key) = true ↔ Leads filter [key] := by
  rw [List.all_eq_true]
  constructor
  · intro keyed
    have equal (column : String) (member : column ∈ filter.equals.map Prod.fst) : column = key :=
      beq_iff_eq.mp (keyed column (List.mem_append_left _ member))
    have range (ranged : String × Range) (found : ranged ∈ filter.range) : ranged.1 = key := by
      refine beq_iff_eq.mp (keyed ranged.1 (List.mem_append_right _ ?_))
      rw [Option.mem_def.mp found]
      exact List.mem_cons_self
    have distinct := plain.distinct
    have apart := plain.apart
    unfold Leads
    generalize filter.equals.map Prod.fst = columns at equal distinct apart ⊢
    match columns with
    | [] => exact ⟨[], [key], rfl, .refl _, fun ranged found => by rw [range ranged found]; rfl⟩
    | [column] =>
        obtain rfl := equal column List.mem_cons_self
        refine ⟨[column], [], rfl, .refl _, fun ranged found => ?_⟩
        exact absurd (range ranged found ▸ List.mem_cons_self) (apart ranged found)
    | first :: second :: rest =>
        have same := (equal first List.mem_cons_self).trans
          (equal second (List.mem_cons_of_mem _ List.mem_cons_self)).symm
        exact absurd (same ▸ List.mem_cons_self) (List.nodup_cons.mp distinct).1
  · rintro ⟨leading, rest, split, same, ranged⟩ column member
    have inside : column ∈ leading ++ rest := by
      rcases List.mem_append.mp member with member | member
      · exact List.mem_append_left _ (same.mem_iff.mpr member)
      · obtain ⟨range, found, rfl⟩ := Option.map_eq_some_iff.mp (Option.mem_toList.mp member)
        exact List.mem_append_right _ (List.mem_of_mem_head? (ranged range found))
    rw [← split, List.mem_singleton] at inside
    exact beq_iff_eq.mpr inside

theorem narrowest_eq_none {indexes : List IndexDef} (none_ : narrowest indexes = none) :
    indexes = [] := by
  cases indexes with
  | nil => rfl
  | cons index rest =>
      unfold narrowest at none_
      split at none_
      · split at none_ <;> cases none_
      · cases none_

theorem FirstNarrowest.le {fits : IndexDef → Prop} {indexes : List IndexDef} {index other : IndexDef}
    (first : FirstNarrowest indexes fits index) (member : other ∈ indexes) (fit : fits other) :
    index.columns.length ≤ other.columns.length := by
  obtain ⟨before, after, rfl, _, shorter, least⟩ := first
  rcases List.mem_append.mp member with member | member
  · exact Nat.le_of_lt (shorter other member fit)
  · rcases List.mem_cons.mp member with rfl | member
    · exact Nat.le_refl _
    · exact least other member fit

theorem narrowest_iff {fits : IndexDef → Bool} {indexes : List IndexDef} {index : IndexDef} :
    narrowest (indexes.filter fits) = some index ↔
      FirstNarrowest indexes (fun index => fits index = true) index := by
  induction indexes generalizing index with
  | nil =>
      constructor
      · exact nofun
      · rintro ⟨before, after, split, -⟩
        cases before <;> cases split
  | cons first rest ih =>
      have later (narrower : fits first = true → index.columns.length < first.columns.length)
          (found : FirstNarrowest rest (fun index => fits index = true) index) :
          FirstNarrowest (first :: rest) (fun index => fits index = true) index := by
        obtain ⟨before, after, rfl, fit, shorter, least⟩ := found
        refine ⟨first :: before, after, rfl, fit, ?_, least⟩
        intro other member
        rcases List.mem_cons.mp member with rfl | member
        · exact narrower
        · exact shorter other member
      constructor
      · intro found
        by_cases fit : fits first = true
        · rw [List.filter_cons_of_pos fit] at found
          unfold narrowest at found
          cases rec_ : narrowest (rest.filter fits) with
          | none =>
              rw [rec_] at found
              cases found
              refine ⟨[], rest, rfl, fit, List.forall_mem_nil _, ?_⟩
              intro other member fits_
              have listed := List.mem_filter.mpr ⟨member, fits_⟩
              rw [narrowest_eq_none rec_] at listed
              cases listed
          | some other =>
              have least := ih.mp rec_
              rw [rec_] at found
              dsimp only at found
              split at found
              · next shorter =>
                  cases found
                  exact later (fun _ => shorter) least
              · next wide =>
                  cases found
                  refine ⟨[], rest, rfl, fit, List.forall_mem_nil _, ?_⟩
                  intro another member fits_
                  exact Nat.le_trans (Nat.not_lt.mp wide) (least.le member fits_)
        · rw [List.filter_cons_of_neg fit] at found
          exact later (fun fit' => absurd fit' fit) (ih.mp found)
      · rintro ⟨before, after, split, fit, shorter, least⟩
        cases before with
        | nil =>
            cases split
            rw [List.filter_cons_of_pos fit]
            unfold narrowest
            cases rec_ : narrowest (rest.filter fits) with
            | none => rfl
            | some other =>
                obtain ⟨before, after, rfl, fits_, -⟩ := ih.mp rec_
                exact if_neg (Nat.not_lt.mpr (least other (by simp) fits_))
        | cons earlier before =>
            cases split
            have found := ih.mpr ⟨before, after, rfl, fit,
              fun other member => shorter other (List.mem_cons_of_mem _ member), least⟩
            by_cases fits_ : fits first = true
            · rw [List.filter_cons_of_pos fits_]
              unfold narrowest
              rw [found]
              exact if_pos (shorter first List.mem_cons_self fits_)
            · rw [List.filter_cons_of_neg fits_]
              exact found

/-- The index a filter is served by is the one it is to be. -/
theorem chooseIndex_iff (plain : filter.Plain) (entity : EntityDef) (order : Order) (access : Access) :
    chooseIndex entity filter order = some access ↔ Chosen entity filter order access := by
  unfold chooseIndex
  cases named : order.index with
  | some name =>
      dsimp only
      cases access with
      | key =>
          refine iff_of_false ?_ ?_
          · intro chosen
            obtain ⟨index, _, chosen⟩ := Option.bind_eq_some_iff.mp chosen
            split at chosen <;> cases chosen
          · rintro ⟨none_, _⟩
            cases named.symm.trans none_
      | index other =>
          unfold Chosen
          rw [named]
          dsimp only
          constructor
          · intro chosen
            obtain ⟨index, found, chosen⟩ := Option.bind_eq_some_iff.mp chosen
            split at chosen
            · next serves_ =>
                cases chosen
                have same : index.name = name := by simpa using List.find?_some found
                exact ⟨same, index, found, (serves_iff plain index).mp serves_⟩
            · cases chosen
          · rintro ⟨rfl, index, found, leads⟩
            have same : index.name = other := by simpa using List.find?_some found
            rw [found, Option.bind_some, if_pos ((serves_iff plain index).mpr leads), same]
  | none =>
      dsimp only
      unfold chooseForKeyOrder
      have keyed := key_serves_iff plain entity.key
      have fits : (fun index : IndexDef => serves index filter = true) =
          fun index => Leads filter index.columns := funext fun index => propext (serves_iff plain index)
      cases access with
      | key =>
          unfold Chosen
          rw [named, ← keyed]
          split
          · next all => exact iff_of_true rfl ⟨rfl, all⟩
          · next other =>
              refine iff_of_false ?_ fun chosen => other chosen.2
              intro chosen
              obtain ⟨index, _, chosen⟩ := Option.map_eq_some_iff.mp chosen
              cases chosen
      | index name =>
          unfold Chosen
          rw [named, ← keyed]
          dsimp only
          split
          · next all => exact iff_of_false nofun fun chosen => chosen.1 all
          · next other =>
              rw [Option.map_eq_some_iff]
              constructor
              · rintro ⟨index, found, chosen⟩
                cases chosen
                exact ⟨other, index, rfl, fits ▸ narrowest_iff.mp found⟩
              · rintro ⟨_, index, rfl, found⟩
                exact ⟨index, narrowest_iff.mpr (fits.symm ▸ found), rfl⟩

/-- What may serve a filter in an ordering. -/
def Answerable (entity : EntityDef) (filter : Filter) (order : Order) : Prop :=
  match order.index with
  | some named => ∃ index, entity.indexes.find? (fun index => index.name == named) = some index ∧
      Leads filter index.columns
  | none => Leads filter [entity.key] ∨ ∃ index ∈ entity.indexes, Leads filter index.columns

/-- An index is answered exactly when there is one. -/
theorem chooseIndex_isSome (plain : filter.Plain) (entity : EntityDef) (order : Order) :
    (∃ access, chooseIndex entity filter order = some access) ↔ Answerable entity filter order := by
  have each := chooseIndex_iff plain entity order
  unfold Answerable
  unfold Chosen at each
  cases named : order.index with
  | some name =>
      rw [named] at each
      dsimp only at each ⊢
      constructor
      · rintro ⟨access, chosen⟩
        cases access with
        | key => cases ((each .key).mp chosen).1
        | index other => exact ((each _).mp chosen).2
      · intro leads
        exact ⟨.index name, (each _).mpr ⟨rfl, leads⟩⟩
  | none =>
      rw [named] at each
      dsimp only at each ⊢
      constructor
      · rintro ⟨access, chosen⟩
        cases access with
        | key => exact .inl ((each .key).mp chosen).2
        | index other =>
            obtain ⟨_, index, _, before, after, split, leads, _⟩ := (each _).mp chosen
            exact .inr ⟨index, split ▸ by simp, leads⟩
      · rintro (leads | ⟨index, member, leads⟩)
        · exact ⟨.key, (each .key).mpr ⟨rfl, leads⟩⟩
        · unfold chooseIndex chooseForKeyOrder
          rw [named]
          dsimp only
          split
          · exact ⟨_, rfl⟩
          · cases found : narrowest (entity.indexes.filter (serves · filter)) with
            | none =>
                have listed : index ∈ entity.indexes.filter (serves · filter) :=
                  List.mem_filter.mpr ⟨member, (serves_iff plain index).mpr leads⟩
                rw [narrowest_eq_none found] at listed
                cases listed
            | some other => exact ⟨_, rfl⟩

/-- A filter with its equality columns in another order. -/
structure Filter.Rearranged (filter other : Filter) : Prop where
  equals : other.equals.Perm filter.equals
  range : other.range = filter.range

theorem Filter.Rearranged.leads_iff {other : Filter} (same : filter.Rearranged other)
    (columns : List String) : Leads other columns ↔ Leads filter columns := by
  have listed := same.equals.map Prod.fst
  unfold Leads
  rw [same.range]
  constructor
  · rintro ⟨leading, rest, split, perm, ranged⟩
    exact ⟨leading, rest, split, perm.trans listed, ranged⟩
  · rintro ⟨leading, rest, split, perm, ranged⟩
    exact ⟨leading, rest, split, perm.trans listed.symm, ranged⟩

/-- The choice does not look at the order of the equality columns. -/
theorem Filter.Rearranged.chooseIndex_eq {other : Filter} (same : filter.Rearranged other)
    (plain : filter.Plain) (entity : EntityDef) (order : Order) :
    chooseIndex entity other order = chooseIndex entity filter order := by
  have listed := same.equals.map Prod.fst
  have otherPlain : other.Plain := by
    refine ⟨listed.nodup_iff.mpr plain.distinct, ?_⟩
    rw [same.range]
    exact fun ranged found member => plain.apart ranged found (listed.mem_iff.mp member)
  have leads : Leads other = Leads filter := funext fun columns => propext (same.leads_iff columns)
  refine Option.ext fun access => ?_
  rw [chooseIndex_iff otherPlain, chooseIndex_iff plain]
  unfold Chosen
  rw [leads]

end Choice

/-! ## A scan of a table -/

/-- `INDEXED BY` names an index of the table, or the statement fails. -/
def pin (schema : Schema) (entity : EntityDef) : Access → Except String Unit
  | .key => .ok ()
  | .index name =>
      match schema.indexes.get (folded (entity.indexName name)) with
      | some live =>
          if live.table = entity.table then .ok ()
          else .error s!"no such index: {entity.indexName name}"
      | none => .error s!"no such index: {entity.indexName name}"

variable (spelling : Spelling)

/-- The rows of a scan of a table in a database, as objects. -/
def pinnedScan (schema : Schema) (entity : EntityDef) (rows : List Row) (query : Query) :
    Except String (List Json) := do
  let (sql, binds) ← scanStatement spelling entity query
  pin schema entity sql.access
  let found ← sql.run binds rows
  .ok (found.map (rowToJson spelling entity))

/-- A filter is served in an ordering as it is to be: the index is chosen that is to be, in
whatever order the filter names its columns, and the scan through it returns the rows that
the filter matches, in order. -/
structure ServedIn (schema : Schema) (entity : Entity) (filter : Filter) (order : Order) : Prop where
  answers : (∃ access, chooseIndex entity.toEntityDef filter order = some access) ↔
    Answerable entity.toEntityDef filter order
  chosen : ∀ access, chooseIndex entity.toEntityDef filter order = some access ↔
    Chosen entity.toEntityDef filter order access
  rearranged : ∀ other, filter.Rearranged other →
    chooseIndex entity.toEntityDef other order = chooseIndex entity.toEntityDef filter order
  scans : ∀ access, chooseIndex entity.toEntityDef filter order = some access →
    ∀ (model : ReadModel spelling entity) (limit : Nat), limit < 2 ^ 63 →
      ∃ found : List Row, pinnedScan spelling schema entity.toEntityDef model.rows ⟨filter, order, none, limit⟩ =
          .ok ((found.take limit).map (rowToJson spelling entity.toEntityDef)) ∧
        found.Perm (model.rows.filter
          (Statement.admits (filterConditions spelling entity.toEntityDef filter))) ∧
        found.Pairwise fun one other =>
          follows order.descending (placeOf (order.columns entity.toEntityDef) one)
            (placeOf (order.columns entity.toEntityDef) other)

/-- An ordering that a request can ask for: by the key, or by the name of an index. -/
def Order.Asked (order : Order) (entity : EntityDef) : Prop :=
  ∀ name ∈ order.index, ∃ index ∈ entity.indexes, index.name = name

section Scan

variable {spelling} {schema : Schema} {entity : Entity} {filter : Filter} {order : Order}

theorem pin_ok {entity : EntityDef} {name : String} :
    pin schema entity (.index name) = .ok () ↔
      ∃ live, schema.indexes.get (folded (entity.indexName name)) = some live ∧
        live.table = entity.table := by
  unfold pin
  dsimp only
  cases schema.indexes.get (folded (entity.indexName name)) with
  | none =>
      refine iff_of_false nofun ?_
      rintro ⟨_, found, _⟩
      cases found
  | some live =>
      dsimp only
      split
      · next same => exact iff_of_true rfl ⟨live, rfl, same⟩
      · next other =>
          refine iff_of_false nofun ?_
          rintro ⟨_, found, same⟩
          cases found
          exact other same

/-- A scan is one of its statement, where that is not refused. -/
theorem pinnedScan_eq {rows : List Row} {query : Query} {access : Access}
    (chosen : chooseIndex entity.toEntityDef query.filter query.order = some access) :
    pinnedScan spelling schema entity.toEntityDef rows query =
      (pin schema entity.toEntityDef access).bind fun _ =>
        scanRows spelling entity.toEntityDef rows query := by
  unfold pinnedScan scanRows scanStatement
  rw [chosen]
  rfl

/-- Where what is chosen is there, a filter is served as it is to be. -/
theorem servedIn (plain : filter.Plain)
    (stands : ∀ access, chooseIndex entity.toEntityDef filter order = some access →
      pin schema entity.toEntityDef access = .ok ()) :
    ServedIn spelling schema entity filter order where
  answers := chooseIndex_isSome plain entity.toEntityDef order
  chosen := chooseIndex_iff plain entity.toEntityDef order
  rearranged _ same := same.chooseIndex_eq plain entity.toEntityDef order
  scans := by
    intro access chosen model limit small
    have distinct := places_distinct model order
    refine ⟨matching spelling entity filter order model.rows, ?_, ordered_perm _ _ _,
      ordered_pairwise _ _ (distinct.sublist (List.filter_sublist.map _))⟩
    have conditions : scanConditions spelling entity.toEntityDef ⟨filter, order, none, limit⟩ =
        filterConditions spelling entity.toEntityDef filter := List.append_nil _
    rw [@pinnedScan_eq spelling schema entity model.rows ⟨filter, order, none, limit⟩ access chosen,
      stands access chosen]
    change scanRows spelling entity.toEntityDef model.rows _ = _
    rw [@scanRows_ok spelling entity.toEntityDef ⟨filter, order, none, limit⟩ access chosen small,
      conditions]
    rfl

end Scan

/-! ## The scans of a projector -/

/-- The database of a projector whose entities were opened so many times, and once more. -/
def openedTimes (entities : List Entity) (opens : Nat) : Except DdlError Unit × File :=
  openModel (entities.map Entity.toEntityDef)
    (reopened (List.replicate opens (entities.map Entity.toEntityDef)) .blank)

section Openings

variable {entities : List Entity} {opens : Nat}

/-- The entities of every open are the same. -/
theorem mem_declared_replicate (entities : List EntityDef) (opens : Nat) {wanted : String × IndexShape}
    (listed : wanted ∈ declared ((List.replicate opens entities).flatten ++ entities)) :
    wanted ∈ declared entities := by
  obtain ⟨entity, member, own⟩ := List.mem_flatMap.mp listed
  refine mem_declared ?_ own
  rcases List.mem_append.mp member with member | member
  · obtain ⟨set, among, member⟩ := List.mem_flatten.mp member
    exact List.eq_of_mem_replicate among ▸ member
  · exact member

theorem mem_wanted {entity : EntityDef} {index : IndexDef} (member : index ∈ entity.indexes) :
    (folded (entity.indexName index.name), entity.shape index) ∈ entity.wanted :=
  List.mem_map.mpr ⟨index, member, rfl⟩

/-- What a filter in an ordering is served by is the key, or one of the declared indexes. -/
theorem Chosen.declared {entity : EntityDef} {filter : Filter} {order : Order} {name : String}
    (chosen : Chosen entity filter order (.index name)) :
    ∃ index ∈ entity.indexes, index.name = name := by
  unfold Chosen at chosen
  cases named : order.index with
  | some other =>
      rw [named] at chosen
      obtain ⟨rfl, index, found, _⟩ := chosen
      exact ⟨index, List.mem_of_find?_eq_some found, by simpa using List.find?_some found⟩
  | none =>
      rw [named] at chosen
      obtain ⟨_, index, rfl, before, after, split, _⟩ := chosen
      exact ⟨index, split ▸ by simp, rfl⟩

/-- Where no declarations over different tables share a name, what is chosen is there. -/
theorem pin_chosen (apart : TablesApart (declared (entities.map Entity.toEntityDef)))
    (opened : (openedTimes entities opens).1 = .ok ()) {entity : Entity} (member : entity ∈ entities)
    {filter : Filter} (plain : filter.Plain) {order : Order} {access : Access}
    (chosen : chooseIndex entity.toEntityDef filter order = some access) :
    pin (openedTimes entities opens).2.schema entity.toEntityDef access = .ok () := by
  cases access with
  | key => rfl
  | index name =>
      obtain ⟨index, among, rfl⟩ := ((chooseIndex_iff plain _ order _).mp chosen).declared
      have tables : TablesApart (declared ((List.replicate opens
          (entities.map Entity.toEntityDef)).flatten ++ entities.map Entity.toEntityDef)) :=
        fun one first other second => apart one (mem_declared_replicate _ opens first) other
          (mem_declared_replicate _ opens second)
      have listed : (folded (entity.indexName index.name), entity.shape index) ∈
          declared (entities.map Entity.toEntityDef) :=
        mem_declared (List.mem_map_of_mem member) (mem_wanted among)
      obtain ⟨live, stands, table, _⟩ := declared_placed tables opened listed
      exact pin_ok.mpr ⟨live, stands, table⟩

/-- A scan that names an index finds it on the table of its entity. -/
theorem ServedIn.placed {schema : Schema} {spelling : Spelling} {entity : Entity} {index : IndexDef}
    (among : index ∈ entity.indexes)
    (served : ServedIn spelling schema entity {} ⟨some index.name, false⟩) :
    ∃ live, schema.indexes.get (folded (entity.indexName index.name)) = some live ∧
      live.table = entity.table := by
  have found : (entity.indexes.find? fun other => other.name == index.name).isSome = true :=
    List.find?_isSome.mpr ⟨index, among, beq_self_eq_true _⟩
  obtain ⟨first, found⟩ := Option.isSome_iff_exists.mp found
  have leads : Leads {} first.columns := ⟨[], first.columns, rfl, .refl _, nofun⟩
  have chosen : chooseIndex entity.toEntityDef {} ⟨some index.name, false⟩ = some (.index index.name) :=
    (served.chosen _).mpr ⟨rfl, first, found, leads⟩
  let empty : ReadModel spelling entity :=
    ⟨[], 0, List.nodup_nil, List.forall_mem_nil _⟩
  obtain ⟨rows, scanned, _⟩ := served.scans _ chosen empty 0 (by decide)
  rw [@pinnedScan_eq spelling schema entity _ ⟨{}, ⟨some index.name, false⟩, none, 0⟩ _ chosen] at scanned
  obtain ⟨⟨⟩, pinned, _⟩ := bind_ok.mp scanned
  exact pin_ok.mp pinned

end Openings

/-- After any opens of the entities of a projector, every filter is served as it is to be in
every ordering, exactly when no declared indexes of different tables share a name. -/
theorem scans_served (entities : List Entity) (opens : Nat)
    (opened : (openedTimes entities opens).1 = .ok ()) :
    (∀ entity ∈ entities, ∀ filter : Filter, filter.Plain →
      ∀ order : Order, order.Asked entity.toEntityDef →
        ServedIn spelling (openedTimes entities opens).2.schema entity filter order) ↔
      TablesApart (declared (entities.map Entity.toEntityDef)) := by
  constructor
  · intro served one first other second same
    have placed (wanted : String × IndexShape)
        (listed : wanted ∈ declared (entities.map Entity.toEntityDef)) :
        ∃ live, (openedTimes entities opens).2.schema.indexes.get wanted.1 = some live ∧
          live.table = wanted.2.table := by
      obtain ⟨_, member, own⟩ := List.mem_flatMap.mp listed
      obtain ⟨entity, within, rfl⟩ := List.mem_map.mp member
      obtain ⟨index, among, rfl⟩ := List.mem_map.mp own
      refine (served entity within {} ⟨List.nodup_nil, nofun⟩ ⟨some index.name, false⟩ ?_).placed among
      rintro _ ⟨⟩
      exact ⟨index, among, rfl⟩
    obtain ⟨live, stands, table⟩ := placed one first
    obtain ⟨live', stands', table'⟩ := placed other second
    rw [same, stands'] at stands
    cases stands
    exact table.symm.trans table'
  · intro apart entity member filter plain order _
    exact servedIn plain fun _ chosen => pin_chosen apart opened member plain chosen

/-- Orders by the shop and the day of each. -/
def ordersByDay : Entity where
  name := "orders"
  key := "id"
  fields := [("id", { kind := .text none }), ("shop", { kind := .text none }),
    ("by_day", { kind := .text none })]
  indexes := [⟨"by_shop_by_day", ["shop", "by_day"]⟩]
  valid := by decide
  distinct := by decide

/-- The orders of each shop. -/
def ordersByShop : Entity where
  name := "orders_by_shop"
  key := "id"
  fields := [("id", { kind := .text none }), ("day", { kind := .text none })]
  indexes := [⟨"by_day", ["day"]⟩]
  valid := by decide
  distinct := by decide

/-- The orders of a read model of nothing else are scanned by the time they were placed at. -/
theorem placed_scans_served :
    ServedIn newYear (openedTimes [placedOrders] 2).2.schema placedOrders {}
      ⟨some "by_placed", true⟩ :=
  (scans_served newYear [placedOrders] 2 (by decide)).mpr (by unfold TablesApart; decide)
    placedOrders List.mem_cons_self {} ⟨List.nodup_nil, nofun⟩ ⟨some "by_placed", true⟩
    (by rintro _ ⟨⟩; exact ⟨_, List.mem_cons_self, rfl⟩)

/-- Both declare an index of one name in the database, and the orders are left without. -/
theorem shared_index_name :
    folded (ordersByDay.indexName "by_shop_by_day") = folded (ordersByShop.indexName "by_day") ∧
      (openedTimes [ordersByDay, ordersByShop] 0).1 = .ok () ∧
      chooseIndex ordersByDay.toEntityDef {} ⟨some "by_shop_by_day", false⟩ =
        some (.index "by_shop_by_day") ∧
      pinnedScan newYear (openedTimes [ordersByDay, ordersByShop] 0).2.schema
        ordersByDay.toEntityDef [] ⟨{}, ⟨some "by_shop_by_day", false⟩, none, 10⟩ =
          .error "no such index: orders_by_shop_by_day" ∧
      ¬ServedIn newYear (openedTimes [ordersByDay, ordersByShop] 0).2.schema ordersByDay {}
        ⟨some "by_shop_by_day", false⟩ := by
  refine ⟨by decide, by decide, by decide, by decide, fun served => ?_⟩
  have there : (openedTimes [ordersByDay, ordersByShop] 0).2.schema.indexes.get
      (folded (ordersByDay.indexName "by_shop_by_day")) = some ⟨"orders_by_shop", ["day", "id"]⟩ := by
    decide
  have among : (⟨"by_shop_by_day", ["shop", "by_day"]⟩ : IndexDef) ∈ ordersByDay.indexes :=
    List.mem_cons_self
  obtain ⟨live, stands, table⟩ := served.placed among
  rw [there] at stands
  cases stands
  revert table
  decide

end Hekla.Reads
