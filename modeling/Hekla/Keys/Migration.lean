import Hekla.Keys.Store
import Mathlib.Data.List.Dedup
import Mathlib.Data.List.Sort

/-!
# The migration of the key namespaces

A key row used to be filed under the field an annotation named, and is filed
under the declared subject's name since schema v10.  Where each namespace went
is stated by the operator.  The migration of a version is one transaction.
-/

namespace Hekla.Keys

open Hekla.Library

/-! ## The stated mapping -/

/-- The parsed mapping, old spelling to new. -/
abbrev V10Subjects := Table String String

def v10SubjectsEnv : String := "HEKLA_V10_SUBJECTS"

namespace V10Subjects

/-- White space, as trimming a text takes it. -/
def isWhitespace (char : Char) : Bool :=
  let code := char.toNat
  (9 ≤ code && code ≤ 13) || code == 0x20 || code == 0x85 || code == 0xA0 || code == 0x1680 ||
    (0x2000 ≤ code && code ≤ 0x200A) || code == 0x2028 || code == 0x2029 || code == 0x202F ||
    code == 0x205F || code == 0x3000

def trim (text : List Char) : List Char :=
  ((text.dropWhile isWhitespace).reverse.dropWhile isWhitespace).reverse

/-- One `old=New` of the mapping. -/
def parseEntry (entry : List Char) : Except String (String × String) :=
  match entry.dropWhile (· ≠ '=') with
  | [] =>
      .error (s!"`{v10SubjectsEnv}` entry `{String.ofList entry}` is not `old=New`, so it says " ++
        "nothing about where a namespace went")
  | _ :: right =>
      let old := trim (entry.takeWhile (· ≠ '='))
      let new := trim right
      if old.isEmpty || new.isEmpty then
        .error s!"`{v10SubjectsEnv}` entry `{String.ofList entry}` leaves one side empty"
      else .ok (String.ofList old, String.ofList new)

def parseEntries : List (List Char) → V10Subjects → Except String V10Subjects
  | [], map => .ok map
  | entry :: rest, map =>
      match parseEntry entry with
      | .error message => .error message
      | .ok (old, new) =>
          match map.get old with
          | none => parseEntries rest (map.set old new)
          | some first =>
              if first = new then parseEntries rest (map.set old new)
              else
                .error (s!"`{v10SubjectsEnv}` sends `{old}` to both `{first}` and `{new}`, and a " ++
                  "key is filed under one name")

def parse (raw : String) : Except String V10Subjects :=
  parseEntries (((raw.toList.splitOn ',').map trim).filter fun entry => !entry.isEmpty) ∅

/-- Why the environment has no text for a variable. -/
inductive VarError where
  | notPresent
  | notUnicode

def fromEnv : Except VarError String → Except String V10Subjects
  | .ok raw => parse raw
  | .error .notPresent => .ok ∅
  | .error .notUnicode =>
      .error s!"reading `{v10SubjectsEnv}`: environment variable was not valid unicode"

/-- The entries in the order of their keys. -/
def pairs (stated : V10Subjects) : List (String × String) :=
  (stated.entries.map fun entry => (entry.1, entry.2)).insertionSort fun one other => one.1 ≤ other.1

/-- The new name of a namespace. -/
def target (stated : V10Subjects) (name : String) : String := (stated.get name).getD name

end V10Subjects

/-! ## The rows before and after -/

/-- A key row up to schema v9: always under a master. -/
structure FieldKey where
  wrapped : Wrapped
  masterKeyId : String
  deriving DecidableEq

abbrev FieldKeys := Table Identity FieldKey

/-- The row as the rebuilt table has it. -/
def FieldKey.carried (row : FieldKey) : SubjectKey := ⟨row.wrapped, .master row.masterKeyId⟩

/-- The key rows, in the form of the schema they are in. -/
inductive KeyRows where
  | fields (rows : FieldKeys)
  | subjects (rows : KeyTable)

structure OpDb where
  version : Nat
  keys : KeyRows

def schemaVersion : Nat := 11

/-! ## The migration -/

/-- Backtick-quote and comma-join. -/
def quoted (names : List String) : String := ", ".intercalate (names.map fun one => s!"`{one}`")

/-- The namespaces that have rows, in order. -/
def present (rows : FieldKeys) : List String :=
  ((rows.keys.map Prod.fst).dedup).insertionSort (· ≤ ·)

/-- The least id that two of the namespaces have a key for. -/
def clash (rows : FieldKeys) (olds : List String) : Option String :=
  let values := (rows.keys.filter fun id => olds.contains id.1).map Prod.snd
  ((values.filter fun value => 1 < values.count value).insertionSort (· ≤ ·)).head?

/-- The old names a mapping sends to one new name. -/
def mergedInto (stated : V10Subjects) (new : String) : List String :=
  (stated.pairs.filter fun pair => pair.2 == new).map Prod.fst

/-- The first merge of two namespaces that both have a key for an id. -/
def clashingMerge (rows : FieldKeys) (stated : V10Subjects) : Option (String × List String × String) :=
  (((stated.pairs.map Prod.snd).dedup).insertionSort (· ≤ ·)).findSome? fun new =>
    let olds := mergedInto stated new
    if 1 < olds.length then (clash rows olds).map fun value => (new, olds, value) else none

/-- Check the mapping against the namespaces that are there, and list the renames. -/
def v10Renames (rows : FieldKeys) (stated : V10Subjects) : Except String (List (String × String)) :=
  if (present rows).isEmpty then .ok []
  else
    let unaccounted := (present rows).filter fun name => (stated.get name).isNone
    let absent := (stated.pairs.map Prod.fst).filter fun name => !(present rows).contains name
    if !unaccounted.isEmpty then
      let count := rows.keys.countP fun id => unaccounted.contains id.1
      let why :=
        s!"this database holds {count} subject key row(s) under {unaccounted.length} " ++
        "namespace(s) written before a subject was a declared type, and nothing here says where " ++
        s!"they went: {quoted unaccounted}. A key used to be filed under the field an `@subject` " ++
        "annotation named and is now filed under the declared subject's own name, so carrying " ++
        "one across unmapped makes every value sealed under it read back absent, which no " ++
        "caller can tell from an erasure."
      if absent.isEmpty then
        let sample := unaccounted.headD ""
        .error (why ++ s!" Set `{v10SubjectsEnv}` to the mapping, for example " ++
          s!"`{v10SubjectsEnv}=\"{sample}=Customer\"`, writing a namespace that should keep the " ++
          s!"name it has as itself (`{sample}={sample}`)")
      else
        .error (why ++ s!" `{v10SubjectsEnv}` does carry {quoted absent}, which nothing here is " ++
          "filed under, so that is where to look first: one of those is most likely one of " ++
          "these misspelled")
    else
      match clashingMerge rows stated with
      | some (new, olds, value) =>
          .error (s!"`{v10SubjectsEnv}` merges {quoted olds} into `{new}`, and each of them " ++
            s!"already holds a key for id `{value}`. One subject files one key per id, so this " ++
            "would have to drop a secret and with it everything sealed under it. Send them to " ++
            "different subjects, or erase the ids you do not need before upgrading")
      | none => .ok (stated.pairs.filter fun pair => pair.1 ≠ pair.2)

/-- The rebuilt table, with every row carried across under the name it had. -/
def rebuilt (rows : FieldKeys) : KeyTable := rows.reshape (fun id => id) FieldKey.carried

/-- File the rows of one namespace under another, unless a key is there already. -/
def updateSubject (rows : KeyTable) (old new : String) : Option KeyTable :=
  if old ≠ new ∧ (rows.any fun id _ => id.1 == old && (rows.get (new, id.2)).isSome) = true then none
  else some (rows.reshape (fun id => (if id.1 = old then new else id.1, id.2)) fun row => row)

/-- One update a rename, with what is said when it fails. -/
def updateEach : KeyTable → List (String × String × String) → Except String KeyTable
  | rows, [] => .ok rows
  | rows, (old, new, context) :: rest =>
      match updateSubject rows old new with
      | none => .error context
      | some rows => updateEach rows rest

/-- The name a namespace is staged under. -/
def staged (old : String) : String := "\u0001" ++ old

/-- Two hops through names no identifier can spell, so that the order is irrelevant. -/
def applyV10Renames (rows : KeyTable) (renames : List (String × String)) : Except String KeyTable :=
  match updateEach rows (renames.map fun pair =>
      (pair.1, staged pair.1, s!"staging the v10 rename of `{pair.1}`")) with
  | .error message => .error message
  | .ok rows =>
      updateEach rows (renames.map fun pair =>
        (staged pair.1, pair.2, s!"renaming `{pair.1}` to `{pair.2}` for schema v10"))

/-- What the transaction of one version commits.  The versions before v9 and
after v10 leave the key rows as they are. -/
def migrateVersion (v10 : V10Subjects) (db : OpDb) : Except String OpDb :=
  match db.version, db.keys with
  | 9, .fields rows =>
      match v10Renames rows v10 with
      | .error message => .error message
      | .ok renames =>
          match applyV10Renames (rebuilt rows) renames with
          | .error message => .error message
          | .ok rows => .ok ⟨10, .subjects rows⟩
  | version, keys => .ok ⟨version + 1, keys⟩

def migrateFrom (v10 : V10Subjects) : Nat → OpDb → Except String Unit × OpDb
  | 0, db => (.ok (), db)
  | versions + 1, db =>
      match migrateVersion v10 db with
      | .error message => (.error message, db)
      | .ok db => migrateFrom v10 versions db

/-- Bring the schema up, one version a transaction. -/
def migrate (v10 : V10Subjects) (db : OpDb) : Except String Unit × OpDb :=
  if schemaVersion < db.version then
    (.error (s!"operational database is at schema version {db.version}, newer than this build " ++
      s!"({schemaVersion})"), db)
  else migrateFrom v10 (schemaVersion - db.version) db

/-- Open a database, with the mapping the environment states. -/
def openDb (var : Except V10Subjects.VarError String) (db : OpDb) : Except String Unit × OpDb :=
  match V10Subjects.fromEnv var with
  | .error message => (.error message, db)
  | .ok v10 => migrate v10 db

/-! ## What an update moves -/

/-- Every row is under its namespace's new name, and no two have met. -/
structure Moved (name : String → String) (rows rows' : KeyTable) : Prop where
  apart : ∀ id other row row', rows.get id = some row → rows.get other = some row' →
    id.2 = other.2 → name id.1 = name other.1 → id = other
  found : ∀ id' row, rows'.get id' = some row ↔
    ∃ id, rows.get id = some row ∧ (name id.1, id.2) = id'

/-- One update of the namespaces. -/
def hop (old new name : String) : String := if name = old then new else name

/-- The updates one after the other. -/
def through : List (String × String × String) → String → String
  | [], name => name
  | (old, new, _) :: rest, name => through rest (hop old new name)

section Updates

variable {rows rows' rows'' : KeyTable} {old new : String}

theorem Moved.refl (rows : KeyTable) : Moved (fun name => name) rows rows where
  apart _ _ _ _ _ _ value name := Prod.ext name value
  found id' row := by
    constructor
    · intro held
      exact ⟨id', held, rfl⟩
    · rintro ⟨id, held, rfl⟩
      exact held

theorem Moved.trans {first second : String → String} (one : Moved first rows rows')
    (other : Moved second rows' rows'') : Moved (fun name => second (first name)) rows rows'' where
  apart id id' row row' held held' value name := by
    have moved := (one.found _ row).mpr ⟨id, held, rfl⟩
    have moved' := (one.found _ row').mpr ⟨id', held', rfl⟩
    have same := other.apart _ _ row row' moved moved' value name
    exact one.apart id id' row row' held held' value (congrArg Prod.fst same)
  found target row := by
    rw [other.found]
    constructor
    · rintro ⟨middle, moved, rfl⟩
      obtain ⟨id, held, rfl⟩ := (one.found middle row).mp moved
      exact ⟨id, held, rfl⟩
    · rintro ⟨id, held, rfl⟩
      exact ⟨_, (one.found _ row).mpr ⟨id, held, rfl⟩, rfl⟩

/-- An update that is not made would have put one key on another. -/
theorem updateSubject_none (refused : updateSubject rows old new = none) :
    old ≠ new ∧ ∃ value row row', rows.get (old, value) = some row ∧
      rows.get (new, value) = some row' := by
  unfold updateSubject at refused
  split at refused
  · next meets =>
      obtain ⟨differ, met⟩ := meets
      obtain ⟨id, row, held, there⟩ := (Table.any_eq_true _ _).mp met
      obtain ⟨here, taken⟩ := Bool.and_eq_true_iff.mp there
      obtain ⟨row', held'⟩ := Option.isSome_iff_exists.mp taken
      obtain rfl := eq_of_beq here
      exact ⟨differ, id.2, row, row', held, held'⟩
  · cases refused

theorem updateSubject_some (updated : updateSubject rows old new = some rows') :
    Moved (hop old new) rows rows' := by
  unfold updateSubject at updated
  split at updated
  · cases updated
  · next free =>
      have clear (differ : old ≠ new) {value : String} {row row' : SubjectKey}
          (held : rows.get (old, value) = some row) (held' : rows.get (new, value) = some row') :
          False := by
        refine free ⟨differ, (Table.any_eq_true _ _).mpr ⟨(old, value), row, held, ?_⟩⟩
        rw [held', beq_self_eq_true]
        rfl
      have apart (id other : Identity) (row row' : SubjectKey) (held : rows.get id = some row)
          (held' : rows.get other = some row') (value : id.2 = other.2)
          (name : hop old new id.1 = hop old new other.1) : id = other := by
        obtain ⟨field, value₁⟩ := id
        obtain ⟨field', value₂⟩ := other
        dsimp only at value name
        subst value
        unfold hop at name
        by_cases first : field = old
        · subst first
          by_cases second : field' = field
          · rw [second]
          · rw [if_pos rfl, if_neg second] at name
            subst name
            exact (clear (Ne.symm second) held held').elim
        · by_cases second : field' = old
          · subst second
            rw [if_neg first, if_pos rfl] at name
            subst name
            exact (clear (Ne.symm first) held' held).elim
          · rw [if_neg first, if_neg second] at name
            rw [name]
      cases updated
      refine ⟨apart, ?_⟩
      intro target row
      rw [Table.get_reshape]
      · constructor
        · rintro ⟨id, found, held, there, rfl⟩
          exact ⟨id, held, there⟩
        · rintro ⟨id, held, there⟩
          exact ⟨id, row, held, there, rfl⟩
      · intro id other row row' held held' same
        obtain ⟨name, value⟩ := Prod.mk.inj same
        exact apart id other row row' held held' value name

theorem updateEach_cons_of_some {context : String} {rest : List (String × String × String)}
    (updated : updateSubject rows old new = some rows') :
    updateEach rows ((old, new, context) :: rest) = updateEach rows' rest := by
  rw [updateEach, updated]

theorem updateEach_ok {hops : List (String × String × String)}
    (updated : updateEach rows hops = .ok rows') : Moved (through hops) rows rows' := by
  induction hops generalizing rows with
  | nil =>
      cases updated
      exact .refl _
  | cons first rest ih =>
      obtain ⟨old, new, context⟩ := first
      unfold updateEach at updated
      split at updated
      · cases updated
      · next next_rows here => exact (updateSubject_some here).trans (ih updated)

end Updates

/-! ## Staging and landing -/

theorem staged_injective {old other : String} (same : staged old = staged other) : old = other :=
  (String.append_right_inj _).mp same

/-- No name of the mapping is one an old name is staged under. -/
def Unstaged (stated : V10Subjects) : Prop :=
  ∀ old new, stated.get old = some new → ∀ other renamed, stated.get other = some renamed →
    old ≠ staged other ∧ new ≠ staged other

section Hops

variable {renames : List (String × String)}

def stageHops (renames : List (String × String)) : List (String × String × String) :=
  renames.map fun pair => (pair.1, staged pair.1, s!"staging the v10 rename of `{pair.1}`")

def landHops (renames : List (String × String)) : List (String × String × String) :=
  renames.map fun pair =>
    (staged pair.1, pair.2, s!"renaming `{pair.1}` to `{pair.2}` for schema v10")

theorem through_stageHops_of_not_mem {name : String} (apart : ∀ pair ∈ renames, name ≠ pair.1) :
    through (stageHops renames) name = name := by
  induction renames with
  | nil => rfl
  | cons first rest ih =>
      have here : hop first.1 (staged first.1) name = name :=
        if_neg (apart first List.mem_cons_self)
      change through (stageHops rest) (hop first.1 (staged first.1) name) = name
      rw [here]
      exact ih fun pair member => apart pair (List.mem_cons_of_mem _ member)

theorem through_stageHops_of_mem {pair : String × String} (member : pair ∈ renames)
    (clear : ∀ one ∈ renames, ∀ other ∈ renames, one.1 ≠ staged other.1) :
    through (stageHops renames) pair.1 = staged pair.1 := by
  induction renames with
  | nil => cases member
  | cons first rest ih =>
      change through (stageHops rest) (hop first.1 (staged first.1) pair.1) = staged pair.1
      by_cases here : pair.1 = first.1
      · rw [here]
        unfold hop
        rw [if_pos rfl]
        exact through_stageHops_of_not_mem fun one later =>
          (clear one (List.mem_cons_of_mem _ later) first List.mem_cons_self).symm
      · unfold hop
        rw [if_neg here]
        refine ih ?_ fun one later other laterOther =>
          clear one (List.mem_cons_of_mem _ later) other (List.mem_cons_of_mem _ laterOther)
        rcases List.mem_cons.mp member with rfl | later
        · exact absurd rfl here
        · exact later

theorem through_landHops_of_unstaged {name : String}
    (apart : ∀ pair ∈ renames, name ≠ staged pair.1) : through (landHops renames) name = name := by
  induction renames with
  | nil => rfl
  | cons first rest ih =>
      have here : hop (staged first.1) first.2 name = name :=
        if_neg (apart first List.mem_cons_self)
      change through (landHops rest) (hop (staged first.1) first.2 name) = name
      rw [here]
      exact ih fun pair member => apart pair (List.mem_cons_of_mem _ member)

theorem through_landHops_of_mem {pair : String × String} (member : pair ∈ renames)
    (once : (renames.map Prod.fst).Nodup)
    (clear : ∀ one ∈ renames, ∀ other ∈ renames, one.2 ≠ staged other.1) :
    through (landHops renames) (staged pair.1) = pair.2 := by
  induction renames with
  | nil => cases member
  | cons first rest ih =>
      obtain ⟨fresh, onceRest⟩ := List.nodup_cons.mp once
      change through (landHops rest) (hop (staged first.1) first.2 (staged pair.1)) = pair.2
      rcases List.mem_cons.mp member with rfl | later
      · unfold hop
        rw [if_pos rfl]
        exact through_landHops_of_unstaged fun other laterOther =>
          clear pair List.mem_cons_self other (List.mem_cons_of_mem _ laterOther)
      · have apart : staged pair.1 ≠ staged first.1 := by
          intro same
          exact fresh (staged_injective same ▸ List.mem_map_of_mem later)
        unfold hop
        rw [if_neg apart]
        exact ih later onceRest fun one laterOne other laterOther =>
          clear one (List.mem_cons_of_mem _ laterOne) other (List.mem_cons_of_mem _ laterOther)

end Hops

/-! ## What is checked first -/

section Checks

variable {rows : FieldKeys} {stated : V10Subjects}

theorem V10Subjects.mem_pairs {pair : String × String} :
    pair ∈ stated.pairs ↔ stated.get pair.1 = some pair.2 := by
  unfold V10Subjects.pairs
  rw [List.mem_insertionSort, List.mem_map, Table.get_eq_some_iff]
  constructor
  · rintro ⟨entry, member, rfl⟩
    exact member
  · intro member
    exact ⟨_, member, rfl⟩

theorem V10Subjects.pairs_nodup (stated : V10Subjects) : (stated.pairs.map Prod.fst).Nodup := by
  unfold V10Subjects.pairs
  refine ((List.perm_insertionSort _ _).map Prod.fst).nodup_iff.mpr ?_
  rw [List.map_map]
  exact stated.nodupKeys

theorem V10Subjects.target_of_get {old new : String} (sends : stated.get old = some new) :
    stated.target old = new := by
  unfold V10Subjects.target
  rw [sends]
  rfl

theorem mem_present {name : String} :
    name ∈ present rows ↔ ∃ value row, rows.get (name, value) = some row := by
  unfold present
  rw [List.mem_insertionSort, List.mem_dedup, List.mem_map]
  constructor
  · rintro ⟨⟨field, value⟩, member, rfl⟩
    obtain ⟨row, held⟩ := (Table.mem_keys_iff rows _).mp member
    exact ⟨value, row, held⟩
  · rintro ⟨value, row, held⟩
    exact ⟨(name, value), (Table.mem_keys_iff rows _).mpr ⟨row, held⟩, rfl⟩

/-- Every namespace with a row is one the mapping names. -/
def Accounted (rows : FieldKeys) (stated : V10Subjects) : Prop :=
  ∀ id row, rows.get id = some row → ∃ new, stated.get id.1 = some new

/-- No two rows are sent to one key. -/
def Apart (rows : FieldKeys) (name : String → String) : Prop :=
  ∀ id other row row', rows.get id = some row → rows.get other = some row' →
    id.2 = other.2 → name id.1 = name other.1 → id = other

/-- The renames of a mapping. -/
def renamesOf (stated : V10Subjects) : List (String × String) :=
  stated.pairs.filter fun pair => pair.1 ≠ pair.2

theorem mem_renamesOf {pair : String × String} :
    pair ∈ renamesOf stated ↔ stated.get pair.1 = some pair.2 ∧ pair.1 ≠ pair.2 := by
  unfold renamesOf
  rw [List.mem_filter, V10Subjects.mem_pairs, decide_eq_true_iff]

theorem renamesOf_nodup (stated : V10Subjects) : ((renamesOf stated).map Prod.fst).Nodup :=
  (stated.pairs_nodup).sublist (List.filter_sublist.map Prod.fst)

theorem v10Renames_ok {renames : List (String × String)}
    (checked : v10Renames rows stated = .ok renames) :
    Accounted rows stated ∧ (renames = renamesOf stated ∨
      renames = [] ∧ ∀ id, rows.get id = none) := by
  unfold v10Renames at checked
  split at checked
  · next empty =>
      cases checked
      have nothing (id : Identity) (row : FieldKey) (held : rows.get id = some row) : False := by
        have member : id.1 ∈ present rows := mem_present.mpr ⟨id.2, row, held⟩
        rw [List.isEmpty_iff.mp empty] at member
        cases member
      refine ⟨fun id row held => (nothing id row held).elim, .inr ⟨rfl, ?_⟩⟩
      intro id
      cases held : rows.get id with
      | none => rfl
      | some row => exact (nothing id row held).elim
  · dsimp only at checked
    split at checked
    · split at checked <;> cases checked
    · next accounted =>
        split at checked
        · cases checked
        · cases checked
          refine ⟨?_, .inl rfl⟩
          intro id row held
          by_contra unnamed
          refine accounted ?_
          have listed : id.1 ∈ (present rows).filter fun name => (stated.get name).isNone := by
            refine List.mem_filter.mpr ⟨mem_present.mpr ⟨id.2, row, held⟩, ?_⟩
            rw [Option.isNone_iff_eq_none]
            cases sends : stated.get id.1 with
            | none => rfl
            | some new => exact absurd ⟨new, sends⟩ unnamed
          rw [Bool.not_eq_true', List.isEmpty_eq_false_iff]
          exact List.ne_nil_of_mem listed

/-- Where no two rows are sent to one key, no merge clashes. -/
theorem clashingMerge_none (apart : Apart rows stated.target) :
    clashingMerge rows stated = none := by
  unfold clashingMerge
  rw [List.findSome?_eq_none_iff]
  intro new _
  dsimp only
  split
  · rw [Option.map_eq_none_iff]
    unfold clash
    dsimp only
    have sent (name : String) (member : (mergedInto stated new).contains name = true) :
        stated.target name = new := by
      obtain ⟨pair, listed, rfl⟩ := List.mem_map.mp (List.contains_iff_mem.mp member)
      obtain ⟨named, here⟩ := List.mem_filter.mp listed
      exact (V10Subjects.target_of_get (V10Subjects.mem_pairs.mp named)).trans (eq_of_beq here)
    have once : ((rows.keys.filter fun id => (mergedInto stated new).contains id.1).map
        Prod.snd).Nodup := by
      refine List.Nodup.map_on ?_ (rows.nodupKeys.filter _)
      intro id member other memberOther value
      obtain ⟨key, named⟩ := List.mem_filter.mp member
      obtain ⟨keyOther, namedOther⟩ := List.mem_filter.mp memberOther
      obtain ⟨row, held⟩ := (Table.mem_keys_iff rows id).mp key
      obtain ⟨row', held'⟩ := (Table.mem_keys_iff rows other).mp keyOther
      exact apart id other row row' held held' value
        ((sent _ named).trans (sent _ namedOther).symm)
    have none_twice : (((rows.keys.filter fun id => (mergedInto stated new).contains id.1).map
        Prod.snd).filter fun value => 1 < ((rows.keys.filter fun id =>
          (mergedInto stated new).contains id.1).map Prod.snd).count value) = [] := by
      rw [List.filter_eq_nil_iff]
      intro value _
      rw [decide_eq_true_iff, Nat.not_lt]
      exact List.nodup_iff_count_le_one.mp once value
    rw [none_twice]
    rfl
  · rfl

theorem v10Renames_of_accounted (accounted : Accounted rows stated)
    (apart : Apart rows stated.target) :
    ∃ renames, v10Renames rows stated = .ok renames := by
  unfold v10Renames
  split
  · exact ⟨[], rfl⟩
  · dsimp only
    have named : (present rows).filter (fun name => (stated.get name).isNone) = [] := by
      rw [List.filter_eq_nil_iff]
      intro name member
      obtain ⟨value, row, held⟩ := mem_present.mp member
      obtain ⟨new, sends⟩ := accounted (name, value) row held
      rw [sends]
      exact Bool.false_ne_true
    rw [named, clashingMerge_none apart]
    exact ⟨_, rfl⟩

end Checks

/-! ## The migration as a whole -/

/-- Every row is carried across, whole, under its namespace's new name, and no two
have met. -/
structure Carried (name : String → String) (rows : FieldKeys) (rows' : KeyTable) : Prop where
  apart : Apart rows name
  found : ∀ id' row', rows'.get id' = some row' ↔
    ∃ id row, rows.get id = some row ∧ (name id.1, id.2) = id' ∧ row.carried = row'

section Whole

variable {rows : FieldKeys} {rows' : KeyTable} {stated : V10Subjects}

theorem rebuilt_get (rows : FieldKeys) (id : Identity) (row' : SubjectKey) :
    (rebuilt rows).get id = some row' ↔ ∃ row, rows.get id = some row ∧ row.carried = row' := by
  unfold rebuilt
  rw [Table.get_reshape]
  · constructor
    · rintro ⟨id, row, held, rfl, same⟩
      exact ⟨row, held, same⟩
    · rintro ⟨row, held, same⟩
      exact ⟨id, row, held, rfl, same⟩
  · intro _ _ _ _ _ _ same
    exact same

theorem Moved.carried {name : String → String} (moved : Moved name (rebuilt rows) rows') :
    Carried name rows rows' where
  apart id other row row' held held' :=
    moved.apart id other _ _ ((rebuilt_get rows id _).mpr ⟨row, held, rfl⟩)
      ((rebuilt_get rows other _).mpr ⟨row', held', rfl⟩)
  found id' row' := by
    rw [moved.found]
    constructor
    · rintro ⟨id, held, there⟩
      obtain ⟨row, heldBefore, same⟩ := (rebuilt_get rows id row').mp held
      exact ⟨id, row, heldBefore, there, same⟩
    · rintro ⟨id, row, held, there, same⟩
      exact ⟨id, (rebuilt_get rows id row').mpr ⟨row, held, same⟩, there⟩

theorem applyV10Renames_eq (start : KeyTable) (renames : List (String × String)) :
    applyV10Renames start renames =
      match updateEach start (stageHops renames) with
      | .error message => .error message
      | .ok rows => updateEach rows (landHops renames) := rfl

theorem applyV10Renames_ok {start : KeyTable} {renames : List (String × String)}
    (applied : applyV10Renames start renames = .ok rows') :
    Moved (fun name => through (landHops renames) (through (stageHops renames) name))
      start rows' := by
  unfold applyV10Renames at applied
  split at applied
  · cases applied
  · next middle staging => exact (updateEach_ok staging).trans (updateEach_ok applied)

/-- Both hops together send each name where the mapping says. -/
theorem through_hops (unstaged : Unstaged stated) {name new : String}
    (sends : stated.get name = some new) :
    through (landHops (renamesOf stated)) (through (stageHops (renamesOf stated)) name) = new := by
  have clearOld (one : String × String) (member : one ∈ renamesOf stated)
      (other : String × String) (memberOther : other ∈ renamesOf stated) :
      one.1 ≠ staged other.1 :=
    (unstaged one.1 one.2 (mem_renamesOf.mp member).1 other.1 other.2
      (mem_renamesOf.mp memberOther).1).1
  have clearNew (one : String × String) (member : one ∈ renamesOf stated)
      (other : String × String) (memberOther : other ∈ renamesOf stated) :
      one.2 ≠ staged other.1 :=
    (unstaged one.1 one.2 (mem_renamesOf.mp member).1 other.1 other.2
      (mem_renamesOf.mp memberOther).1).2
  by_cases kept : name = new
  · subst kept
    have unnamed (pair : String × String) (member : pair ∈ renamesOf stated) : name ≠ pair.1 := by
      rintro rfl
      obtain ⟨sendsPair, differ⟩ := mem_renamesOf.mp member
      exact differ (Option.some.inj (sends.symm.trans sendsPair))
    rw [through_stageHops_of_not_mem unnamed]
    exact through_landHops_of_unstaged fun pair member =>
      (unstaged name name sends pair.1 pair.2 (mem_renamesOf.mp member).1).1
  · have member : (name, new) ∈ renamesOf stated := mem_renamesOf.mpr ⟨sends, kept⟩
    rw [through_stageHops_of_mem member clearOld]
    exact through_landHops_of_mem member (renamesOf_nodup stated) clearNew

/-- Nothing is in the way of staging. -/
theorem staging_ok {start : KeyTable} {renames : List (String × String)}
    (once : (renames.map Prod.fst).Nodup)
    (clear : ∀ id row, start.get id = some row → ∀ pair ∈ renames, id.1 ≠ staged pair.1) :
    ∃ rows', updateEach start (stageHops renames) = .ok rows' := by
  induction renames generalizing start with
  | nil => exact ⟨start, rfl⟩
  | cons first rest ih =>
      obtain ⟨fresh, onceRest⟩ := List.nodup_cons.mp once
      cases updated : updateSubject start first.1 (staged first.1) with
      | none =>
          obtain ⟨-, value, row, row', -, held⟩ := updateSubject_none updated
          exact absurd rfl (clear _ row' held first List.mem_cons_self)
      | some next =>
          unfold stageHops
          rw [List.map_cons, updateEach_cons_of_some updated]
          refine ih onceRest ?_
          intro id row held pair member
          obtain ⟨before, heldBefore, rfl⟩ := ((updateSubject_some updated).found id row).mp held
          dsimp only
          unfold hop
          split
          · intro same
            exact fresh (staged_injective same ▸ List.mem_map_of_mem member)
          · exact clear before row heldBefore pair (List.mem_cons_of_mem _ member)

/-- Nothing is in the way of landing, where no two staged rows are sent to one
key and none to a key that is there. -/
theorem landing_ok {start : KeyTable} {renames : List (String × String)}
    (once : (renames.map Prod.fst).Nodup)
    (unstaged : ∀ one ∈ renames, ∀ other ∈ renames, one.2 ≠ staged other.1)
    (free : ∀ pair ∈ renames, ∀ value row row',
      start.get (staged pair.1, value) = some row → start.get (pair.2, value) ≠ some row')
    (apart : ∀ one ∈ renames, ∀ other ∈ renames, one.1 ≠ other.1 → one.2 = other.2 →
      ∀ value row row', start.get (staged one.1, value) = some row →
        start.get (staged other.1, value) ≠ some row') :
    ∃ rows', updateEach start (landHops renames) = .ok rows' := by
  induction renames generalizing start with
  | nil => exact ⟨start, rfl⟩
  | cons first rest ih =>
      obtain ⟨fresh, onceRest⟩ := List.nodup_cons.mp once
      have later {pair : String × String} (member : pair ∈ rest) : pair ∈ first :: rest :=
        List.mem_cons_of_mem _ member
      cases updated : updateSubject start (staged first.1) first.2 with
      | none =>
          obtain ⟨-, value, row, row', held, held'⟩ := updateSubject_none updated
          exact absurd held' (free first List.mem_cons_self value row row' held)
      | some next =>
          have moved := updateSubject_some updated
          -- What is staged was staged before.
          have before (pair : String × String) (member : pair ∈ rest) (value : String)
              (row : SubjectKey) (held : next.get (staged pair.1, value) = some row) :
              start.get (staged pair.1, value) = some row := by
            obtain ⟨⟨name, value'⟩, heldBefore, there⟩ := (moved.found _ row).mp held
            obtain ⟨hopped, rfl⟩ := Prod.mk.inj there
            unfold hop at hopped
            split at hopped
            · exact absurd hopped (unstaged first List.mem_cons_self pair (later member))
            · dsimp only at hopped
              subst hopped
              exact heldBefore
          unfold landHops
          rw [List.map_cons, updateEach_cons_of_some updated]
          refine ih onceRest (fun one member other memberOther =>
            unstaged one (later member) other (later memberOther)) ?_ ?_
          · intro pair member value row row' held held'
            have heldBefore := before pair member value row held
            obtain ⟨⟨name, value'⟩, landed, there⟩ := (moved.found _ row').mp held'
            obtain ⟨hopped, rfl⟩ := Prod.mk.inj there
            unfold hop at hopped
            split at hopped
            · next here =>
                dsimp only at here
                subst here
                have differ : first.1 ≠ pair.1 := by
                  intro same
                  exact fresh (same ▸ List.mem_map_of_mem member)
                exact apart first List.mem_cons_self pair (later member) differ hopped value'
                  row' row landed heldBefore
            · dsimp only at hopped
              subst hopped
              exact free pair (later member) value' row row' heldBefore landed
          · intro one member other memberOther differ same value row row' held held'
            exact apart one (later member) other (later memberOther) differ same value row row'
              (before one member value row held) (before other memberOther value row' held')

theorem applyV10Renames_of_apart (unstaged : Unstaged stated) (accounted : Accounted rows stated)
    (apart : Apart rows stated.target) :
    ∃ rows', applyV10Renames (rebuilt rows) (renamesOf stated) = .ok rows' := by
  have named {pair : String × String} (member : pair ∈ renamesOf stated) :=
    (mem_renamesOf.mp member).1
  have clear (id : Identity) (row' : SubjectKey) (held : (rebuilt rows).get id = some row')
      (pair : String × String) (member : pair ∈ renamesOf stated) : id.1 ≠ staged pair.1 := by
    obtain ⟨row, heldBefore, -⟩ := (rebuilt_get rows id row').mp held
    obtain ⟨new, sends⟩ := accounted id row heldBefore
    exact (unstaged id.1 new sends pair.1 pair.2 (named member)).1
  obtain ⟨middle, staging⟩ := staging_ok (renamesOf_nodup stated) clear
  have moved := (updateEach_ok staging).carried
  -- Where a row of the middle came from.
  have from_staged (pair : String × String) (member : pair ∈ renamesOf stated) (value : String)
      (row' : SubjectKey) (held : middle.get (staged pair.1, value) = some row') :
      ∃ row, rows.get (pair.1, value) = some row := by
    obtain ⟨⟨name, value'⟩, row, heldBefore, there, -⟩ := (moved.found _ row').mp held
    obtain ⟨hopped, rfl⟩ := Prod.mk.inj there
    obtain ⟨new, sends⟩ := accounted (name, value') row heldBefore
    dsimp only at sends hopped
    by_cases kept : name = new
    · subst kept
      rw [through_stageHops_of_not_mem] at hopped
      · exact absurd hopped (unstaged name name sends pair.1 pair.2 (named member)).1
      · rintro other memberOther rfl
        exact (mem_renamesOf.mp memberOther).2
          (Option.some.inj (sends.symm.trans (named memberOther)))
    · have listed : (name, new) ∈ renamesOf stated := mem_renamesOf.mpr ⟨sends, kept⟩
      rw [through_stageHops_of_mem listed fun one first other second =>
        (unstaged one.1 one.2 (named first) other.1 other.2 (named second)).1] at hopped
      obtain rfl := staged_injective hopped
      exact ⟨row, heldBefore⟩
  have from_target (pair : String × String) (member : pair ∈ renamesOf stated) (value : String)
      (row' : SubjectKey) (held : middle.get (pair.2, value) = some row') :
      ∃ row, rows.get (pair.2, value) = some row ∧ stated.get pair.2 = some pair.2 := by
    obtain ⟨⟨name, value'⟩, row, heldBefore, there, -⟩ := (moved.found _ row').mp held
    obtain ⟨hopped, rfl⟩ := Prod.mk.inj there
    obtain ⟨new, sends⟩ := accounted (name, value') row heldBefore
    dsimp only at sends hopped
    by_cases kept : name = new
    · subst kept
      rw [through_stageHops_of_not_mem] at hopped
      · subst hopped
        exact ⟨row, heldBefore, sends⟩
      · rintro other memberOther rfl
        exact (mem_renamesOf.mp memberOther).2
          (Option.some.inj (sends.symm.trans (named memberOther)))
    · have listed : (name, new) ∈ renamesOf stated := mem_renamesOf.mpr ⟨sends, kept⟩
      rw [through_stageHops_of_mem listed fun one first other second =>
        (unstaged one.1 one.2 (named first) other.1 other.2 (named second)).1] at hopped
      exact absurd hopped.symm (unstaged pair.1 pair.2 (named member) name new sends).2
  have landing : ∃ rows', updateEach middle (landHops (renamesOf stated)) = .ok rows' := by
    refine landing_ok (renamesOf_nodup stated) ?_ ?_ ?_
    · intro one member other memberOther
      exact (unstaged one.1 one.2 (named member) other.1 other.2 (named memberOther)).2
    · intro pair member value row row' held held'
      obtain ⟨first, heldFirst⟩ := from_staged pair member value row held
      obtain ⟨second, heldSecond, sends⟩ := from_target pair member value row' held'
      have same := apart (pair.1, value) (pair.2, value) first second heldFirst heldSecond rfl
        ((V10Subjects.target_of_get (named member)).trans
          (V10Subjects.target_of_get sends).symm)
      exact (mem_renamesOf.mp member).2 (Prod.mk.inj same).1
    · intro one member other memberOther differ same value row row' held held'
      obtain ⟨first, heldFirst⟩ := from_staged one member value row held
      obtain ⟨second, heldSecond⟩ := from_staged other memberOther value row' held'
      have met := apart (one.1, value) (other.1, value) first second heldFirst heldSecond rfl
        ((V10Subjects.target_of_get (named member)).trans
          (same.trans (V10Subjects.target_of_get (named memberOther)).symm))
      exact differ (Prod.mk.inj met).1
  obtain ⟨rows', landed⟩ := landing
  refine ⟨rows', ?_⟩
  rw [applyV10Renames_eq, staging]
  exact landed

/-- At schema v9 the database is brought up in two transactions, of which the first
can refuse. -/
theorem migrate_fields (stated : V10Subjects) (rows : FieldKeys) :
    migrate stated ⟨9, .fields rows⟩ =
      match v10Renames rows stated with
      | .error message => (.error message, ⟨9, .fields rows⟩)
      | .ok renames =>
          match applyV10Renames (rebuilt rows) renames with
          | .error message => (.error message, ⟨9, .fields rows⟩)
          | .ok rows' => (.ok (), ⟨11, .subjects rows'⟩) := by
  have began : migrate stated ⟨9, .fields rows⟩ =
      match migrateVersion stated ⟨9, .fields rows⟩ with
      | .error message => (.error message, ⟨9, .fields rows⟩)
      | .ok db => migrateFrom stated 1 db := rfl
  have first : migrateVersion stated ⟨9, .fields rows⟩ =
      match v10Renames rows stated with
      | .error message => .error message
      | .ok renames =>
          match applyV10Renames (rebuilt rows) renames with
          | .error message => .error message
          | .ok rows => .ok ⟨10, .subjects rows⟩ := rfl
  rw [began, first]
  cases v10Renames rows stated with
  | error message => rfl
  | ok renames =>
      dsimp only
      cases applyV10Renames (rebuilt rows) renames with
      | error message => rfl
      | ok rows' => rfl

/-- The migration refuses and leaves the database as it was, or ends at the new
version with every row carried across one to one, under its id and under the
namespace the mapping sends its own to as long as no name of the mapping is a
staging name.  For such a mapping it refuses exactly when a namespace is not
accounted for or two rows would meet. -/
theorem v10_all_or_nothing (var : Except V10Subjects.VarError String) (rows : FieldKeys) :
    ((∃ message, openDb var ⟨9, .fields rows⟩ = (.error message, ⟨9, .fields rows⟩)) ∨
        ∃ stated name rows', V10Subjects.fromEnv var = .ok stated ∧
          openDb var ⟨9, .fields rows⟩ = (.ok (), ⟨11, .subjects rows'⟩) ∧
          Carried name rows rows' ∧
          (Unstaged stated → ∀ id row, rows.get id = some row →
            name id.1 = stated.target id.1)) ∧
      ∀ stated, V10Subjects.fromEnv var = .ok stated → Unstaged stated →
        ((openDb var ⟨9, .fields rows⟩).1 = .ok () ↔
          Accounted rows stated ∧ Apart rows stated.target) := by
  unfold openDb
  cases parsed : V10Subjects.fromEnv var with
  | error message => exact ⟨.inl ⟨message, rfl⟩, nofun⟩
  | ok stated =>
      dsimp only
      rw [migrate_fields]
      constructor
      · cases checked : v10Renames rows stated with
        | error message => exact .inl ⟨message, rfl⟩
        | ok renames =>
            dsimp only
            cases applied : applyV10Renames (rebuilt rows) renames with
            | error message => exact .inl ⟨message, rfl⟩
            | ok rows' =>
                refine .inr ⟨stated, _, rows', rfl, rfl, (applyV10Renames_ok applied).carried, ?_⟩
                intro unstaged id row held
                obtain ⟨accounted, rfl | ⟨-, empty⟩⟩ := v10Renames_ok checked
                · obtain ⟨new, sends⟩ := accounted id row held
                  rw [V10Subjects.target_of_get sends]
                  exact through_hops unstaged sends
                · cases (empty id).symm.trans held
      · rintro _ ⟨⟩ unstaged
        constructor
        · intro succeeded
          cases checked : v10Renames rows stated with
          | error message =>
              rw [checked] at succeeded
              cases succeeded
          | ok renames =>
              rw [checked] at succeeded
              dsimp only at succeeded
              cases applied : applyV10Renames (rebuilt rows) renames with
              | error message =>
                  rw [applied] at succeeded
                  cases succeeded
              | ok rows' =>
                  obtain ⟨accounted, rfl | ⟨-, empty⟩⟩ := v10Renames_ok checked
                  · refine ⟨accounted, ?_⟩
                    intro id other row row' held held' value name
                    refine (applyV10Renames_ok applied).carried.apart id other row row' held held'
                      value ?_
                    obtain ⟨new, sends⟩ := accounted id row held
                    obtain ⟨new', sends'⟩ := accounted other row' held'
                    rw [V10Subjects.target_of_get sends, V10Subjects.target_of_get sends'] at name
                    exact (through_hops unstaged sends).trans
                      (name.trans (through_hops unstaged sends').symm)
                  · refine ⟨accounted, ?_⟩
                    intro id _ row _ held
                    cases (empty id).symm.trans held
        · rintro ⟨accounted, apart⟩
          obtain ⟨renames, checked⟩ := v10Renames_of_accounted accounted apart
          have applied : ∃ rows', applyV10Renames (rebuilt rows) renames = .ok rows' := by
            obtain ⟨-, rfl | ⟨rfl, -⟩⟩ := v10Renames_ok checked
            · exact applyV10Renames_of_apart unstaged accounted apart
            · exact ⟨_, rfl⟩
          obtain ⟨rows', applied⟩ := applied
          rw [checked]
          dsimp only
          rw [applied]

end Whole

/-- Two namespaces, of a key each. -/
def twoFields : FieldKeys :=
  ((∅ : FieldKeys).set ("a", "1") ⟨⟨0, ⟨.master "A", [], 1⟩⟩, "A"⟩).set ("b", "2")
    ⟨⟨2, ⟨.master "A", [], 3⟩⟩, "A"⟩

/-- A mapping of the one to the name the other is staged under. -/
def ontoStaging : String := "a=\u0001b,b=C"

/-- The key of the first namespace is carried along with the second's. -/
theorem v10_lands_on_staging :
    ∃ stated rows', V10Subjects.parse ontoStaging = .ok stated ∧
      openDb (.ok ontoStaging) ⟨9, .fields twoFields⟩ = (.ok (), ⟨11, .subjects rows'⟩) ∧
      stated.target "a" = "\u0001b" ∧ rows'.get ("\u0001b", "1") = none ∧
      rows'.get ("C", "1") = some ⟨⟨0, ⟨.master "A", [], 1⟩⟩, .master "A"⟩ := by
  have checked : (match V10Subjects.parse ontoStaging,
      openDb (.ok ontoStaging) ⟨9, .fields twoFields⟩ with
    | .ok stated, (.ok (), ⟨11, .subjects rows'⟩) =>
        decide (stated.target "a" = "\u0001b") && decide (rows'.get ("\u0001b", "1") = none) &&
          decide (rows'.get ("C", "1") = some ⟨⟨0, ⟨.master "A", [], 1⟩⟩, .master "A"⟩)
    | _, _ => false) = true := by
    decide
  split at checked
  · next stated rows' parsed opened =>
      obtain ⟨first, there⟩ := Bool.and_eq_true_iff.mp checked
      obtain ⟨sends, gone⟩ := Bool.and_eq_true_iff.mp first
      exact ⟨stated, rows', parsed, opened, of_decide_eq_true sends, of_decide_eq_true gone,
        of_decide_eq_true there⟩
  · cases checked

end Hekla.Keys
