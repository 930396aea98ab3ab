import Hekla.Library.Keyset
import Hekla.Library.Passes
import Hekla.Library.Runs
import Hekla.Library.Upsert
import Hekla.Plan.Affected
import Mathlib.Data.List.Dedup
import Mathlib.Data.List.Induction
import Mathlib.Data.Prod.Lex
import Mathlib.Data.String.Basic

/-!
# The declarations that a directory has had deployed

Every boot records what it loaded: a row for each version of a declaration, with the packed
form that reads back, and the mark of the versions that run now.
-/

namespace Hekla.Plan

open Hekla.Library Hekla.Library.Upsert

/-! ## The digest -/

/-- An entry of a digest, with its hashes. -/
structure DigestEntry extends Entry where
  hash : String
  signatureHash : Option String
  signature : Option Sexp

def DigestEntry.decl (entry : DigestEntry) : Decl := (entry.kind, entry.name)

/-- The digest as heklang writes and reads it.  A hash is made under a version. -/
structure Digest where
  name : Kind → String
  lookup : String → Option Kind
  rank : Kind → Nat
  packed : Sexp → String
  expanded : Sexp → String
  fromPacked (version : Nat) (form : String) (signature : Option String) : Except String DigestEntry

namespace Digest

variable (digest : Digest)

/-- What a row has of an entry reads back as that entry. -/
def Reads (version : Nat) (entry : DigestEntry) : Prop :=
  digest.fromPacked version (digest.packed entry.form) (entry.signature.map digest.packed) = .ok entry

/-- What is relied on: the names of the kinds are told apart, a line that reads is the packed
form of what it reads as, it names its declaration under every version, and a hash tells the
versions of a declaration apart. -/
structure Lawful : Prop where
  lookup_name : ∀ kind, digest.lookup (digest.name kind) = some kind
  rank_injective : digest.rank.Injective
  packed_of_read : ∀ {version form signature entry},
    digest.fromPacked version form signature = .ok entry →
      digest.packed entry.form = form ∧ entry.signature.map digest.packed = signature
  decl_of_read : ∀ {version other form signature signature' entry entry'},
    digest.fromPacked version form signature = .ok entry →
      digest.fromPacked other form signature' = .ok entry' → entry.decl = entry'.decl
  hash_injective : ∀ {version other entry entry'}, digest.Reads version entry → digest.Reads other entry' →
    entry.decl = entry'.decl → entry.hash = entry'.hash → entry = entry'

theorem Lawful.name_injective {digest : Digest} (lawful : digest.Lawful) : digest.name.Injective := by
  intro one other same
  have found := lawful.lookup_name one
  rw [same, lawful.lookup_name other] at found
  exact (Option.some.inj found).symm

end Digest

/-- A project as it is loaded, with what its digest is computed under. -/
structure Project (digest : Digest) where
  version : Nat
  entries : List DigestEntry
  modulePaths : Decl → Option String
  distinct : (entries.map DigestEntry.decl).Nodup
  reads : ∀ entry ∈ entries, digest.Reads version entry

/-! ## The table -/

structure DeclarationRow where
  kind : String
  name : String
  hash : String
  signatureHash : Option String
  form : String
  signature : Option String
  module : Option String
  firstSeen : String
  lastSeen : String
  current : Bool
  deriving DecidableEq

namespace DeclarationRow

/-- The primary key. -/
def key (row : DeclarationRow) : String × String × String := (row.kind, row.name, row.hash)

/-- Where a row stands in the orders that the table is read in. -/
def place (row : DeclarationRow) : String ×ₗ String := toLex (row.kind, row.name)

/-- An insert that meets its row: `ON CONFLICT(kind, name, hash) DO UPDATE`. -/
def touch (held row : DeclarationRow) : DeclarationRow :=
  { held with lastSeen := row.lastSeen, current := true, module := row.module }

def cleared (row : DeclarationRow) : DeclarationRow := { row with current := false }

@[simp] theorem touch_key (held row : DeclarationRow) : (touch held row).key = held.key := rfl

@[simp] theorem cleared_key (row : DeclarationRow) : row.cleared.key = row.key := rfl

end DeclarationRow

variable {digest : Digest}

/-- The row of an entry.  The times are the writer's to set. -/
def declaration (project : Project digest) (entry : DigestEntry) : DeclarationRow where
  kind := digest.name entry.kind
  name := entry.name
  hash := entry.hash
  signatureHash := entry.signatureHash
  form := digest.packed entry.form
  signature := entry.signature.map digest.packed
  module := project.modulePaths entry.decl
  firstSeen := ""
  lastSeen := ""
  current := true

def declarations (project : Project digest) : List DeclarationRow := project.entries.map (declaration project)

/-- Clear the mark of the rows, then insert what is loaded now. -/
def setCurrentDeclarations (rows given : List DeclarationRow) (now : String) : List DeclarationRow :=
  (given.map fun row => { row with firstSeen := now, lastSeen := now, current := true }).foldl
    (upsert DeclarationRow.key DeclarationRow.touch) (rows.map DeclarationRow.cleared)

def currentDeclarations (rows : List DeclarationRow) : List DeclarationRow :=
  ordered (· < ·) DeclarationRow.place (rows.filter DeclarationRow.current)

def allDeclarations (rows : List DeclarationRow) : List DeclarationRow :=
  ordered (· < ·) (fun row => toLex (row.place, row.firstSeen)) rows

/-- The row read back as the entry that it was written from, under a build's version. -/
def recordedEntry (digest : Digest) (version : Nat) (row : DeclarationRow) : Option DigestEntry :=
  match digest.fromPacked version row.form row.signature with
  | .error _ => none
  | .ok entry => if entry.hash = row.hash then some entry else none

def recordedEntries (digest : Digest) (version : Nat) (rows : List DeclarationRow) : List DigestEntry :=
  (allDeclarations rows).filterMap (recordedEntry digest version)

def declarationByHash (rows : List DeclarationRow) (kind name hash : String) : Option DeclarationRow :=
  filed DeclarationRow.key rows (kind, name, hash)

/-! ## Boots -/

/-- A boot of a project, which its credentials, the stored events or the keys may refuse before
anything is recorded.  One that fails to start its projectors, its tables or its effects has been
recorded by then, and is not refused here. -/
structure Boot (digest : Digest) where
  project : Project digest
  now : String
  refused : Bool

/-- What a boot leaves of the table. -/
def boot (rows : List DeclarationRow) (starting : Boot digest) : List DeclarationRow :=
  if starting.refused then rows
  else setCurrentDeclarations rows (declarations starting.project) starting.now

def deploy (boots : List (Boot digest)) : List DeclarationRow := boots.foldl boot []

/-- The boots that were recorded. -/
def served (boots : List (Boot digest)) : List (Boot digest) := boots.filter fun starting => !starting.refused

/-- The row that a boot writes under a key, with no times. -/
def Boot.load (starting : Boot digest) (key : String × String × String) : Option DeclarationRow :=
  if starting.refused then none else filed DeclarationRow.key (declarations starting.project) key

/-- The times that a key was loaded at, each with the row. -/
def loaded (boots : List (Boot digest)) (key : String × String × String) : List (String × DeclarationRow) :=
  boots.filterMap fun starting => (starting.load key).map fun row => (starting.now, row)

/-- Whether the last boot that was served loaded a key. -/
def marked (boots : List (Boot digest)) (key : String × String × String) : Bool :=
  (served boots).getLast?.any fun starting => (starting.load key).isSome

theorem deploy_concat (boots : List (Boot digest)) (starting : Boot digest) :
    deploy (boots ++ [starting]) = boot (deploy boots) starting := by
  simp [deploy]

theorem loaded_concat (boots : List (Boot digest)) (starting : Boot digest) (key : String × String × String) :
    loaded (boots ++ [starting]) key =
      loaded boots key ++ ((starting.load key).map fun row => (starting.now, row)).toList := by
  simp only [loaded, List.filterMap_append, List.filterMap_cons, List.filterMap_nil]
  cases starting.load key <;> rfl

theorem served_concat (boots : List (Boot digest)) (starting : Boot digest) :
    served (boots ++ [starting]) = if starting.refused then served boots else served boots ++ [starting] := by
  cases refused : starting.refused <;> simp [served, refused]

/-! ## The rows of the table -/

theorem decls_nodup (lawful : digest.Lawful) (project : Project digest) :
    ((declarations project).map fun row => (row.kind, row.name)).Nodup := by
  have same : (declarations project).map (fun row => (row.kind, row.name)) =
      (project.entries.map DigestEntry.decl).map fun decl => (digest.name decl.1, decl.2) := by
    simp [declarations, declaration, DigestEntry.decl, Function.comp_def]
  rw [same]
  refine project.distinct.map ?_
  rintro ⟨kind, name⟩ ⟨kind', name'⟩ equal
  obtain ⟨kinds, names⟩ := Prod.mk.inj equal
  exact Prod.ext (lawful.name_injective kinds) names

theorem keys_nodup (lawful : digest.Lawful) (project : Project digest) :
    ((declarations project).map DeclarationRow.key).Nodup := by
  refine List.Nodup.of_map (fun key : String × String × String => (key.1, key.2.1)) ?_
  simpa [Function.comp_def, DeclarationRow.key] using decls_nodup lawful project

theorem filed_setCurrent (rows : List DeclarationRow) {given : List DeclarationRow}
    (apart : (given.map DeclarationRow.key).Nodup) (now : String) (key : String × String × String) :
    filed DeclarationRow.key (setCurrentDeclarations rows given now) key =
      match filed DeclarationRow.key given key with
      | none => (filed DeclarationRow.key rows key).map DeclarationRow.cleared
      | some row => some (((filed DeclarationRow.key rows key).map DeclarationRow.cleared).elim
          { row with firstSeen := now, lastSeen := now, current := true } fun held =>
            { held with lastSeen := now, current := true, module := row.module }) := by
  let stamped : DeclarationRow → DeclarationRow := fun row =>
    { row with firstSeen := now, lastSeen := now, current := true }
  have kept : ∀ row, (stamped row).key = row.key := fun _ => rfl
  have apart' : ((given.map stamped).map DeclarationRow.key).Nodup := by rwa [keys_map kept]
  unfold setCurrentDeclarations
  rw [filed_upserts DeclarationRow.touch_key apart', filed_map kept, filed_map DeclarationRow.cleared_key]
  cases filed DeclarationRow.key given key <;> rfl

/-- What the table has under a key: the row of the first boot that loaded it, its time, and the
time and the module of the last. -/
theorem filed_deploy (lawful : digest.Lawful) (boots : List (Boot digest)) (key : String × String × String) :
    filed DeclarationRow.key (deploy boots) key =
      match (loaded boots key).head?, (loaded boots key).getLast? with
      | some first, some last => some { first.2 with
          firstSeen := first.1, lastSeen := last.1, module := last.2.module, current := marked boots key }
      | _, _ => none := by
  induction boots using List.reverseRecOn with
  | nil => rfl
  | append_singleton boots starting ih =>
      rw [deploy_concat, loaded_concat]
      cases refused : starting.refused with
      | true =>
          have unmarked : marked (boots ++ [starting]) key = marked boots key := by
            simp [marked, served_concat, refused]
          simp [boot, Boot.load, refused, ih, unmarked]
      | false =>
          have lasts : marked (boots ++ [starting]) key =
              (filed DeclarationRow.key (declarations starting.project) key).isSome := by
            simp [marked, served_concat, refused, Boot.load]
          simp only [boot, Boot.load, refused, Bool.false_eq_true, if_false, lasts]
          rw [filed_setCurrent _ (keys_nodup lawful _), ih]
          cases filed DeclarationRow.key (declarations starting.project) key with
          | none =>
              cases held : loaded boots key with
              | nil => simp
              | cons first rest => simp [List.getLast?_cons, DeclarationRow.cleared]
          | some row =>
              cases held : loaded boots key with
              | nil => simp
              | cons first rest => simp [List.getLast?_cons, DeclarationRow.cleared]

theorem nodup_deploy (boots : List (Boot digest)) : ((deploy boots).map DeclarationRow.key).Nodup := by
  induction boots using List.reverseRecOn with
  | nil => exact List.nodup_nil
  | append_singleton boots starting ih =>
      rw [deploy_concat]
      unfold boot
      split
      · exact ih
      · refine nodup_upserts DeclarationRow.touch_key ?_ _
        rwa [keys_map DeclarationRow.cleared_key]

/-! ## What a boot loads -/

def entryKey (digest : Digest) (entry : DigestEntry) : String × String × String :=
  (digest.name entry.kind, entry.name, entry.hash)

theorem load_eq_some_iff (lawful : digest.Lawful) {starting : Boot digest} {key : String × String × String}
    {row : DeclarationRow} : starting.load key = some row ↔
      starting.refused = false ∧ ∃ entry ∈ starting.project.entries, entryKey digest entry = key ∧
        declaration starting.project entry = row := by
  unfold Boot.load
  cases starting.refused with
  | true => simp
  | false =>
      simp only [Bool.false_eq_true, if_false, true_and]
      rw [filed_eq_some_iff (keys_nodup lawful _)]
      constructor
      · rintro ⟨member, rfl⟩
        obtain ⟨entry, inside, rfl⟩ := List.mem_map.mp member
        exact ⟨entry, inside, rfl, rfl⟩
      · rintro ⟨entry, inside, rfl, rfl⟩
        exact ⟨List.mem_map_of_mem inside, rfl⟩

/-- What two boots load under one key is one entry. -/
theorem entry_of_keys (lawful : digest.Lawful) {project other : Project digest} {entry entry' : DigestEntry}
    (member : entry ∈ project.entries) (member' : entry' ∈ other.entries)
    (same : entryKey digest entry = entryKey digest entry') : entry = entry' := by
  obtain ⟨kinds, rest⟩ := Prod.mk.inj same
  obtain ⟨names, hashes⟩ := Prod.mk.inj rest
  exact lawful.hash_injective (project.reads _ member) (other.reads _ member')
    (Prod.ext (lawful.name_injective kinds) names) hashes

theorem mem_loaded {boots : List (Boot digest)} {key : String × String × String} {one : String × DeclarationRow} :
    one ∈ loaded boots key ↔ ∃ starting ∈ boots, starting.load key = some one.2 ∧ starting.now = one.1 := by
  obtain ⟨now, row⟩ := one
  simp only [loaded, List.mem_filterMap, Option.map_eq_some_iff, Prod.mk.injEq]
  constructor
  · rintro ⟨starting, member, row, load, times, rfl⟩
    exact ⟨starting, member, load, times⟩
  · rintro ⟨starting, member, load, times⟩
    exact ⟨starting, member, row, load, times, rfl⟩

theorem loaded_ne_nil_iff (lawful : digest.Lawful) {boots : List (Boot digest)}
    {key : String × String × String} : loaded boots key ≠ [] ↔
      ∃ starting ∈ served boots, ∃ entry ∈ starting.project.entries, entryKey digest entry = key := by
  constructor
  · intro some_
    obtain ⟨one, member⟩ := List.exists_mem_of_ne_nil _ some_
    obtain ⟨starting, inside, load, -⟩ := mem_loaded.mp member
    obtain ⟨accepted, entry, known, same, -⟩ := (load_eq_some_iff lawful).mp load
    exact ⟨starting, List.mem_filter.mpr ⟨inside, by simp [accepted]⟩, entry, known, same⟩
  · rintro ⟨starting, inside, entry, known, same⟩
    obtain ⟨inside, accepted⟩ := List.mem_filter.mp inside
    have load : starting.load key = some (declaration starting.project entry) :=
      (load_eq_some_iff lawful).mpr ⟨by simpa using accepted, entry, known, same, rfl⟩
    exact List.ne_nil_of_mem (mem_loaded.mpr ⟨starting, inside, load, rfl⟩ : (starting.now, _) ∈ _)

/-- The last boot that was served is the last to load what it loads. -/
theorem loaded_getLast {boots : List (Boot digest)} {key : String × String × String} {last : Boot digest}
    {row : DeclarationRow} (final : (served boots).getLast? = some last) (load : last.load key = some row) :
    (loaded boots key).getLast? = some (last.now, row) := by
  induction boots using List.reverseRecOn with
  | nil => cases final
  | append_singleton boots starting ih =>
      rw [served_concat] at final
      rw [loaded_concat]
      cases refused : starting.refused with
      | true =>
          rw [refused, if_pos rfl] at final
          simp [Boot.load, refused, ih final]
      | false =>
          rw [refused, if_neg Bool.false_ne_true, List.getLast?_concat] at final
          obtain rfl := Option.some.inj final
          simp [load]

/-- A row of the table is of an entry that was loaded, and has the mark if the last boot loads it. -/
theorem row_of_deploy (lawful : digest.Lawful) {boots : List (Boot digest)} {row : DeclarationRow}
    (member : row ∈ deploy boots) : ∃ first last, (loaded boots row.key).head? = some first ∧
      (loaded boots row.key).getLast? = some last ∧ row = { first.2 with
        firstSeen := first.1, lastSeen := last.1, module := last.2.module, current := marked boots row.key } := by
  have found := filed_of_mem (nodup_deploy boots) member
  rw [filed_deploy lawful] at found
  cases heads : (loaded boots row.key).head? with
  | none => simp [heads] at found
  | some first =>
      cases lasts : (loaded boots row.key).getLast? with
      | none => simp [heads, lasts] at found
      | some last =>
          simp only [heads, lasts, Option.some.injEq] at found
          exact ⟨first, last, rfl, rfl, found.symm⟩

/-- Every row under a key that was loaded is of the one entry that has it. -/
theorem loaded_entry (lawful : digest.Lawful) {boots : List (Boot digest)} {key : String × String × String}
    {one : String × DeclarationRow} (member : one ∈ loaded boots key) : ∃ starting ∈ served boots,
      ∃ entry ∈ starting.project.entries, entryKey digest entry = key ∧
        starting.now = one.1 ∧ one.2 = declaration starting.project entry := by
  obtain ⟨starting, inside, load, times⟩ := mem_loaded.mp member
  obtain ⟨accepted, entry, known, same, made⟩ := (load_eq_some_iff lawful).mp load
  exact ⟨starting, List.mem_filter.mpr ⟨inside, by simp [accepted]⟩, entry, known, same, times, made.symm⟩

theorem deploy_keys (lawful : digest.Lawful) (boots : List (Boot digest)) : ((deploy boots).map DeclarationRow.key).Perm
    ((served boots).flatMap fun starting => starting.project.entries.map (entryKey digest)).dedup := by
  refine (List.perm_ext_iff_of_nodup (nodup_deploy boots) (List.nodup_dedup _)).mpr fun key => ?_
  have filed_iff : key ∈ (deploy boots).map DeclarationRow.key ↔ loaded boots key ≠ [] := by
    rw [← not_iff_not, ← filed_eq_none_iff, filed_deploy lawful, not_not]
    cases held : loaded boots key with
    | nil => simp
    | cons first rest => simp [List.getLast?_cons]
  rw [filed_iff, loaded_ne_nil_iff lawful, List.mem_dedup, List.mem_flatMap]
  simp only [List.mem_map]

/-! ## What is deployed now -/

def DeclarationRow.timeless (row : DeclarationRow) : DeclarationRow := { row with firstSeen := "", lastSeen := "" }

@[simp] theorem DeclarationRow.timeless_key (row : DeclarationRow) : row.timeless.key = row.key := rfl

@[simp] theorem DeclarationRow.timeless_place (row : DeclarationRow) : row.timeless.place = row.place := rfl

theorem current_perm (lawful : digest.Lawful) {boots : List (Boot digest)} {last : Boot digest}
    (final : (served boots).getLast? = some last) :
    (((deploy boots).filter DeclarationRow.current).map DeclarationRow.timeless).Perm (declarations last.project) := by
  have rows_nodup : (((deploy boots).filter DeclarationRow.current).map DeclarationRow.timeless).Nodup := by
    refine List.Nodup.of_map DeclarationRow.key ?_
    rw [keys_map DeclarationRow.timeless_key]
    exact (nodup_deploy boots).sublist (List.filter_sublist.map _)
  refine (List.perm_ext_iff_of_nodup rows_nodup (keys_nodup lawful last.project).of_map).mpr fun row => ?_
  have accepted : last.refused = false := by
    simpa using (List.mem_filter.mp (List.mem_of_getLast? final)).2
  simp only [List.mem_map, List.mem_filter]
  constructor
  · rintro ⟨held, ⟨member, marked_⟩, rfl⟩
    obtain ⟨first, latest, heads, lasts, shape⟩ := row_of_deploy lawful member
    have loads : (last.load held.key).isSome = true := by
      rw [shape] at marked_
      simpa [marked, final] using marked_
    obtain ⟨found, load⟩ := Option.isSome_iff_exists.mp loads
    obtain rfl := Option.some.inj (lasts.symm.trans (loaded_getLast final load))
    obtain ⟨-, entry, known, same, made⟩ := (load_eq_some_iff lawful).mp load
    obtain ⟨starting, -, entry', known', same', -, made'⟩ := loaded_entry lawful (List.mem_of_head? heads)
    obtain rfl := entry_of_keys lawful known known' (same.trans same'.symm)
    refine List.mem_map.mpr ⟨entry, known, ?_⟩
    rw [shape, made']
    rw [shape] at marked_
    simp only [DeclarationRow.timeless, declaration, ← made] at marked_ ⊢
    rw [marked_]
  · intro member
    obtain ⟨entry, known, rfl⟩ := List.mem_map.mp member
    have load : last.load (entryKey digest entry) = some (declaration last.project entry) :=
      (load_eq_some_iff lawful).mpr ⟨accepted, entry, known, rfl, rfl⟩
    have lasts := loaded_getLast final load
    cases heads : (loaded boots (entryKey digest entry)).head? with
    | none => simp [List.head?_eq_none_iff.mp heads] at lasts
    | some first =>
        have found := filed_deploy lawful boots (entryKey digest entry)
        rw [heads, lasts] at found
        obtain ⟨starting, -, entry', known', same', -, made'⟩ := loaded_entry lawful (List.mem_of_head? heads)
        obtain rfl := entry_of_keys lawful known known' same'.symm
        refine ⟨_, ⟨(mem_of_filed found).1, ?_⟩, ?_⟩
        · simp [marked, final, load]
        · simp [DeclarationRow.timeless, declaration, made', marked, final, load]

theorem place_nodup (lawful : digest.Lawful) (project : Project digest) :
    ((declarations project).map DeclarationRow.place).Nodup := by
  have same : (declarations project).map DeclarationRow.place =
      ((declarations project).map fun row => (row.kind, row.name)).map toLex := by
    simp [DeclarationRow.place, Function.comp_def]
  rw [same]
  exact (decls_nodup lawful project).map toLex.injective

/-- The inventory reads back what the last boot loaded, in the order of its kinds and names. -/
theorem currentDeclarations_deploy (lawful : digest.Lawful) {boots : List (Boot digest)} {last : Boot digest}
    (final : (served boots).getLast? = some last) :
    (currentDeclarations (deploy boots)).map DeclarationRow.timeless =
      ordered (· < ·) DeclarationRow.place (declarations last.project) := by
  have perm := current_perm lawful final
  have distinct : (((deploy boots).filter DeclarationRow.current).map DeclarationRow.place).Nodup := by
    rw [← keys_map DeclarationRow.timeless_place]
    exact (perm.map _).nodup_iff.mpr (place_nodup lawful last.project)
  refine (ordered_unique (· < ·) DeclarationRow.place ?_ ?_).symm
  · rw [List.pairwise_map]
    exact ordered_pairwise (· < ·) DeclarationRow.place distinct
  · exact ((ordered_perm (· < ·) DeclarationRow.place _).map _).trans perm

/-! ## What was ever deployed -/

theorem recordedEntry_eq_some_iff {version : Nat} {row : DeclarationRow} {entry : DigestEntry} :
    recordedEntry digest version row = some entry ↔
      digest.fromPacked version row.form row.signature = .ok entry ∧ entry.hash = row.hash := by
  unfold recordedEntry
  cases digest.fromPacked version row.form row.signature with
  | error why => simp
  | ok found =>
      by_cases same : found.hash = row.hash
      · simp only [same, if_true, Option.some.injEq, Except.ok.injEq]
        exact ⟨fun equal => ⟨equal, equal ▸ same⟩, And.left⟩
      · simp only [same, if_false, reduceCtorEq, Except.ok.injEq, false_iff]
        rintro ⟨rfl, equal⟩
        exact same equal

/-- A row of the table holds the form of an entry that was deployed, and its hash. -/
theorem entry_of_row (lawful : digest.Lawful) {boots : List (Boot digest)} {row : DeclarationRow}
    (member : row ∈ deploy boots) : ∃ starting ∈ served boots, ∃ entry ∈ starting.project.entries,
      entryKey digest entry = row.key ∧ row.form = digest.packed entry.form ∧
        row.signature = entry.signature.map digest.packed ∧ row.signatureHash = entry.signatureHash := by
  obtain ⟨first, latest, heads, -, shape⟩ := row_of_deploy lawful member
  obtain ⟨starting, inside, entry, known, same, -, made⟩ := loaded_entry lawful (List.mem_of_head? heads)
  refine ⟨starting, inside, entry, known, same, ?_⟩
  rw [shape, made]
  exact ⟨rfl, rfl, rfl⟩

/-- The entry that a row reads back as, where it reproduces its hash, is the one it was made of. -/
theorem recordedEntry_of_row (lawful : digest.Lawful) {version version' : Nat} {row : DeclarationRow}
    {found entry : DigestEntry} (reads : digest.Reads version' entry) (hash : row.hash = entry.hash)
    (form : row.form = digest.packed entry.form) (signature : row.signature = entry.signature.map digest.packed) :
    recordedEntry digest version row = some found ↔ found = entry ∧ digest.Reads version entry := by
  rw [recordedEntry_eq_some_iff, form, signature, hash]
  constructor
  · rintro ⟨read, same⟩
    obtain ⟨forms, signatures⟩ := lawful.packed_of_read read
    have again : digest.Reads version found := by
      unfold Digest.Reads
      rw [forms, signatures]
      exact read
    obtain rfl := lawful.hash_injective again reads (lawful.decl_of_read read reads) same
    exact ⟨rfl, again⟩
  · rintro ⟨rfl, again⟩
    exact ⟨again, rfl⟩

/-- What is read back of the table under a version is what was deployed and has its hash of that
version, whenever it was deployed. -/
theorem mem_recordedEntries (lawful : digest.Lawful) (boots : List (Boot digest)) (version : Nat)
    (entry : DigestEntry) : entry ∈ recordedEntries digest version (deploy boots) ↔
      digest.Reads version entry ∧ ∃ starting ∈ served boots, entry ∈ starting.project.entries := by
  simp only [recordedEntries, allDeclarations, List.mem_filterMap, (ordered_perm _ _ _).mem_iff]
  constructor
  · rintro ⟨row, member, read⟩
    obtain ⟨starting, inside, made, known, same, form, signature, -⟩ := entry_of_row lawful member
    obtain ⟨-, rest⟩ := Prod.mk.inj same
    obtain ⟨-, hash⟩ := Prod.mk.inj rest
    obtain ⟨rfl, again⟩ := (recordedEntry_of_row lawful (starting.project.reads _ known) hash.symm form
      signature).mp read
    exact ⟨again, starting, inside, known⟩
  · rintro ⟨again, starting, inside, known⟩
    have listed : entryKey digest entry ∈ (deploy boots).map DeclarationRow.key := by
      rw [(deploy_keys lawful boots).mem_iff, List.mem_dedup, List.mem_flatMap]
      exact ⟨starting, inside, List.mem_map_of_mem known⟩
    obtain ⟨row, member, key⟩ := List.mem_map.mp listed
    obtain ⟨other, -, made, known', same, form, signature, -⟩ := entry_of_row lawful member
    obtain rfl := entry_of_keys lawful known known' (key.symm.trans same.symm)
    obtain ⟨-, rest⟩ := Prod.mk.inj same
    obtain ⟨-, hash⟩ := Prod.mk.inj rest
    exact ⟨row, member, (recordedEntry_of_row lawful (other.project.reads _ known') hash.symm form
      signature).mpr ⟨rfl, again⟩⟩

/-- Over any boots, refused or served and of any versions: the table has one row for each version
of each declaration that was ever served, whatever the number of boots; a boot that fails after it
was recorded counts as served.  Found by its hash, a row has the form of that version, the time it
was first loaded, the time and the module of the last boot that loaded it, and the mark if that is
the last boot of all.  So the inventory is what the last boot loaded, and what reads back under a
version is everything that was served and has its hash under that version. -/
theorem deployments_recorded (lawful : digest.Lawful) (boots : List (Boot digest)) :
    ((deploy boots).map DeclarationRow.key).Perm
        ((served boots).flatMap fun starting => starting.project.entries.map (entryKey digest)).dedup ∧
    (∀ starting ∈ served boots, ∀ entry ∈ starting.project.entries, ∃ first latest,
      (loaded boots (entryKey digest entry)).head? = some first ∧
      (loaded boots (entryKey digest entry)).getLast? = some latest ∧
      declarationByHash (deploy boots) (digest.name entry.kind) entry.name entry.hash =
        some { declaration starting.project entry with
          firstSeen := first.1, lastSeen := latest.1, module := latest.2.module,
          current := marked boots (entryKey digest entry) }) ∧
    (∀ last, (served boots).getLast? = some last →
      (currentDeclarations (deploy boots)).map DeclarationRow.timeless =
        ordered (· < ·) DeclarationRow.place (declarations last.project)) ∧
    ∀ version entry, entry ∈ recordedEntries digest version (deploy boots) ↔
      digest.Reads version entry ∧ ∃ starting ∈ served boots, entry ∈ starting.project.entries := by
  refine ⟨deploy_keys lawful boots, ?_, fun last final => currentDeclarations_deploy lawful final,
    mem_recordedEntries lawful boots⟩
  intro starting inside entry known
  have some_ := (loaded_ne_nil_iff lawful).mpr ⟨starting, inside, entry, known, rfl⟩
  obtain ⟨first, heads⟩ := Option.ne_none_iff_exists'.mp (fun absent => some_ (List.head?_eq_none_iff.mp absent))
  obtain ⟨latest, lasts⟩ :=
    Option.ne_none_iff_exists'.mp (fun absent => some_ (List.getLast?_eq_none_iff.mp absent))
  refine ⟨first, latest, heads, lasts, ?_⟩
  obtain ⟨other, -, entry', known', same, -, made⟩ := loaded_entry lawful (List.mem_of_head? heads)
  obtain rfl := entry_of_keys lawful known known' same.symm
  unfold declarationByHash
  change filed DeclarationRow.key (deploy boots) (entryKey digest entry) = _
  rw [filed_deploy lawful, heads, lasts]
  simp [made, declaration]

/-! ## A digest whose hash is the line -/

def kinds : List (Kind × String) :=
  [(.event, "event"), (.record, "record"), (.enum, "enum"), (.subject, "subject"), (.function, "function"),
    (.fold, "fold"), (.command, "command"), (.projector, "projector"), (.effect, "effect")]

/-- A line of a kind, a name, what of it is seen outside, and the rest. -/
def plainLine (line : String) : Option (Kind × String × String) :=
  match (line.toList.splitOn '/').map String.ofList with
  | [word, name, contract, _] => (kinds.find? fun kind => kind.2 == word).map fun kind => (kind.1, name, contract)
  | _ => none

def plainEntry (version : Nat) (line : String) (parts : Kind × String × String) : DigestEntry where
  kind := parts.1
  name := parts.2.1
  form := .str line
  hash := String.ofList (version.digitChar :: line.toList)
  signatureHash := some parts.2.2
  signature := some (.str parts.2.2)

def plainDigest : Digest where
  name kind := ((kinds.find? fun known => known.1 == kind).map Prod.snd).getD ""
  lookup word := (kinds.find? fun known => known.2 == word).map Prod.fst
  rank kind := kinds.findIdx fun known => known.1 == kind
  packed
    | .str line => line
    | _ => ""
  expanded
    | .str line => line
    | _ => ""
  fromPacked version form signature :=
    match plainLine form with
    | none => .error "not a line"
    | some parts => if signature = some parts.2.2 then .ok (plainEntry version form parts) else .error "not its signature"

theorem plainDigest_ok {version : Nat} {form : String} {signature : Option String} {entry : DigestEntry}
    (read : plainDigest.fromPacked version form signature = .ok entry) : ∃ parts,
      plainLine form = some parts ∧ signature = some parts.2.2 ∧ entry = plainEntry version form parts := by
  simp only [plainDigest] at read
  cases found : plainLine form with
  | none => simp [found] at read
  | some parts =>
      simp only [found] at read
      split at read
      · next same => exact ⟨parts, rfl, same, (Except.ok.inj read).symm⟩
      · cases read

theorem plainDigest_lawful : plainDigest.Lawful where
  lookup_name kind := by cases kind <;> decide
  rank_injective one other same := by
    cases one <;> cases other <;> first | rfl | exact absurd same (by decide)
  packed_of_read read := by
    obtain ⟨parts, -, rfl, rfl⟩ := plainDigest_ok read
    exact ⟨rfl, rfl⟩
  decl_of_read read read' := by
    obtain ⟨parts, found, -, rfl⟩ := plainDigest_ok read
    obtain ⟨parts', found', -, rfl⟩ := plainDigest_ok read'
    obtain rfl := Option.some.inj (found.symm.trans found')
    rfl
  hash_injective {version other entry entry'} read read' _ same := by
    obtain ⟨parts, found, -, made⟩ := plainDigest_ok read
    obtain ⟨parts', found', -, made'⟩ := plainDigest_ok read'
    rw [made, made'] at same
    obtain ⟨digit, lines⟩ := List.cons.inj (String.ofList_injective same)
    have line := String.toList_injective lines
    rw [line] at found
    obtain rfl := Option.some.inj (found.symm.trans found')
    rw [made, made']
    unfold plainEntry
    rw [line, digit]

/-- A project of one declaration. -/
def plainProject (version : Nat) (line : String) (parts : Kind × String × String)
    (known : plainLine line = some parts) : Project plainDigest where
  version := version
  entries := [plainEntry version line parts]
  modulePaths _ := some "main.hk"
  distinct := List.nodup_singleton _
  reads := by
    intro entry member
    obtain rfl := List.mem_singleton.mp member
    simp only [Digest.Reads, plainDigest, plainEntry, Option.map_some, known, if_true]

def orderPlaced (body : String) (known : plainLine ("event/@Order/id/" ++ body) = some (.event, "@Order", "id")) :
    Project plainDigest :=
  plainProject 1 ("event/@Order/id/" ++ body) (.event, "@Order", "id") known

/-- A change, an attempt that is refused, and the change taken back. -/
def reverted : List (Boot plainDigest) :=
  [⟨orderPlaced "a" (by decide), "mon", false⟩, ⟨orderPlaced "b" (by decide), "tue", false⟩,
    ⟨orderPlaced "c" (by decide), "wed", true⟩, ⟨orderPlaced "a" (by decide), "thu", false⟩]

theorem deployments_recorded_of_reverted :
    (deploy reverted).length = 2 ∧
      (currentDeclarations (deploy reverted)).map DeclarationRow.timeless =
        declarations (orderPlaced "a" (by decide)) := by
  obtain ⟨keys, -, inventory, -⟩ := deployments_recorded plainDigest_lawful reverted
  refine ⟨?_, inventory ⟨orderPlaced "a" (by decide), "thu", false⟩ rfl⟩
  rw [← List.length_map DeclarationRow.key, keys.length_eq]
  decide

end Hekla.Plan
