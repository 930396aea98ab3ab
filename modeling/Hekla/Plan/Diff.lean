import Hekla.Library.Table
import Hekla.Plan.Declarations

/-!
# What a deploy would change

A plan reads the inventory back, and compares it with a project that is not deployed yet.
-/

namespace Hekla.Plan

open Hekla.Library Hekla.Library.Upsert

/-- How one declaration differs from what is deployed. -/
inductive Verdict where
  | added
  | removed
  | behaviour
  | contract
  deriving DecidableEq

/-- A declaration that a deploy would not leave as it is. -/
structure Change where
  kind : Kind
  name : String
  verdict : Verdict
  module : Option String
  before : Option String
  after : Option String
  deriving DecidableEq

/-- What a plan has of the comparison. -/
structure Compared where
  changes : List Change
  declarationsCompared : Nat
  digestVersionMismatch : Bool

variable {digest : Digest}

/-- A row of the inventory read back, under the version of the project that is planned. -/
def deployedEntry (digest : Digest) (version : Nat) (row : DeclarationRow) :
    Except String (Decl × DigestEntry × DeclarationRow) :=
  match digest.lookup row.kind with
  | none =>
      let kind := row.kind
      .error s!"the declaration table holds kind `{kind}`, which this build does not know"
  | some kind =>
      match digest.fromPacked version row.form row.signature with
      | .error why =>
          let word := row.kind
          let name := row.name
          .error s!"the recorded form of {word} `{name}` does not read back: {why}"
      | .ok entry => .ok ((kind, row.name), entry, row)

/-- An entry of the project against what is deployed under its name. -/
def changed (project : Project digest) (deployed : Table Decl (DigestEntry × DeclarationRow)) (entry : DigestEntry) :
    Option Change :=
  match deployed.get entry.decl with
  | none => some {
      kind := entry.kind, name := entry.name, verdict := .added, module := project.modulePaths entry.decl
      before := none, after := some (digest.expanded entry.form) }
  | some (was, _) =>
      if was.hash = entry.hash then none
      else some {
        kind := entry.kind, name := entry.name
        verdict := if was.signatureHash = entry.signatureHash then .behaviour else .contract
        module := project.modulePaths entry.decl
        before := some (digest.expanded was.form), after := some (digest.expanded entry.form) }

/-- What is deployed and not in the project. -/
def removed (project : Project digest) (decl : Decl) (was : DigestEntry × DeclarationRow) : Option Change :=
  if (filed DigestEntry.decl project.entries decl).isSome then none
  else some {
    kind := decl.1, name := decl.2, verdict := .removed, module := was.2.module
    before := some (digest.expanded was.1.form), after := none }

def Change.place (digest : Digest) (change : Change) : ℕ ×ₗ String := toLex (digest.rank change.kind, change.name)

/-- The project against the recorded rows, by kind and name. -/
def diff (project : Project digest) (recorded : List DeclarationRow) : Except String Compared := do
  let read ← recorded.mapM (deployedEntry digest project.version)
  let deployed := Table.ofList read.reverse
  let unreproduced := read.countP fun one => one.2.1.hash != one.2.2.hash
  let candidates := project.entries.filterMap (changed project deployed)
  let gone := deployed.entries.filterMap fun one => removed project one.1 one.2
  .ok {
    changes := ordered (· < ·) (Change.place digest) (candidates ++ gone)
    declarationsCompared := deployed.keys.length
    digestVersionMismatch := !deployed.keys.isEmpty && unreproduced == deployed.keys.length }

theorem changed_decl {project : Project digest} {deployed : Table Decl (DigestEntry × DeclarationRow)}
    {entry : DigestEntry} {change : Change} (made : changed project deployed entry = some change) :
    (change.kind, change.name) = entry.decl := by
  unfold changed at made
  split at made
  · cases made
    rfl
  · split at made
    · cases made
    · cases made
      rfl

/-- Changes of different declarations are put in order of them. -/
theorem changes_sorted (lawful : digest.Lawful) {changes : List Change}
    (distinct : (changes.map fun change => (change.kind, change.name)).Nodup) :
    (ordered (· < ·) (Change.place digest) changes).Pairwise fun one other =>
      one.place digest < other.place digest := by
  refine ordered_pairwise (· < ·) (Change.place digest) ?_
  have places : changes.map (Change.place digest) =
      (changes.map fun change => (change.kind, change.name)).map
        fun decl : Decl => (toLex (digest.rank decl.1, decl.2) : ℕ ×ₗ String) := by
    simp [Change.place, Function.comp_def]
  rw [places]
  refine distinct.map ?_
  rintro ⟨kind, name⟩ ⟨kind', name'⟩ same
  obtain ⟨ranks, names⟩ := Prod.mk.inj (toLex.injective same)
  exact Prod.ext (lawful.rank_injective ranks) names

/-! ## The comparison of two entries -/

/-- How what was deployed differs from what would be. -/
def verdict : Option DigestEntry → Option DigestEntry → Option Verdict
  | none, none => none
  | none, some _ => some .added
  | some _, none => some .removed
  | some was, some now =>
      if was.hash = now.hash then none
      else if was.signatureHash = now.signatureHash then some .behaviour
      else some .contract

theorem verdict_eq_none_iff {was now : Option DigestEntry} :
    verdict was now = none ↔ was.map DigestEntry.hash = now.map DigestEntry.hash := by
  cases was with
  | none => cases now <;> simp [verdict]
  | some was =>
      cases now with
      | none => simp [verdict]
      | some now =>
          by_cases same : was.hash = now.hash
          · simp [verdict, same]
          · by_cases seen : was.signatureHash = now.signatureHash <;> simp [verdict, same, seen]

/-- The verdict on a deploy that is taken back. -/
def Verdict.back : Verdict → Verdict
  | .added => .removed
  | .removed => .added
  | .behaviour => .behaviour
  | .contract => .contract

theorem verdict_back (was now : Option DigestEntry) : verdict now was = (verdict was now).map Verdict.back := by
  cases was with
  | none => cases now <;> rfl
  | some was =>
      cases now with
      | none => rfl
      | some now =>
          by_cases same : was.hash = now.hash
          · simp [verdict, same]
          · by_cases seen : was.signatureHash = now.signatureHash
            · simp [verdict, same, Ne.symm same, seen, Verdict.back]
            · simp [verdict, same, Ne.symm same, seen, Ne.symm seen, Verdict.back]

/-- The change that a plan lists for a declaration, if it lists any. -/
def listed (digest : Digest) (decl : Decl) (was now : Option DigestEntry) (module : Option String) : Option Change :=
  (verdict was now).map fun verdict => {
    kind := decl.1, name := decl.2, verdict, module
    before := was.map fun entry => digest.expanded entry.form
    after := now.map fun entry => digest.expanded entry.form }

theorem listed_decl {decl : Decl} {was now : Option DigestEntry} {module : Option String} {change : Change}
    (made : listed digest decl was now module = some change) : (change.kind, change.name) = decl := by
  obtain ⟨verdict, -, rfl⟩ := Option.map_eq_some_iff.mp made
  rfl

/-! ## The inventory read back -/

/-- An entry as its packed form reads under another version. -/
def Digest.reread (digest : Digest) (version : Nat) (entry : DigestEntry) : Except String DigestEntry :=
  digest.fromPacked version (digest.packed entry.form) (entry.signature.map digest.packed)

theorem deployedEntry_eq (lawful : digest.Lawful) (version : Nat) {project : Project digest} {row : DeclarationRow}
    {entry : DigestEntry} (made : row.timeless = declaration project entry) {one : Decl × DigestEntry × DeclarationRow} :
    deployedEntry digest version row = .ok one ↔
      ∃ found, digest.reread version entry = .ok found ∧ one = (entry.decl, found, row) := by
  have kind : row.kind = digest.name entry.kind := congrArg DeclarationRow.kind made
  have name : row.name = entry.name := congrArg DeclarationRow.name made
  have form : row.form = digest.packed entry.form := congrArg DeclarationRow.form made
  have signature : row.signature = entry.signature.map digest.packed := congrArg DeclarationRow.signature made
  simp only [deployedEntry, Digest.reread, kind, name, form, signature, lawful.lookup_name]
  cases digest.fromPacked version (digest.packed entry.form) (entry.signature.map digest.packed) with
  | error why => simp
  | ok found => simp [DigestEntry.decl, eq_comm]

section Deployed

variable (lawful : digest.Lawful) {boots : List (Boot digest)} {last : Boot digest}
  (final : (served boots).getLast? = some last)

include lawful final

theorem mem_current {row : DeclarationRow} (member : row ∈ currentDeclarations (deploy boots)) :
    ∃ entry ∈ last.project.entries, row.timeless = declaration last.project entry := by
  have listed : row.timeless ∈ (currentDeclarations (deploy boots)).map DeclarationRow.timeless :=
    List.mem_map_of_mem member
  rw [currentDeclarations_deploy lawful final, (ordered_perm _ _ _).mem_iff] at listed
  obtain ⟨entry, known, made⟩ := List.mem_map.mp listed
  exact ⟨entry, known, made.symm⟩

theorem current_of_mem {entry : DigestEntry} (known : entry ∈ last.project.entries) :
    ∃ row ∈ currentDeclarations (deploy boots), row.timeless = declaration last.project entry := by
  have listed : declaration last.project entry ∈
      (currentDeclarations (deploy boots)).map DeclarationRow.timeless := by
    rw [currentDeclarations_deploy lawful final, (ordered_perm _ _ _).mem_iff]
    exact List.mem_map_of_mem known
  exact List.mem_map.mp listed

theorem current_nodup :
    ((currentDeclarations (deploy boots)).map fun row => (row.kind, row.name)).Nodup := by
  have same : (currentDeclarations (deploy boots)).map (fun row => (row.kind, row.name)) =
      ((currentDeclarations (deploy boots)).map DeclarationRow.timeless).map fun row => (row.kind, row.name) := by
    simp [Function.comp_def, DeclarationRow.timeless]
  rw [same, currentDeclarations_deploy lawful final]
  exact ((ordered_perm _ _ _).map _).nodup_iff.mpr (decls_nodup lawful last.project)

/-- The inventory reads back if and only if each entry does, under the version that is planned. -/
theorem read_iff (version : Nat) :
    (∃ read, (currentDeclarations (deploy boots)).mapM (deployedEntry digest version) = .ok read) ↔
      ∀ entry ∈ last.project.entries, ∃ found, digest.reread version entry = .ok found := by
  constructor
  · rintro ⟨read, mapped⟩ entry known
    obtain ⟨row, member, made⟩ := current_of_mem lawful final known
    obtain ⟨one, passed⟩ := ok_of_mapM_ok mapped member
    obtain ⟨found, again, -⟩ := (deployedEntry_eq lawful version made).mp passed
    exact ⟨found, again⟩
  · intro each
    refine exists_mapM_ok ?_
    intro row member
    obtain ⟨entry, known, made⟩ := mem_current lawful final member
    obtain ⟨found, again⟩ := each entry known
    exact ⟨_, (deployedEntry_eq lawful version made).mpr ⟨found, again, rfl⟩⟩

variable {version : Nat} {read : List (Decl × DigestEntry × DeclarationRow)}
  (mapped : (currentDeclarations (deploy boots)).mapM (deployedEntry digest version) = .ok read)

include mapped

theorem mem_read {one : Decl × DigestEntry × DeclarationRow} : one ∈ read ↔
    ∃ row ∈ currentDeclarations (deploy boots), ∃ entry ∈ last.project.entries,
      row.timeless = declaration last.project entry ∧
        ∃ found, digest.reread version entry = .ok found ∧ one = (entry.decl, found, row) := by
  rw [mem_of_mapM_ok mapped]
  constructor
  · rintro ⟨row, member, passed⟩
    obtain ⟨entry, known, made⟩ := mem_current lawful final member
    exact ⟨row, member, entry, known, made, (deployedEntry_eq lawful version made).mp passed⟩
  · rintro ⟨row, member, entry, known, made, again⟩
    exact ⟨row, member, (deployedEntry_eq lawful version made).mpr again⟩

theorem read_nodup : (read.map Prod.fst).Nodup := by
  have words : read.map (fun one => (digest.name one.1.1, one.1.2)) =
      read.map fun one => (one.2.2.kind, one.2.2.name) := by
    refine List.map_congr_left fun one member => ?_
    obtain ⟨row, -, entry, -, made, found, -, rfl⟩ := (mem_read lawful final mapped).mp member
    exact Prod.ext (congrArg DeclarationRow.kind made).symm (congrArg DeclarationRow.name made).symm
  have rows : read.map (fun one => (one.2.2.kind, one.2.2.name)) =
      (currentDeclarations (deploy boots)).map fun row => (row.kind, row.name) := by
    refine map_of_mapM_ok mapped ?_
    intro row one passed
    unfold deployedEntry at passed
    split at passed
    · cases passed
    · split at passed
      · cases passed
      · cases passed
        rfl
  refine List.Nodup.of_map (fun decl : Decl => (digest.name decl.1, decl.2)) ?_
  rw [List.map_map]
  exact (words.trans rows) ▸ current_nodup lawful final

/-- What is deployed under a name, as the plan reads it. -/
theorem get_deployed (decl : Decl) :
    match filed DigestEntry.decl last.project.entries decl with
    | none => (Table.ofList read.reverse).get decl = none
    | some entry => ∃ found row, digest.reread version entry = .ok found ∧
        (Table.ofList read.reverse).get decl = some (found, row) ∧ row.hash = entry.hash ∧
          row.module = last.project.modulePaths decl := by
  have distinct : (read.reverse.map Prod.fst).Nodup := by
    rw [List.map_reverse, List.nodup_reverse]
    exact read_nodup lawful final mapped
  have each (value : DigestEntry × DeclarationRow) : (Table.ofList read.reverse).get decl = some value ↔
      (decl, value) ∈ read := by
    rw [Table.get_ofList distinct, List.mem_reverse]
  cases held : filed DigestEntry.decl last.project.entries decl with
  | none =>
      refine Option.eq_none_iff_forall_ne_some.mpr fun value got => ?_
      obtain ⟨row, -, entry, known, -, found, -, same⟩ := (mem_read lawful final mapped).mp ((each value).mp got)
      obtain rfl := (Prod.mk.inj same).1
      exact filed_eq_none_iff.mp held (List.mem_map_of_mem known)
  | some entry =>
      obtain ⟨known, rfl⟩ := mem_of_filed held
      obtain ⟨row, member, made⟩ := current_of_mem lawful final known
      obtain ⟨found, again⟩ := (read_iff lawful final version).mp ⟨read, mapped⟩ entry known
      exact ⟨found, row, again,
        (each _).mpr ((mem_read lawful final mapped).mpr ⟨row, member, entry, known, made, found, again, rfl⟩),
        congrArg DeclarationRow.hash made, congrArg DeclarationRow.module made⟩

end Deployed

/-! ## The changes of a plan -/

/-- What is deployed under a name, as an entry of the version that is planned. -/
def was (version : Nat) (project : Project digest) (decl : Decl) : Option DigestEntry :=
  (filed DigestEntry.decl project.entries decl).bind fun entry => (digest.reread version entry).toOption

def now (project : Project digest) (decl : Decl) : Option DigestEntry := filed DigestEntry.decl project.entries decl

/-- The module of a declaration that changes, or the one that it is taken out of. -/
def moduleOf (deployed project : Project digest) (decl : Decl) : Option String :=
  if (now project decl).isSome then project.modulePaths decl else deployed.modulePaths decl

/-- The change of a declaration between what is deployed and a project. -/
def changeOf (deployed project : Project digest) (decl : Decl) : Option Change :=
  listed digest decl (was project.version deployed decl) (now project decl) (moduleOf deployed project decl)

section Planned

variable (lawful : digest.Lawful) {boots : List (Boot digest)} {last : Boot digest}
  (final : (served boots).getLast? = some last) {project : Project digest}
  {read : List (Decl × DigestEntry × DeclarationRow)}
  (mapped : (currentDeclarations (deploy boots)).mapM (deployedEntry digest project.version) = .ok read)

include lawful final mapped

theorem changed_eq {entry : DigestEntry} (known : entry ∈ project.entries) :
    changed project (Table.ofList read.reverse) entry = changeOf last.project project entry.decl := by
  have candidate : now project entry.decl = some entry := filed_of_mem project.distinct known
  have deployed := get_deployed lawful final mapped entry.decl
  unfold changed changeOf moduleOf was
  rw [candidate]
  cases held : filed DigestEntry.decl last.project.entries entry.decl with
  | none =>
      rw [held] at deployed
      have absent : (Table.ofList read.reverse).get entry.decl = none := deployed
      rw [absent]
      simp [listed, verdict, DigestEntry.decl]
  | some one =>
      rw [held] at deployed
      obtain ⟨found, row, again, got, -, -⟩ := deployed
      rw [got]
      by_cases same : found.hash = entry.hash
      · simp [listed, verdict, again, Except.toOption, same]
      · by_cases seen : found.signatureHash = entry.signatureHash <;>
          simp [listed, verdict, again, Except.toOption, same, seen, DigestEntry.decl]

theorem removed_eq {decl : Decl} {value : DigestEntry × DeclarationRow}
    (got : (Table.ofList read.reverse).get decl = some value) {change : Change} :
    removed project decl value = some change ↔
      now project decl = none ∧ changeOf last.project project decl = some change := by
  have deployed := get_deployed lawful final mapped decl
  unfold removed changeOf moduleOf was now
  cases held : filed DigestEntry.decl last.project.entries decl with
  | none =>
      rw [held] at deployed
      exact absurd got (by simp [deployed])
  | some one =>
      rw [held] at deployed
      obtain ⟨found, row, again, got', -, modules⟩ := deployed
      obtain rfl := Option.some.inj (got'.symm.trans got)
      cases filed DigestEntry.decl project.entries decl with
      | none => simp [listed, verdict, again, Except.toOption, modules]
      | some entry => simp

/-- A plan lists what differs, and nothing else. -/
theorem mem_changes {change : Change} :
    change ∈ project.entries.filterMap (changed project (Table.ofList read.reverse)) ++
        (Table.ofList read.reverse).entries.filterMap (fun one => removed project one.1 one.2) ↔
      changeOf last.project project (change.kind, change.name) = some change := by
  rw [List.mem_append, List.mem_filterMap, List.mem_filterMap]
  constructor
  · rintro (⟨entry, known, made⟩ | ⟨⟨decl, value⟩, member, made⟩)
    · rw [changed_eq lawful final mapped known] at made
      rwa [listed_decl made]
    · obtain ⟨-, made⟩ := (removed_eq lawful final mapped ((Table.get_eq_some_iff _ _ _).mpr member)).mp made
      rwa [listed_decl made]
  · intro made
    cases candidate : now project (change.kind, change.name) with
    | some entry =>
        obtain ⟨known, decl⟩ := mem_of_filed candidate
        refine .inl ⟨entry, known, ?_⟩
        rwa [changed_eq lawful final mapped known, decl]
    | none =>
        have deployed := get_deployed lawful final mapped (change.kind, change.name)
        cases held : filed DigestEntry.decl last.project.entries (change.kind, change.name) with
        | none => simp [changeOf, was, candidate, held, listed, verdict] at made
        | some entry =>
            rw [held] at deployed
            obtain ⟨found, row, -, got, -, -⟩ := deployed
            exact .inr ⟨⟨_, found, row⟩, (Table.get_eq_some_iff _ _ _).mp got,
              (removed_eq lawful final mapped got).mpr ⟨candidate, made⟩⟩

/-- No declaration is listed twice. -/
theorem changes_nodup :
    ((project.entries.filterMap (changed project (Table.ofList read.reverse)) ++
        (Table.ofList read.reverse).entries.filterMap fun one => removed project one.1 one.2).map
      fun change => (change.kind, change.name)).Nodup := by
  rw [List.map_append, List.nodup_append]
  refine ⟨nodup_picked (fun _ _ => changed_decl) project.distinct,
    nodup_picked ?_ (Table.ofList read.reverse).nodupKeys, ?_⟩
  · rintro ⟨decl, value⟩ change made
    unfold removed at made
    split at made
    · cases made
    · cases made
      rfl
  · rintro decl candidate other gone rfl
    obtain ⟨change, listed_, same⟩ := List.mem_map.mp candidate
    obtain ⟨change', listed', same'⟩ := List.mem_map.mp gone
    obtain ⟨entry, known, made⟩ := List.mem_filterMap.mp listed_
    obtain ⟨⟨decl', value⟩, member, made'⟩ := List.mem_filterMap.mp listed'
    rw [changed_eq lawful final mapped known] at made
    obtain ⟨absent, made'⟩ := (removed_eq lawful final mapped ((Table.get_eq_some_iff _ _ _).mpr member)).mp made'
    have here := (listed_decl made).symm.trans (same.trans (same'.symm.trans (listed_decl made')))
    exact filed_eq_none_iff.mp absent (here ▸ List.mem_map_of_mem known)

/-- As many declarations are compared as are deployed. -/
theorem compared_length : (Table.ofList read.reverse).keys.length = last.project.entries.length := by
  have distinct : (read.reverse.map Prod.fst).Nodup := by
    rw [List.map_reverse, List.nodup_reverse]
    exact read_nodup lawful final mapped
  have keys : (Table.ofList read.reverse).keys.Perm (read.reverse.map Prod.fst) := by
    refine (List.perm_ext_iff_of_nodup (Table.ofList read.reverse).keys_nodup distinct).mpr fun decl => ?_
    rw [Table.mem_keys_iff]
    simp only [Table.get_ofList distinct, List.mem_map]
    constructor
    · rintro ⟨value, member⟩
      exact ⟨_, member, rfl⟩
    · rintro ⟨⟨_, value⟩, member, rfl⟩
      exact ⟨value, member⟩
  have rows : (currentDeclarations (deploy boots)).length = last.project.entries.length := by
    rw [← List.length_map DeclarationRow.timeless, currentDeclarations_deploy lawful final,
      (ordered_perm _ _ _).length_eq]
    exact List.length_map _
  rw [keys.length_eq, List.length_map, List.length_reverse, ← rows]
  exact (forall₂_of_mapM_ok mapped).length_eq.symm

/-- No hash is reproduced if and only if nothing that is deployed has its hash of this version. -/
theorem mismatch_iff :
    (!(Table.ofList read.reverse).keys.isEmpty &&
        read.countP (fun one => one.2.1.hash != one.2.2.hash) == (Table.ofList read.reverse).keys.length) = true ↔
      last.project.entries ≠ [] ∧ ∀ entry ∈ last.project.entries, ¬digest.Reads project.version entry := by
  have lengths := compared_length lawful final mapped
  have same_length : read.length = last.project.entries.length := by
    rw [← lengths, ← (forall₂_of_mapM_ok mapped).length_eq, lengths,
      ← List.length_map DeclarationRow.timeless, currentDeclarations_deploy lawful final,
      (ordered_perm _ _ _).length_eq]
    exact List.length_map _
  have some_ : (!(Table.ofList read.reverse).keys.isEmpty) = true ↔ last.project.entries ≠ [] := by
    rw [Bool.not_eq_true', ← Bool.not_eq_true, List.isEmpty_iff, ← List.length_eq_zero_iff, lengths,
      List.length_eq_zero_iff]
  rw [Bool.and_eq_true, some_, beq_iff_eq, lengths, ← same_length, List.countP_eq_length]
  refine and_congr_right fun _ => ?_
  simp only [bne_iff_ne]
  constructor
  · intro each entry known reads
    obtain ⟨row, member, made⟩ := current_of_mem lawful final known
    refine each (entry.decl, entry, row)
      ((mem_read lawful final mapped).mpr ⟨row, member, entry, known, made, entry, reads, rfl⟩) ?_
    exact (congrArg DeclarationRow.hash made).symm
  · intro none_ one member same
    obtain ⟨row, -, entry, known, made, found, again, rfl⟩ := (mem_read lawful final mapped).mp member
    have hash : row.hash = entry.hash := congrArg DeclarationRow.hash made
    refine none_ entry known (((recordedEntry_of_row lawful (last.project.reads _ known) hash
      (congrArg DeclarationRow.form made) (congrArg DeclarationRow.signature made)).mp
        (recordedEntry_eq_some_iff.mpr ⟨?_, same⟩)).2)
    rw [show row.form = digest.packed entry.form from congrArg DeclarationRow.form made,
      show row.signature = entry.signature.map digest.packed from congrArg DeclarationRow.signature made]
    exact again

end Planned

theorem diff_ok_iff {project : Project digest} {rows : List DeclarationRow} {compared : Compared} :
    diff project rows = .ok compared ↔ ∃ read, rows.mapM (deployedEntry digest project.version) = .ok read ∧
      compared = {
        changes := ordered (· < ·) (Change.place digest)
          (project.entries.filterMap (changed project (Table.ofList read.reverse)) ++
            (Table.ofList read.reverse).entries.filterMap fun one => removed project one.1 one.2)
        declarationsCompared := (Table.ofList read.reverse).keys.length
        digestVersionMismatch := !(Table.ofList read.reverse).keys.isEmpty &&
          read.countP (fun one => one.2.1.hash != one.2.2.hash) == (Table.ofList read.reverse).keys.length } := by
  unfold diff
  rw [bind_ok]
  simp only [Except.ok.injEq, eq_comm]

/-- What is planned over a directory, whatever it was deployed before and under what version. -/
theorem diff_spec (lawful : digest.Lawful) {boots : List (Boot digest)} {last : Boot digest}
    (final : (served boots).getLast? = some last) {project : Project digest} {compared : Compared}
    (planned : diff project (currentDeclarations (deploy boots)) = .ok compared) :
    compared.changes.Pairwise (fun one other => one.place digest < other.place digest) ∧
    (∀ change, change ∈ compared.changes ↔
      changeOf last.project project (change.kind, change.name) = some change) ∧
    compared.declarationsCompared = last.project.entries.length ∧
    (compared.digestVersionMismatch = true ↔
      last.project.entries ≠ [] ∧ ∀ entry ∈ last.project.entries, ¬digest.Reads project.version entry) := by
  obtain ⟨read, mapped, rfl⟩ := diff_ok_iff.mp planned
  refine ⟨changes_sorted lawful (changes_nodup lawful final mapped), fun change => ?_,
    compared_length lawful final mapped, mismatch_iff lawful final mapped⟩
  rw [(ordered_perm _ _ _).mem_iff]
  exact mem_changes lawful final mapped

/-- A directory whose boots were all refused has no inventory, and all of a project is new there. -/
theorem diff_of_unserved (lawful : digest.Lawful) {boots : List (Boot digest)} (none_ : served boots = [])
    (project : Project digest) :
    ∃ compared, diff project (currentDeclarations (deploy boots)) = .ok compared ∧
      compared.changes.Pairwise (fun one other => one.place digest < other.place digest) ∧
      (∀ change, change ∈ compared.changes ↔ listed digest (change.kind, change.name) none
        (now project (change.kind, change.name)) (project.modulePaths (change.kind, change.name)) =
          some change) ∧
      compared.declarationsCompared = 0 ∧ compared.digestVersionMismatch = false := by
  have rows : deploy boots = [] := by
    unfold deploy
    induction boots with
    | nil => rfl
    | cons first rest ih =>
        have refused : first.refused = true := by
          by_contra served_
          have member : first ∈ served (first :: rest) :=
            List.mem_filter.mpr ⟨List.mem_cons_self, by simpa using served_⟩
          rw [none_] at member
          cases member
        have later : served rest = [] := by
          unfold served at none_ ⊢
          rwa [List.filter_cons_of_neg (by simp [refused])] at none_
        rw [List.foldl_cons, boot, if_pos refused]
        exact ih later
  have added (entry : DigestEntry) : changed project ∅ entry = listed digest entry.decl none (some entry)
      (project.modulePaths entry.decl) := by
    unfold changed
    rw [Table.get_empty]
    rfl
  have made : diff project (currentDeclarations (deploy boots)) = .ok {
      changes := ordered (· < ·) (Change.place digest) (project.entries.filterMap (changed project ∅) ++ [])
      declarationsCompared := 0
      digestVersionMismatch := false } := by
    rw [rows]
    exact diff_ok_iff.mpr ⟨[], rfl, rfl⟩
  refine ⟨_, made, changes_sorted lawful ?_, fun change => ?_, rfl, rfl⟩
  · rw [List.append_nil]
    exact nodup_picked (fun _ _ => changed_decl) project.distinct
  · rw [(ordered_perm _ _ _).mem_iff, List.append_nil, List.mem_filterMap]
    constructor
    · rintro ⟨entry, known, found⟩
      rw [changed_decl found, now, filed_of_mem project.distinct known, ← added]
      exact found
    · intro found
      cases held : now project (change.kind, change.name) with
      | none =>
          rw [held] at found
          cases found
      | some entry =>
          obtain ⟨known, decl⟩ := mem_of_filed held
          refine ⟨entry, known, ?_⟩
          rw [added, decl, ← held]
          exact found

/-! ## A plan under the version that is deployed -/

theorem was_of_version {project : Project digest} {version : Nat} (same : version = project.version) (decl : Decl) :
    was version project decl = now project decl := by
  subst same
  unfold was now
  cases held : filed DigestEntry.decl project.entries decl with
  | none => rfl
  | some entry =>
      have again : digest.reread project.version entry = .ok entry := project.reads _ (mem_of_filed held).1
      simp [again, Except.toOption]

/-- Projects that have each declaration under one hash have the same entries. -/
theorem now_eq_of_hash (lawful : digest.Lawful) {project other : Project digest} {decl : Decl}
    (same : (now project decl).map DigestEntry.hash = (now other decl).map DigestEntry.hash) :
    now project decl = now other decl := by
  unfold now at same ⊢
  cases held : filed DigestEntry.decl project.entries decl with
  | none =>
      rw [held] at same
      exact (Option.map_eq_none_iff.mp same.symm).symm
  | some entry =>
      rw [held] at same
      obtain ⟨entry', held', hash⟩ := Option.map_eq_some_iff.mp same.symm
      obtain ⟨known, decl_⟩ := mem_of_filed held
      obtain ⟨known', decl_'⟩ := mem_of_filed held'
      rw [held']
      exact congrArg some (lawful.hash_injective (project.reads _ known) (other.reads _ known')
        (decl_.trans decl_'.symm) hash.symm)

theorem perm_iff_now {project other : Project digest} :
    project.entries.Perm other.entries ↔ ∀ decl, now project decl = now other decl := by
  unfold now
  rw [List.perm_ext_iff_of_nodup project.distinct.of_map other.distinct.of_map]
  constructor
  · intro same decl
    refine Option.ext fun entry => ?_
    rw [filed_eq_some_iff project.distinct, filed_eq_some_iff other.distinct, same]
  · intro same entry
    have held := same entry.decl
    constructor
    · intro known
      exact (mem_of_filed (held ▸ filed_of_mem project.distinct known)).1
    · intro known
      exact (mem_of_filed (held ▸ filed_of_mem other.distinct known)).1

/-- A change with no word of its module. -/
def Change.unplaced (change : Change) : Change := { change with module := none }

/-- The change that takes another back. -/
def Change.back (change : Change) : Change where
  kind := change.kind
  name := change.name
  verdict := change.verdict.back
  module := none
  before := change.after
  after := change.before

theorem Change.unplaced_decl (change : Change) : (change.unplaced.kind, change.unplaced.name) =
    (change.kind, change.name) := rfl

theorem Change.back_decl (change : Change) : (change.back.kind, change.back.name) = (change.kind, change.name) := rfl

theorem changeOf_back {project other : Project digest} (same : project.version = other.version) (decl : Decl) :
    (changeOf project other decl).map Change.unplaced = (changeOf other project decl).map Change.back := by
  unfold changeOf listed
  rw [was_of_version same.symm, was_of_version same, verdict_back (now other decl) (now project decl)]
  simp [Function.comp_def, Change.unplaced, Change.back]

theorem mem_map_iff_changeOf {changes : List Change} {made : Decl → Option Change} {form : Change → Change}
    (kept : ∀ change, ((form change).kind, (form change).name) = (change.kind, change.name))
    (mem : ∀ change, change ∈ changes ↔ made (change.kind, change.name) = some change) (change : Change) :
    change ∈ changes.map form ↔ (made (change.kind, change.name)).map form = some change := by
  rw [List.mem_map, Option.map_eq_some_iff]
  constructor
  · rintro ⟨one, member, rfl⟩
    exact ⟨one, kept one ▸ (mem one).mp member, rfl⟩
  · rintro ⟨one, found, rfl⟩
    exact ⟨one, (mem one).mpr (kept one ▸ found), rfl⟩

/-- Two plans that list the same, whatever their order, list it in one order. -/
theorem changes_unique (digest : Digest) {changes others : List Change}
    (sorted : changes.Pairwise fun one other => one.place digest < other.place digest)
    (sorted' : others.Pairwise fun one other => one.place digest < other.place digest)
    (same : ∀ change, change ∈ changes ↔ change ∈ others) : changes = others := by
  have nodup : ∀ {list : List Change}, list.Pairwise (fun one other => one.place digest < other.place digest) →
      list.Nodup := by
    intro list strict
    refine strict.imp ?_
    rintro one other up rfl
    exact lt_irrefl _ up
  have perm : changes.Perm others := (List.perm_ext_iff_of_nodup (nodup sorted) (nodup sorted')).mpr same
  exact (ordered_unique (· < ·) (Change.place digest) sorted perm).symm.trans
    (ordered_unique (· < ·) (Change.place digest) sorted' (List.Perm.refl _))

/-- A plan against a directory lists, in the order of kinds and names, each declaration that the
deploy would add, remove or change, once and with its verdict, and no other.  It is made unless a
form that is deployed no longer reads, and says that the versions differ exactly if nothing that
is deployed has its hash under this one.  Under the version that is deployed it is always made and
lists nothing if and only if the entries are the same.  And once the project is served, the plan
to go back lists the same with before and after exchanged.  Where no boot was served a plan is
made and lists the whole project as new. -/
theorem plan_of_deploy (lawful : digest.Lawful) (boots : List (Boot digest)) (project : Project digest) :
    (served boots = [] → ∃ compared, diff project (currentDeclarations (deploy boots)) = .ok compared ∧
      compared.changes.Pairwise (fun one other => one.place digest < other.place digest) ∧
      (∀ change, change ∈ compared.changes ↔ listed digest (change.kind, change.name) none
        (now project (change.kind, change.name)) (project.modulePaths (change.kind, change.name)) =
          some change) ∧
      compared.declarationsCompared = 0 ∧ compared.digestVersionMismatch = false) ∧
    ∀ last, (served boots).getLast? = some last →
      ((∃ compared, diff project (currentDeclarations (deploy boots)) = .ok compared) ↔
        ∀ entry ∈ last.project.entries, ∃ found, digest.reread project.version entry = .ok found) ∧
      (∀ compared, diff project (currentDeclarations (deploy boots)) = .ok compared →
        compared.changes.Pairwise (fun one other => one.place digest < other.place digest) ∧
        (∀ change, change ∈ compared.changes ↔
          changeOf last.project project (change.kind, change.name) = some change) ∧
        compared.declarationsCompared = last.project.entries.length ∧
        (compared.digestVersionMismatch = true ↔ last.project.entries ≠ [] ∧
          ∀ entry ∈ last.project.entries, ¬digest.Reads project.version entry)) ∧
      (project.version = last.project.version →
        ∃ compared, diff project (currentDeclarations (deploy boots)) = .ok compared ∧
          compared.digestVersionMismatch = false ∧
          (compared.changes = [] ↔ project.entries.Perm last.project.entries) ∧
          ∀ time, ∃ reverted,
            diff last.project (currentDeclarations (deploy (boots ++ [⟨project, time, false⟩]))) = .ok reverted ∧
              reverted.changes.map Change.unplaced = compared.changes.map Change.back) := by
  refine ⟨fun none_ => diff_of_unserved lawful none_ project, fun last final => ?_⟩
  have made (boots : List (Boot digest)) (last : Boot digest) (final : (served boots).getLast? = some last)
      (project : Project digest) : (∃ compared, diff project (currentDeclarations (deploy boots)) = .ok compared) ↔
        ∀ entry ∈ last.project.entries, ∃ found, digest.reread project.version entry = .ok found := by
    rw [← read_iff lawful final]
    constructor
    · rintro ⟨compared, planned⟩
      obtain ⟨read, mapped, -⟩ := diff_ok_iff.mp planned
      exact ⟨read, mapped⟩
    · rintro ⟨read, mapped⟩
      exact ⟨_, diff_ok_iff.mpr ⟨read, mapped, rfl⟩⟩
  refine ⟨made boots last final project, fun compared planned => diff_spec lawful final planned, ?_⟩
  intro same
  have readable (one other : Project digest) (same : one.version = other.version) :
      ∀ entry ∈ other.entries, ∃ found, digest.reread one.version entry = .ok found := by
    intro entry known
    exact ⟨entry, same ▸ other.reads entry known⟩
  obtain ⟨compared, planned⟩ := (made boots last final project).mpr (readable project last.project same)
  obtain ⟨sorted, mem, -, mismatch⟩ := diff_spec lawful final planned
  refine ⟨compared, planned, ?_, ?_, fun time => ?_⟩
  · rw [← Bool.not_eq_true, mismatch]
    rintro ⟨some_, none_⟩
    obtain ⟨entry, known⟩ := List.exists_mem_of_ne_nil _ some_
    exact none_ entry known (same ▸ last.project.reads entry known)
  · have silent : compared.changes = [] ↔ ∀ decl, changeOf last.project project decl = none := by
      constructor
      · intro nothing decl
        refine Option.eq_none_iff_forall_ne_some.mpr fun change found => ?_
        have listed_ := (mem change).mpr ((listed_decl found).symm ▸ found)
        rw [nothing] at listed_
        cases listed_
      · intro nothing
        refine List.eq_nil_iff_forall_not_mem.mpr fun change member => ?_
        cases (nothing _).symm.trans ((mem change).mp member)
    rw [silent, perm_iff_now]
    refine forall_congr' fun decl => ?_
    rw [changeOf, listed, Option.map_eq_none_iff, verdict_eq_none_iff, was_of_version same]
    exact ⟨fun hashes => (now_eq_of_hash lawful hashes).symm, fun equal => by rw [equal]⟩
  · have final' : (served (boots ++ [⟨project, time, false⟩])).getLast? = some ⟨project, time, false⟩ := by
      simp [served_concat]
    obtain ⟨reverted, planned'⟩ := (made _ _ final' last.project).mpr (readable last.project project same.symm)
    obtain ⟨sorted', mem', -, -⟩ := diff_spec lawful final' planned'
    refine ⟨reverted, planned', changes_unique digest ?_ ?_ fun change => ?_⟩
    · rw [List.pairwise_map]
      exact sorted'
    · rw [List.pairwise_map]
      exact sorted
    · rw [mem_map_iff_changeOf Change.unplaced_decl mem', mem_map_iff_changeOf Change.back_decl mem,
        changeOf_back same]

theorem plan_of_deploy_of_reverted :
    ∃ compared, diff (orderPlaced "c" (by decide)) (currentDeclarations (deploy reverted)) = .ok compared ∧
      (⟨.event, "@Order", .behaviour, some "main.hk", some "event/@Order/id/a", some "event/@Order/id/c"⟩ : Change) ∈
        compared.changes := by
  obtain ⟨-, spec, same⟩ := (plan_of_deploy plainDigest_lawful reverted (orderPlaced "c" (by decide))).2
    ⟨orderPlaced "a" (by decide), "thu", false⟩ rfl
  obtain ⟨compared, planned, -⟩ := same rfl
  exact ⟨compared, planned, ((spec compared planned).2.1 _).mpr (by decide)⟩

end Hekla.Plan
