import Mathlib.Data.List.Basic
import Mathlib.Logic.Function.Basic

/-!
# Files behind names

A directory names files, and a handle stands for the file it was opened on,
whatever becomes of the name.  A write through a handle changes one file; a
rename puts another file behind a name and changes none.
-/

namespace Hekla.Library

universe u v

/-- Every file there has been, by handle, and the one behind each name. -/
structure Directory (ν : Type u) (φ : Type v) where
  files : List φ
  names : ν → Option Nat
  valid : ∀ name handle, names name = some handle → handle < files.length

namespace Directory

variable {ν : Type u} {φ : Type v}

def empty : Directory ν φ where
  files := []
  names _ := none
  valid _ _ named := by cases named

def file (directory : Directory ν φ) (handle : Nat) : Option φ := directory.files[handle]?

theorem file_empty (handle : Nat) : (empty : Directory ν φ).file handle = none := rfl

/-- Write through a handle. -/
def write (directory : Directory ν φ) (handle : Nat) (file : φ) : Directory ν φ where
  files := directory.files.set handle file
  names := directory.names
  valid name handle named := by
    rw [List.length_set]
    exact directory.valid name handle named

variable {directory : Directory ν φ} {name : ν} {handle : Nat} {file : φ}

theorem file_of_named (named : directory.names name = some handle) :
    ∃ file, directory.file handle = some file :=
  ⟨_, List.getElem?_eq_getElem (directory.valid name handle named)⟩

theorem lt_of_file (found : directory.file handle = some file) : handle < directory.files.length :=
  (List.getElem?_eq_some_iff.mp found).1

@[simp]
theorem names_write : (directory.write handle file).names = directory.names := rfl

@[simp]
theorem length_write : (directory.write handle file).files.length = directory.files.length :=
  List.length_set

theorem file_write_self {old : φ} (found : directory.file handle = some old) :
    (directory.write handle file).file handle = some file :=
  List.getElem?_set_self (lt_of_file found)

theorem file_write_ne {other : Nat} (apart : other ≠ handle) :
    (directory.write handle file).file other = directory.file other :=
  List.getElem?_set_ne apart.symm

/-- What a handle stands for after a write is what was written, or what it was. -/
theorem file_write_cases {other : Nat} {found : φ}
    (there : (directory.write handle file).file other = some found) :
    other = handle ∧ found = file ∨ other ≠ handle ∧ directory.file other = some found := by
  by_cases same : other = handle
  · subst same
    have inside : other < directory.files.length := by simpa using lt_of_file there
    have written : (directory.write other file).file other = some file :=
      List.getElem?_set_self inside
    exact .inl ⟨rfl, Option.some.inj (there.symm.trans written)⟩
  · rw [file_write_ne same] at there
    exact .inr ⟨same, there⟩

variable [DecidableEq ν]

/-- Put a new file behind a name. -/
def create (directory : Directory ν φ) (name : ν) (file : φ) : Directory ν φ where
  files := directory.files ++ [file]
  names := Function.update directory.names name (some directory.files.length)
  valid other handle named := by
    rw [List.length_append, List.length_singleton]
    rw [Function.update_apply] at named
    split at named
    · cases named
      exact Nat.lt_succ_self _
    · exact Nat.lt_succ_of_lt (directory.valid other handle named)

/-- Take a name away.  The file stays, for who has it open. -/
def unlink (directory : Directory ν φ) (name : ν) : Directory ν φ where
  files := directory.files
  names := Function.update directory.names name none
  valid other handle named := by
    rw [Function.update_apply] at named
    split at named
    · cases named
    · exact directory.valid other handle named

/-- Move the file behind one name behind another. -/
def rename (directory : Directory ν φ) (old new : ν) : Option (Directory ν φ) :=
  match named : directory.names old with
  | none => none
  | some moved => some
      { files := directory.files
        names := Function.update (Function.update directory.names new (some moved)) old none
        valid other handle here := by
          rw [Function.update_apply] at here
          split at here
          · cases here
          · rw [Function.update_apply] at here
            split at here
            · cases here
              exact directory.valid old _ named
            · exact directory.valid other handle here }

/-- The handle of a name, with the file created when there is none. -/
def openOrCreate (directory : Directory ν φ) (name : ν) (blank : φ) : Directory ν φ × Nat :=
  match directory.names name with
  | some handle => (directory, handle)
  | none => (directory.create name blank, directory.files.length)

theorem names_create_self : (directory.create name file).names name = some directory.files.length :=
  Function.update_self ..

theorem names_create_ne {other : ν} (apart : other ≠ name) :
    (directory.create name file).names other = directory.names other :=
  Function.update_of_ne apart ..

theorem file_create_new : (directory.create name file).file directory.files.length = some file :=
  List.getElem?_concat_length ..

theorem file_create_of_lt (old : handle < directory.files.length) :
    (directory.create name file).file handle = directory.file handle :=
  List.getElem?_append_left old

theorem length_create : (directory.create name file).files.length = directory.files.length + 1 := by
  simp [create]

/-- A handle stands for a file there was, or for the one just created. -/
theorem file_create_cases {found : φ} (there : (directory.create name file).file handle = some found) :
    handle = directory.files.length ∧ found = file ∨ directory.file handle = some found := by
  have inside := lt_of_file there
  rw [length_create] at inside
  rcases Nat.lt_succ_iff_lt_or_eq.mp inside with old | rfl
  · rw [file_create_of_lt old] at there
    exact .inr there
  · exact .inl ⟨rfl, Option.some.inj (there.symm.trans file_create_new)⟩

@[simp]
theorem file_unlink : (directory.unlink name).file handle = directory.file handle := rfl

@[simp]
theorem length_unlink : (directory.unlink name).files.length = directory.files.length := rfl

theorem names_unlink_ne {other : ν} (apart : other ≠ name) :
    (directory.unlink name).names other = directory.names other :=
  Function.update_of_ne apart ..

theorem openOrCreate_of_named {blank : φ} (named : directory.names name = some handle) :
    directory.openOrCreate name blank = (directory, handle) := by
  unfold openOrCreate
  rw [named]

theorem openOrCreate_of_none {blank : φ} (unnamed : directory.names name = none) :
    directory.openOrCreate name blank = (directory.create name blank, directory.files.length) := by
  unfold openOrCreate
  rw [unnamed]

theorem names_unlink_self : (directory.unlink name).names name = none :=
  Function.update_self ..

/-- A rename moves one name, and no file. -/
theorem rename_eq_some {old new : ν} (apart : old ≠ new) {renamed : Directory ν φ}
    (moved : directory.rename old new = some renamed) :
    renamed.names new = directory.names old ∧ renamed.files = directory.files := by
  unfold rename at moved
  split at moved
  · cases moved
  · next handle named =>
      cases moved
      refine ⟨?_, rfl⟩
      dsimp only
      rw [Function.update_of_ne apart.symm, Function.update_self]
      exact named.symm

end Directory

end Hekla.Library
