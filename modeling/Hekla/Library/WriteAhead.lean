import Mathlib.Logic.Function.Basic

/-!
# Databases with a write-ahead log

A database is a main file and a log of frames beside it, found by name.  In the
write-ahead mode what it holds is the pages of the main file with those of the frames
over them; in the rollback mode the log is not looked at.  Which log stands beside a
main file is a matter of names alone.
-/

namespace Hekla.Library

universe u v

/-- What a main file says of its journal. -/
inductive JournalMode where
  | rollback
  | writeAhead
  deriving DecidableEq

structure MainFile (π : Type u) (δ : Type v) where
  pages : π → δ
  mode : JournalMode

/-- The files of one name: the database, its frames, and the index over them. -/
structure DatabaseFiles (π : Type u) (δ : Type v) where
  main : Option (MainFile π δ) := none
  wal : Option (List (π × δ)) := none
  shm : Bool := false

variable {π : Type u} {δ : Type v} [DecidableEq π]

/-- Pages with frames over them, the last of a page on top. -/
def overlay (pages : π → δ) (frames : List (π × δ)) : π → δ :=
  frames.foldl (fun pages frame => Function.update pages frame.1 frame.2) pages

@[simp]
theorem overlay_nil (pages : π → δ) : overlay pages [] = pages := rfl

theorem overlay_append (pages : π → δ) (first second : List (π × δ)) :
    overlay pages (first ++ second) = overlay (overlay pages first) second :=
  List.foldl_append

/-- The page a frame is of is what the last such frame says. -/
theorem overlay_apply (pages : π → δ) (frames : List (π × δ)) (page : π) :
    overlay pages frames page =
      (frames.reverse.find? fun frame => frame.1 = page).elim (pages page) Prod.snd := by
  induction frames generalizing pages with
  | nil => rfl
  | cons frame rest ih =>
      rw [overlay, List.foldl_cons, ← overlay, ih, List.reverse_cons, List.find?_append]
      cases rest.reverse.find? fun frame => frame.1 = page with
      | some found => rfl
      | none =>
          by_cases same : frame.1 = page
          · subst same
            simp
          · simp [same, Function.update_of_ne (Ne.symm same)]

/-- Frames over pages that already show them change nothing. -/
theorem overlay_self (pages : π → δ) (frames : List (π × δ)) :
    overlay (overlay pages frames) frames = overlay pages frames := by
  funext page
  rw [overlay_apply, overlay_apply]
  cases frames.reverse.find? fun frame => frame.1 = page <;> rfl

namespace DatabaseFiles

variable (database : DatabaseFiles π δ)

/-- The frames of the log that stands beside the main file. -/
def frames : List (π × δ) := database.wal.getD []

/-- What the database holds. -/
def content : Option (π → δ) :=
  database.main.map fun main =>
    match main.mode with
    | .rollback => main.pages
    | .writeAhead => overlay main.pages database.frames

/-- Open the database, made of blank pages when there is none, and turn the
write-ahead mode on. -/
def openWriteAhead (blank : π → δ) : DatabaseFiles π δ where
  main := some { pages := (database.main.map MainFile.pages).getD blank, mode := .writeAhead }
  wal := some database.frames
  shm := true

/-- Commit a transaction in the write-ahead mode. -/
def commit (frames : List (π × δ)) : DatabaseFiles π δ :=
  { database with wal := some (database.frames ++ frames) }

/-- Write the pages of the frames into the main file. -/
def checkpoint : DatabaseFiles π δ :=
  { database with main := database.main.map fun main =>
      { main with pages := overlay main.pages database.frames } }

/-- The last connection in the write-ahead mode closes: it leaves no log behind. -/
def closeLast : DatabaseFiles π δ := { database.checkpoint with wal := none, shm := false }

/-- Fold the frames into the main file, and go back to the rollback mode. -/
def rollbackMode : DatabaseFiles π δ where
  main := database.main.map fun main =>
    { pages := overlay main.pages database.frames, mode := .rollback }

variable {database} {pages : π → δ}

/-- A database in the write-ahead mode that holds the pages. -/
def Holds (database : DatabaseFiles π δ) (pages : π → δ) : Prop :=
  ∃ main, database.main = some main ∧ main.mode = .writeAhead ∧
    overlay main.pages database.frames = pages

theorem Holds.content (holds : database.Holds pages) : database.content = some pages := by
  obtain ⟨main, found, mode, rfl⟩ := holds
  unfold DatabaseFiles.content
  rw [found, Option.map_some, mode]

/-- A main file in any mode, opened, shows the frames it stands beside over its pages. -/
theorem holds_openWriteAhead {main : MainFile π δ} (found : database.main = some main)
    (blank : π → δ) :
    (database.openWriteAhead blank).Holds (overlay main.pages database.frames) := by
  refine ⟨⟨main.pages, .writeAhead⟩, ?_, rfl, rfl⟩
  unfold DatabaseFiles.openWriteAhead
  rw [found]
  rfl

/-- Opening shows what a database in the write-ahead mode holds. -/
theorem Holds.openWriteAhead (holds : database.Holds pages) (blank : π → δ) :
    (database.openWriteAhead blank).Holds pages := by
  obtain ⟨main, found, -, rfl⟩ := holds
  exact holds_openWriteAhead found blank

theorem Holds.commit (holds : database.Holds pages) (frames : List (π × δ)) :
    (database.commit frames).Holds (overlay pages frames) := by
  obtain ⟨main, found, mode, rfl⟩ := holds
  exact ⟨main, found, mode, overlay_append _ _ _⟩

theorem Holds.checkpoint (holds : database.Holds pages) : database.checkpoint.Holds pages := by
  obtain ⟨main, found, mode, rfl⟩ := holds
  refine ⟨⟨overlay main.pages database.frames, main.mode⟩, ?_, mode, overlay_self _ _⟩
  unfold DatabaseFiles.checkpoint
  rw [found]
  rfl

theorem Holds.closeLast (holds : database.Holds pages) : database.closeLast.Holds pages := by
  obtain ⟨main, found, mode, rfl⟩ := holds
  refine ⟨⟨overlay main.pages database.frames, main.mode⟩, ?_, mode, rfl⟩
  unfold DatabaseFiles.closeLast DatabaseFiles.checkpoint
  rw [found]
  rfl

/-- A database that went back to the rollback mode is one file. -/
theorem Holds.rollbackMode (holds : database.Holds pages) :
    database.rollbackMode.main = some ⟨pages, .rollback⟩ := by
  obtain ⟨main, found, -, rfl⟩ := holds
  unfold DatabaseFiles.rollbackMode
  rw [found]
  rfl

/-- A new database is blank. -/
theorem holds_openWriteAhead_of_none (unmade : database.main = none)
    (unlogged : database.wal = none) (blank : π → δ) :
    (database.openWriteAhead blank).Holds blank := by
  refine ⟨⟨blank, .writeAhead⟩, ?_, rfl, ?_⟩
  · unfold DatabaseFiles.openWriteAhead
    rw [unmade]
    rfl
  · unfold DatabaseFiles.openWriteAhead DatabaseFiles.frames
    rw [unlogged]
    rfl

end DatabaseFiles

end Hekla.Library
