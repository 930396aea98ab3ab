import Hekla.Backup.Clamp
import Hekla.Backup.Source
import Hekla.Library.Runs

/-!
# A backup, file operation by file operation

A run lists the log, measures each file of it from the back, removes what the source does
not have, copies what has changed through a staged name, snapshots the operational
database, lowers that to the head of the log that was copied, and marks the target
complete.  The source is written to all the while, and a run may end after any of its
operations.
-/

namespace Hekla.Backup.Copying

open Hekla.Library

/-- How much is read or written at a time. -/
def CHUNK : Nat := 1048576

theorem chunk_pos : 0 < CHUNK := by decide

/-- The segment being appended to: the highest name. -/
def activeSegment (files : List (String × Nat)) : Option String :=
  ((files.map Prod.fst).filter isLog).max?

/-! ## The target -/

/-- A target: the log's directory, with what is staged there apart, the read models, the
database and its snapshot, and what the manifest says of it. -/
structure Target where
  events : Table String Contents := ∅
  staged : Table String Contents := ∅
  models : List String := []
  incoming : Option Database := none
  state : Option Database := none
  manifest : Option Bool := none

namespace Target

/-- Whether there is nothing that a backup would overwrite. -/
def isEmpty (target : Target) : Bool :=
  target.events.entries.isEmpty && target.state.isNone && target.models.isEmpty

/-- Whether the target has a file already: complete, by its length and its extent, and not
the one that is written to. -/
def reuses (target : Target) (files : List (String × Nat)) (path : String) (size extent : Nat) : Bool :=
  some path != activeSegment files &&
    match target.events.get path with
    | none => false
    | some held => held.length == size && committedExtent 0 CHUNK held size == some extent

end Target

/-! ## A run -/

/-- A file that will be copied: its path, its length, and how far it is written. -/
structure Planned where
  path : String
  size : Nat
  extent : Nat

/-- What a run does next. -/
inductive Phase where
  | tidying
  | claiming
  | listing
  | sweeping
  | measuring (todo : List (String × Nat)) (stop : Nat) (planned : List Planned)
  | removing (planned : List Planned)
  | creating (planned : List Planned)
  | writing (planned : List Planned) (done : Nat)
  | sizing (planned : List Planned)
  | placing (planned : List Planned)
  | snapshotting
  | checking
  | clearing (head : UInt64)
  | clamping (head : UInt64)
  | installing
  | marking

/-- A run: the head of the source when it started, and the files it listed. -/
structure Attempt where
  before : UInt64
  files : List (String × Nat) := []
  phase : Phase := .tidying

/-- Each file is measured from its end. -/
def measure (todo : List (String × Nat)) (planned : List Planned) : Phase :=
  .measuring todo ((todo.head?.map Prod.snd).getD 0) planned

/-- `set_len`: a file is cut, or zeros follow. -/
def setLen (size : Nat) (bytes : Contents) : Contents := preallocated 0 size (bytes.take size)

section Advance

variable (headOf : (String → Option Contents) → UInt64) (faults : Stage → Option String)

/-- The next operation of a run, which ends it where it fails. -/
def advance (source : Source) (target : Target) (attempt : Attempt) : Target × Option Attempt :=
  match attempt.phase with
  | .tidying =>
      match target.staged.firstKey, target.incoming with
      | some path, _ => ({ target with staged := target.staged.remove path }, some attempt)
      | none, some _ => ({ target with incoming := none }, some attempt)
      | none, none => (target, some { attempt with phase := .claiming })
  | .claiming => ({ target with manifest := some false }, some { attempt with phase := .listing })
  | .listing => (target, some { attempt with files := source.files, phase := .sweeping })
  | .sweeping =>
      match target.staged.firstKey with
      | some path => ({ target with staged := target.staged.remove path }, some attempt)
      | none => (target, some { attempt with phase := measure attempt.files [] })
  | .measuring [] _ planned => (target, some { attempt with phase := .removing planned })
  | .measuring ((path, size) :: rest) stop planned =>
      match (source.bytes path).bind fun bytes => scanChunk 0 CHUNK bytes stop with
      | none => (target, none)
      | some (.onward start) =>
          (target, some { attempt with phase := .measuring ((path, size) :: rest) start planned })
      | some (.ended extent) =>
          let planned := if target.reuses attempt.files path size extent then planned
            else planned ++ [⟨path, size, extent⟩]
          (target, some { attempt with phase := measure rest planned })
  | .removing planned =>
      match target.events.keys.find? fun path => path ∉ attempt.files.map Prod.fst with
      | some path => ({ target with events := target.events.remove path }, some attempt)
      | none => (target, some { attempt with phase := .creating planned })
  | .creating [] => (target, some { attempt with phase := .snapshotting })
  | .creating (file :: rest) =>
      ({ target with staged := target.staged.set file.path [] },
        some { attempt with phase := .writing (file :: rest) 0 })
  | .writing [] _ => (target, none)
  | .writing (file :: rest) done =>
      if done < file.extent then
        let span := min (file.extent - done) CHUNK
        match (source.bytes file.path).bind fun bytes => readExactAt bytes done span with
        | none => (target, none)
        | some read =>
            ({ target with
                staged := target.staged.set file.path ((target.staged.get file.path).getD [] ++ read) },
              some { attempt with phase := .writing (file :: rest) (done + span) })
      else (target, some { attempt with phase := .sizing (file :: rest) })
  | .sizing [] => (target, none)
  | .sizing (file :: rest) =>
      ({ target with
          staged := target.staged.set file.path (setLen file.size ((target.staged.get file.path).getD [])) },
        some { attempt with phase := .placing (file :: rest) })
  | .placing [] => (target, none)
  | .placing (file :: rest) =>
      match target.staged.get file.path with
      | none => (target, none)
      | some bytes =>
          ({ target with
              events := target.events.set file.path bytes
              staged := target.staged.remove file.path },
            some { attempt with phase := .creating rest })
  | .snapshotting =>
      ({ target with incoming := some source.state.database }, some { attempt with phase := .checking })
  | .checking =>
      let head := headOf target.events.get
      if attempt.before ≤ head then (target, some { attempt with phase := .clearing head }) else (target, none)
  | .clearing head => ({ target with models := [] }, some { attempt with phase := .clamping head })
  | .clamping head =>
      match target.incoming with
      | none => (target, none)
      | some database =>
          match clampToLog faults "hekla.db.incoming" database head with
          | (.error _, _) => (target, none)
          | (.ok _, clamped) =>
              ({ target with incoming := some clamped }, some { attempt with phase := .installing })
  | .installing =>
      match target.incoming with
      | none => (target, none)
      | some database =>
          ({ target with state := some database, incoming := none }, some { attempt with phase := .marking })
  | .marking => ({ target with manifest := some true }, none)

end Advance

/-! ## The source and its backups -/

/-- A data directory and its target, with the run that has the target locked.  What the
source has been since the target was claimed, newest first, is kept for what is said of
it. -/
structure System where
  source : Source
  target : Target := {}
  running : Option Attempt := none
  seen : List Source

/-- What happens, in whatever order. -/
inductive Act where
  | grow (byte : UInt8)
  | roll (name : String) (size : Nat)
  | index (path : String) (bytes : Contents)
  | commit (state : OpStore)
  | start
  | advance (faults : Stage → Option String)
  | crash

namespace System

variable (headOf : (String → Option Contents) → UInt64)

/-- A source and a directory that nothing was copied to. -/
def initial (source : Source) : System where
  source
  seen := [source]

/-- The source becomes another. -/
def turns (system : System) (source : Source) : System :=
  { system with source, seen := source :: system.seen }

/-- Whether a run goes ahead: the target is a backup or empty, and not ahead of the source. -/
def starts (system : System) : Bool :=
  system.running.isNone && (system.target.manifest.isSome || system.target.isEmpty) &&
    decide (headOf system.target.events.get ≤ headOf system.source.bytes)

/-- What a run's next operation makes of the system. -/
def advanced (system : System) (attempt : Attempt) (faults : Stage → Option String) : System where
  source := system.source
  target := (advance headOf faults system.source system.target attempt).1
  running := (advance headOf faults system.source system.target attempt).2
  seen := match attempt.phase with
    | .claiming => [system.source]
    | _ => system.seen

def step (system : System) : Act → Option System
  | .grow byte => (system.source.grow byte).map system.turns
  | .roll name size => (system.source.roll name size).map system.turns
  | .index path bytes => (system.source.index path bytes).map system.turns
  | .commit state => some (system.turns (system.source.commit state))
  | .start =>
      if system.starts headOf then some { system with running := some ⟨headOf system.source.bytes, [], .tidying⟩ }
      else none
  | .advance faults => system.running.map fun attempt => system.advanced headOf attempt faults
  | .crash => some { system with running := none }

end System

/-- A target that is a copy: its segments are those of the source at one moment, and its
database that of another, lowered to the head of what was copied. -/
structure Copies (headOf : (String → Option Contents) → UInt64) (target : Target) (log later : Source) :
    Prop where
  logs : ∀ path, isLog path = true → target.events.get path = log.bytes path
  state : target.state = some (clamped later.state.database (headOf target.events.get))

end Hekla.Backup.Copying
