import Hekla.Projector.ReadModel
import Hekla.Reads.Waiting

/-!
# A projector's thread

The thread reconciles the read model it finds, follows the log in batches, and
publishes the position of each once it is committed.  A rebuild projects the log
into a sibling file and moves that behind the name; whatever fails on the way,
the thread reopens what is there and publishes that.  Each step below is one the
thread takes with no reader between, and any of them may fail instead, or be the
process's last.

A transaction is committed whole, and a connection goes on reading the file it
was opened on.  A database is one file here: what a step at `sweeping` leaves when
it fails, or is the last, is the rebuilt model, as it is where no frames of the old
database stand beside it.  `Swap` takes the files apart, and has what is seen where
some do.
-/

namespace Hekla.Projector

open Hekla.Library Hekla.Reads

/-- The read model's own file, and the sibling a rebuild makes. -/
inductive DbFile where
  | live
  | rebuild
  deriving DecidableEq

/-- How far the thread has come.  `model` and `fresh` are the connections it
holds, on the read model and on the one being built. -/
inductive Thread where
  | reconciling (plan : Reconcile) (model : Nat)
  | subscribing (model : Nat)
  | tailing (model position : Nat)
  | publishing (model position : Nat)
  | clearing (model : Nat)
  | creating (model : Nat)
  | projecting (model fresh position : Nat)
  | stamping (model fresh : Nat)
  | sealing (model fresh : Nat)
  | swapping (fresh : Nat)
  | sweeping
  | reopening
  | republishing (model : Nat)
  | rebuilt (model : Nat)
  | failed
  | surviving
  | judging (model : Nat)
  | resetting (model : Nat)
  | stopped
  deriving DecidableEq

/-- The file that is not yet behind the read model's name. -/
def Thread.fresh : Thread → Option Nat
  | .projecting _ fresh _ | .stamping _ fresh | .sealing _ fresh | .swapping fresh => some fresh
  | _ => none

/-- Where a step that fails leaves the thread.  A rebuild that fails is outlived. -/
def Thread.faulted : Thread → Option Thread
  | .reconciling _ _ | .subscribing _ | .tailing _ _ | .publishing _ _ | .surviving | .judging _
  | .resetting _ => some .stopped
  | .clearing _ | .creating _ | .projecting _ _ _ | .stamping _ _ | .sealing _ _ | .swapping _
  | .sweeping | .reopening | .republishing _ => some .failed
  | .rebuilt _ | .failed | .stopped => none

/-- The log, the files, and what a running process shares of its projector. -/
structure World (Record Definition Rows : Type) where
  log : List Record
  files : Directory DbFile (ReadModel Definition Rows)
  definition : Definition
  position : Nat
  readiness : Readiness
  replay : Bool := false
  thread : Thread

variable {Record Keys Rows Definition : Type} [DecidableEq Definition]

/-- Open the read model and decide what it needs, before any read is served. -/
def spawn (blank : Rows) (log : List Record)
    (files : Directory DbFile (ReadModel Definition Rows)) (definition : Definition)
    (autoRebuild : Bool) : World Record Definition Rows :=
  let opened := files.openOrCreate .live { rows := blank }
  let model := (opened.1.file opened.2).getD { rows := blank }
  let plan := reconcileFrom model.definition model.checkpoint definition autoRebuild
  { log
    files := opened.1
    definition
    position := model.checkpoint
    readiness := plan.readiness
    thread := .reconciling plan opened.2 }

namespace World

variable (world : World Record Definition Rows)

/-- Commit a change through a connection. -/
def commit (handle : Nat) (change : ReadModel Definition Rows → ReadModel Definition Rows)
    (thread : Thread) : Option (World Record Definition Rows) :=
  (world.files.file handle).map fun model =>
    { world with files := world.files.write handle (change model), thread }

/-- Publish a position reached by following the log.  One that goes backwards
stops the projector. -/
def advancePosition (reached : Nat) : World Record Definition Rows :=
  if reached < world.position then { world with readiness := .quarantined }
  else { world with position := reached }

/-- One turn of the loop that follows the log. -/
def poll (projection : Projection Record Keys Rows) (keys : Record → Keys) (upto : Nat)
    (model position : Nat) : Option (World Record Definition Rows) :=
  match projection.pollBatch world.log position upto with
  | none => none
  | some [] =>
      if world.position < upto then
        world.commit model (·.advanceCheckpoint upto) (.publishing model upto)
      else some { world with thread := .tailing model upto }
  | some batch =>
      (world.files.file model).map fun found =>
        match found.applyBatch projection keys batch upto with
        | .error _ => { world with thread := .stopped }
        | .ok next =>
            { world with files := world.files.write model next, thread := .publishing model upto }

/-- One turn of the loop that projects the log into a new model. -/
def project (projection : Projection Record Keys Rows) (keys : Record → Keys) (upto : Nat)
    (model fresh position : Nat) : Option (World Record Definition Rows) :=
  match projection.pollBatch world.log position upto with
  | none => none
  | some [] =>
      world.commit fresh (·.catchUp upto) (.stamping model fresh)
  | some batch =>
      (world.files.file fresh).map fun found =>
        match found.applyBatch projection keys batch upto with
        | .error _ => { world with thread := .failed }
        | .ok next =>
            { world with
              files := world.files.write fresh next
              thread := .projecting model fresh upto }

/-- The thread's next step, when it does not fail for another reason than the
events.  `upto` is where a poll ends, and `keys` is what each event finds. -/
def proceed (projections : Definition → Projection Record Keys Rows) (blank : Rows)
    (keys : Record → Keys) (upto : Nat) : Option (World Record Definition Rows) :=
  match world.thread with
  | .reconciling .upToDate model | .reconciling .stale model =>
      some { world with thread := .subscribing model }
  | .reconciling .stamp model =>
      world.commit model (·.setDefinition world.definition) (.subscribing model)
  | .reconciling .rebuild model => some { world with thread := .clearing model }
  | .subscribing model =>
      (world.files.file model).map fun found =>
        { world with thread := .tailing model found.checkpoint }
  | .tailing model position =>
      if world.replay then some { world with replay := false, thread := .clearing model }
      else if world.readiness.appliesBatches then
        world.poll (projections world.definition) keys upto model position
      else some world
  | .publishing model position =>
      some { world.advancePosition position with thread := .tailing model position }
  | .clearing model =>
      some { world with files := world.files.unlink .rebuild, thread := .creating model }
  | .creating model =>
      let opened := world.files.openOrCreate .rebuild { rows := blank }
      some { world with
        files := opened.1
        thread := .projecting model opened.2 ((opened.1.file opened.2).elim 0 ReadModel.checkpoint) }
  | .projecting model fresh position =>
      world.project (projections world.definition) keys upto model fresh position
  | .stamping model fresh =>
      world.commit fresh (·.setDefinition world.definition) (.sealing model fresh)
  -- Sealing moves no row; both connections are closed before the swap.
  | .sealing _ fresh => some { world with thread := .swapping fresh }
  | .swapping _ =>
      some (match world.files.rename .rebuild .live with
        | none => { world with thread := .failed }
        | some files => { world with files, thread := .sweeping })
  | .sweeping => some { world with thread := .reopening }
  | .reopening =>
      let opened := world.files.openOrCreate .live { rows := blank }
      some { world with files := opened.1, thread := .republishing opened.2 }
  | .republishing model =>
      (world.files.file model).map fun found =>
        { world with position := found.checkpoint, thread := .rebuilt model }
  | .rebuilt model => some { world with readiness := .ready, thread := .subscribing model }
  | .failed => some { world with readiness := .failed, thread := .surviving }
  | .surviving =>
      let opened := world.files.openOrCreate .live { rows := blank }
      some { world with files := opened.1, thread := .judging opened.2 }
  | .judging model =>
      (world.files.file model).map fun found =>
        { world with
          readiness :=
            if reconcileFrom found.definition found.checkpoint world.definition false = .stale then
              world.readiness
            else .ready
          thread := .resetting model }
  | .resetting model =>
      (world.files.file model).map fun found =>
        { world with position := found.checkpoint, thread := .subscribing model }
  | .stopped => none

end World

/-- What happens to a projector.  A process can end at any moment, and the next
may run another definition; a stopped thread and a shutdown are a step that
fails. -/
inductive Action (Record Keys Definition : Type) where
  | append (record : Record)
  | requestReplay
  | proceed (keys : Record → Keys) (upto : Nat)
  | fault
  | restart (definition : Definition) (autoRebuild removed : Bool)

def step (projections : Definition → Projection Record Keys Rows) (blank : Rows)
    (world : World Record Definition Rows) :
    Action Record Keys Definition → Option (World Record Definition Rows)
  | .append record => some { world with log := world.log ++ [record] }
  | .requestReplay => some { world with replay := true }
  | .proceed keys upto => world.proceed projections blank keys upto
  | .fault => world.thread.faulted.map fun thread => { world with thread }
  | .restart definition autoRebuild removed =>
      some (spawn blank world.log (if removed then world.files.unlink .live else world.files)
        definition autoRebuild)

/-- A restart ends the process, and its reads with it. -/
def Action.ends : Action Record Keys Definition → Bool
  | .restart _ _ _ => true
  | _ => false

/-! ## What is read of it -/

/-- Why a projector's read model cannot be read now. -/
def notServable (projector : String) : Readiness → Option ErrorResponse
  | .ready => none
  | .rebuilding => some ⟨503, ⟨"rebuilding",
      s!"projector `{projector}` is rebuilding its read model"⟩, true⟩
  | .stale => some ⟨503, ⟨"stale",
      s!"projector `{projector}` was built from a different definition and auto-rebuild is off; " ++
        s!"POST /projectors/{projector}/replay to rebuild it"⟩, false⟩
  | .failed => some ⟨503, ⟨"rebuild_failed",
      s!"projector `{projector}` could not rebuild its read model; see its `last_error` in " ++
        s!"/status, then POST /projectors/{projector}/replay to retry"⟩, false⟩
  | .quarantined => some ⟨503, ⟨"quarantined",
      s!"projector `{projector}` failed an invariant check and stopped advancing; see its " ++
        "`last_error` in /status"⟩, false⟩

/-- What a wait waits on, as a reader would name it. -/
def who (projector : String) : String := s!"projector `{projector}`"

/-- The projector as its readers see it: the gate, the position, and the file that
is behind the name or a connection. -/
def reading (projector : String) : Publication (World Record Definition Rows) Nat
    (ReadModel Definition Rows) ErrorResponse where
  gate world := notServable projector world.readiness
  published := World.position
  named world := world.files.names .live
  content world := world.files.file
  version := ReadModel.checkpoint
  broken := readFailed

end Hekla.Projector
