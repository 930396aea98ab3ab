import Hekla.Effect.Program
import Hekla.Library.Runs
import Mathlib.Data.List.Range
import Mathlib.Logic.Function.Basic

/-!
# One effect's dispatcher

A process runs one effect with one reader and any number of worker threads.
The reader owns the subscription: it admits batches, wakes parked lanes and
publishes the mark.  A worker takes a lane the pool hands it and works it until
the lane empties, defers or the effect stops.  Every action below is what one
thread does under the lane lock, or one durable write, so a run is any
interleaving of them.

`Ledger` is the history of a run: which positions were admitted, which of them
each group stands for, which groups have retired and what was handed out.  No
action reads it.
-/

namespace Hekla.Effect

open Hekla.Library Hekla.Lanes

/-! ## The history of a run -/

/-- A queued group with the positions folded into it. -/
structure Group extends Pending where
  members : List Nat

/-- The group a position starts. -/
def Group.single (position arm : Nat) : Group := ⟨⟨position, position, arm⟩, [position]⟩

/-- The group once a later position has taken it over. -/
def Group.absorb (group : Group) (position : Nat) : Group :=
  ⟨⟨group.lo, position, group.arm⟩, group.members ++ [position]⟩

structure Ledger where
  admitted : LaneId → List (Nat × Nat) := fun _ => []
  opened : LaneId → List Group := fun _ => []
  closed : LaneId → List Group := fun _ => []
  handed : LaneId → List Work := fun _ => []

namespace Ledger

/-- The lane's open groups once an admitted position has joined them. -/
def entered (groups : List Group) (superseded : Option Pending) (position arm : Nat) :
    List Group :=
  let isTaken (opened : Pending) (group : Group) :=
    LaneState.isOpen opened.hi arm group.toPending
  match superseded.bind fun opened => groups.find? (isTaken opened) with
  | some taken => groups.eraseP (isTaken taken.toPending) ++ [taken.absorb position]
  | none => groups ++ [Group.single position arm]

/-- Enter an admitted position in the group it starts or takes over. -/
def enter (ledger : Ledger) (lanes : LaneState) (lane : LaneId) (position arm : Nat)
    (declared : Bool) : Ledger :=
  { ledger with
    admitted := Function.update ledger.admitted lane (ledger.admitted lane ++ [(position, arm)])
    opened := Function.update ledger.opened lane
      (entered (ledger.opened lane) (lanes.superseded lane arm declared) position arm) }

/-- Note the work a lane has been handed out for. -/
def hand (ledger : Ledger) (lane : LaneId) (work : Work) : Ledger :=
  { ledger with handed := Function.update ledger.handed lane (ledger.handed lane ++ [work]) }

/-- Move the head group of a lane to the retired ones when its position completes. -/
def close (ledger : Ledger) (lane : LaneId) (position : Nat) : Ledger :=
  match ledger.opened lane with
  | group :: rest =>
      if group.hi = position then
        { ledger with
          opened := Function.update ledger.opened lane rest
          closed := Function.update ledger.closed lane (ledger.closed lane ++ [group]) }
      else ledger
  | [] => ledger

end Ledger

/-! ## The threads of a process -/

/-- What `begin_invocation` reports. -/
inductive InvocationState where
  | alreadyTerminal
  | running
  deriving DecidableEq, Repr

/-- How far a worker is in its lane. -/
inductive Phase where
  | ready
  | took (work : Work)
  | live (work : Work)
  | settled (work : Work)
  | owing (position : Nat)
  | recorded (position : Nat)
  | leaving
  deriving DecidableEq, Repr

structure Worker where
  lane : LaneId
  phase : Phase
  deriving DecidableEq, Repr

/-- How far the reader is in publishing the mark. -/
inductive Reader where
  | polling
  | marked (mark : Nat)
  | written (mark : Nat)
  | sweeping (mark : Nat)
  | pruning (mark : Nat)
  deriving DecidableEq, Repr

/-- A running dispatcher.  `tickets` are the offers the pool holds or a thread
has in hand; `position` is the mark last published and `persisted` the one last
written. -/
structure Process where
  lanes : LaneState
  cursor : Nat
  position : Nat
  persisted : Nat
  reader : Reader := .polling
  workers : Table Nat Worker := ∅
  tickets : List LaneId := []
  stopped : Bool := false
  ledger : Ledger := {}

inductive Act where
  | deliver (upto : Nat)
  | resubscribe (resume : Nat)
  | promote (now : Nat)
  | promoteMatching (wanted : Nat → Bool)
  | readMark
  | writeMark
  | forgetMark
  | sweepRows
  | pruneRows
  | claim (thread : Nat) (lane : LaneId)
  | head (thread : Nat)
  | begin (thread : Nat) (answer : InvocationState)
  | settle (thread : Nat)
  | complete (thread : Nat)
  | recordRow (thread : Nat) (written : Bool)
  | noteRow (thread : Nat)
  | defer (thread : Nat) (deadline : Nat)
  | release (thread : Nat)
  | stop

namespace Process

variable (unit : EffectUnit)

/-- A process resuming after the mark an earlier one persisted. -/
def boot (resume : Nat) (rows : Table LaneId Nat) (begun : List Nat) (blind : Bool) : Process :=
  { lanes := LaneState.resuming resume rows begun blind
    cursor := resume
    position := resume
    persisted := resume }

/-! ## The reader -/

/-- Queue a resolved position in its lane, and offer the lane if it has just
become runnable. -/
def offer (s : Process) (position : Nat) (resolved : Resolved) : Process :=
  let outcome := s.lanes.admitPosition resolved.lane position resolved.arm resolved.collapsible
  { s with
    lanes := outcome.1
    tickets := if outcome.2.armed then s.tickets ++ [resolved.lane] else s.tickets
    ledger :=
      if s.lanes.seen resolved.lane position then s.ledger
      else s.ledger.enter s.lanes resolved.lane position resolved.arm resolved.collapsible }

/-- Assign one position of a batch to its lane; one no arm answers is scanned past. -/
def assign (s : Process) (position : Nat) : Process :=
  match unit.resolve position with
  | some resolved => s.offer position resolved
  | none => s

/-- Note how far the subscription has read. -/
def scanTo (s : Process) (upto : Nat) : Process :=
  { s with lanes := s.lanes.setScanned upto, cursor := upto }

/-- Admit the positions after the cursor up to `upto`, under one lock. -/
def deliver (s : Process) (upto : Nat) : Process :=
  ((List.range' (s.cursor + 1) (upto - s.cursor)).foldl (assign unit) s).scanTo upto

/-- Subscribe again after a driver error, from the mark that was persisted. -/
def resubscribe (s : Process) : Process :=
  { s with
    lanes := s.lanes.setScanned s.persisted
    cursor := s.persisted
    reader := .polling }

/-- Offer the lanes that have just been woken. -/
def offerWoken (s : Process) (woken : LaneState × List LaneId) : Process :=
  { s with lanes := woken.1, tickets := s.tickets ++ woken.2 }

/-- Forget what the mark has passed once it is durable, and ask for a sweep
when a recorded row lies at or below it. -/
def forgetMark (s : Process) (mark : Nat) : Process :=
  let lanes := s.lanes.forget mark
  { s with
    lanes
    position := mark
    reader := if lanes.rowsToSweep mark then .sweeping mark else .polling }

/-! ## A worker -/

/-- Take a lane the pool handed over, unless it is no longer waiting. -/
def claim (s : Process) (thread : Nat) (lane : LaneId) : Process :=
  let claimed := s.lanes.claim lane
  { s with
    tickets := s.tickets.erase lane
    lanes := claimed.1
    workers := if claimed.2 then s.workers.set thread ⟨lane, .ready⟩ else s.workers }

/-- Ask a claimed lane for its next work. -/
def head (s : Process) (thread : Nat) (lane : LaneId) : Process :=
  let next := s.lanes.head lane
  match next.2 with
  | some work =>
      { s with
        lanes := next.1
        workers := s.workers.set thread ⟨lane, .took work⟩
        ledger := s.ledger.hand lane work }
  | none => { s with lanes := next.1, workers := s.workers.set thread ⟨lane, .leaving⟩ }

/-- Retire finished work, and go on to its lane row when one is owed. -/
def complete (s : Process) (thread : Nat) (lane : LaneId) (work : Work) : Process :=
  let done := s.lanes.complete lane work.position
  { s with
    lanes := done.1
    workers := s.workers.set thread ⟨lane, if done.2 then .owing work.position else .ready⟩
    ledger := s.ledger.close lane work.position }

/-- Park the lane and give the worker back. -/
def defer (s : Process) (thread : Nat) (lane : LaneId) (deadline : Nat) : Process :=
  { s with
    lanes := s.lanes.defer lane deadline
    workers := s.workers.remove thread }

/-- Give the lane back, and offer it again while the effect still accepts work. -/
def release (s : Process) (thread : Nat) (lane : LaneId) : Process :=
  let given := s.lanes.release lane
  { s with
    lanes := given.1
    workers := s.workers.remove thread
    tickets := if given.2 && !s.stopped then s.tickets ++ [lane] else s.tickets }

/-- Move a worker to its next phase without touching the lanes. -/
def turn (s : Process) (thread : Nat) (lane : LaneId) (phase : Phase) : Process :=
  { s with workers := s.workers.set thread ⟨lane, phase⟩ }

/-- Note a lane row once it is durable, and go back to the lane. -/
def noteRow (s : Process) (thread : Nat) (lane : LaneId) (position : Nat) : Process :=
  { s with
    lanes := s.lanes.recordRow lane position
    workers := s.workers.set thread ⟨lane, .ready⟩ }

/-! ## One action -/

/-- Run `next` when the reader is in the main loop. -/
def whenPolling (s : Process) (next : Process) : Option Process :=
  if s.reader = .polling then some next else none

/-- One action of the reader or of a worker, refused where the thread is not there. -/
def step (s : Process) : Act → Option Process
  | .deliver upto =>
      if s.reader = .polling ∧ s.cursor ≤ upto then some (s.deliver unit upto) else none
  | .resubscribe resume =>
      if resume = s.persisted then some s.resubscribe else none
  | .promote now => s.whenPolling (s.offerWoken (s.lanes.promote now))
  | .promoteMatching wanted => s.whenPolling (s.offerWoken (s.lanes.promoteMatching wanted))
  | .readMark =>
      s.whenPolling
        (if s.lanes.lowWater ≤ s.position then s else { s with reader := .marked s.lanes.lowWater })
  | .writeMark =>
      match s.reader with
      | .marked mark => some { s with persisted := mark, reader := .written mark }
      | _ => none
  | .forgetMark =>
      match s.reader with
      | .written mark => some (s.forgetMark mark)
      | _ => none
  | .sweepRows =>
      match s.reader with
      | .sweeping mark => some { s with reader := .pruning mark }
      | _ => none
  | .pruneRows =>
      match s.reader with
      | .pruning mark => some { s with lanes := s.lanes.pruneRows mark, reader := .polling }
      | _ => none
  | .claim thread lane =>
      if s.workers.get thread = none ∧ lane ∈ s.tickets then some (s.claim thread lane) else none
  | .head thread =>
      match s.workers.get thread with
      | some ⟨lane, .ready⟩ => some (s.head thread lane)
      | _ => none
  | .begin thread answer =>
      match s.workers.get thread with
      | some ⟨lane, .took work⟩ =>
          match answer with
          | .alreadyTerminal => some (s.turn thread lane (.settled work))
          | .running => some (s.turn thread lane (.live work))
      | _ => none
  | .settle thread =>
      match s.workers.get thread with
      | some ⟨lane, .live work⟩ => some (s.turn thread lane (.settled work))
      | _ => none
  | .complete thread =>
      match s.workers.get thread with
      | some ⟨lane, .settled work⟩ => some (s.complete thread lane work)
      | _ => none
  | .recordRow thread written =>
      match s.workers.get thread with
      | some ⟨lane, .owing position⟩ =>
          some (s.turn thread lane (if written then .recorded position else .ready))
      | _ => none
  | .noteRow thread =>
      match s.workers.get thread with
      | some ⟨lane, .recorded position⟩ =>
          some (s.noteRow thread lane position)
      | _ => none
  | .defer thread deadline =>
      match s.workers.get thread with
      | some ⟨lane, .took _⟩ | some ⟨lane, .live _⟩ | some ⟨lane, .settled _⟩ =>
          some (s.defer thread lane deadline)
      | _ => none
  | .release thread =>
      match s.workers.get thread with
      | some worker => some (s.release thread worker.lane)
      | none => none
  | .stop => some { s with stopped := true }

end Process

end Hekla.Effect
