import Hekla.Effect.Redelivery
import Mathlib.Data.List.Sort
import Mathlib.Algebra.Group.Nat.Defs

/-!
# An effect across crashes and restarts

`OpDb` is what one effect keeps on disk: its mark, its lane rows and its
invocation rows.  A `World` is that store and at most one running process.  A
crash takes the process and leaves the store; a boot starts a process from the
store alone.  Every durable write is a step of its own, so a crash may fall
between any two of them.
-/

namespace Hekla.Effect

open Hekla.Library Hekla.Lanes

/-- An invocation row. -/
inductive Invocation where
  | running
  | terminal (collapsedFrom : Option Nat)
  deriving DecidableEq, Repr

/-- The rows one effect has in the op-DB. -/
structure OpDb where
  watermark : Nat := 0
  lanes : Table LaneId Nat := ∅
  invocations : Table Nat Invocation := ∅

namespace OpDb

/-- Reserve an invocation for a position, then report whether to run it. -/
def beginInvocation (db : OpDb) (position : Nat) : OpDb × InvocationState :=
  match db.invocations.get position with
  | none => ({ db with invocations := db.invocations.set position .running }, .running)
  | some .running => (db, .running)
  | some (.terminal _) => (db, .alreadyTerminal)

/-- Mark an invocation terminal, with the range it folded, in one statement;
an operator skip writes the same two columns. -/
def completeInvocation (db : OpDb) (position : Nat) (collapsedFrom : Option Nat) : OpDb :=
  match db.invocations.get position with
  | none => db
  | some _ =>
      { db with invocations := db.invocations.set position (.terminal collapsedFrom) }

def setEffectWatermark (db : OpDb) (watermark : Nat) : OpDb := { db with watermark }

/-- Record that a lane has terminalised every position up to `position`. -/
def recordEffectLane (db : OpDb) (lane : LaneId) (position : Nat) : OpDb :=
  { db with lanes := db.lanes.set lane (max ((db.lanes.get lane).getD position) position) }

/-- Drop the lane rows the mark has caught up with. -/
def sweepEffectLanes (db : OpDb) (watermark : Nat) : OpDb :=
  { db with lanes := db.lanes.retain fun _ position => watermark < position }

/-- The first `limit` positions above `after` that have an invocation row. -/
def invocationsAbove (db : OpDb) (after limit : Nat) : List Nat :=
  ((db.invocations.keys.filter fun position => after < position).insertionSort (· ≤ ·)).take limit

end OpDb

/-- The most recorded positions above its mark a dispatcher reads. -/
def recordedMax : Nat := 2 ^ 16

structure World where
  db : OpDb := {}
  process : Option Process := none

inductive WorldAct where
  | boot
  | crash
  | act (act : Act)

namespace World

variable (unit : EffectUnit)

/-- The recorded positions a booting dispatcher reads: none for an effect that
never folds. -/
def recorded (db : OpDb) : List Nat :=
  if unit.anyLatest then db.invocationsAbove db.watermark (recordedMax + 1) else []

/-- A process started from the store. -/
def bootProcess (db : OpDb) : Process :=
  Process.boot db.watermark db.lanes (recorded unit db) (recordedMax < (recorded unit db).length)

/-- What an action does to the store; refused when the store answers something
else than the action says. -/
def stores (db : OpDb) (s : Process) : Act → Option OpDb
  | .begin thread answer =>
      match s.workers.get thread with
      | some ⟨_, .took work⟩ =>
          if (db.beginInvocation work.position).2 = answer then
            some (db.beginInvocation work.position).1
          else none
      | _ => none
  | .settle thread =>
      match s.workers.get thread with
      | some ⟨_, .live work⟩ => some (db.completeInvocation work.position work.collapsedFrom)
      | _ => none
  | .recordRow thread written =>
      match s.workers.get thread with
      | some ⟨lane, .owing position⟩ =>
          some (if written then db.recordEffectLane lane position else db)
      | _ => none
  | .writeMark =>
      match s.reader with
      | .marked mark => some (db.setEffectWatermark mark)
      | _ => none
  | .sweepRows =>
      match s.reader with
      | .sweeping mark => some (db.sweepEffectLanes mark)
      | _ => none
  | .resubscribe resume => if resume = db.watermark then some db else none
  | _ => some db

def step (w : World) : WorldAct → Option World
  | .boot =>
      match w.process with
      | none => some { w with process := some (bootProcess unit w.db) }
      | some _ => none
  | .crash =>
      match w.process with
      | none => none
      | some _ => some { w with process := none }
  | .act act =>
      match w.process with
      | none => none
      | some s =>
          match stores w.db s act, s.step unit act with
          | some db, some s' => some { db, process := some s' }
          | _, _ => none

end World

/-! ## What one action of the world can do -/

/-- The actions that write the store. -/
inductive Act.Stores : Act → Prop where
  | begin (thread : Nat) (answer : InvocationState) : Stores (.begin thread answer)
  | settle (thread : Nat) : Stores (.settle thread)
  | recordRow (thread : Nat) (written : Bool) : Stores (.recordRow thread written)
  | writeMark : Stores .writeMark
  | sweepRows : Stores .sweepRows

/-- The phase a worker enters on the answer to its reservation. -/
def InvocationState.phase (work : Work) : InvocationState → Phase
  | .alreadyTerminal => .settled work
  | .running => .live work

inductive WorldStepped (unit : EffectUnit) (w : World) : WorldAct → World → Prop where
  | boot (down : w.process = none) :
      WorldStepped unit w .boot { w with process := some (World.bootProcess unit w.db) }
  | crash {s : Process} (up : w.process = some s) :
      WorldStepped unit w .crash { w with process := none }
  | begin {s : Process} {thread : Nat} {lane : LaneId} {work : Work} {answer : InvocationState}
      (up : w.process = some s) (took : s.workers.get thread = some ⟨lane, .took work⟩)
      (answers : (w.db.beginInvocation work.position).2 = answer) :
      WorldStepped unit w (.act (.begin thread answer))
        ⟨(w.db.beginInvocation work.position).1, some (s.turn thread lane (answer.phase work))⟩
  | settle {s : Process} {thread : Nat} {lane : LaneId} {work : Work}
      (up : w.process = some s) (live : s.workers.get thread = some ⟨lane, .live work⟩) :
      WorldStepped unit w (.act (.settle thread))
        ⟨w.db.completeInvocation work.position work.collapsedFrom,
          some (s.turn thread lane (.settled work))⟩
  | recordRow {s : Process} {thread : Nat} {lane : LaneId} {position : Nat} {written : Bool}
      (up : w.process = some s) (owing : s.workers.get thread = some ⟨lane, .owing position⟩) :
      WorldStepped unit w (.act (.recordRow thread written))
        ⟨if written then w.db.recordEffectLane lane position else w.db,
          some (s.turn thread lane (if written then .recorded position else .ready))⟩
  | writeMark {s : Process} {mark : Nat} (up : w.process = some s)
      (marked : s.reader = .marked mark) :
      WorldStepped unit w (.act .writeMark)
        ⟨w.db.setEffectWatermark mark, some { s with persisted := mark, reader := .written mark }⟩
  | sweepRows {s : Process} {mark : Nat} (up : w.process = some s)
      (sweeping : s.reader = .sweeping mark) :
      WorldStepped unit w (.act .sweepRows)
        ⟨w.db.sweepEffectLanes mark, some { s with reader := .pruning mark }⟩
  | quiet {s s' : Process} {act : Act} (up : w.process = some s)
      (taken : s.step unit act = some s') (plain : ¬act.Stores) :
      WorldStepped unit w (.act act) ⟨w.db, some s'⟩

namespace World

variable {unit : EffectUnit} {w w' : World}

theorem act_cases {act : Act} (taken : w.step unit (.act act) = some w') :
    ∃ s db s', w.process = some s ∧ stores w.db s act = some db ∧ s.step unit act = some s' ∧
      w' = ⟨db, some s'⟩ := by
  unfold step at taken
  cases up : w.process with
  | none =>
      rw [up] at taken
      cases taken
  | some s =>
      rw [up] at taken
      cases stored : stores w.db s act with
      | none =>
          simp only [stored] at taken
          cases taken
      | some db =>
          cases moved : s.step unit act with
          | none =>
              simp only [stored, moved] at taken
              cases taken
          | some s' =>
              simp only [stored, moved] at taken
              exact ⟨s, db, s', rfl, stored, moved, (Option.some.inj taken).symm⟩

theorem stepped_of_step {act : WorldAct} (taken : w.step unit act = some w') :
    WorldStepped unit w act w' := by
  cases act with
  | boot =>
      unfold step at taken
      cases up : w.process with
      | some s =>
          rw [up] at taken
          cases taken
      | none =>
          rw [up] at taken
          exact Option.some.inj taken ▸ .boot up
  | crash =>
      unfold step at taken
      cases up : w.process with
      | none =>
          rw [up] at taken
          cases taken
      | some s =>
          rw [up] at taken
          exact Option.some.inj taken ▸ .crash up
  | act act =>
      obtain ⟨s, db, s', up, stored, moved, rfl⟩ := act_cases taken
      have plain (quiet : ¬act.Stores) (same : db = w.db) :
          WorldStepped unit w (.act act) ⟨db, some s'⟩ := same ▸ .quiet up moved quiet
      cases Process.stepped_of_step moved with
      | beginTerminal took =>
          simp only [stores, took] at stored
          obtain ⟨answers, rfl⟩ := Option.ite_none_right_eq_some.mp stored |>.imp_right Option.some.inj
          exact .begin up took answers
      | beginRunning took =>
          simp only [stores, took] at stored
          obtain ⟨answers, rfl⟩ := Option.ite_none_right_eq_some.mp stored |>.imp_right Option.some.inj
          exact .begin up took answers
      | settle live =>
          simp only [stores, live] at stored
          exact Option.some.inj stored ▸ .settle up live
      | recordRow owing =>
          simp only [stores, owing] at stored
          exact Option.some.inj stored ▸ .recordRow up owing
      | writeMark marked =>
          simp only [stores, marked] at stored
          exact Option.some.inj stored ▸ .writeMark up marked
      | sweepRows sweeping =>
          simp only [stores, sweeping] at stored
          exact Option.some.inj stored ▸ .sweepRows up sweeping
      | resubscribe =>
          refine plain (by rintro ⟨⟩) ?_
          obtain ⟨-, same⟩ := Option.ite_none_right_eq_some.mp stored
          exact (Option.some.inj same).symm
      | _ => exact plain (by rintro ⟨⟩) (Option.some.inj stored).symm

end World

end Hekla.Effect
