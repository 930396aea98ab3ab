import Hekla.Library.Table
import Mathlib.Data.List.Basic

/-!
# One effect's scheduling state

`LaneState` decides which position of an effect runs next.  A lane with work is
offered to the pool, owned by a worker or parked under a deadline; its queue
holds groups, each naming the position that runs and the oldest one folded into
it; the low-water mark is derived from the groups still in flight.

Positions and instants are natural numbers.  The ordered set of deadlines is a
duplicate-free list, since only which deadlines have passed matters here and
not the order in which the woken lanes are reported.
-/

namespace Hekla.Lanes

open Hekla.Library

/-- The durable name of a partition key. -/
structure LaneId where
  text : String
  deriving DecidableEq, Repr

/-- The lane of every position whose key could not be read. -/
def LaneId.unreadable : LaneId := ⟨"!"⟩

/-- Where a lane with work is in the schedule. -/
inductive Place where
  | queued
  | running
  | deferred (deadline : Nat)
  deriving DecidableEq, Repr

/-- One queued group: `hi` runs, `lo` is the oldest position it stands for. -/
structure Pending where
  lo : Nat
  hi : Nat
  arm : Nat
  deriving DecidableEq, Repr

/-- What a worker takes from a lane. -/
structure Work where
  position : Nat
  collapsedFrom : Option Nat
  deriving DecidableEq, Repr

/-- The work a group is: its range is recorded only when something was folded. -/
def Pending.work (group : Pending) : Work :=
  ⟨group.hi, if group.lo < group.hi then some group.lo else none⟩

/-- What admitting one position came to. -/
structure Admitted where
  armed : Bool := false
  folded : Bool := false
  deriving DecidableEq, Repr

structure LaneState where
  queues : Table LaneId (List Pending) := ∅
  latest : Table (LaneId × Nat) Nat := ∅
  high : Table LaneId Nat := ∅
  place : Table LaneId Place := ∅
  deferred : List (Nat × LaneId) := []
  inflight : Table Nat LaneId := ∅
  scanned : Nat := 0
  rows : Table LaneId Nat := ∅
  begun : List Nat := []
  blind : Bool := false
  skipPromoted : List (LaneId × Nat) := []

namespace LaneState

/-- A dispatcher resuming at `scanned`, with the recorded lane rows and the
positions above the mark that already have an invocation row. -/
def resuming (scanned : Nat) (rows : Table LaneId Nat) (begun : List Nat) (blind : Bool) :
    LaneState :=
  { scanned, high := rows, rows, begun, blind }

def recordRow (state : LaneState) (lane : LaneId) (position : Nat) : LaneState :=
  { state with rows := state.rows.set lane (max ((state.rows.get lane).getD 0) position) }

def rowsToSweep (state : LaneState) (mark : Nat) : Bool :=
  state.rows.any fun _ position => position ≤ mark

/-! ## Admission -/

/-- The groups queued in a lane; a lane without an entry has none. -/
def queue (state : LaneState) (lane : LaneId) : List Pending := (state.queues.get lane).getD []

/-- The position was already offered to its lane, or finished by an earlier process. -/
def seen (state : LaneState) (lane : LaneId) (position : Nat) : Bool :=
  (state.high.get lane).any fun seen => position ≤ seen

/-- The arm asked to collapse, and this dispatcher read everything recorded
above its mark. -/
def collapsible (state : LaneState) (declared : Bool) : Bool := declared && !state.blind

/-- A later position may take this one over. -/
def supersedable (state : LaneState) (position : Nat) (declared : Bool) : Bool :=
  state.collapsible declared && !state.begun.contains position

/-- The test by which the open group of an arm is found in its lane's queue. -/
def isOpen (openAt arm : Nat) (group : Pending) : Bool := group.hi == openAt && group.arm == arm

/-- The open group a position takes over, if it collapses and there is one. -/
def superseded (state : LaneState) (lane : LaneId) (arm : Nat) (declared : Bool) :
    Option Pending :=
  if state.collapsible declared then
    (state.latest.get (lane, arm)).bind fun openAt => (state.queue lane).find? (isOpen openAt arm)
  else none

/-- The queue of the lane once the group being taken over has left it. -/
def withoutSuperseded (state : LaneState) (lane : LaneId) (arm : Nat) (declared : Bool) :
    List Pending :=
  match state.superseded lane arm declared with
  | some opened => (state.queue lane).eraseP (isOpen opened.hi arm)
  | none => state.queue lane

/-- The group an admitted position becomes: it inherits the oldest position of
the one it takes over. -/
def entering (superseded : Option Pending) (position arm : Nat) : Pending :=
  match superseded with
  | some opened => ⟨opened.lo, position, arm⟩
  | none => ⟨position, position, arm⟩

/-- Queue a position its lane has not seen. -/
def enter (state : LaneState) (lane : LaneId) (position arm : Nat) (declared : Bool) : LaneState :=
  let superseded := state.superseded lane arm declared
  { state with
    high := state.high.set lane position
    -- A group that takes another over stays responsible for the same oldest position.
    inflight := if superseded.isSome then state.inflight else state.inflight.set position lane
    latest :=
      if state.supersedable position declared then state.latest.set (lane, arm) position
      -- A position with an earlier record ends the chain it took over.
      else if state.collapsible declared then state.latest.remove (lane, arm)
      else state.latest
    queues := state.queues.set lane
      (state.withoutSuperseded lane arm declared ++ [entering superseded position arm])
    place := if (state.place.get lane).isNone then state.place.set lane .queued else state.place }

/-- Queue `position` in `lane` as work for `arm`. -/
def admitPosition (state : LaneState) (lane : LaneId) (position arm : Nat) (declared : Bool) :
    LaneState × Admitted :=
  if state.seen lane position then (state, {})
  else
    (state.enter lane position arm declared,
      { armed := (state.place.get lane).isNone
        folded := (state.superseded lane arm declared).isSome })

def setScanned (state : LaneState) (scanned : Nat) : LaneState :=
  { state with scanned := max state.scanned scanned }

/-- The highest position every event at or below is terminal. -/
def lowWater (state : LaneState) : Nat :=
  match state.inflight.firstKey with
  | some oldest => min (oldest - 1) state.scanned
  | none => state.scanned

/-! ## Working a lane -/

/-- Take ownership of a lane that is waiting to be claimed. -/
def claim (state : LaneState) (lane : LaneId) : LaneState × Bool :=
  if state.place.get lane = some .queued then
    ({ state with place := state.place.set lane .running }, true)
  else (state, false)

/-- Stop naming a group as the open one of its arm. -/
def closeLatest (state : LaneState) (lane : LaneId) (group : Pending) : Table (LaneId × Nat) Nat :=
  if state.latest.get (lane, group.arm) = some group.hi then state.latest.remove (lane, group.arm)
  else state.latest

/-- The work a claimed lane runs next, left in the queue; taking it freezes the group. -/
def head (state : LaneState) (lane : LaneId) : LaneState × Option Work :=
  match (state.queue lane).head? with
  | none => (state, none)
  | some group => ({ state with latest := state.closeLatest lane group }, some group.work)

/-- The group a completion pops and the rest of its queue, when the position
completed is the one at the head. -/
def retiring (state : LaneState) (lane : LaneId) (position : Nat) :
    Option (Pending × List Pending) :=
  match state.queue lane with
  | group :: rest => if group.hi = position then some (group, rest) else none
  | [] => none

/-- Take a terminal position out of its lane. -/
def retire (state : LaneState) (lane : LaneId) (position : Nat) : LaneState :=
  match state.retiring lane position with
  | some (group, rest) =>
      { state with
        queues := if rest.isEmpty then state.queues.remove lane else state.queues.set lane rest
        latest := state.closeLatest lane group
        inflight := state.inflight.remove group.lo
        skipPromoted := state.skipPromoted.erase (lane, position) }
  | none =>
      { state with
        inflight := state.inflight.remove position
        skipPromoted := state.skipPromoted.erase (lane, position) }

/-- Retire a terminal position, and say whether its lane owes a durable row. -/
def complete (state : LaneState) (lane : LaneId) (position : Nat) : LaneState × Bool :=
  let retired := state.retire lane position
  (retired, retired.inflight.firstKey.any fun oldest => oldest < position)

/-- Give a lane back; `true` when it still has work and is runnable again. -/
def release (state : LaneState) (lane : LaneId) : LaneState × Bool :=
  if (state.queues.get lane).isSome then
    ({ state with place := (state.place.remove lane).set lane .queued }, true)
  else ({ state with place := state.place.remove lane }, false)

/-- Park a lane until `deadline`, keeping its queue. -/
def defer (state : LaneState) (lane : LaneId) (deadline : Nat) : LaneState :=
  { state with
    place := state.place.set lane (.deferred deadline)
    deferred := state.deferred.insert (deadline, lane) }

/-! ## Waking parked lanes -/

/-- What waking a lane ahead of its deadline remembers: the position it was woken for. -/
def noteSkip (state : LaneState) (lane : LaneId) : List (LaneId × Nat) :=
  match (state.queue lane).head? with
  | some group => state.skipPromoted.insert (lane, group.hi)
  | none => state.skipPromoted

/-- Take one entry out of the deadlines and wake its lane, unless the lane is no
longer parked under it. -/
def wake (early : Bool) (state : LaneState) (entry : Nat × LaneId) : LaneState × List LaneId :=
  if state.place.get entry.2 = some (.deferred entry.1) then
    ({ state with
        deferred := state.deferred.erase entry
        skipPromoted := if early then state.noteSkip entry.2 else state.skipPromoted
        place := state.place.set entry.2 .queued },
      [entry.2])
  else ({ state with deferred := state.deferred.erase entry }, [])

/-- Wake the entries in turn and report the lanes that became runnable. -/
def wakeAll (early : Bool) (state : LaneState) : List (Nat × LaneId) → LaneState × List LaneId
  | [] => (state, [])
  | entry :: rest =>
      let woken := state.wake early entry
      let later := wakeAll early woken.1 rest
      (later.1, woken.2 ++ later.2)

/-- Move every lane whose backoff has expired back to the pool. -/
def promote (state : LaneState) (now : Nat) : LaneState × List LaneId :=
  state.wakeAll false (state.deferred.filter fun entry => entry.1 ≤ now)

/-- A parked lane an operator skip wants now, unless it was already woken for that position. -/
def wantedNow (state : LaneState) (wanted : Nat → Bool) (entry : Nat × LaneId) : Bool :=
  (state.queue entry.2).head?.any fun group =>
    !state.skipPromoted.contains (entry.2, group.hi) && wanted group.hi

/-- Wake any parked lane whose next position `wanted` accepts. -/
def promoteMatching (state : LaneState) (wanted : Nat → Bool) : LaneState × List LaneId :=
  state.wakeAll true (state.deferred.filter (state.wantedNow wanted))

/-! ## At the mark -/

/-- Drop the rows a sweep at the mark has just deleted. -/
def pruneRows (state : LaneState) (mark : Nat) : LaneState :=
  { state with rows := state.rows.retain fun _ done => mark < done }

/-- Forget the lanes the mark has passed. -/
def forget (state : LaneState) (mark : Nat) : LaneState :=
  { state with
    high := state.high.retain fun _ seen => mark < seen
    begun := state.begun.filter fun position => mark < position }

end LaneState

end Hekla.Lanes
