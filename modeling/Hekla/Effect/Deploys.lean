import Hekla.Effect.Coverage
import Hekla.Effect.Watermark
import Mathlib.Data.List.Sort

/-!
# One effect across deploys

A deploy brings other arms, event types and partition keys to an effect that
has a mark, lane rows and invocation rows already.  What the store knows of the
definition they were written under is its activation: the lane scheme, one line
an event type.  A boot compares the two and refuses to start the effect while a
type of both schemes has another key and rows are outstanding above the mark.

`past` is the history of a run: the definitions that ran here before, each with
the store it left.  No action reads it.
-/

namespace Hekla.Effect

open Hekla.Library Hekla.Lanes

/-- An arm as it is declared: with the fields that name its lane. -/
structure KeyedArm extends Arm where
  keys : List String
  deriving DecidableEq

/-- The log, and the key of each event in the fields an arm names. -/
structure EventLog where
  eventType : Nat → Option String
  partitionKey : List String → Nat → Option LaneId
  /-- The log's positions start at one. -/
  fromOne : eventType 0 = none

/-- The fields an arm's lane is named by. -/
def keysAt (arms : List KeyedArm) (index : Nat) : Option (List String) :=
  (arms[index]?).map KeyedArm.keys

/-- Every event type the arms answer, and the arm that answers it. -/
def armIndexOf (arms : List KeyedArm) : Table String ArmRef :=
  armIndex (arms.map KeyedArm.toArm)

/-- A definition of the effect over a log. -/
def EventLog.unit (log : EventLog) (arms : List KeyedArm) (liveBoundary : Nat) : EffectUnit where
  arms := arms.map KeyedArm.toArm
  liveBoundary
  eventType := log.eventType
  partitionKey index position :=
    (keysAt arms index).bind fun keys => log.partitionKey keys position
  fromOne := log.fromOne

/-! ## The partition guard -/

/-- A lane scheme: the key of each event type, by type.  It is recorded as one
`type=keys` line each, which reads back: neither holds `=` or a line break. -/
abbrev LaneScheme := List (String × String)

/-- The lane scheme of a definition. -/
def laneScheme (arms : List KeyedArm) : LaneScheme :=
  ((arms.foldl (fun lines arm =>
      arm.events.foldl (fun lines path => lines.set path (",".intercalate arm.keys)) lines)
    (∅ : Table String String)).entries.map fun line => (line.1, line.2)).insertionSort
      fun line other => line.1 ≤ other.1

/-- The event types whose lane changed between two schemes.  Only types of both
are compared. -/
def repartitioned (before after : LaneScheme) : List String :=
  (before.filter fun line => (after.lookup line.1).any fun now => now != line.2).map Prod.fst

/-- What the store records of an effect when it first runs. -/
structure Activation where
  liveBoundary : Nat
  laneScheme : LaneScheme

/-- How many lanes are still ahead of the mark. -/
def OpDb.effectLanesOutstanding (db : OpDb) : Nat :=
  (db.lanes.entries.filter fun row => db.watermark < row.2).length

structure Deployed where
  world : World := {}
  activation : Option Activation := none
  /-- The definition last admitted, and whether a later one is blocked. -/
  arms : Option (List KeyedArm) := none
  blocked : Bool := false
  past : List (EffectUnit × OpDb) := []

inductive DeployAct where
  | deploy (arms : List KeyedArm) (head : Nat)
  | world (act : WorldAct)

namespace Deployed

variable (log : EventLog)

/-- The activation a boot finds, or the one it records. -/
def activate (d : Deployed) (arms : List KeyedArm) (head : Nat) : Activation :=
  d.activation.getD ⟨head, laneScheme arms⟩

/-- Whether the guard refuses to start a definition. -/
def blocking (d : Deployed) (arms : List KeyedArm) (head : Nat) : Bool :=
  !(repartitioned (d.activate arms head).laneScheme (laneScheme arms)).isEmpty &&
    decide (0 < d.world.db.effectLanesOutstanding)

/-- The definition the store was last written under. -/
def unit (d : Deployed) (arms : List KeyedArm) : EffectUnit :=
  log.unit arms ((d.activation.map Activation.liveBoundary).getD 0)

/-- The server starts with a definition of the effect. -/
def spawn (d : Deployed) (arms : List KeyedArm) (head : Nat) : Deployed :=
  let activation := d.activate arms head
  if d.blocking arms head then { d with activation := some activation, blocked := true }
  else
    { d with
      activation := some { activation with laneScheme := laneScheme arms }
      arms := some arms
      blocked := false
      past := d.past ++ (d.arms.map fun before => (d.unit log before, d.world.db)).toList }

def step (d : Deployed) : DeployAct → Option Deployed
  | .deploy arms head =>
      match d.world.process with
      | some _ => none
      | none => some (d.spawn log arms head)
  | .world act =>
      if d.blocked then none
      else
        d.arms.bind fun arms =>
          (d.world.step (d.unit log arms) act).map fun world => { d with world }

/-! ## What is settled, and which deploys keep it -/

end Deployed

/-- The position has been dealt with under a definition: it is terminal, or it lies
in the range recorded with a terminal invocation of its own collapsing arm and
lane. -/
def Settled (unit : EffectUnit) (db : OpDb) (resolved : Resolved) (position : Nat) : Prop :=
  ∃ terminal collapsedFrom, db.invocations.get terminal = some (.terminal collapsedFrom) ∧
    unit.resolve terminal = some resolved ∧
      (position = terminal ∨ resolved.collapsible = true ∧
        collapsedFrom.getD terminal ≤ position ∧ position ≤ terminal)

/-- The position was dealt with in the store an earlier definition left. -/
def SettledBefore (past : List (EffectUnit × OpDb)) (position : Nat) : Prop :=
  ∃ before ∈ past, ∃ resolved, before.1.resolve position = some resolved ∧
    Settled before.1 before.2 resolved position

/-- Every event type of the new definition is one of the old with the same key,
and answers no more of history than it did. -/
def within (old new : List KeyedArm) : Bool :=
  (armIndexOf new).entries.all fun entry =>
    ((armIndexOf old).get entry.1).any fun ref =>
      decide (keysAt new entry.2.index = keysAt old ref.index) &&
        (ref.delivery != .live || entry.2.delivery == .live)

/-- An invocation found terminal when a group is taken up for it was recorded with
a range that reaches as far back as the group does.  A definition that collapses
what did not collapse together before may form a longer group. -/
def World.RangeRecorded (w : World) (act : WorldAct) : Prop :=
  ∀ s thread lane work collapsedFrom, act = .act (.begin thread .alreadyTerminal) →
    w.process = some s → s.workers.get thread = some ⟨lane, .took work⟩ →
      w.db.invocations.get work.position = some (.terminal collapsedFrom) →
        collapsedFrom.getD work.position ≤ work.collapsedFrom.getD work.position

namespace Deployed

variable {log : EventLog}

/-- A deploy that finds no lane ahead of the mark, or only event types its
predecessor had in the same lanes; a group whose invocation is terminal already
was recorded with all that it stands for; and a lane row that is written where its
lane queues no group that starts below it. -/
def Careful (d : Deployed) : DeployAct → Prop
  | .deploy arms head =>
      d.blocking arms head = true ∨ d.world.db.effectLanesOutstanding = 0 ∨
        ∃ old, d.arms = some old ∧ within old arms = true
  | .world act => d.world.RowsBehind act ∧ d.world.RangeRecorded act

/-- What one action of the system can do. -/
inductive Stepped (log : EventLog) (d : Deployed) : DeployAct → Deployed → Prop where
  | blocked {arms : List KeyedArm} {head : Nat} (down : d.world.process = none)
      (blocks : d.blocking arms head = true) :
      Stepped log d (.deploy arms head)
        { d with activation := some (d.activate arms head), blocked := true }
  | admitted {arms : List KeyedArm} {head : Nat} (down : d.world.process = none)
      (admits : d.blocking arms head = false) :
      Stepped log d (.deploy arms head)
        { d with
          activation := some { d.activate arms head with laneScheme := laneScheme arms }
          arms := some arms
          blocked := false
          past := d.past ++ (d.arms.map fun before => (d.unit log before, d.world.db)).toList }
  | world {act : WorldAct} {arms : List KeyedArm} {world : World} (deployed : d.arms = some arms)
      (taken : d.world.step (d.unit log arms) act = some world) :
      Stepped log d (.world act) { d with world }

theorem stepped_of_step {d d' : Deployed} {act : DeployAct} (taken : d.step log act = some d') :
    Stepped log d act d' := by
  cases act with
  | deploy arms head =>
      unfold step at taken
      cases down : d.world.process with
      | some s =>
          rw [down] at taken
          cases taken
      | none =>
          rw [down] at taken
          cases blocks : d.blocking arms head with
          | true =>
              have spawned : d.spawn log arms head =
                  { d with activation := some (d.activate arms head), blocked := true } := by
                simp [spawn, blocks]
              exact Option.some.inj taken ▸ spawned ▸ .blocked down blocks
          | false =>
              refine Option.some.inj taken ▸ ?_
              unfold spawn
              rw [blocks]
              exact .admitted down blocks
  | world act =>
      obtain ⟨-, taken⟩ := Option.ite_none_left_eq_some.mp taken
      obtain ⟨arms, deployed, ran⟩ := Option.bind_eq_some_iff.mp taken
      obtain ⟨world, moved, rfl⟩ := Option.map_eq_some_iff.mp ran
      exact .world deployed moved

/-- What a definition within its predecessor matches, the predecessor matched
in the same lane. -/
theorem resolve_within {old new : List KeyedArm} {liveBoundary position : Nat} {resolved : Resolved}
    (kept : within old new = true)
    (found : (log.unit new liveBoundary).resolve position = some resolved) :
    ∃ before, (log.unit old liveBoundary).resolve position = some before ∧
      before.lane = resolved.lane := by
  unfold EffectUnit.resolve at found
  split at found
  · cases found
  · next ref lookup =>
      obtain ⟨path, typed, entry⟩ := Option.bind_eq_some_iff.mp lookup
      have listed := (Table.get_eq_some_iff (armIndexOf new) path ref).mp entry
      have matched := List.all_eq_true.mp kept _ listed
      obtain ⟨before, indexed, same⟩ := (Option.any_eq_true _ _).mp matched
      simp only [Bool.and_eq_true, decide_eq_true_eq, Bool.or_eq_true, bne_iff_ne, beq_iff_eq] at same
      obtain ⟨sameKeys, history⟩ := same
      split at found
      · cases found
      · next answered =>
          cases found
          have lookupOld : ((log.unit old liveBoundary).eventType position).bind
              (armIndex (log.unit old liveBoundary).arms).get = some before :=
            Option.bind_eq_some_iff.mpr ⟨path, typed, indexed⟩
          unfold EffectUnit.resolve
          rw [lookupOld]
          dsimp only
          rw [if_neg]
          · refine ⟨_, rfl, ?_⟩
            change (log.unit old liveBoundary).laneOf before.index position =
              (log.unit new liveBoundary).laneOf ref.index position
            simp only [EffectUnit.laneOf, EventLog.unit, sameKeys]
          · rintro ⟨live, below⟩
            exact answered ⟨history.resolve_left fun other => other live, below⟩

theorem no_row_above {db : OpDb} (drained : db.effectLanesOutstanding = 0) {lane : LaneId}
    {row : Nat} (held : db.lanes.get lane = some row) : row ≤ db.watermark := by
  unfold OpDb.effectLanesOutstanding at drained
  rw [List.length_eq_zero_iff, List.filter_eq_nil_iff] at drained
  have listed := (Table.get_eq_some_iff db.lanes lane row).mp held
  exact Nat.le_of_not_lt fun above => drained _ listed (decide_eq_true above)

end Deployed

end Hekla.Effect
