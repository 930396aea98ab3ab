import Hekla.Lanes.State

/-!
# What an effect answers, and in which lane

An effect's arms say which event types it answers and how each wants
delivering; the arm index is resolved once, when the program is loaded.  The
log and the language are read through two functions of a position: the event
type stored there and the partition key its event holds for an arm.
-/

namespace Hekla.Effect

open Hekla.Library Hekla.Lanes

/-- How an arm wants its events: every one, only those after the effect was
first activated, or the latest one queued for its lane. -/
inductive Delivery where
  | every
  | live
  | latest
  deriving DecidableEq, Repr

structure Arm where
  events : List String
  delivery : Delivery
  deriving DecidableEq

/-- Where one event type lands in an effect. -/
structure ArmRef where
  index : Nat
  delivery : Delivery
  deriving DecidableEq, Repr

/-- Enter every event type of one arm into the index. -/
def indexArm (arms : Table String ArmRef) (index : Nat) (arm : Arm) : Table String ArmRef :=
  arm.events.foldl (fun arms path => arms.set path ⟨index, arm.delivery⟩) arms

/-- Every event type an effect answers, and the arm that answers it. -/
def armIndexFrom (arms : Table String ArmRef) : Nat → List Arm → Table String ArmRef
  | _, [] => arms
  | index, arm :: rest => armIndexFrom (indexArm arms index arm) (index + 1) rest

def armIndex (arms : List Arm) : Table String ArmRef := armIndexFrom ∅ 0 arms

/-- One effect as its dispatcher sees it: its arms, the position `on live` arms
decline at or below, and what the log and the language answer for a position. -/
structure EffectUnit where
  arms : List Arm
  liveBoundary : Nat
  eventType : Nat → Option String
  partitionKey : Nat → Nat → Option LaneId
  /-- The log's positions start at one. -/
  fromOne : eventType 0 = none

/-- An effect over a log that holds the given event types and keys from position one on. -/
def EffectUnit.ofLog (arms : List Arm) (log : List (String × LaneId)) : EffectUnit where
  arms
  liveBoundary := 0
  eventType position := if position = 0 then none else (log[position - 1]?).map Prod.fst
  partitionKey _ position := (log[position - 1]?).map Prod.snd
  fromOne := rfl

/-- A position an arm of the effect answers. -/
structure Resolved where
  lane : LaneId
  arm : Nat
  collapsible : Bool
  deriving DecidableEq, Repr

/-- Whether a position may be folded into another invocation. -/
def collapsible (delivery : Delivery) (lane : LaneId) : Bool :=
  delivery == .latest && lane != LaneId.unreadable

namespace EffectUnit

/-- The lane of one event; a key that cannot be read has a lane of its own. -/
def laneOf (unit : EffectUnit) (arm position : Nat) : LaneId :=
  (unit.partitionKey arm position).getD LaneId.unreadable

/-- The lane, arm and collapsibility of a position, unless no arm answers it or
its arm declines history. -/
def resolve (unit : EffectUnit) (position : Nat) : Option Resolved :=
  match (unit.eventType position).bind (armIndex unit.arms).get with
  | none => none
  | some arm =>
      if arm.delivery = .live ∧ position ≤ unit.liveBoundary then none
      else
        let lane := unit.laneOf arm.index position
        some ⟨lane, arm.index, collapsible arm.delivery lane⟩

/-- Some arm collapses, so an earlier process's records matter. -/
def anyLatest (unit : EffectUnit) : Bool :=
  (armIndex unit.arms).any fun _ arm => arm.delivery == .latest

end EffectUnit

/-! ## The index agrees with the arms -/

/-- Every entry of an index names an arm by its place in the list. -/
def Indexed (arms : List Arm) (index : Table String ArmRef) : Prop :=
  ∀ path ref, index.get path = some ref →
    (arms[ref.index]?).map Arm.delivery = some ref.delivery

theorem indexArm_indexed {arms : List Arm} {index : Table String ArmRef} {arm : Arm} {place : Nat}
    (here : arms[place]? = some arm) (indexed : Indexed arms index) :
    Indexed arms (indexArm index place arm) := by
  unfold indexArm
  generalize arm.events = paths
  induction paths generalizing index with
  | nil => exact indexed
  | cons path rest ih =>
      refine ih ?_
      intro other ref found
      rw [Table.get_set] at found
      split at found
      · cases found
        simp [here]
      · exact indexed other ref found

theorem armIndexFrom_indexed {before rest : List Arm} {index : Table String ArmRef}
    (indexed : Indexed (before ++ rest) index) :
    Indexed (before ++ rest) (armIndexFrom index before.length rest) := by
  induction rest generalizing before index with
  | nil => exact indexed
  | cons arm rest ih =>
      have here : (before ++ arm :: rest)[before.length]? = some arm := by simp
      have next := @ih (before ++ [arm]) (indexArm index before.length arm)
      simp only [List.append_assoc, List.singleton_append, List.length_append,
        List.length_singleton] at next
      exact next (indexArm_indexed here indexed)

theorem armIndex_indexed (arms : List Arm) : Indexed arms (armIndex arms) := by
  have start : Indexed ([] ++ arms) ∅ := by
    intro path ref found
    rw [Table.get_empty] at found
    cases found
  exact armIndexFrom_indexed start

/-- Two event types of one arm are delivered the same way. -/
theorem armIndex_delivery {arms : List Arm} {path other : String} {ref ref' : ArmRef}
    (found : (armIndex arms).get path = some ref)
    (foundOther : (armIndex arms).get other = some ref') (same : ref.index = ref'.index) :
    ref.delivery = ref'.delivery := by
  have left := armIndex_indexed arms path ref found
  have right := armIndex_indexed arms other ref' foundOther
  rw [same, right] at left
  exact (Option.some.inj left).symm

namespace EffectUnit

variable {unit : EffectUnit} {position other : Nat} {resolved resolved' : Resolved}

/-- What a matched position resolves to, read back from the arm index. -/
theorem resolve_cases (found : unit.resolve position = some resolved) :
    ∃ path ref, (armIndex unit.arms).get path = some ref ∧ resolved.arm = ref.index ∧
      resolved.collapsible = collapsible ref.delivery resolved.lane := by
  unfold resolve at found
  split at found
  · cases found
  · next arm lookup =>
      obtain ⟨path, -, entry⟩ := Option.bind_eq_some_iff.mp lookup
      split at found
      · cases found
      · cases found
        exact ⟨path, arm, entry, rfl, rfl⟩

theorem resolve_zero (unit : EffectUnit) : unit.resolve 0 = none := by
  unfold resolve
  rw [unit.fromOne]
  rfl

/-- Collapsibility is fixed for an arm and a lane. -/
theorem collapsible_eq (found : unit.resolve position = some resolved)
    (foundOther : unit.resolve other = some resolved')
    (sameLane : resolved.lane = resolved'.lane) (sameArm : resolved.arm = resolved'.arm) :
    resolved.collapsible = resolved'.collapsible := by
  obtain ⟨path, ref, entry, index, collapses⟩ := resolve_cases found
  obtain ⟨path', ref', entry', index', collapses'⟩ := resolve_cases foundOther
  have delivery := armIndex_delivery entry entry' (index.symm.trans (sameArm.trans index'))
  rw [collapses, collapses', delivery, sameLane]

/-- A position is resolved by its lane and arm. -/
theorem resolve_eq (found : unit.resolve position = some resolved)
    (foundOther : unit.resolve other = some resolved') (sameLane : resolved.lane = resolved'.lane)
    (sameArm : resolved.arm = resolved'.arm) : resolved = resolved' := by
  have collapses := collapsible_eq found foundOther sameLane sameArm
  cases resolved
  cases resolved'
  simp_all

/-- A collapsible position belongs to an effect with an arm that collapses. -/
theorem anyLatest_of_collapsible (found : unit.resolve position = some resolved)
    (collapses : resolved.collapsible = true) : unit.anyLatest = true := by
  obtain ⟨path, ref, entry, -, eq⟩ := resolve_cases found
  rw [eq, collapsible, Bool.and_eq_true] at collapses
  exact (Table.any_eq_true _ _).mpr ⟨path, ref, entry, collapses.1⟩

end EffectUnit

end Hekla.Effect
