import Hekla.Lanes.Names
import Hekla.Library.Runs
import Mathlib.Data.List.Sort
import Mathlib.Algebra.Group.Nat.Defs

/-!
# Lanes that are not healthy

The lanes that failed last, and the driver's own failure among them, stand in one
table, from which the number of wedged lanes, the pinning lane and the failure
worth reporting are published again after every change.  A failure is recorded in
two steps, each under the table's lock, and other threads may come in between.
-/

namespace Hekla.Effect

open Hekla.Library Lanes

/-- One lane that is not healthy. -/
structure StuckLane where
  position : Nat
  attempt : Nat
  error : String
  retryAtMs : Nat

/-- One wedged lane, with the duration that remains. -/
structure StuckLaneView where
  lane : String
  position : Nat
  attempt : Nat
  error : String
  retryInMs : Nat

structure StuckLanes where
  listed : List StuckLaneView
  total : Nat

/-- The most lanes that are listed at once. -/
def maxStuckListed : Nat := 100

/-- The lane a failure of the driver is recorded under. -/
def driverLane : LaneId := ⟨"!driver"⟩

/-- The table of stuck lanes, and what was published of it. -/
structure EffectShared where
  stuck : Table LaneId StuckLane := ∅
  wedgedLanes : Nat := 0
  pinning : Option (String × Nat) := none
  consecutiveFailures : Nat := 0
  lastError : Option String := none
  retryAtMs : Nat := 0

namespace EffectShared

/-- The entries in the order of their lanes. -/
def inOrder (shared : EffectShared) : List (LaneId × StuckLane) :=
  (shared.stuck.entries.map fun entry => (entry.1, entry.2)).insertionSort
    fun first second => first.1.text ≤ second.1.text

/-- The entry with the lowest position. -/
def worst (shared : EffectShared) : Option (LaneId × StuckLane) :=
  shared.inOrder.argmin fun entry => entry.2.position

/-- Derive the single-valued fields again. -/
def republish (shared : EffectShared) : EffectShared :=
  { shared with
    wedgedLanes := (shared.inOrder.filter fun entry => entry.1 ≠ driverLane).length
    pinning := (shared.worst.filter fun entry => entry.1 ≠ driverLane).map fun entry =>
      (entry.1.text, entry.2.position)
    consecutiveFailures :=
      match shared.worst with
      | some worst => worst.2.attempt
      | none => 0
    lastError :=
      match shared.worst with
      | some worst => some worst.2.error
      | none => none
    retryAtMs :=
      match shared.worst with
      | some worst => worst.2.retryAtMs
      | none => 0 }

/-- How many times in a row a lane has failed. -/
def laneAttempt (shared : EffectShared) (lane : LaneId) : Nat :=
  match shared.stuck.get lane with
  | some stuck => stuck.attempt
  | none => 0

def recordStuck (shared : EffectShared) (lane : LaneId) (position attempt : Nat)
    (message : String) (elapsedMs delay : Nat) : EffectShared :=
  let retryAtMs := min (elapsedMs + delay % 2 ^ 64) (2 ^ 64 - 1)
  { shared with stuck := shared.stuck.set lane ⟨position, attempt, message, retryAtMs⟩ }.republish

/-- The lane is healthy again. -/
def clearLane (shared : EffectShared) (lane : LaneId) : EffectShared :=
  match shared.stuck.get lane with
  | some _ => { shared with stuck := shared.stuck.remove lane }.republish
  | none => shared

/-- Every wedged lane, the worst first, and how many there are. -/
def stuckLanes (shared : EffectShared) (now : Nat) : StuckLanes :=
  let lanes := shared.inOrder.filter fun entry => entry.1 ≠ driverLane
  let worst := lanes.insertionSort fun first second => first.2.position ≤ second.2.position
  { listed := (worst.take maxStuckListed).map fun entry =>
      ⟨entry.1.text, entry.2.position, entry.2.attempt, entry.2.error,
        entry.2.retryAtMs - now⟩
    total := lanes.length }

end EffectShared

/-! ## Recording -/

/-- What fails: the driver, or the lane a position is worked in. -/
inductive Failing where
  | driver
  | work (position : Nat)
  deriving DecidableEq

/-- What names the lane of a position: its partition key, where it can be read. -/
structure Partition where
  sha256Hex : String → String
  keys : Nat → Option (List Key)

namespace Partition

variable (names : Partition)

def laneAt (position : Nat) : LaneId := laneOf names.sha256Hex (names.keys position)

def lane : Failing → LaneId
  | .driver => driverLane
  | .work position => names.laneAt position

end Partition

def Failing.position : Failing → Nat
  | .driver => 0
  | .work position => position

/-- The table, and the attempt each thread that is recording a failure has read. -/
structure Recorder where
  shared : EffectShared := {}
  reads : Table Nat (Failing × Nat) := ∅

inductive StuckOp where
  | laneAttempt (thread : Nat) (failing : Failing)
  | recordStuck (thread : Nat) (message : String) (elapsedMs delay : Nat)
  | clearLane (failing : Failing)

namespace Recorder

/-- One thread's next step under the lock.  No event is at position 0. -/
def step (names : Partition) (recorder : Recorder) : StuckOp → Option Recorder
  | .laneAttempt thread failing =>
      if failing = .work 0 then none
      else
        let tried := recorder.shared.laneAttempt (names.lane failing)
        some { recorder with reads := recorder.reads.set thread (failing, tried) }
  | .recordStuck thread message elapsedMs delay =>
      match recorder.reads.get thread with
      | none => none
      | some (failing, tried) =>
          let attempt := min (tried + 1) (2 ^ 32 - 1)
          some
            { shared := recorder.shared.recordStuck (names.lane failing) failing.position attempt
                message elapsedMs delay
              reads := recorder.reads.remove thread }
  | .clearLane failing =>
      some { recorder with shared := recorder.shared.clearLane (names.lane failing) }

end Recorder

/-! ## The entries -/

namespace Partition

theorem laneAt_ne_driver (names : Partition) (position : Nat) :
    names.laneAt position ≠ driverLane := by
  unfold laneAt laneOf
  split
  · intro same
    exact encode_head_ne names.sha256Hex _ _ (congrArg (fun lane => lane.text.toList) same)
  · decide

end Partition

/-- The driver's entry is at position 0, and any other is at a position of its own lane. -/
structure Entry (names : Partition) (lane : LaneId) (stuck : StuckLane) : Prop where
  attempted : 0 < stuck.attempt
  placed : (lane = driverLane ∧ stuck.position = 0) ∨
    (lane ≠ driverLane ∧ 0 < stuck.position ∧ names.laneAt stuck.position = lane)

/-- Every entry is one that was recorded, and what is published is derived from the entries. -/
structure Published (names : Partition) (shared : EffectShared) : Prop where
  entries : ∀ lane stuck, shared.stuck.get lane = some stuck → Entry names lane stuck
  derived : shared.republish = shared

namespace EffectShared

variable {shared : EffectShared}

@[simp]
theorem republish_stuck (shared : EffectShared) : shared.republish.stuck = shared.stuck := rfl

theorem republish_republish (shared : EffectShared) :
    shared.republish.republish = shared.republish := rfl

@[simp]
theorem recordStuck_get (shared : EffectShared) (lane other : LaneId) (position attempt : Nat)
    (message : String) (elapsedMs delay : Nat) :
    (shared.recordStuck lane position attempt message elapsedMs delay).stuck.get other =
      if other = lane then
        some ⟨position, attempt, message, min (elapsedMs + delay % 2 ^ 64) (2 ^ 64 - 1)⟩
      else shared.stuck.get other :=
  Table.get_set _ _ _ _

/-- Clearing a lane removes its own entry and no other. -/
theorem clearLane_get (shared : EffectShared) (lane other : LaneId) :
    (shared.clearLane lane).stuck.get other =
      if other = lane then none else shared.stuck.get other := by
  unfold clearLane
  cases held : shared.stuck.get lane with
  | some stuck => exact Table.get_remove _ _ _
  | none =>
      dsimp only
      split
      · next same => exact same ▸ held
      · rfl

theorem mem_inOrder {entry : LaneId × StuckLane} :
    entry ∈ shared.inOrder ↔ shared.stuck.get entry.1 = some entry.2 := by
  unfold inOrder
  rw [List.mem_insertionSort, List.mem_map, Table.get_eq_some_iff]
  constructor
  · rintro ⟨⟨lane, stuck⟩, member, rfl⟩
    exact member
  · intro member
    exact ⟨⟨entry.1, entry.2⟩, member, rfl⟩

theorem inOrder_nodup (shared : EffectShared) : (shared.inOrder.map Prod.fst).Nodup := by
  have sorted : (shared.inOrder.map Prod.fst).Perm shared.stuck.keys := by
    refine ((List.perm_insertionSort _ _).map Prod.fst).trans ?_
    rw [List.map_map]
    exact .refl _
  exact sorted.nodup_iff.mpr shared.stuck.keys_nodup

end EffectShared

/-- Where no two entries share a value, the first of the least is the head of the sorted list. -/
theorem argmin_eq_head_sorted {α : Type} (value : α → Nat) {entries : List α}
    (apart : ∀ one ∈ entries, ∀ other ∈ entries, value one = value other → one = other) :
    entries.argmin value =
      (entries.insertionSort fun one other => value one ≤ value other).head? := by
  have sorted := List.pairwise_insertionSort (fun one other : α => value one ≤ value other) entries
  have members (entry : α) := List.mem_insertionSort
    (fun one other : α => value one ≤ value other) (x := entry) (l := entries)
  cases spelled : entries.insertionSort fun one other => value one ≤ value other with
  | nil =>
      refine List.argmin_eq_none.mpr (List.eq_nil_iff_forall_not_mem.mpr fun entry member => ?_)
      have there := (members entry).mpr member
      rw [spelled] at there
      cases there
  | cons head rest =>
      rw [spelled] at sorted members
      have first : head ∈ entries := (members head).mp List.mem_cons_self
      cases found : entries.argmin value with
      | none =>
          rw [List.argmin_eq_none.mp found] at first
          cases first
      | some least =>
          have member := List.argmin_mem found
          have below := List.le_of_mem_argmin first found
          have above : value head ≤ value least := by
            rcases List.mem_cons.mp ((members least).mpr member) with rfl | later
            · exact Nat.le_refl _
            · exact (List.pairwise_cons.mp sorted).1 least later
          exact congrArg some (apart least member head first (Nat.le_antisymm below above))

namespace Published

variable {names : Partition} {shared : EffectShared}

theorem start (names : Partition) : Published names {} := by
  refine ⟨?_, rfl⟩
  intro lane stuck held
  rw [Table.get_empty] at held
  cases held

theorem recordStuck {failing : Failing} {attempt : Nat} (published : Published names shared)
    (attempted : 0 < attempt) (real : failing ≠ .work 0) (message : String)
    (elapsedMs delay : Nat) :
    Published names (shared.recordStuck (names.lane failing) failing.position attempt message
      elapsedMs delay) := by
  refine ⟨?_, EffectShared.republish_republish _⟩
  intro lane stuck held
  rw [EffectShared.recordStuck_get] at held
  split at held
  · next same =>
      cases held
      subst same
      refine ⟨attempted, ?_⟩
      cases failing with
      | driver => exact .inl ⟨rfl, rfl⟩
      | work position =>
          have positive : 0 < position := by
            refine Nat.pos_of_ne_zero ?_
            rintro rfl
            exact real rfl
          exact .inr ⟨names.laneAt_ne_driver position, positive, rfl⟩
  · exact published.entries lane stuck held

theorem clearLane (published : Published names shared) (lane : LaneId) :
    Published names (shared.clearLane lane) := by
  constructor
  · intro other stuck held
    rw [EffectShared.clearLane_get] at held
    split at held
    · cases held
    · exact published.entries other stuck held
  · unfold EffectShared.clearLane
    split
    · exact EffectShared.republish_republish _
    · exact published.derived

/-- Two entries at one position are one entry. -/
theorem eq_of_position (published : Published names shared) {first second : LaneId × StuckLane}
    (one : first ∈ shared.inOrder) (other : second ∈ shared.inOrder)
    (same : first.2.position = second.2.position) : first = second := by
  have heldFirst := EffectShared.mem_inOrder.mp one
  have heldSecond := EffectShared.mem_inOrder.mp other
  have lanes : first.1 = second.1 := by
    rcases (published.entries _ _ heldFirst).placed with ⟨driver, zero⟩ | ⟨-, positive, lane⟩
    · rcases (published.entries _ _ heldSecond).placed with ⟨driver', -⟩ | ⟨-, positive, -⟩
      · exact driver.trans driver'.symm
      · omega
    · rcases (published.entries _ _ heldSecond).placed with ⟨-, zero⟩ | ⟨-, -, lane'⟩
      · omega
      · rw [← lane, ← lane', same]
  refine Prod.ext lanes ?_
  rw [lanes, heldSecond] at heldFirst
  exact (Option.some.inj heldFirst).symm

/-- The driver's failure is the worst there is. -/
theorem worst_of_driver (published : Published names shared) {failure : StuckLane}
    (held : shared.stuck.get driverLane = some failure) :
    shared.worst = some (driverLane, failure) := by
  have member : (driverLane, failure) ∈ shared.inOrder := EffectShared.mem_inOrder.mpr held
  have zero : failure.position = 0 := by
    rcases (published.entries _ _ held).placed with ⟨-, zero⟩ | ⟨apart, -⟩
    · exact zero
    · exact absurd rfl apart
  cases found : shared.worst with
  | none =>
      have empty := List.argmin_eq_none.mp found
      rw [empty] at member
      cases member
  | some worst =>
      have least := List.le_of_mem_argmin member found
      have same : worst.2.position = failure.position := by
        dsimp only at least
        omega
      exact congrArg some (published.eq_of_position (List.argmin_mem found) member same)

/-- Without a failure of the driver, the worst entry is the first of those listed. -/
theorem worst_eq_head (published : Published names shared)
    (healthy : shared.stuck.get driverLane = none) :
    shared.worst = ((shared.inOrder.filter fun entry => entry.1 ≠ driverLane).insertionSort
      fun first second => first.2.position ≤ second.2.position).head? := by
  have all : (shared.inOrder.filter fun entry => entry.1 ≠ driverLane) = shared.inOrder := by
    refine List.filter_eq_self.mpr fun entry member => decide_eq_true ?_
    intro driver
    have held := EffectShared.mem_inOrder.mp member
    rw [driver, healthy] at held
    cases held
  rw [all]
  exact argmin_eq_head_sorted _ fun _ one _ other => published.eq_of_position one other

end Published

/-- Whatever a thread has read, it read for the driver or for a position of the log. -/
structure Recorder.Sound (names : Partition) (recorder : Recorder) : Prop where
  published : Published names recorder.shared
  real : ∀ thread failing tried, recorder.reads.get thread = some (failing, tried) →
    failing ≠ .work 0

namespace Recorder

variable {names : Partition} {recorder next : Recorder}

theorem Sound.start (names : Partition) : Sound names {} := by
  refine ⟨.start names, ?_⟩
  intro thread failing tried held
  rw [Table.get_empty] at held
  cases held

theorem Sound.step {op : StuckOp} (sound : Sound names recorder)
    (taken : step names recorder op = some next) : Sound names next := by
  cases op with
  | laneAttempt thread failing =>
      unfold Recorder.step at taken
      dsimp only at taken
      split at taken
      · cases taken
      · next real =>
          cases taken
          refine ⟨sound.published, ?_⟩
          intro other failing' tried held
          rw [Table.get_set] at held
          split at held
          · cases held
            exact real
          · exact sound.real other failing' tried held
  | recordStuck thread message elapsedMs delay =>
      unfold Recorder.step at taken
      dsimp only at taken
      split at taken
      · cases taken
      · next failing tried held =>
          cases taken
          have attempted : 0 < min (tried + 1) (2 ^ 32 - 1) := by omega
          refine ⟨sound.published.recordStuck attempted (sound.real _ _ _ held) _ _ _, ?_⟩
          intro other failing' tried' heldThen
          rw [Table.get_remove] at heldThen
          split at heldThen
          · cases heldThen
          · exact sound.real other failing' tried' heldThen
  | clearLane failing =>
      cases taken
      exact ⟨sound.published.clearLane _, sound.real⟩

theorem sound_of_run {ops : List StuckOp} (ran : run (step names) {} ops = some recorder) :
    Sound names recorder :=
  run_invariant (Sound names) (fun _ _ _ sound taken => sound.step taken) (.start names) ran

end Recorder

/-! ## Who is failing -/

/-- Whose last recorded outcome is a failure, and whose failure each thread is recording. -/
structure Health where
  failing : LaneId → Prop := fun _ => False
  recording : Table Nat Failing := ∅

namespace Health

def step (names : Partition) (health : Health) : StuckOp → Health
  | .laneAttempt thread failing =>
      { health with recording := health.recording.set thread failing }
  | .recordStuck thread _ _ _ =>
      { failing := fun lane => health.failing lane ∨
          ∃ failing, health.recording.get thread = some failing ∧ names.lane failing = lane
        recording := health.recording.remove thread }
  | .clearLane failing =>
      { health with failing := fun lane => lane ≠ names.lane failing ∧ health.failing lane }

/-- The entries there are stand for the lanes that fail. -/
structure Shown (health : Health) (recorder : Recorder) : Prop where
  failing : ∀ lane, (∃ stuck, recorder.shared.stuck.get lane = some stuck) ↔ health.failing lane
  recording : ∀ thread, health.recording.get thread =
    (recorder.reads.get thread).map Prod.fst

variable {names : Partition} {health : Health} {recorder next : Recorder}

theorem Shown.start : Shown {} {} := by
  constructor
  · intro lane
    rw [Table.get_empty]
    exact ⟨nofun, False.elim⟩
  · intro thread
    rw [Table.get_empty, Table.get_empty]
    rfl

theorem Shown.step {op : StuckOp} (shown : Shown health recorder)
    (taken : Recorder.step names recorder op = some next) : Shown (health.step names op) next := by
  cases op with
  | laneAttempt thread failing =>
      unfold Recorder.step at taken
      dsimp only at taken
      split at taken
      · cases taken
      · cases taken
        refine ⟨shown.failing, fun other => ?_⟩
        change (health.recording.set thread failing).get other = _
        rw [Table.get_set, Table.get_set]
        split
        · rfl
        · exact shown.recording other
  | recordStuck thread message elapsedMs delay =>
      unfold Recorder.step at taken
      dsimp only at taken
      split at taken
      · cases taken
      · next failing tried held =>
          cases taken
          have recording : health.recording.get thread = some failing := by
            rw [shown.recording, held]
            rfl
          constructor
          · intro lane
            rw [EffectShared.recordStuck_get]
            change _ ↔ health.failing lane ∨ _
            split
            · next same =>
                exact ⟨fun _ => .inr ⟨failing, recording, same.symm⟩, fun _ => ⟨_, rfl⟩⟩
            · next apart =>
                rw [shown.failing]
                constructor
                · exact .inl
                · rintro (already | ⟨other, recordingOther, rfl⟩)
                  · exact already
                  · rw [recording] at recordingOther
                    cases recordingOther
                    exact absurd rfl apart
          · intro other
            change (health.recording.remove thread).get other = _
            rw [Table.get_remove, Table.get_remove]
            split
            · rfl
            · exact shown.recording other
  | clearLane failing =>
      cases taken
      refine ⟨fun lane => ?_, shown.recording⟩
      rw [EffectShared.clearLane_get]
      change _ ↔ lane ≠ names.lane failing ∧ health.failing lane
      split
      · next same => exact ⟨by rintro ⟨_, ⟨⟩⟩, fun both => absurd same both.1⟩
      · next apart =>
          rw [shown.failing]
          exact ⟨fun still => ⟨apart, still⟩, And.right⟩

theorem Shown.run {ops : List StuckOp} (shown : Shown health recorder)
    (ran : Library.run (Recorder.step names) recorder ops = some next) :
    Shown (ops.foldl (Health.step names) health) next := by
  induction ops generalizing health recorder with
  | nil =>
      cases ran
      exact shown
  | cons op rest ih =>
      obtain ⟨middle, taken, ranOn⟩ := run_cons.mp ran
      exact ih (shown.step taken) ranOn

end Health

/-! ## The law of stuck lanes -/

/-- The failure the single-valued fields describe. -/
structure Describes (shared : EffectShared) (attempt retryAtMs : Nat) (error : String) : Prop where
  attempt : shared.consecutiveFailures = attempt
  error : shared.lastError = some error
  retryAtMs : shared.retryAtMs = retryAtMs

/-- What is published agrees with the entries there are. -/
structure Reports (shared : EffectShared) : Prop where
  idle : shared.consecutiveFailures = 0 ↔ ∀ lane, shared.stuck.get lane = none
  counted : ∀ lanes : List LaneId, lanes.Nodup →
    (∀ lane, lane ∈ lanes ↔ lane ≠ driverLane ∧ ∃ stuck, shared.stuck.get lane = some stuck) →
      shared.wedgedLanes = lanes.length
  listed : ∀ now, (shared.stuckLanes now).total = shared.wedgedLanes ∧
    (shared.stuckLanes now).listed.length = min shared.wedgedLanes maxStuckListed ∧
      ∀ view ∈ (shared.stuckLanes now).listed, view.lane ≠ driverLane.text
  driver : ∀ failure, shared.stuck.get driverLane = some failure →
    shared.pinning = none ∧ Describes shared failure.attempt failure.retryAtMs failure.error
  pinned : shared.stuck.get driverLane = none → ∀ now,
    shared.pinning = (shared.stuckLanes now).listed.head?.map fun view => (view.lane, view.position)
  described : shared.stuck.get driverLane = none → ∀ now view,
    (shared.stuckLanes now).listed.head? = some view →
      shared.consecutiveFailures = view.attempt ∧ shared.lastError = some view.error ∧
        shared.retryAtMs - now = view.retryInMs

namespace EffectShared

variable {shared : EffectShared}

/-- The wedged lanes in the order they are reported in. -/
def wedged (shared : EffectShared) : List (LaneId × StuckLane) :=
  (shared.inOrder.filter fun entry => entry.1 ≠ driverLane).insertionSort
    fun first second => first.2.position ≤ second.2.position

theorem mem_wedged {entry : LaneId × StuckLane} :
    entry ∈ shared.wedged ↔ entry.1 ≠ driverLane ∧ shared.stuck.get entry.1 = some entry.2 := by
  unfold wedged
  rw [List.mem_insertionSort, List.mem_filter, mem_inOrder, decide_eq_true_iff]
  exact And.comm

theorem stuckLanes_head (shared : EffectShared) (now : Nat) :
    (shared.stuckLanes now).listed.head? = shared.wedged.head?.map fun entry =>
      (⟨entry.1.text, entry.2.position, entry.2.attempt, entry.2.error,
        entry.2.retryAtMs - now⟩ : StuckLaneView) := by
  change ((shared.wedged.take maxStuckListed).map _).head? = _
  rw [List.head?_map, List.head?_take, if_neg (by decide)]

theorem stuckLanes_total (shared : EffectShared) (now : Nat) :
    (shared.stuckLanes now).total = shared.republish.wedgedLanes := rfl

end EffectShared

namespace Published

variable {names : Partition} {shared : EffectShared}

theorem wedgedLanes_eq (published : Published names shared) :
    shared.wedgedLanes = shared.wedged.length := by
  have derived := congrArg EffectShared.wedgedLanes published.derived
  rw [← derived]
  exact (List.length_insertionSort _ _).symm

theorem idle_iff (published : Published names shared) :
    shared.consecutiveFailures = 0 ↔ ∀ lane, shared.stuck.get lane = none := by
  have derived := congrArg EffectShared.consecutiveFailures published.derived
  rw [← derived]
  unfold EffectShared.republish
  dsimp only
  constructor
  · intro idle lane
    cases held : shared.stuck.get lane with
    | none => rfl
    | some stuck =>
        have member : (lane, stuck) ∈ shared.inOrder := EffectShared.mem_inOrder.mpr held
        cases found : shared.worst with
        | none =>
            rw [List.argmin_eq_none.mp found] at member
            cases member
        | some worst =>
            rw [found] at idle
            have worstHeld := EffectShared.mem_inOrder.mp (List.argmin_mem found)
            have attempted := (published.entries _ _ worstHeld).attempted
            dsimp only at idle
            omega
  · intro healthy
    cases found : shared.worst with
    | none => rfl
    | some worst =>
        have held := EffectShared.mem_inOrder.mp (List.argmin_mem found)
        rw [healthy] at held
        cases held

theorem counted (published : Published names shared) {lanes : List LaneId} (distinct : lanes.Nodup)
    (all : ∀ lane, lane ∈ lanes ↔
      lane ≠ driverLane ∧ ∃ stuck, shared.stuck.get lane = some stuck) :
    shared.wedgedLanes = lanes.length := by
  rw [published.wedgedLanes_eq, ← List.length_map (f := Prod.fst)]
  refine List.Perm.length_eq ((List.perm_ext_iff_of_nodup ?_ distinct).mpr ?_)
  · have kept : ((shared.inOrder.filter fun entry => entry.1 ≠ driverLane).map Prod.fst).Nodup :=
      shared.inOrder_nodup.sublist (List.filter_sublist.map Prod.fst)
    exact ((List.perm_insertionSort _ _).map Prod.fst).nodup_iff.mpr kept
  · intro lane
    rw [all, List.mem_map]
    constructor
    · rintro ⟨⟨lane, stuck⟩, member, rfl⟩
      obtain ⟨apart, held⟩ := EffectShared.mem_wedged.mp member
      exact ⟨apart, stuck, held⟩
    · rintro ⟨apart, stuck, held⟩
      exact ⟨(lane, stuck), EffectShared.mem_wedged.mpr ⟨apart, held⟩, rfl⟩

theorem listed (published : Published names shared) (now : Nat) :
    (shared.stuckLanes now).total = shared.wedgedLanes ∧
      (shared.stuckLanes now).listed.length = min shared.wedgedLanes maxStuckListed ∧
        ∀ view ∈ (shared.stuckLanes now).listed, view.lane ≠ driverLane.text := by
  refine ⟨?_, ?_, ?_⟩
  · rw [EffectShared.stuckLanes_total, published.derived]
  · rw [published.wedgedLanes_eq]
    change ((shared.wedged.take maxStuckListed).map _).length = _
    rw [List.length_map, List.length_take, Nat.min_comm]
  · intro view member
    change view ∈ (shared.wedged.take maxStuckListed).map _ at member
    obtain ⟨entry, taken, rfl⟩ := List.mem_map.mp member
    have apart := (EffectShared.mem_wedged.mp (List.mem_of_mem_take taken)).1
    intro same
    exact apart (congrArg LaneId.mk same)

theorem describes {worst : LaneId × StuckLane} (published : Published names shared)
    (found : shared.worst = some worst) :
    Describes shared worst.2.attempt worst.2.retryAtMs worst.2.error := by
  have derived := published.derived
  unfold EffectShared.republish at derived
  rw [found] at derived
  constructor
  · rw [← derived]
  · rw [← derived]
  · rw [← derived]

theorem pinning_eq (published : Published names shared) :
    shared.pinning = (shared.worst.filter fun entry => entry.1 ≠ driverLane).map fun entry =>
      (entry.1.text, entry.2.position) :=
  (congrArg EffectShared.pinning published.derived).symm

theorem reports (published : Published names shared) : Reports shared := by
  refine ⟨published.idle_iff, fun lanes => published.counted, published.listed, ?_, ?_, ?_⟩
  · intro failure held
    have worst := published.worst_of_driver held
    refine ⟨?_, published.describes worst⟩
    rw [published.pinning_eq, worst]
    rfl
  · intro healthy now
    have worst := published.worst_eq_head healthy
    rw [EffectShared.stuckLanes_head, published.pinning_eq, worst]
    change ((shared.wedged.head?).filter _).map _ = _
    cases head : shared.wedged.head? with
    | none => rfl
    | some entry =>
        have apart := (EffectShared.mem_wedged.mp (List.mem_of_head? head)).1
        rw [Option.filter_some, decide_eq_true apart]
        rfl
  · intro healthy now view head
    have worst := published.worst_eq_head healthy
    rw [EffectShared.stuckLanes_head, Option.map_eq_some_iff] at head
    obtain ⟨entry, first, rfl⟩ := head
    have described := published.describes (worst.trans first)
    exact ⟨described.attempt, described.error, congrArg (· - now) described.retryAtMs⟩

end Published

/-- However many threads record failures and successes of however many lanes, and
of the driver, the entries are those of the lanes whose last outcome is a failure,
what is published agrees with the entries, and clearing a lane removes the lane's
own entry alone. -/
theorem stuck_reports {names : Partition} {ops : List StuckOp} {recorder : Recorder}
    (ran : run (Recorder.step names) {} ops = some recorder) :
    (∀ lane, (∃ stuck, recorder.shared.stuck.get lane = some stuck) ↔
        (ops.foldl (Health.step names) {}).failing lane) ∧
      Reports recorder.shared ∧
      ∀ lane other, (recorder.shared.clearLane lane).stuck.get other =
        if other = lane then none else recorder.shared.stuck.get other :=
  ⟨(Health.Shown.start.run ran).failing, (Recorder.sound_of_run ran).published.reports,
    recorder.shared.clearLane_get⟩

/-- Each position in a lane of its own number. -/
def numbered : Partition := ⟨fun text => text, fun position => some [.int position]⟩

/-- Two lanes fail, and the driver between them. -/
def failures : List StuckOp :=
  [.laneAttempt 0 (.work 9), .laneAttempt 1 (.work 4), .recordStuck 0 "boom" 1 200,
    .laneAttempt 2 .driver, .recordStuck 1 "boom" 2 200, .recordStuck 2 "locked" 3 200,
    .clearLane .driver]

/-- Once the driver is well again, the older of two wedged lanes is the pinning one. -/
theorem stuck_reports_of_failures :
    ∃ recorder, run (Recorder.step numbered) {} failures = some recorder ∧
      recorder.shared.wedgedLanes = 2 ∧ recorder.shared.pinning = some ("i:4", 4) ∧
        Reports recorder.shared := by
  have ended : (run (Recorder.step numbered) {} failures).any (fun recorder =>
      decide (recorder.shared.wedgedLanes = 2 ∧ recorder.shared.pinning = some ("i:4", 4))) =
        true := by decide
  obtain ⟨recorder, ran, holds⟩ := (Option.any_eq_true _ _).mp ended
  obtain ⟨wedged, pinned⟩ := of_decide_eq_true holds
  exact ⟨recorder, ran, wedged, pinned, (stuck_reports ran).2.1⟩

end Hekla.Effect
