import Hekla.Lanes.State

/-!
# What the scheduling operations change

Claiming, releasing, parking and waking a lane move it between places and leave
its work alone.  Waking is one lemma for every list of due entries: a lane wakes
exactly when the deadline it is parked under is among them.
-/

namespace Hekla.Lanes

open Hekla.Library

/-- The two states agree on everything but where the lanes are in the schedule. -/
structure SameWork (before after : LaneState) : Prop where
  queues : after.queues = before.queues
  latest : after.latest = before.latest
  high : after.high = before.high
  inflight : after.inflight = before.inflight
  scanned : after.scanned = before.scanned
  rows : after.rows = before.rows
  begun : after.begun = before.begun
  blind : after.blind = before.blind

namespace SameWork

theorem refl (state : LaneState) : SameWork state state :=
  ⟨rfl, rfl, rfl, rfl, rfl, rfl, rfl, rfl⟩

theorem trans {first second third : LaneState} (left : SameWork first second)
    (right : SameWork second third) : SameWork first third where
  queues := right.queues.trans left.queues
  latest := right.latest.trans left.latest
  high := right.high.trans left.high
  inflight := right.inflight.trans left.inflight
  scanned := right.scanned.trans left.scanned
  rows := right.rows.trans left.rows
  begun := right.begun.trans left.begun
  blind := right.blind.trans left.blind

theorem queue {before after : LaneState} (same : SameWork before after) (lane : LaneId) :
    after.queue lane = before.queue lane := by
  simp only [LaneState.queue, same.queues]

theorem lowWater {before after : LaneState} (same : SameWork before after) :
    after.lowWater = before.lowWater := by
  simp only [LaneState.lowWater, same.inflight, same.scanned]

end SameWork

namespace LaneState

variable (state : LaneState) (lane other : LaneId)

/-! ## Claiming, releasing and parking -/

theorem claim_of_queued (waiting : state.place.get lane = some .queued) :
    state.claim lane = ({ state with place := state.place.set lane .running }, true) :=
  if_pos waiting

theorem claim_of_not_queued (elsewhere : state.place.get lane ≠ some .queued) :
    state.claim lane = (state, false) :=
  if_neg elsewhere

theorem claim_sameWork : SameWork state (state.claim lane).1 := by
  unfold claim
  split
  · exact ⟨rfl, rfl, rfl, rfl, rfl, rfl, rfl, rfl⟩
  · exact .refl state

theorem claim_deferred : (state.claim lane).1.deferred = state.deferred := by
  unfold claim
  split <;> rfl

theorem release_sameWork : SameWork state (state.release lane).1 := by
  unfold release
  split <;> exact ⟨rfl, rfl, rfl, rfl, rfl, rfl, rfl, rfl⟩

theorem release_deferred : (state.release lane).1.deferred = state.deferred := by
  unfold release
  split <;> rfl

theorem release_rearmed : (state.release lane).2 = (state.queues.get lane).isSome := by
  unfold release
  split
  · next queued => exact queued.symm
  · next empty => exact (Bool.eq_false_iff.mpr empty).symm

theorem release_place :
    (state.release lane).1.place.get other =
      if other = lane then
        if (state.queues.get lane).isSome then some .queued else none
      else state.place.get other := by
  unfold release
  by_cases same : other = lane
  · split <;> simp_all
  · split <;> simp [same]

theorem defer_sameWork (deadline : Nat) : SameWork state (state.defer lane deadline) :=
  ⟨rfl, rfl, rfl, rfl, rfl, rfl, rfl, rfl⟩

/-! ## Waking -/

variable {state lane}

theorem wake_sameWork (early : Bool) (entry : Nat × LaneId) :
    SameWork state (state.wake early entry).1 := by
  unfold wake
  split <;> exact ⟨rfl, rfl, rfl, rfl, rfl, rfl, rfl, rfl⟩

theorem wake_deferred (early : Bool) (entry : Nat × LaneId) :
    (state.wake early entry).1.deferred = state.deferred.erase entry := by
  unfold wake
  split <;> rfl

theorem wake_place (early : Bool) (entry : Nat × LaneId) :
    (state.wake early entry).1.place.get lane =
      if lane = entry.2 ∧ state.place.get lane = some (.deferred entry.1) then some .queued
      else state.place.get lane := by
  unfold wake
  by_cases same : lane = entry.2
  · subst same
    split
    · next parked => simp [parked]
    · next elsewhere => simp [elsewhere]
  · split <;> simp [same]

theorem mem_wake (early : Bool) (entry : Nat × LaneId) :
    lane ∈ (state.wake early entry).2 ↔
      lane = entry.2 ∧ state.place.get lane = some (.deferred entry.1) := by
  unfold wake
  split
  · next parked =>
      constructor
      · intro member
        rw [List.mem_singleton] at member
        exact ⟨member, member ▸ parked⟩
      · rintro ⟨same, -⟩
        exact List.mem_singleton.mpr same
  · next elsewhere =>
      constructor
      · intro member
        cases member
      · rintro ⟨same, parked⟩
        exact absurd (same ▸ parked) elsewhere

theorem wakeAll_sameWork (early : Bool) (due : List (Nat × LaneId)) :
    SameWork state (state.wakeAll early due).1 := by
  induction due generalizing state with
  | nil => exact .refl state
  | cons entry rest ih => exact (wake_sameWork early entry).trans ih

/-- The lane is parked under the deadline of one of the entries. -/
def DueIn (state : LaneState) (due : List (Nat × LaneId)) (lane : LaneId) : Prop :=
  ∃ deadline, (deadline, lane) ∈ due ∧ state.place.get lane = some (.deferred deadline)

theorem dueIn_cons (entry : Nat × LaneId) (rest : List (Nat × LaneId)) :
    state.DueIn (entry :: rest) lane ↔
      (lane = entry.2 ∧ state.place.get lane = some (.deferred entry.1)) ∨
        state.DueIn rest lane := by
  unfold DueIn
  constructor
  · rintro ⟨deadline, member, parked⟩
    cases member with
    | head => exact .inl ⟨rfl, parked⟩
    | tail _ later => exact .inr ⟨deadline, later, parked⟩
  · rintro (⟨same, parked⟩ | ⟨deadline, member, parked⟩)
    · subst same
      exact ⟨entry.1, List.mem_cons_self, parked⟩
    · exact ⟨deadline, List.mem_cons_of_mem _ member, parked⟩

/-- Waking one entry leaves a lane due in the rest exactly when it was, unless
that entry was its own. -/
theorem dueIn_wake (early : Bool) (entry : Nat × LaneId) (rest : List (Nat × LaneId)) :
    (state.wake early entry).1.DueIn rest lane ↔
      ¬(lane = entry.2 ∧ state.place.get lane = some (.deferred entry.1)) ∧
        state.DueIn rest lane := by
  unfold DueIn
  rw [wake_place]
  by_cases own : lane = entry.2 ∧ state.place.get lane = some (.deferred entry.1)
  · simp [eq_true own]
  · simp [eq_false own]

open Classical in
theorem wakeAll_place (early : Bool) (due : List (Nat × LaneId)) :
    (state.wakeAll early due).1.place.get lane =
      if state.DueIn due lane then some .queued else state.place.get lane := by
  induction due generalizing state with
  | nil =>
      have none : ¬state.DueIn [] lane := by
        rintro ⟨_, member, _⟩
        cases member
      rw [if_neg none]
      rfl
  | cons entry rest ih =>
      have later := @ih (state.wake early entry).1
      change ((state.wake early entry).1.wakeAll early rest).1.place.get lane = _
      rw [later, dueIn_wake, dueIn_cons, wake_place]
      by_cases own : lane = entry.2 ∧ state.place.get lane = some (.deferred entry.1)
      · simp [eq_true own]
      · by_cases due : state.DueIn rest lane <;> simp [eq_false own, due]

theorem mem_wakeAll (early : Bool) (due : List (Nat × LaneId)) :
    lane ∈ (state.wakeAll early due).2 ↔ state.DueIn due lane := by
  induction due generalizing state with
  | nil =>
      constructor
      · intro member
        cases member
      · rintro ⟨_, member, _⟩
        cases member
  | cons entry rest ih =>
      have later := @ih (state.wake early entry).1
      change lane ∈ (state.wake early entry).2 ++ ((state.wake early entry).1.wakeAll early rest).2
        ↔ _
      rw [List.mem_append, later, mem_wake, dueIn_wake, dueIn_cons]
      by_cases own : lane = entry.2 ∧ state.place.get lane = some (.deferred entry.1)
      · simp [eq_true own]
      · by_cases due : state.DueIn rest lane <;> simp [eq_false own, due]

/-- A deadline that is not among the entries woken stays where it is. -/
theorem mem_deferred_wakeAll (early : Bool) {due : List (Nat × LaneId)} {entry : Nat × LaneId}
    (waiting : entry ∈ state.deferred) (notDue : entry ∉ due) :
    entry ∈ (state.wakeAll early due).1.deferred := by
  induction due generalizing state with
  | nil => exact waiting
  | cons first rest ih =>
      have different : entry ≠ first := fun same => notDue (same ▸ List.mem_cons_self)
      have kept : entry ∈ (state.wake early first).1.deferred := by
        rw [wake_deferred]
        exact (List.mem_erase_of_ne different).mpr waiting
      exact ih kept fun member => notDue (List.mem_cons_of_mem _ member)

/-- `promote` wakes a lane exactly when it is parked under a recorded deadline
that has passed. -/
theorem mem_promote (now : Nat) :
    lane ∈ (state.promote now).2 ↔
      ∃ deadline ≤ now, (deadline, lane) ∈ state.deferred ∧
        state.place.get lane = some (.deferred deadline) := by
  unfold promote
  rw [mem_wakeAll]
  unfold DueIn
  constructor
  · rintro ⟨deadline, member, parked⟩
    obtain ⟨waiting, passed⟩ := List.mem_filter.mp member
    exact ⟨deadline, of_decide_eq_true passed, waiting, parked⟩
  · rintro ⟨deadline, passed, waiting, parked⟩
    exact ⟨deadline, List.mem_filter.mpr ⟨waiting, decide_eq_true passed⟩, parked⟩

/-- A lane that is woken can be claimed. -/
theorem claim_of_woken {early : Bool} {due : List (Nat × LaneId)}
    (woken : lane ∈ (state.wakeAll early due).2) :
    ((state.wakeAll early due).1.claim lane).2 = true := by
  have queued : (state.wakeAll early due).1.place.get lane = some .queued := by
    rw [wakeAll_place, if_pos ((mem_wakeAll early due).mp woken)]
  rw [claim_of_queued _ lane queued]

end LaneState

end Hekla.Lanes
