import Hekla.Effect.Steps
import Hekla.Lanes.Schedule

/-!
# One lane, one worker, and no lane stranded

The offers, the deadlines and the workers are three containers beside the place
of each lane.  `Placed` is what keeps them in step: it holds of a process that
has just booted and every action preserves it, whatever order the reader and
the workers act in.
-/

namespace Hekla.Effect

open Hekla.Library Hekla.Lanes

namespace Process

/-- The lane a thread is working. -/
def owner (s : Process) (thread : Nat) : Option LaneId :=
  (s.workers.get thread).map Worker.lane

/-- A worker handed the lane now would get it. -/
def Offered (s : Process) (lane : LaneId) : Prop := (s.lanes.claim lane).2 = true

def Owned (s : Process) (lane : LaneId) : Prop := ∃ thread, s.owner thread = some lane

/-- Some instant wakes the lane. -/
def Parked (s : Process) (lane : LaneId) : Prop := ∃ now, lane ∈ (s.lanes.promote now).2

/-- The places, the threads, the offers and the deadlines agree. -/
structure Placed (s : Process) : Prop where
  nonempty : ∀ lane, s.lanes.queues.get lane ≠ some []
  armed : ∀ lane, (s.lanes.queues.get lane).isSome → (s.lanes.place.get lane).isSome
  running : ∀ thread lane, s.owner thread = some lane → s.lanes.place.get lane = some .running
  owned : ∀ lane, s.lanes.place.get lane = some .running → s.Owned lane
  unique : ∀ thread other lane, s.owner thread = some lane → s.owner other = some lane →
    thread = other
  offered : ∀ lane, s.lanes.place.get lane = some .queued → lane ∈ s.tickets ∨ s.stopped = true
  parked : ∀ lane deadline, s.lanes.place.get lane = some (.deferred deadline) →
    (deadline, lane) ∈ s.lanes.deferred

/-! ## Each action keeps the containers in step -/

theorem placed_boot (resume : Nat) (rows : Table LaneId Nat) (begun : List Nat) (blind : Bool) :
    (boot resume rows begun blind).Placed := by
  have noPlace (lane : LaneId) : (boot resume rows begun blind).lanes.place.get lane = none :=
    Table.get_empty lane
  have noQueue (lane : LaneId) : (boot resume rows begun blind).lanes.queues.get lane = none :=
    Table.get_empty lane
  have noOwner (thread : Nat) : (boot resume rows begun blind).owner thread = none := by
    change ((∅ : Table Nat Worker).get thread).map Worker.lane = none
    rw [Table.get_empty, Option.map_none]
  constructor
  · intro lane
    simp [noQueue]
  · intro lane
    simp [noQueue]
  · intro thread lane owns
    rw [noOwner] at owns
    cases owns
  · intro lane running
    rw [noPlace] at running
    cases running
  · intro thread other lane owns
    rw [noOwner] at owns
    cases owns
  · intro lane queued
    rw [noPlace] at queued
    cases queued
  · intro lane deadline deferred
    rw [noPlace] at deferred
    cases deferred

/-- `Placed` looks at nothing but the queues, the places, the deadlines, the
owners, the offers and the stop flag. -/
theorem Placed.congr {s s' : Process} (placed : s.Placed)
    (queues : s'.lanes.queues = s.lanes.queues) (place : s'.lanes.place = s.lanes.place)
    (deferred : s'.lanes.deferred = s.lanes.deferred)
    (owner : ∀ thread, s'.owner thread = s.owner thread) (tickets : s'.tickets = s.tickets)
    (stopped : s.stopped = true → s'.stopped = true) : s'.Placed where
  nonempty := by
    rw [queues]
    exact placed.nonempty
  armed := by
    rw [queues, place]
    exact placed.armed
  running thread lane owns := by
    rw [place]
    exact placed.running thread lane (owner thread ▸ owns)
  owned lane running := by
    obtain ⟨thread, owns⟩ := placed.owned lane (place ▸ running)
    exact ⟨thread, (owner thread).trans owns⟩
  unique thread other lane owns owns' :=
    placed.unique thread other lane (owner thread ▸ owns) (owner other ▸ owns')
  offered lane queued := by
    rw [tickets]
    exact (placed.offered lane (place ▸ queued)).imp_right stopped
  parked lane deadline parked := by
    rw [deferred]
    exact placed.parked lane deadline (place ▸ parked)

theorem owner_set {s : Process} {thread : Nat} {worker : Worker} (other : Nat) :
    ((s.workers.set thread worker).get other).map Worker.lane =
      if other = thread then some worker.lane else s.owner other := by
  rw [Table.get_set]
  split <;> rfl

/-- A worker that moves on inside its lane owns what it owned. -/
theorem owner_turn {s : Process} {thread : Nat} {lane : LaneId} (owns : s.owner thread = some lane)
    (phase : Phase) (other : Nat) :
    ((s.workers.set thread ⟨lane, phase⟩).get other).map Worker.lane = s.owner other := by
  rw [owner_set]
  split
  · next same => rw [same, owns]
  · rfl

theorem owner_remove {s : Process} {thread : Nat} (other : Nat) :
    ((s.workers.remove thread).get other).map Worker.lane =
      if other = thread then none else s.owner other := by
  rw [Table.get_remove]
  split <;> rfl

theorem Placed.offer {s : Process} (placed : s.Placed) (position : Nat) (resolved : Resolved) :
    (s.offer position resolved).Placed := by
  cases seen : s.lanes.seen resolved.lane position with
  | true =>
      rw [offer_of_seen seen]
      exact placed
  | false =>
      rw [offer_of_fresh seen]
      have queues (lane : LaneId) :
          ((s.lanes.enter resolved.lane position resolved.arm resolved.collapsible).queues.get
            lane) = if lane = resolved.lane then
              some (s.lanes.withoutSuperseded resolved.lane resolved.arm resolved.collapsible ++
                [LaneState.entering (s.lanes.superseded resolved.lane resolved.arm
                  resolved.collapsible) position resolved.arm])
            else s.lanes.queues.get lane := Table.get_set ..
      have place (lane : LaneId) :
          ((s.lanes.enter resolved.lane position resolved.arm resolved.collapsible).place.get
            lane) = if lane = resolved.lane ∧ s.lanes.place.get lane = none then some .queued
            else s.lanes.place.get lane := by
        change (if (s.lanes.place.get resolved.lane).isNone = true then
          s.lanes.place.set resolved.lane .queued else s.lanes.place).get lane = _
        by_cases same : lane = resolved.lane
        · subst same
          cases here : s.lanes.place.get resolved.lane <;> simp [here]
        · split <;> simp [same]
      constructor
      · intro lane
        rw [queues]
        split
        · simp
        · exact placed.nonempty lane
      · intro lane
        rw [queues, place]
        intro queued
        split
        · rfl
        · next unarmed =>
            split at queued
            · next same =>
                exact Option.isSome_iff_ne_none.mpr fun none => unarmed ⟨same, none⟩
            · exact placed.armed lane queued
      · intro thread lane owns
        have running := placed.running thread lane owns
        rw [place, running]
        simp
      · intro lane running
        rw [place] at running
        split at running
        · cases running
        · exact placed.owned lane running
      · exact placed.unique
      · intro lane queued
        rw [place] at queued
        split at queued
        · next fresh =>
            have unplaced : (s.lanes.place.get resolved.lane).isNone = true := by
              rw [← fresh.1, fresh.2]
              rfl
            left
            simp [unplaced, fresh.1]
        · refine (placed.offered lane queued).imp_left ?_
          intro ticket
          dsimp only
          split
          · exact List.mem_append_left _ ticket
          · exact ticket
      · intro lane deadline parked
        rw [place] at parked
        split at parked
        · cases parked
        · exact placed.parked lane deadline parked

theorem Placed.assign {unit : EffectUnit} {s : Process} (placed : s.Placed) (position : Nat) :
    (s.assign unit position).Placed := by
  cases found : unit.resolve position with
  | none =>
      rw [assign_of_none found]
      exact placed
  | some resolved =>
      rw [assign_of_some found]
      exact placed.offer position resolved

theorem Placed.deliver {unit : EffectUnit} {s : Process} (placed : s.Placed) (upto : Nat) :
    (s.deliver unit upto).Placed := by
  have assigned (batch : List Nat) (start : Process) (kept : start.Placed) :
      (batch.foldl (Process.assign unit) start).Placed := by
    induction batch generalizing start with
    | nil => exact kept
    | cons position rest ih => exact ih _ (kept.assign position)
  exact (assigned _ s placed).congr rfl rfl rfl (fun _ => rfl) rfl id

/-- Waking due lanes, however they were chosen, offers each of them. -/
theorem Placed.wakeAll {s : Process} (placed : s.Placed) (early : Bool)
    (due : List (Nat × LaneId)) : (s.offerWoken (s.lanes.wakeAll early due)).Placed := by
  have place (lane : LaneId) := @LaneState.wakeAll_place s.lanes lane early due
  have same := @LaneState.wakeAll_sameWork s.lanes early due
  constructor
  · intro lane
    change (s.lanes.wakeAll early due).1.queues.get lane ≠ some []
    rw [same.queues]
    exact placed.nonempty lane
  · intro lane
    change ((s.lanes.wakeAll early due).1.queues.get lane).isSome →
      ((s.lanes.wakeAll early due).1.place.get lane).isSome
    rw [same.queues, place]
    split
    · simp
    · exact placed.armed lane
  · intro thread lane owns
    have running := placed.running thread lane owns
    change (s.lanes.wakeAll early due).1.place.get lane = some .running
    rw [place, if_neg, running]
    rintro ⟨deadline, -, parked⟩
    rw [running] at parked
    cases parked
  · intro lane running
    change (s.lanes.wakeAll early due).1.place.get lane = some .running at running
    rw [place] at running
    split at running
    · cases running
    · exact placed.owned lane running
  · exact placed.unique
  · intro lane queued
    change (s.lanes.wakeAll early due).1.place.get lane = some .queued at queued
    rw [place] at queued
    change lane ∈ s.tickets ++ (s.lanes.wakeAll early due).2 ∨ s.stopped = true
    split at queued
    · next woken =>
        exact .inl (List.mem_append_right _ ((LaneState.mem_wakeAll early due).mpr woken))
    · exact (placed.offered lane queued).imp_left (List.mem_append_left _)
  · intro lane deadline parked
    change (s.lanes.wakeAll early due).1.place.get lane = some (.deferred deadline) at parked
    rw [place] at parked
    split at parked
    · cases parked
    · next notDue =>
        refine LaneState.mem_deferred_wakeAll early (placed.parked lane deadline parked) ?_
        intro member
        exact notDue ⟨deadline, member, parked⟩

theorem Placed.claim {s : Process} (placed : s.Placed) {thread : Nat} {lane : LaneId}
    (idle : s.workers.get thread = none) : (s.claim thread lane).Placed := by
  by_cases waiting : s.lanes.place.get lane = some .queued
  · unfold Process.claim
    rw [LaneState.claim_of_queued s.lanes lane waiting]
    have notMine : s.owner thread = none := by
      unfold owner
      rw [idle]
      rfl
    have unowned (other : Nat) : s.owner other ≠ some lane := by
      intro owns
      have running := placed.running other lane owns
      rw [waiting] at running
      cases running
    have owners (other : Nat) :
        ((s.workers.set thread ⟨lane, .ready⟩).get other).map Worker.lane =
          if other = thread then some lane else s.owner other := owner_set other
    constructor
    · exact placed.nonempty
    · intro here queued
      change ((s.lanes.place.set lane .running).get here).isSome = true
      rw [Table.get_set]
      split
      · rfl
      · exact placed.armed here queued
    · intro other here owns
      change ((s.workers.set thread ⟨lane, .ready⟩).get other).map Worker.lane = some here at owns
      change (s.lanes.place.set lane .running).get here = some .running
      rw [owners] at owns
      rw [Table.get_set]
      split at owns
      · rw [if_pos (Option.some.inj owns).symm]
      · have different : here ≠ lane := by
          rintro rfl
          exact unowned other owns
        rw [if_neg different]
        exact placed.running other here owns
    · intro here running
      change (s.lanes.place.set lane .running).get here = some .running at running
      rw [Table.get_set] at running
      split at running
      · next same =>
          refine ⟨thread, ?_⟩
          change ((s.workers.set thread ⟨lane, .ready⟩).get thread).map Worker.lane = some here
          rw [owners, if_pos rfl, same]
      · obtain ⟨other, owns⟩ := placed.owned here running
        refine ⟨other, ?_⟩
        change ((s.workers.set thread ⟨lane, .ready⟩).get other).map Worker.lane = some here
        have different : other ≠ thread := by
          rintro rfl
          rw [notMine] at owns
          cases owns
        rw [owners, if_neg different, owns]
    · intro first second here owns owns'
      change ((s.workers.set thread ⟨lane, .ready⟩).get first).map Worker.lane = some here at owns
      change ((s.workers.set thread ⟨lane, .ready⟩).get second).map Worker.lane = some here
        at owns'
      rw [owners] at owns owns'
      split at owns
      · next mine =>
          split at owns'
          · next mine' => exact mine.trans mine'.symm
          · exact absurd ((Option.some.inj owns) ▸ owns') (unowned second)
      · split at owns'
        · exact absurd ((Option.some.inj owns') ▸ owns) (unowned first)
        · exact placed.unique first second here owns owns'
    · intro here queued
      change (s.lanes.place.set lane .running).get here = some .queued at queued
      rw [Table.get_set] at queued
      split at queued
      · cases queued
      · next different =>
          refine (placed.offered here queued).imp_left ?_
          exact fun ticket => (List.mem_erase_of_ne different).mpr ticket
    · intro here deadline parked
      change (s.lanes.place.set lane .running).get here = some (.deferred deadline) at parked
      rw [Table.get_set] at parked
      split at parked
      · cases parked
      · exact placed.parked here deadline parked
  · unfold Process.claim
    rw [LaneState.claim_of_not_queued s.lanes lane waiting]
    refine { placed with offered := ?_ }
    intro here queued
    have different : here ≠ lane := by
      rintro rfl
      exact waiting queued
    refine (placed.offered here queued).imp_left ?_
    exact fun ticket => (List.mem_erase_of_ne different).mpr ticket

/-- The queues of a lane after a completion: the same, or one group shorter. -/
theorem retire_queues (lanes : LaneState) (lane : LaneId) (position : Nat) (other : LaneId) :
    (lanes.retire lane position).queues.get other = lanes.queues.get other ∨
      other = lane ∧ ∃ group rest, lanes.queues.get lane = some (group :: rest) ∧
        (lanes.retire lane position).queues.get lane = if rest.isEmpty then none else some rest := by
  unfold LaneState.retire
  cases retiring : lanes.retiring lane position with
  | none => exact .inl rfl
  | some popped =>
      obtain ⟨group, rest⟩ := popped
      by_cases same : other = lane
      · right
        refine ⟨same, group, rest, ?_, ?_⟩
        · unfold LaneState.retiring LaneState.queue at retiring
          cases queue : lanes.queues.get lane with
          | none => simp [queue] at retiring
          | some groups =>
              cases groups with
              | nil => simp [queue] at retiring
              | cons first others =>
                  simp only [queue, Option.getD_some, Option.ite_none_right_eq_some,
                    Option.some.injEq, Prod.mk.injEq] at retiring
                  rw [retiring.2.1, retiring.2.2]
        · dsimp only
          split <;> simp
      · left
        dsimp only
        split <;> simp [same]

theorem retire_place (lanes : LaneState) (lane : LaneId) (position : Nat) :
    (lanes.retire lane position).place = lanes.place := by
  unfold LaneState.retire
  split <;> rfl

theorem retire_deferred (lanes : LaneState) (lane : LaneId) (position : Nat) :
    (lanes.retire lane position).deferred = lanes.deferred := by
  unfold LaneState.retire
  split <;> rfl

theorem Placed.complete {s : Process} (placed : s.Placed) {thread : Nat} {lane : LaneId}
    {work : Work} (owns : s.owner thread = some lane) : (s.complete thread lane work).Placed := by
  let popped : Process := { s with lanes := s.lanes.retire lane work.position }
  have kept : popped.Placed := by
    constructor
    · intro other
      change (s.lanes.retire lane work.position).queues.get other ≠ some []
      rcases retire_queues s.lanes lane work.position other with same | ⟨rfl, _, rest, _, queue⟩
      · rw [same]
        exact placed.nonempty other
      · rw [queue]
        cases rest <;> simp
    · intro other
      change ((s.lanes.retire lane work.position).queues.get other).isSome →
        ((s.lanes.retire lane work.position).place.get other).isSome
      rw [retire_place]
      rcases retire_queues s.lanes lane work.position other with same | ⟨rfl, _, rest, was, _⟩
      · rw [same]
        exact placed.armed other
      · intro _
        exact placed.armed other (by rw [was]; rfl)
    · intro other here
      change s.owner other = some here →
        (s.lanes.retire lane work.position).place.get here = some .running
      rw [retire_place]
      exact placed.running other here
    · intro here
      change (s.lanes.retire lane work.position).place.get here = some .running → s.Owned here
      rw [retire_place]
      exact placed.owned here
    · exact placed.unique
    · intro here
      change (s.lanes.retire lane work.position).place.get here = some .queued → _
      rw [retire_place]
      exact placed.offered here
    · intro here deadline
      change (s.lanes.retire lane work.position).place.get here = some (.deferred deadline) →
        (deadline, here) ∈ (s.lanes.retire lane work.position).deferred
      rw [retire_place, retire_deferred]
      exact placed.parked here deadline
  exact kept.congr rfl rfl rfl (owner_turn owns _) rfl id

/-- Giving a lane up, parked or not, leaves it to nobody. -/
theorem Placed.giveUp {s s' : Process} (placed : s.Placed) {thread : Nat} {lane : LaneId}
    (owns : s.owner thread = some lane) (queues : s'.lanes.queues = s.lanes.queues)
    (workers : s'.workers = s.workers.remove thread)
    (elsewhere : ∀ other, other ≠ lane → s'.lanes.place.get other = s.lanes.place.get other)
    (notRunning : s'.lanes.place.get lane ≠ some .running)
    (placedStill : (s.lanes.queues.get lane).isSome → (s'.lanes.place.get lane).isSome)
    (offered : s'.lanes.place.get lane = some .queued → lane ∈ s'.tickets ∨ s'.stopped = true)
    (parked : ∀ deadline, s'.lanes.place.get lane = some (.deferred deadline) →
      (deadline, lane) ∈ s'.lanes.deferred)
    (tickets : ∀ other ∈ s.tickets, other ∈ s'.tickets) (stopped : s'.stopped = s.stopped)
    (deferred : ∀ entry ∈ s.lanes.deferred, entry ∈ s'.lanes.deferred) : s'.Placed := by
  have owners (other : Nat) : s'.owner other = if other = thread then none else s.owner other := by
    unfold owner
    rw [workers]
    exact owner_remove other
  constructor
  · rw [queues]
    exact placed.nonempty
  · intro here
    rw [queues]
    by_cases same : here = lane
    · subst same
      exact placedStill
    · rw [elsewhere here same]
      exact placed.armed here
  · intro other here owns'
    rw [owners] at owns'
    split at owns'
    · cases owns'
    · next different =>
        have notLane : here ≠ lane := by
          rintro rfl
          exact different (placed.unique other thread here owns' owns)
        rw [elsewhere here notLane]
        exact placed.running other here owns'
  · intro here running
    have notLane : here ≠ lane := by
      rintro rfl
      exact notRunning running
    rw [elsewhere here notLane] at running
    obtain ⟨other, owns'⟩ := placed.owned here running
    refine ⟨other, ?_⟩
    have different : other ≠ thread := by
      rintro rfl
      exact notLane (Option.some.inj (owns'.symm.trans owns))
    rw [owners, if_neg different, owns']
  · intro first second here owns₁ owns₂
    rw [owners] at owns₁ owns₂
    split at owns₁
    · cases owns₁
    · split at owns₂
      · cases owns₂
      · exact placed.unique first second here owns₁ owns₂
  · intro here queued
    by_cases same : here = lane
    · subst same
      exact offered queued
    · rw [elsewhere here same] at queued
      rw [stopped]
      exact (placed.offered here queued).imp_left (tickets here)
  · intro here deadline waiting
    by_cases same : here = lane
    · subst same
      exact parked deadline waiting
    · rw [elsewhere here same] at waiting
      exact deferred _ (placed.parked here deadline waiting)

theorem Placed.defer {s : Process} (placed : s.Placed) {thread : Nat} {lane : LaneId}
    {deadline : Nat} (owns : s.owner thread = some lane) :
    (s.defer thread lane deadline).Placed := by
  have place (other : LaneId) : (s.defer thread lane deadline).lanes.place.get other =
      if other = lane then some (.deferred deadline) else s.lanes.place.get other :=
    Table.get_set ..
  refine placed.giveUp owns rfl rfl ?_ ?_ ?_ ?_ ?_ (fun _ => id) rfl ?_
  · intro other different
    rw [place, if_neg different]
  · rw [place, if_pos rfl]
    simp
  · rw [place, if_pos rfl]
    simp
  · rw [place, if_pos rfl]
    simp
  · intro other waiting
    rw [place, if_pos rfl] at waiting
    cases waiting
    exact List.mem_insert_self
  · intro entry waiting
    exact List.mem_insert_of_mem waiting

theorem Placed.release {s : Process} (placed : s.Placed) {thread : Nat} {lane : LaneId}
    (owns : s.owner thread = some lane) : (s.release thread lane).Placed := by
  have place (other : LaneId) := LaneState.release_place s.lanes lane other
  have same := LaneState.release_sameWork s.lanes lane
  have rearmed := LaneState.release_rearmed s.lanes lane
  refine placed.giveUp owns same.queues rfl ?_ ?_ ?_ ?_ ?_ ?_ rfl ?_
  · intro other different
    change (s.lanes.release lane).1.place.get other = _
    rw [place, if_neg different]
  · change (s.lanes.release lane).1.place.get lane ≠ _
    rw [place, if_pos rfl]
    split <;> simp
  · intro queued
    change ((s.lanes.release lane).1.place.get lane).isSome = true
    rw [place, if_pos rfl, if_pos queued]
    rfl
  · intro queued
    change (s.lanes.release lane).1.place.get lane = _ at queued
    rw [place, if_pos rfl] at queued
    split at queued
    · next hasWork =>
        cases stopped : s.stopped with
        | true => exact .inr stopped
        | false =>
            left
            change lane ∈ if (s.lanes.release lane).2 && !s.stopped then s.tickets ++ [lane]
              else s.tickets
            simp [rearmed, hasWork, stopped]
    · cases queued
  · intro deadline waiting
    change (s.lanes.release lane).1.place.get lane = _ at waiting
    rw [place, if_pos rfl] at waiting
    split at waiting <;> cases waiting
  · intro other ticket
    change other ∈ if (s.lanes.release lane).2 && !s.stopped then s.tickets ++ [lane]
      else s.tickets
    split
    · exact List.mem_append_left _ ticket
    · exact ticket
  · intro entry waiting
    change entry ∈ (s.lanes.release lane).1.deferred
    rw [LaneState.release_deferred]
    exact waiting

/-! ## Every run -/

variable {unit : EffectUnit}

theorem owner_of_worker {s : Process} {thread : Nat} {worker : Worker}
    (working : s.workers.get thread = some worker) : s.owner thread = some worker.lane := by
  unfold owner
  rw [working]
  rfl

theorem deliver_owner (s : Process) (upto thread : Nat) :
    (s.deliver unit upto).owner thread = s.owner thread := by
  unfold owner
  rw [deliver_workers]

/-- A thread owns its lane until it releases or defers it. -/
theorem owner_step {s s' : Process} {act : Act} (taken : s.step unit act = some s')
    {thread : Nat} {lane : LaneId} (owns : s.owner thread = some lane)
    (noRelease : act ≠ .release thread) (noDefer : ∀ deadline, act ≠ .defer thread deadline) :
    s'.owner thread = some lane := by
  have kept {other : Nat} {held : LaneId} (phase : Phase) (ownsOther : s.owner other = some held) :
      ((s.workers.set other ⟨held, phase⟩).get thread).map Worker.lane = some lane :=
    (owner_turn ownsOther phase thread).trans owns
  cases stepped_of_step taken with
  | @deliver upto polling ahead => exact (deliver_owner s upto thread).trans owns
  | @claim other held idle ticket =>
      have different : thread ≠ other := by
        rintro rfl
        unfold owner at owns
        rw [idle] at owns
        cases owns
      change ((if (s.lanes.claim held).2 then s.workers.set other ⟨held, .ready⟩
        else s.workers).get thread).map Worker.lane = some lane
      split
      · rw [owner_set, if_neg different, owns]
      · exact owns
  | @head other held ready =>
      unfold Process.head
      dsimp only
      split <;> exact kept _ (owner_of_worker ready)
  | beginTerminal took => exact kept _ (owner_of_worker took)
  | beginRunning took => exact kept _ (owner_of_worker took)
  | settle live => exact kept _ (owner_of_worker live)
  | complete settled => exact kept _ (owner_of_worker settled)
  | recordRow owing => exact kept _ (owner_of_worker owing)
  | noteRow recorded => exact kept _ (owner_of_worker recorded)
  | @defer other worker deadline working =>
      have different : thread ≠ other := fun same => noDefer deadline (same ▸ rfl)
      change ((s.workers.remove other).get thread).map Worker.lane = some lane
      rw [owner_remove, if_neg different, owns]
  | @release other worker working =>
      have different : thread ≠ other := fun same => noRelease (same ▸ rfl)
      change ((s.workers.remove other).get thread).map Worker.lane = some lane
      rw [owner_remove, if_neg different, owns]
  | _ => exact owns

theorem Placed.step {s s' : Process} {act : Act} (placed : s.Placed)
    (taken : s.step unit act = some s') : s'.Placed := by
  cases stepped_of_step taken with
  | @deliver upto polling ahead => exact placed.deliver upto
  | promote polling => exact placed.wakeAll false _
  | promoteMatching polling => exact placed.wakeAll true _
  | claim idle ticket => exact placed.claim idle
  | @head thread lane ready =>
      have owns := owner_of_worker ready
      have unchanged : (s.lanes.head lane).1.queues = s.lanes.queues ∧
          (s.lanes.head lane).1.place = s.lanes.place ∧
          (s.lanes.head lane).1.deferred = s.lanes.deferred := by
        unfold LaneState.head
        split <;> exact ⟨rfl, rfl, rfl⟩
      obtain ⟨queues, place, deferred⟩ := unchanged
      unfold Process.head
      dsimp only
      split <;> exact placed.congr queues place deferred (owner_turn owns _) rfl id
  | beginTerminal took =>
      exact placed.congr rfl rfl rfl (owner_turn (owner_of_worker took) _) rfl id
  | beginRunning took =>
      exact placed.congr rfl rfl rfl (owner_turn (owner_of_worker took) _) rfl id
  | settle live => exact placed.congr rfl rfl rfl (owner_turn (owner_of_worker live) _) rfl id
  | complete settled => exact placed.complete (owner_of_worker settled)
  | recordRow owing =>
      exact placed.congr rfl rfl rfl (owner_turn (owner_of_worker owing) _) rfl id
  | noteRow recorded =>
      exact placed.congr rfl rfl rfl (owner_turn (owner_of_worker recorded) _) rfl id
  | defer working => exact placed.defer (owner_of_worker working)
  | release working => exact placed.release (owner_of_worker working)
  | stop => exact placed.congr rfl rfl rfl (fun _ => rfl) rfl fun _ => rfl
  | _ => exact placed.congr rfl rfl rfl (fun _ => rfl) rfl id

theorem placed_of_run {resume : Nat} {rows : Table LaneId Nat} {begun : List Nat} {blind : Bool}
    {acts : List Act} {s : Process}
    (ran : run (step unit) (boot resume rows begun blind) acts = some s) : s.Placed :=
  run_invariant Placed (fun _ _ _ placed taken => placed.step taken)
    (placed_boot resume rows begun blind) ran

theorem owner_of_run {s s' : Process} {acts : List Act} {thread : Nat} {lane : LaneId}
    (owns : s.owner thread = some lane) (ran : run (step unit) s acts = some s')
    (kept : ∀ act ∈ acts, act ≠ .release thread ∧ ∀ deadline, act ≠ .defer thread deadline) :
    s'.owner thread = some lane := by
  induction acts generalizing s with
  | nil => exact Option.some.inj ran ▸ owns
  | cons act rest ih =>
      obtain ⟨next, taken, tail⟩ := run_cons.mp ran
      obtain ⟨noRelease, noDefer⟩ := kept act List.mem_cons_self
      exact ih (owner_step taken owns noRelease noDefer) tail
        fun later member => kept later (List.mem_cons_of_mem _ member)

/-! ## What the schedule owes every lane -/

structure Scheduled (s : Process) : Prop where
  one_place : ∀ lane, ¬(s.Offered lane ∧ s.Owned lane) ∧ ¬(s.Offered lane ∧ s.Parked lane) ∧
    ¬(s.Owned lane ∧ s.Parked lane)
  one_worker : ∀ thread other lane, s.owner thread = some lane → s.owner other = some lane →
    thread = other
  never_stranded : ∀ lane, s.lanes.queue lane ≠ [] →
    (s.Offered lane ∧ (lane ∈ s.tickets ∨ s.stopped = true)) ∨ s.Owned lane ∨
      ∃ deadline, s.lanes.place.get lane = some (.deferred deadline) ∧
        ∀ now, deadline ≤ now →
          lane ∈ (s.lanes.promote now).2 ∧ ((s.lanes.promote now).1.claim lane).2 = true
  stale_deadline : ∀ lane now,
    (∀ deadline ≤ now, s.lanes.place.get lane ≠ some (.deferred deadline)) →
      lane ∉ (s.lanes.promote now).2 ∧
        (s.lanes.promote now).1.place.get lane = s.lanes.place.get lane
  stale_skip : ∀ lane wanted,
    (∀ deadline, s.lanes.place.get lane ≠ some (.deferred deadline)) →
      lane ∉ (s.lanes.promoteMatching wanted).2 ∧
        (s.lanes.promoteMatching wanted).1.place.get lane = s.lanes.place.get lane

theorem offered_iff (s : Process) (lane : LaneId) :
    s.Offered lane ↔ s.lanes.place.get lane = some .queued := by
  unfold Offered
  by_cases waiting : s.lanes.place.get lane = some .queued
  · rw [LaneState.claim_of_queued s.lanes lane waiting]
    simp [waiting]
  · rw [LaneState.claim_of_not_queued s.lanes lane waiting]
    simp [waiting]

theorem deferred_of_parked {s : Process} {lane : LaneId} (parked : s.Parked lane) :
    ∃ deadline, s.lanes.place.get lane = some (.deferred deadline) := by
  obtain ⟨now, woken⟩ := parked
  obtain ⟨deadline, -, -, place⟩ := (LaneState.mem_promote now).mp woken
  exact ⟨deadline, place⟩

/-- Entries none of which the lane is parked under leave it where it is. -/
theorem wakeAll_of_not_dueIn {lanes : LaneState} {early : Bool} {due : List (Nat × LaneId)}
    {lane : LaneId} (notDue : ¬lanes.DueIn due lane) :
    lane ∉ (lanes.wakeAll early due).2 ∧
      (lanes.wakeAll early due).1.place.get lane = lanes.place.get lane := by
  constructor
  · rw [LaneState.mem_wakeAll]
    exact notDue
  · rw [LaneState.wakeAll_place, if_neg notDue]

theorem Placed.never_stranded {s : Process} (placed : s.Placed) {lane : LaneId}
    (work : s.lanes.queue lane ≠ []) :
    (s.Offered lane ∧ (lane ∈ s.tickets ∨ s.stopped = true)) ∨ s.Owned lane ∨
      ∃ deadline, s.lanes.place.get lane = some (.deferred deadline) ∧
        ∀ now, deadline ≤ now →
          lane ∈ (s.lanes.promote now).2 ∧ ((s.lanes.promote now).1.claim lane).2 = true := by
  have queued : (s.lanes.queues.get lane).isSome = true := by
    unfold LaneState.queue at work
    cases entry : s.lanes.queues.get lane with
    | none => simp [entry] at work
    | some groups => rfl
  obtain ⟨place, here⟩ := Option.isSome_iff_exists.mp (placed.armed lane queued)
  cases place with
  | queued => exact .inl ⟨(offered_iff s lane).mpr here, placed.offered lane here⟩
  | running => exact .inr (.inl (placed.owned lane here))
  | deferred deadline =>
      refine .inr (.inr ⟨deadline, here, ?_⟩)
      intro now passed
      have woken : lane ∈ (s.lanes.promote now).2 :=
        (LaneState.mem_promote now).mpr ⟨deadline, passed, placed.parked lane deadline here, here⟩
      exact ⟨woken, LaneState.claim_of_woken woken⟩

theorem Placed.scheduled {s : Process} (placed : s.Placed) : s.Scheduled where
  one_place lane := by
    refine ⟨?_, ?_, ?_⟩
    · rintro ⟨offered, thread, owns⟩
      have queued := (offered_iff s lane).mp offered
      rw [placed.running thread lane owns] at queued
      cases queued
    · rintro ⟨offered, parked⟩
      obtain ⟨deadline, deferred⟩ := deferred_of_parked parked
      rw [(offered_iff s lane).mp offered] at deferred
      cases deferred
    · rintro ⟨⟨thread, owns⟩, parked⟩
      obtain ⟨deadline, deferred⟩ := deferred_of_parked parked
      rw [placed.running thread lane owns] at deferred
      cases deferred
  one_worker := placed.unique
  never_stranded _ work := placed.never_stranded work
  stale_deadline lane now elsewhere := by
    refine wakeAll_of_not_dueIn ?_
    rintro ⟨deadline, member, parked⟩
    have passed : deadline ≤ now := of_decide_eq_true (List.mem_filter.mp member).2
    exact elsewhere deadline passed parked
  stale_skip lane wanted elsewhere := by
    refine wakeAll_of_not_dueIn ?_
    rintro ⟨deadline, -, parked⟩
    exact elsewhere deadline parked

/-- In every state a process reaches, each lane has one place at most and one
worker at most, queued work always has a place, and no stale deadline wakes a
lane; and a lane a thread owns is refused to every claim until that thread
releases or defers it. -/
theorem lane_exclusion (unit : EffectUnit) (resume : Nat) (rows : Table LaneId Nat)
    (begun : List Nat) (blind : Bool) (acts : List Act) (s : Process)
    (ran : run (step unit) (boot resume rows begun blind) acts = some s) :
    s.Scheduled ∧
      ∀ thread lane, s.owner thread = some lane → ∀ later s', run (step unit) s later = some s' →
        (∀ act ∈ later, act ≠ .release thread ∧ ∀ deadline, act ≠ .defer thread deadline) →
          s'.owner thread = some lane ∧ ¬s'.Offered lane := by
  refine ⟨(placed_of_run ran).scheduled, ?_⟩
  intro thread lane owns later s' ranLater kept
  have ownsStill := owner_of_run owns ranLater kept
  have placedStill := placed_of_run (run_append.mpr ⟨s, ran, ranLater⟩)
  exact ⟨ownsStill, fun offered =>
    (placedStill.scheduled.one_place lane).1 ⟨offered, thread, ownsStill⟩⟩

theorem lane_exclusion_of_failed_attempt :
    ∃ s, run (step (EffectUnit.ofLog [⟨["paid"], .every⟩] [("paid", ⟨"i:7"⟩), ("paid", ⟨"i:7"⟩)]))
      (boot 0 ∅ [] false)
      [.deliver 1, .claim 0 ⟨"i:7"⟩, .head 0, .begin 0 .running, .deliver 2, .defer 0 60] = some s ∧
        s.Scheduled := by
  have ended : (run (step (EffectUnit.ofLog [⟨["paid"], .every⟩]
      [("paid", ⟨"i:7"⟩), ("paid", ⟨"i:7"⟩)])) (boot 0 ∅ [] false)
      [.deliver 1, .claim 0 ⟨"i:7"⟩, .head 0, .begin 0 .running, .deliver 2,
        .defer 0 60]).isSome = true := by decide
  obtain ⟨s, ran⟩ := Option.isSome_iff_exists.mp ended
  exact ⟨s, ran, (lane_exclusion _ 0 ∅ [] false _ s ran).1⟩

end Process

end Hekla.Effect
