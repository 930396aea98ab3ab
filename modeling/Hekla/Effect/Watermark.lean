import Hekla.Effect.Accounting

/-!
# The low-water mark

The mark is derived from the oldest position each open group stands for.  So a
position at or below it cannot be in an open group, and with nothing queued the
mark is where the subscription has scanned to.  It moves back only when a
redelivered position is admitted again, which takes a lane that has forgotten
it while the subscription was still behind.
-/

namespace Hekla.Effect

open Hekla.Library Hekla.Lanes

namespace Process

variable {unit : EffectUnit}

theorem le_lowWater_iff {s : Process} (sound : s.Sound unit) (mark : Nat) :
    mark ≤ s.lanes.lowWater ↔
      mark ≤ s.lanes.scanned ∧ ∀ lane, ∀ group ∈ s.ledger.opened lane, mark ≤ group.lo - 1 := by
  have listed {lane : LaneId} {group : Group} (member : group ∈ s.ledger.opened lane) :
      s.lanes.inflight.get group.lo = some lane :=
    (sound.tracked.inflight group.lo lane).mpr ⟨group, member, rfl⟩
  unfold LaneState.lowWater
  cases oldest : s.lanes.inflight.firstKey with
  | none =>
      refine ⟨fun below => ⟨below, ?_⟩, fun below => below.1⟩
      intro lane group member
      have absent := (Table.firstKey_eq_none_iff _).mp oldest group.lo
      rw [listed member] at absent
      cases absent
  | some first =>
      obtain ⟨⟨lane, held⟩, least⟩ := (Table.firstKey_eq_some_iff _ _).mp oldest
      constructor
      · intro below
        refine ⟨le_trans below (min_le_right _ _), ?_⟩
        intro other group member
        have order := least group.lo other (listed member)
        have bound := le_trans below (min_le_left _ _)
        omega
      · rintro ⟨scanned, below⟩
        obtain ⟨group, member, rfl⟩ := (sound.tracked.inflight first lane).mp held
        exact le_min (below lane group member) scanned

/-- With nothing queued anywhere the mark is where the log was scanned to. -/
theorem lowWater_of_idle {s : Process} (sound : s.Sound unit)
    (idle : ∀ lane, s.lanes.queue lane = []) : s.lanes.lowWater = s.lanes.scanned := by
  have nothing (lane : LaneId) : s.ledger.opened lane = [] := by
    have empty := idle lane
    rw [sound.tracked.queue] at empty
    exact List.map_eq_nil_iff.mp empty
  have reaches : s.lanes.scanned ≤ s.lanes.lowWater := by
    refine (le_lowWater_iff sound _).mpr ⟨le_refl _, ?_⟩
    intro lane group member
    rw [nothing] at member
    cases member
  exact le_antisymm ((le_lowWater_iff sound _).mp (le_refl _)).1 reaches

/-- A position at or below the mark is in no open group of its lane. -/
theorem retired_of_le_lowWater {s : Process} (sound : s.Sound unit)
    (accounted : s.Accounted unit) {lane : LaneId} {position arm : Nat}
    (admitted : (position, arm) ∈ s.ledger.admitted lane)
    (below : position ≤ s.lanes.lowWater) :
    ∃ group ∈ s.ledger.closed lane, group.arm = arm ∧ position ∈ group.members := by
  obtain ⟨group, member, arm_eq, inside⟩ := accounted.covered lane position arm admitted
  rcases List.mem_append.mp member with retired | queued
  · exact ⟨group, retired, arm_eq, inside⟩
  · exfalso
    have under := ((le_lowWater_iff sound _).mp below).2 lane group queued
    have within := ((sound.tracked.fits lane group queued).bounds position inside).1
    have positive := (accounted.positive lane position arm admitted).1
    omega

/-! ## The mark does not move back -/

theorem le_lowWater_advance {s : Process} (sound : s.Sound unit)
    (remembered : s.Remembered unit) (polling : s.reader = .polling) {mark : Nat}
    (below : mark ≤ s.lanes.lowWater) : mark ≤ (s.advance unit).lanes.lowWater := by
  obtain ⟨scanned, under⟩ := (le_lowWater_iff sound mark).mp below
  have grown : s.lanes.scanned ≤ (s.advance unit).lanes.scanned := by
    rw [advance_scanned]
    exact le_max_left _ _
  refine (le_lowWater_iff (sound.advance polling) mark).mpr ⟨le_trans scanned grown, ?_⟩
  rcases advance_cases unit s with ⟨eq, -⟩ | ⟨resolved, found, fresh, eq⟩
  · rw [eq]
    exact under
  · intro lane group member
    rw [eq, offer_of_fresh fresh] at member
    change group ∈ (s.ledger.enter s.lanes resolved.lane (s.cursor + 1) resolved.arm
      resolved.collapsible).opened lane at member
    rw [Tracked.opened_enter] at member
    split at member
    · next same =>
        subst same
        rcases sound.tracked.mem_entered member with ⟨old, -⟩ | ⟨rfl, -⟩ | ⟨taken, old, rfl, -⟩
        · exact under resolved.lane group old
        · have above := remembered.scanned_lt found fresh
          change mark ≤ s.cursor + 1 - 1
          omega
        · exact under resolved.lane taken old
    · exact under lane group member

theorem lowWater_mono {s s' : Process} {act : Act} (sound : s.Sound unit)
    (remembered : s.Remembered unit) (taken : s.step unit act = some s') :
    s.lanes.lowWater ≤ s'.lanes.lowWater := by
  obtain ⟨scanned, under⟩ := (le_lowWater_iff sound _).mp (le_refl _)
  have grown := le_trans scanned (scanned_mono sound taken)
  have sound' := sound.step taken
  cases writes_of_step sound taken with
  | nothing ledger latest =>
      refine (le_lowWater_iff sound' _).mpr ⟨grown, ?_⟩
      rw [ledger]
      exact under
  | deliver polling ahead =>
      refine (deliver_keeps (fun next => s.lanes.lowWater ≤ next.lanes.lowWater ∧ next.Sound unit ∧
        next.Remembered unit ∧ next.reader = .polling) sound.behind ahead
        ⟨le_refl _, sound, remembered, polling⟩ ?_).1
      rintro next ⟨below, sound, remembered, polling⟩
      exact ⟨le_lowWater_advance sound remembered polling below, sound.advance polling,
        remembered.advance sound.behind, (assign_reader next _).trans polling⟩
  | head ready queue ledger lanes =>
      refine (le_lowWater_iff sound' _).mpr ⟨grown, ?_⟩
      rw [ledger]
      exact under
  | complete settled queue ledger lanes =>
      refine (le_lowWater_iff sound' _).mpr ⟨grown, ?_⟩
      intro other group member
      rw [ledger, Tracked.close_head queue] at member
      dsimp only at member
      rw [Function.update_apply] at member
      split at member
      · next same =>
          subst same
          exact under other group (queue ▸ List.mem_cons_of_mem _ member)
      · exact under other group member

/-- In every state a process reaches, an admitted position at or below the mark
is in a retired group, and with nothing queued the mark is where the log was
scanned to; and while the forgets are all at marks the subscription has read
past, no run lowers the mark. -/
theorem low_water_safe (unit : EffectUnit) (resume : Nat) (rows : Table LaneId Nat)
    (begun : List Nat) (blind : Bool) (acts : List Act) (s : Process)
    (ran : run (step unit) (boot resume rows begun blind) acts = some s) :
    (∀ lane position arm, (position, arm) ∈ s.ledger.admitted lane →
        position ≤ s.lanes.lowWater →
          ∃ group ∈ s.ledger.closed lane, group.arm = arm ∧ position ∈ group.members) ∧
      ((∀ lane, s.lanes.queue lane = []) → s.lanes.lowWater = s.lanes.scanned) ∧
      (Guarded (step unit) ForgetsRead (boot resume rows begun blind) acts →
        ∀ later s', run (step unit) s later = some s' → Guarded (step unit) ForgetsRead s later →
          s.lanes.lowWater ≤ s'.lanes.lowWater) := by
  have sound := sound_of_run ran
  refine ⟨?_, lowWater_of_idle sound, ?_⟩
  · intro lane position arm admitted below
    exact retired_of_le_lowWater sound (accounted_of_run ran) admitted below
  · intro guarded later s' ranLater guardedLater
    refine run_monotone_of_guarded (fun s => s.Sound unit ∧ s.Remembered unit)
      (fun s => s.lanes.lowWater) ?_ ⟨sound, remembered_of_run ran guarded⟩ guardedLater ranLater
    rintro s act next ⟨sound, remembered⟩ ok taken
    exact ⟨⟨sound.step taken, remembered.step sound ok taken⟩, lowWater_mono sound remembered taken⟩

/-- Two lanes with one position each. -/
def twoLanes : EffectUnit :=
  .ofLog [⟨["paid"], .every⟩] [("paid", ⟨"i:1"⟩), ("paid", ⟨"i:2"⟩)]

/-- Both positions are delivered and run, and then the driver loses the log. -/
def bothRun : List Act :=
  [.deliver 2, .claim 0 ⟨"i:1"⟩, .head 0, .begin 0 .running, .settle 0, .complete 0, .release 0,
    .claim 0 ⟨"i:2"⟩, .head 0, .begin 0 .running, .settle 0, .complete 0, .release 0]

theorem low_water_safe_of_bothRun :
    ∃ s, run (step twoLanes) (boot 0 ∅ [] false) bothRun = some s ∧
      ∃ group ∈ s.ledger.closed ⟨"i:1"⟩, group.arm = 0 ∧ 1 ∈ group.members := by
  have ended : (run (step twoLanes) (boot 0 ∅ [] false) bothRun).any (fun s =>
      decide ((1, 0) ∈ s.ledger.admitted ⟨"i:1"⟩ ∧ 1 ≤ s.lanes.lowWater)) = true := by decide
  obtain ⟨s, ran, holds⟩ := (Option.any_eq_true _ _).mp ended
  obtain ⟨admitted, below⟩ := of_decide_eq_true holds
  exact ⟨s, ran, (low_water_safe twoLanes 0 ∅ [] false _ s ran).1 _ _ _ admitted below⟩

/-- After a re-subscribe from zero only the first position has been offered
again when the mark of both is published; the second is then admitted anew. -/
theorem low_water_moves_back :
    ∃ s s', run (step twoLanes) (boot 0 ∅ [] false)
        (bothRun ++ [.resubscribe 0, .deliver 1, .readMark, .writeMark, .forgetMark]) = some s ∧
      s.step twoLanes (.deliver 2) = some s' ∧ s'.lanes.lowWater < s.lanes.lowWater := by
  have ended : (run (step twoLanes) (boot 0 ∅ [] false)
      (bothRun ++ [.resubscribe 0, .deliver 1, .readMark, .writeMark, .forgetMark])).any
      (fun s => (s.step twoLanes (.deliver 2)).any fun s' =>
        decide (s'.lanes.lowWater < s.lanes.lowWater)) = true := by decide
  obtain ⟨s, ran, stepped⟩ := (Option.any_eq_true _ _).mp ended
  obtain ⟨s', taken, lower⟩ := (Option.any_eq_true _ _).mp stepped
  exact ⟨s, s', ran, taken, of_decide_eq_true lower⟩

end Process

end Hekla.Effect
