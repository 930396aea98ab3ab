import Hekla.Effect.Coverage

/-!
# A superseded event is not invoked afterwards

A recorded range names the positions an invocation stood for.  After a restart
they are delivered again, and the group they form is taken over again by the
same representative, provided no worker takes it half way: until the log has
been scanned up to the representative, the open group is the named one of its
arm, and afterwards there is none inside the range.
-/

namespace Hekla.Effect

open Hekla.Library Hekla.Lanes

/-- Recorded ranges belong to arms that collapse, and no invocation of the same
arm and lane lies inside one. -/
structure OpDb.Ranged (unit : EffectUnit) (db : OpDb) : Prop where
  ordered : ∀ terminal oldest resolved,
    db.invocations.get terminal = some (.terminal (some oldest)) →
      unit.resolve terminal = some resolved → oldest < terminal ∧ resolved.collapsible = true
  alone : ∀ terminal oldest resolved,
    db.invocations.get terminal = some (.terminal (some oldest)) →
      unit.resolve terminal = some resolved → ∀ position invocation,
        db.invocations.get position = some invocation → unit.resolve position = some resolved →
          ¬(oldest ≤ position ∧ position < terminal)

theorem OpDb.Ranged.congr {unit : EffectUnit} {db db' : OpDb} (ranged : db.Ranged unit)
    (rows : db'.invocations = db.invocations) : db'.Ranged unit := by
  obtain ⟨watermark, lanes, invocations⟩ := db'
  cases rows
  exact { ranged with }

/-- A range that starts at or below a collapsing position and ends above it keeps
that position from having an invocation already. -/
theorem OpDb.Ranged.absent {unit : EffectUnit} {db : OpDb} (ranged : db.Ranged unit) {terminal oldest position : Nat}
    {resolved : Resolved} (row : db.invocations.get terminal = some (.terminal (some oldest)))
    (found : unit.resolve terminal = some resolved) (found' : unit.resolve position = some resolved)
    (lower : oldest ≤ position) (upper : position < terminal) :
    db.invocations.get position = none := by
  cases held : db.invocations.get position with
  | none => rfl
  | some invocation =>
      exact absurd ⟨lower, upper⟩
        (ranged.alone terminal oldest resolved row found position invocation held found')

namespace Process

variable {unit : EffectUnit}

/-- What keeps the groups of a process clear of the recorded ranges. -/
structure Clear (unit : EffectUnit) (db : OpDb) (s : Process) : Prop where
  sound : s.Sound unit
  remembered : s.Remembered unit
  sighted : s.lanes.blind = true → ∀ terminal oldest lane arm collapses,
    db.invocations.get terminal = some (.terminal (some oldest)) →
      unit.resolve terminal = some ⟨lane, arm, collapses⟩ →
        terminal ≤ s.lanes.scanned ∨ s.lanes.seen lane terminal = true
  newest : ∀ lane arm openAt, s.lanes.latest.get (lane, arm) = some openAt →
    ∀ position collapses, unit.resolve position = some ⟨lane, arm, collapses⟩ →
      position ≤ openAt ∨ s.lanes.scanned < position
  unrecorded : ∀ lane arm openAt, s.lanes.latest.get (lane, arm) = some openAt →
    db.invocations.get openAt = none
  inside : ∀ lane, ∀ group ∈ s.ledger.opened lane, ∀ position invocation collapses,
    db.invocations.get position = some invocation →
      unit.resolve position = some ⟨lane, group.arm, collapses⟩ →
        ¬(group.lo ≤ position ∧ position < group.hi)
  recorded : unit.anyLatest = true → s.lanes.blind = false → ∀ position invocation,
    db.invocations.get position = some invocation →
      position ≤ s.lanes.scanned ∨ position ∈ s.lanes.begun
  listed : ∀ position ∈ s.lanes.begun, db.invocations.get position ≠ none
  ahead : ∀ lane seen, s.lanes.high.get lane = some seen → s.lanes.scanned < seen →
    s.ledger.opened lane = []
  pending : ∀ terminal oldest lane arm collapses,
    db.invocations.get terminal = some (.terminal (some oldest)) →
      unit.resolve terminal = some ⟨lane, arm, collapses⟩ →
        ∀ group ∈ s.ledger.opened lane, group.arm = arm → oldest ≤ group.hi → group.hi < terminal →
          s.lanes.latest.get (lane, arm) = some group.hi ∧ s.lanes.scanned < terminal

theorem Clear.congr {db db' : OpDb} {s : Process} (clear : s.Clear unit db)
    (rows : db'.invocations = db.invocations) : s.Clear unit db' := by
  obtain ⟨watermark, lanes, invocations⟩ := db'
  cases rows
  exact { clear with }

/-! ## Reading one position -/

/-- A position that is read and not admitted changes nothing: a lane it belongs
to has no group open. -/
theorem Clear.skip {db : OpDb} {s : Process} (clear : s.Clear unit db)
    (polling : s.reader = .polling) (eq : s.advance unit = s.scanTo (s.cursor + 1))
    (seen : ∀ resolved, unit.resolve (s.cursor + 1) = some resolved →
      s.lanes.seen resolved.lane (s.cursor + 1) = true) : (s.advance unit).Clear unit db := by
  have behind := clear.sound.behind
  have grown : s.lanes.scanned ≤ (s.advance unit).lanes.scanned := by
    rw [advance_scanned]
    exact le_max_left _ _
  have skipped {position : Nat} {resolved : Resolved}
      (found : unit.resolve position = some resolved) (new : s.lanes.scanned < position)
      (read : position ≤ (s.advance unit).lanes.scanned) : s.ledger.opened resolved.lane = [] := by
    rcases le_scanned_advance behind read with old | rfl
    · omega
    · obtain ⟨high, held, below⟩ := (seen_iff _ _ _).mp (seen resolved found)
      exact clear.ahead resolved.lane high held (Nat.lt_of_lt_of_le new below)
  have lanes : (s.advance unit).lanes = s.lanes.setScanned (s.cursor + 1) := by
    rw [eq]
    rfl
  have ledger : (s.advance unit).ledger = s.ledger := by
    rw [eq]
    rfl
  refine ⟨clear.sound.advance polling, clear.remembered.advance behind, ?_, ?_, ?_, ?_, ?_, ?_, ?_,
    ?_⟩
  · intro blind terminal oldest lane arm collapses row found
    rw [lanes] at blind
    refine (clear.sighted blind terminal oldest lane arm collapses row found).imp ?_ ?_
    · exact fun old => le_trans old grown
    · exact fun dropped => (seen_congr (congrArg LaneState.high lanes) lane terminal).trans dropped
  · intro lane arm openAt latest position collapses found
    rw [lanes] at latest
    rcases clear.newest lane arm openAt latest position collapses found with old | new
    · exact .inl old
    · right
      by_contra read
      obtain ⟨group, member, -⟩ := clear.sound.tracked.latest lane arm openAt latest
      rw [skipped found new (Nat.le_of_not_lt read)] at member
      cases member
  · intro lane arm openAt latest
    rw [lanes] at latest
    exact clear.unrecorded lane arm openAt latest
  · rw [ledger]
    exact clear.inside
  · intro anyLatest sighted position invocation row
    rw [lanes] at sighted
    rcases clear.recorded anyLatest sighted position invocation row with old | listed
    · exact .inl (le_trans old grown)
    · rw [lanes]
      exact .inr listed
  · rw [lanes]
    exact clear.listed
  · intro lane high held above
    rw [ledger]
    rw [lanes] at held
    exact clear.ahead lane high held (Nat.lt_of_le_of_lt grown above)
  · intro terminal oldest lane arm collapses row found group member sameArm lower upper
    rw [ledger] at member
    obtain ⟨latest, below⟩ :=
      clear.pending terminal oldest lane arm collapses row found group member sameArm lower upper
    refine ⟨by rw [lanes]; exact latest, ?_⟩
    by_contra read
    rw [skipped found below (Nat.le_of_not_lt read)] at member
    cases member

/-- The group a position takes over has no invocation inside it, nor at its
representative, nor between the two. -/
theorem Clear.inside_enter {db : OpDb} {s : Process} (clear : s.Clear unit db)
    {resolved : Resolved} {group : Group}
    (member : group ∈ Ledger.entered (s.ledger.opened resolved.lane)
      (s.lanes.superseded resolved.lane resolved.arm resolved.collapsible) (s.cursor + 1)
      resolved.arm) {position : Nat} {invocation : Invocation} {collapses : Bool}
    (held : db.invocations.get position = some invocation)
    (found' : unit.resolve position = some ⟨resolved.lane, group.arm, collapses⟩) :
    ¬(group.lo ≤ position ∧ position < group.hi) := by
  rintro ⟨lower, upper⟩
  rcases clear.sound.tracked.mem_entered member with ⟨old, -⟩ | ⟨rfl, -⟩ | taking
  · exact clear.inside resolved.lane group old position invocation collapses held found'
      ⟨lower, upper⟩
  · exact Nat.not_lt_of_le lower upper
  · obtain ⟨taken, old, rfl, sameArm, -, latest, -⟩ := taking
    change taken.lo ≤ position at lower
    change position < s.cursor + 1 at upper
    have above : ¬position < taken.hi := fun below =>
      clear.inside resolved.lane taken old position invocation collapses held found' ⟨lower, below⟩
    have behind := clear.sound.behind
    have resolves : unit.resolve position = some ⟨resolved.lane, resolved.arm, collapses⟩ :=
      sameArm ▸ found'
    rcases clear.newest _ _ taken.hi latest position collapses resolves with below | new
    · have at_hi : position = taken.hi := by omega
      rw [at_hi, clear.unrecorded _ _ taken.hi latest] at held
      cases held
    · omega

section Entering

variable {db : OpDb} {s : Process} {resolved : Resolved} (clear : s.Clear unit db)
  (found : unit.resolve (s.cursor + 1) = some resolved)
  (fresh : s.lanes.seen resolved.lane (s.cursor + 1) = false)

include clear found fresh

theorem Clear.scanned_lt : s.lanes.scanned < s.cursor + 1 :=
  clear.remembered.scanned_lt found fresh

theorem Clear.newest_enter {lane : LaneId} {arm openAt : Nat}
    (latest : (s.lanes.enter resolved.lane (s.cursor + 1) resolved.arm
      resolved.collapsible).latest.get (lane, arm) = some openAt) {position : Nat}
    {collapses : Bool} (found' : unit.resolve position = some ⟨lane, arm, collapses⟩) :
    position ≤ openAt ∨ s.cursor + 1 < position := by
  rw [Tracked.latest_enter] at latest
  split at latest
  · split at latest
    · cases latest
    · cases latest
      exact Nat.lt_or_ge _ _ |>.symm
  · next elsewhere =>
      rcases clear.newest lane arm openAt latest position collapses found' with old | new
      · exact .inl old
      have above := clear.sound.behind
      rcases Nat.eq_or_lt_of_le (show s.cursor + 1 ≤ position by omega) with rfl | beyond
      · -- The arm's open group would have been taken over.
        exfalso
        rw [found] at found'
        cases found'
        obtain ⟨sighted, named⟩ := clear.sound.tracked.collapses lane arm openAt latest
        have same := EffectUnit.collapsible_eq found named rfl rfl
        refine elsewhere ⟨rfl, ?_⟩
        simp only at same
        rw [LaneState.collapsible, sighted, same]
        rfl
      · exact .inr beyond

/-- A collapsing position that has an invocation was listed at the boot, so it
does not become an open group. -/
theorem Clear.unrecorded_enter {lane : LaneId} {arm openAt : Nat}
    (latest : (s.lanes.enter resolved.lane (s.cursor + 1) resolved.arm
      resolved.collapsible).latest.get (lane, arm) = some openAt) :
    db.invocations.get openAt = none := by
  rw [Tracked.latest_enter] at latest
  split at latest
  · next here =>
      split at latest
      · cases latest
      · next unlisted =>
          cases latest
          have collapses : resolved.collapsible = true := ((Bool.and_eq_true _ _).mp here.2).1
          have anyLatest := EffectUnit.anyLatest_of_collapsible found collapses
          have sighted : s.lanes.blind = false := by
            have both := (Bool.and_eq_true _ _).mp here.2
            simpa using both.2
          cases held : db.invocations.get (s.cursor + 1) with
          | none => rfl
          | some invocation =>
              have new := clear.scanned_lt found fresh
              rcases clear.recorded anyLatest sighted _ invocation held with old | listed
              · omega
              · exact absurd (List.contains_iff_mem.mpr listed) unlisted
  · exact clear.unrecorded lane arm openAt latest

/-- A group that has reached into a recorded range is the one its arm's next
position takes over, and the range has not been scanned to its end. -/
theorem Clear.pending_enter (ranged : db.Ranged unit) {terminal oldest : Nat} {lane : LaneId}
    {arm : Nat} {collapses : Bool}
    (row : db.invocations.get terminal = some (.terminal (some oldest)))
    (found' : unit.resolve terminal = some ⟨lane, arm, collapses⟩) {group : Group}
    (member : group ∈ (s.ledger.enter s.lanes resolved.lane (s.cursor + 1) resolved.arm
      resolved.collapsible).opened lane) (sameArm : group.arm = arm) (lower : oldest ≤ group.hi)
    (upper : group.hi < terminal) :
    (s.lanes.enter resolved.lane (s.cursor + 1) resolved.arm resolved.collapsible).latest.get
        (lane, arm) = some group.hi ∧ s.cursor + 1 < terminal := by
  have behind := clear.sound.behind
  rw [Tracked.opened_enter] at member
  rw [Tracked.latest_enter]
  -- An older group of the range stays the open one unless its own arm is entering.
  have kept (old : group ∈ s.ledger.opened lane) (other : ¬(lane = resolved.lane ∧ arm = resolved.arm)) :
      s.lanes.latest.get (lane, arm) = some group.hi ∧ s.cursor + 1 < terminal := by
    obtain ⟨latest, below⟩ := clear.pending terminal oldest lane arm collapses row found' group old
      sameArm lower upper
    refine ⟨latest, ?_⟩
    rcases Nat.eq_or_lt_of_le (show s.cursor + 1 ≤ terminal by omega) with rfl | beyond
    · rw [found] at found'
      cases found'
      exact absurd ⟨rfl, rfl⟩ other
    · exact beyond
  split at member
  · next sameLane =>
      subst sameLane
      by_cases entering : arm = resolved.arm
      · subst entering
        have same := EffectUnit.resolve_eq found found' rfl rfl
        have declared : resolved.collapsible = true := by
          rw [same]
          exact (ranged.ordered terminal oldest _ row found').2
        have collapsing (sighted : s.lanes.blind = false) :
            s.lanes.collapsible resolved.collapsible = true := by
          rw [LaneState.collapsible, sighted, declared]
          rfl
        have sighted (at_hi : group.hi = s.cursor + 1) : s.lanes.blind = false := by
          by_contra blind
          rw [Bool.not_eq_false] at blind
          have new := clear.scanned_lt found fresh
          rcases clear.sighted blind terminal oldest _ _ collapses row found' with old | dropped
          · omega
          · obtain ⟨high, held, below⟩ := (seen_iff _ _ _).mp dropped
            have order := Tracked.lt_of_fresh fresh held
            omega
        have new : group.hi = s.cursor + 1 → s.lanes.begun.contains (s.cursor + 1) = false := by
          intro at_hi
          rw [at_hi] at lower upper
          have absent := ranged.absent row (same ▸ found') found lower upper
          by_contra listed
          rw [Bool.not_eq_false] at listed
          exact clear.listed _ (List.contains_iff_mem.mp listed) absent
        have entered (at_hi : group.hi = s.cursor + 1) :
            (if (resolved.lane, resolved.arm) = (resolved.lane, resolved.arm) ∧
                s.lanes.collapsible resolved.collapsible = true then
              if s.lanes.begun.contains (s.cursor + 1) then none else some (s.cursor + 1)
            else s.lanes.latest.get (resolved.lane, resolved.arm)) = some group.hi ∧
              s.cursor + 1 < terminal := by
          rw [if_pos ⟨rfl, collapsing (sighted at_hi)⟩, new at_hi, at_hi]
          exact ⟨rfl, at_hi ▸ upper⟩
        rcases clear.sound.tracked.mem_entered member with ⟨old, stays⟩ | ⟨rfl, -⟩ | taking
        · exfalso
          obtain ⟨latest, -⟩ := clear.pending terminal oldest _ _ collapses row found' group old
            sameArm lower upper
          have open_group := clear.sound.tracked.collapses _ _ group.hi latest
          obtain ⟨taken, takenMem, at_hi, supersedes⟩ :=
            clear.sound.tracked.superseded_of_latest latest (collapsing open_group.1)
          have eq := clear.sound.tracked.eq_of_hi_eq takenMem old at_hi
          exact stays _ supersedes (eq ▸ rfl)
        · exact entered rfl
        · obtain ⟨taken, -, rfl, -⟩ := taking
          exact entered rfl
      · rw [if_neg fun here => entering (congrArg Prod.snd here.1)]
        rcases clear.sound.tracked.mem_entered member with ⟨old, -⟩ | ⟨rfl, -⟩ | taking
        · exact kept old fun here => entering here.2
        · exact absurd sameArm.symm entering
        · obtain ⟨taken, -, rfl, taken_arm, -⟩ := taking
          exact absurd (sameArm.symm.trans taken_arm) entering
  · next otherLane =>
      rw [if_neg fun here => otherLane (congrArg Prod.fst here.1)]
      exact kept member fun here => otherLane here.1

/-- A position that enters keeps every open group clear of the recorded ranges. -/
theorem Clear.enter (ranged : db.Ranged unit) (polling : s.reader = .polling)
    (eq : s.advance unit = (s.offer (s.cursor + 1) resolved).scanTo (s.cursor + 1)) :
    (s.advance unit).Clear unit db := by
  have new := clear.scanned_lt found fresh
  have lanes : (s.advance unit).lanes =
      (s.lanes.enter resolved.lane (s.cursor + 1) resolved.arm resolved.collapsible).setScanned
        (s.cursor + 1) := by
    rw [eq, offer_of_fresh fresh]
    rfl
  have ledger : (s.advance unit).ledger =
      s.ledger.enter s.lanes resolved.lane (s.cursor + 1) resolved.arm resolved.collapsible := by
    rw [eq, offer_of_fresh fresh]
    rfl
  have scanned : (s.advance unit).lanes.scanned = s.cursor + 1 := by
    rw [advance_scanned, max_eq_right (Nat.le_of_lt new)]
  refine ⟨clear.sound.advance polling, clear.remembered.advance clear.sound.behind, ?_, ?_, ?_, ?_,
    ?_, ?_, ?_, ?_⟩
  · intro blind terminal oldest lane arm collapses row found'
    rw [lanes] at blind
    rw [scanned]
    refine (clear.sighted blind terminal oldest lane arm collapses row found').imp ?_ ?_
    · intro old
      omega
    · intro dropped
      rw [lanes]
      exact seen_enter resolved.arm resolved.collapsible fresh dropped
  · intro lane arm openAt latest position collapses found'
    rw [scanned]
    rw [lanes] at latest
    exact clear.newest_enter found fresh latest found'
  · intro lane arm openAt latest
    rw [lanes] at latest
    exact clear.unrecorded_enter found fresh latest
  · intro lane group member position invocation collapses held found'
    rw [ledger, Tracked.opened_enter] at member
    split at member
    · next sameLane =>
        subst sameLane
        exact clear.inside_enter member held found'
    · exact clear.inside lane group member position invocation collapses held found'
  · intro anyLatest sighted position invocation row
    rw [lanes] at sighted
    rw [scanned, lanes]
    refine (clear.recorded anyLatest sighted position invocation row).imp_left ?_
    intro old
    omega
  · rw [lanes]
    exact clear.listed
  · intro lane high held above
    rw [lanes] at held
    change (s.lanes.high.set resolved.lane (s.cursor + 1)).get lane = some high at held
    rw [scanned] at above
    rw [ledger, Tracked.opened_enter]
    rw [Table.get_set] at held
    split at held
    · cases held
      exact absurd above (Nat.lt_irrefl _)
    · next otherLane =>
        rw [if_neg otherLane]
        exact clear.ahead lane high held (Nat.lt_trans new above)
  · intro terminal oldest lane arm collapses row found' group member sameArm lower upper
    rw [scanned, lanes]
    rw [ledger] at member
    exact clear.pending_enter found fresh ranged row found' member sameArm lower upper

end Entering

theorem Clear.advance {db : OpDb} {s : Process} (clear : s.Clear unit db) (ranged : db.Ranged unit)
    (polling : s.reader = .polling) : (s.advance unit).Clear unit db := by
  rcases advance_cases unit s with ⟨eq, seen⟩ | ⟨resolved, found, fresh, eq⟩
  · exact clear.skip polling eq seen
  · exact clear.enter found fresh ranged polling eq

/-! ## Actions that read nothing -/

/-- No group that has reached into a recorded range of its arm is taken up while
the log is scanned only part of the way through that range. -/
def TakesWhole (unit : EffectUnit) (db : OpDb) (s : Process) (act : Act) : Prop :=
  ∀ thread lane group rest, act = .head thread → s.workers.get thread = some ⟨lane, .ready⟩ →
    s.lanes.queue lane = group :: rest → ∀ terminal oldest collapses,
      db.invocations.get terminal = some (.terminal (some oldest)) →
        unit.resolve terminal = some ⟨lane, group.arm, collapses⟩ →
          ¬(oldest ≤ group.hi ∧ s.lanes.scanned < terminal)

/-- With fewer groups open and fewer of them named, the open groups stay clear,
provided a group inside a recorded range is still named. -/
theorem Clear.less {db : OpDb} {s s' : Process} (clear : s.Clear unit db) (sound : s'.Sound unit)
    (remembered : s'.Remembered unit) (quiet : Quiet s s')
    (opened : ∀ lane, ∀ group ∈ s'.ledger.opened lane, group ∈ s.ledger.opened lane)
    (latest : ∀ key openAt, s'.lanes.latest.get key = some openAt →
      s.lanes.latest.get key = some openAt)
    (named : ∀ terminal oldest lane arm collapses,
      db.invocations.get terminal = some (.terminal (some oldest)) →
        unit.resolve terminal = some ⟨lane, arm, collapses⟩ →
          ∀ group ∈ s'.ledger.opened lane, group.arm = arm → oldest ≤ group.hi →
            s.lanes.latest.get (lane, arm) = some group.hi → s.lanes.scanned < terminal →
              s'.lanes.latest.get (lane, arm) = some group.hi) : s'.Clear unit db where
  sound := sound
  remembered := remembered
  sighted blind terminal oldest lane arm collapses row found := by
    rw [quiet.scanned]
    rw [quiet.blind] at blind
    rcases clear.sighted blind terminal oldest lane arm collapses row found with old | dropped
    · exact .inl old
    · exact quiet.dropping lane terminal dropped
  newest lane arm openAt held position collapses found := by
    rw [quiet.scanned]
    exact clear.newest lane arm openAt (latest _ _ held) position collapses found
  unrecorded lane arm openAt held := clear.unrecorded lane arm openAt (latest _ _ held)
  inside lane group member := clear.inside lane group (opened lane group member)
  recorded anyLatest sighted position invocation row := by
    rw [quiet.scanned]
    rw [quiet.blind] at sighted
    rcases clear.recorded anyLatest sighted position invocation row with old | listed
    · exact .inl old
    · exact quiet.listed position listed
  listed position member := clear.listed position (quiet.begun position member)
  ahead lane seen held above := by
    rw [quiet.scanned] at above
    have none := clear.ahead lane seen (quiet.high lane seen held) above
    refine List.eq_nil_iff_forall_not_mem.mpr ?_
    intro group member
    have was := opened lane group member
    rw [none] at was
    cases was
  pending terminal oldest lane arm collapses row found group member sameArm lower upper := by
    obtain ⟨held, below⟩ := clear.pending terminal oldest lane arm collapses row found group
      (opened lane group member) sameArm lower upper
    refine ⟨?_, quiet.scanned ▸ below⟩
    exact named terminal oldest lane arm collapses row found group member sameArm lower held below

theorem closeLatest_get_of_some {lanes : LaneState} {lane : LaneId} {group : Pending}
    {key : LaneId × Nat} {openAt : Nat}
    (held : (lanes.closeLatest lane group).get key = some openAt) :
    lanes.latest.get key = some openAt := by
  rw [Tracked.closeLatest_get] at held
  split at held
  · cases held
  · exact held

/-- An action that leaves the store alone keeps the open groups clear. -/
theorem Clear.step {db : OpDb} {s s' : Process} {act : Act} (clear : s.Clear unit db)
    (ranged : db.Ranged unit) (forgets : s.ForgetsRead act) (takes : s.TakesWhole unit db act)
    (taken : s.step unit act = some s') : s'.Clear unit db := by
  have sound := clear.sound.step taken
  have remembered := clear.remembered.step clear.sound forgets taken
  have delivered {upto : Nat} (polling : s.reader = .polling) (ahead : s.cursor ≤ upto) :
      (s.deliver unit upto).Clear unit db := by
    refine (deliver_keeps (fun s => s.Clear unit db ∧ s.reader = .polling) clear.sound.behind ahead
      ⟨clear, polling⟩ ?_).1
    rintro next ⟨clear, polling⟩
    exact ⟨clear.advance ranged polling, (assign_reader next _).trans polling⟩
  rcases deliver_or_quiet clear.sound taken with ⟨upto, polling, ahead, rfl⟩ | quiet
  · exact delivered polling ahead
  have moved := stepped_of_step taken
  cases writes_of_step clear.sound taken with
  | nothing ledger latest =>
      refine clear.less sound remembered quiet ?_ ?_ ?_
      · exact fun lane group member => ledger ▸ member
      · exact fun key openAt held => latest ▸ held
      · intro terminal oldest lane arm collapses row found group member sameArm lower held below
        rw [latest]
        exact held
  | deliver polling ahead => exact delivered polling ahead
  | @head _ thread lane group rest ready queue ledger lanes =>
      refine clear.less sound remembered quiet ?_ ?_ ?_
      · intro other kept member
        rw [ledger] at member
        exact member
      · intro key openAt held
        rw [lanes] at held
        exact closeLatest_get_of_some held
      · intro terminal oldest lane' arm collapses row found kept member sameArm lower held below
        rw [lanes]
        change (s.lanes.closeLatest lane group.toPending).get (lane', arm) = some kept.hi
        rw [Tracked.closeLatest_get, if_neg]
        · exact held
        · rintro ⟨here, named⟩
          cases here
          have queued : s.lanes.queue lane = group.toPending :: rest.map Group.toPending := by
            rw [clear.sound.tracked.queue, queue]
            rfl
          rw [held] at named
          have reached : oldest ≤ group.hi := by
            rw [← Option.some.inj named]
            exact lower
          exact takes thread lane _ _ rfl ready queued terminal oldest collapses row found
            ⟨reached, below⟩
  | @complete _ thread lane group rest settled queue ledger lanes =>
      have frozen : s.lanes.latest.get (lane, group.arm) ≠ some group.hi := by
        obtain ⟨first, later, queue', -, closed⟩ := clear.sound.working thread lane _ _ settled rfl
        rw [queue] at queue'
        obtain ⟨rfl, -⟩ := List.cons.inj queue'
        exact closed
      refine clear.less sound remembered quiet ?_ ?_ ?_
      · intro other kept member
        rw [ledger, Tracked.close_head queue] at member
        dsimp only at member
        rw [Function.update_apply] at member
        split at member
        · next same =>
            rw [same, queue]
            exact List.mem_cons_of_mem _ member
        · exact member
      · intro key openAt held
        rw [lanes, clear.sound.tracked.retire_head queue] at held
        exact closeLatest_get_of_some held
      · intro terminal oldest lane' arm collapses row found kept member sameArm lower held below
        rw [lanes, clear.sound.tracked.retire_head queue]
        dsimp only
        rw [Tracked.closeLatest_get, if_neg]
        · exact held
        · rintro ⟨here, named⟩
          cases here
          exact frozen named

/-! ## Actions that write the store -/

/-- A store whose new rows are at no named group, and lie in none of the open
ones, serves the process as well. -/
theorem Clear.restore {db db' : OpDb} {s s' : Process} (clear : s.Clear unit db)
    (sound : s'.Sound unit) (remembered : s'.Remembered unit) (lanes : s'.lanes = s.lanes)
    (ledger : s'.ledger = s.ledger) {position : Nat} (scanned : position ≤ s.lanes.scanned)
    (kept : ∀ other, db.invocations.get other ≠ none → db'.invocations.get other ≠ none)
    (only : ∀ other, db'.invocations.get other ≠ none →
      db.invocations.get other ≠ none ∨ other = position)
    (unnamed : ∀ lane arm, s.lanes.latest.get (lane, arm) ≠ some position)
    (outside : ∀ lane, ∀ group ∈ s.ledger.opened lane, ∀ collapses,
      unit.resolve position = some ⟨lane, group.arm, collapses⟩ →
        ¬(group.lo ≤ position ∧ position < group.hi))
    (sighted : s.lanes.blind = true → ∀ terminal oldest lane arm collapses,
      db'.invocations.get terminal = some (.terminal (some oldest)) →
        unit.resolve terminal = some ⟨lane, arm, collapses⟩ →
          terminal ≤ s.lanes.scanned ∨ s.lanes.seen lane terminal = true)
    (pending : ∀ terminal oldest lane arm collapses,
      db'.invocations.get terminal = some (.terminal (some oldest)) →
        unit.resolve terminal = some ⟨lane, arm, collapses⟩ →
          ∀ group ∈ s.ledger.opened lane, group.arm = arm → oldest ≤ group.hi →
            group.hi < terminal → s.lanes.latest.get (lane, arm) = some group.hi ∧
              s.lanes.scanned < terminal) : s'.Clear unit db' where
  sound := sound
  remembered := remembered
  sighted := by
    rw [lanes]
    exact sighted
  newest := by
    rw [lanes]
    exact clear.newest
  unrecorded lane arm openAt named := by
    rw [lanes] at named
    have absent := clear.unrecorded lane arm openAt named
    by_contra present
    rcases only openAt present with old | rfl
    · exact old absent
    · exact unnamed lane arm named
  inside lane group member at_position invocation collapses held found := by
    rw [ledger] at member
    rcases only at_position (by rw [held]; exact nofun) with old | rfl
    · obtain ⟨earlier, was⟩ := Option.ne_none_iff_exists'.mp old
      exact clear.inside lane group member at_position earlier collapses was found
    · exact outside lane group member collapses found
  recorded anyLatest sighted at_position invocation held := by
    rw [lanes] at sighted ⊢
    rcases only at_position (by rw [held]; exact nofun) with old | rfl
    · obtain ⟨earlier, was⟩ := Option.ne_none_iff_exists'.mp old
      exact clear.recorded anyLatest sighted at_position earlier was
    · exact .inl scanned
  listed at_position member := by
    rw [lanes] at member
    exact kept at_position (clear.listed at_position member)
  ahead lane := by
    rw [lanes, ledger]
    exact clear.ahead lane
  pending := by
    rw [lanes, ledger]
    exact pending

section InHand

variable {db : OpDb} {s : Process} {lane : LaneId} {group : Group} {rest : List Group}

/-- A frozen group is not the named one of any arm. -/
theorem Sound.unnamed (sound : s.Sound unit) (queue : s.ledger.opened lane = group :: rest)
    (closed : s.lanes.latest.get (lane, group.arm) ≠ some group.hi) (other : LaneId) (arm : Nat) :
    s.lanes.latest.get (other, arm) ≠ some group.hi := by
  intro named
  have fits := sound.tracked.fits lane group (queue ▸ List.mem_cons_self)
  obtain ⟨collapses, resolves⟩ := fits.resolved group.hi fits.hi_mem
  obtain ⟨-, found⟩ := sound.tracked.collapses other arm group.hi named
  rw [resolves] at found
  cases found
  exact closed named

/-- The head of a lane runs before anything else queued there. -/
theorem Sound.head_least (sound : s.Sound unit) (queue : s.ledger.opened lane = group :: rest)
    {other : Group} (member : other ∈ s.ledger.opened lane) : group.hi ≤ other.hi := by
  have ascending := sound.tracked.ascending lane
  rw [queue] at ascending member
  rcases List.mem_cons.mp member with rfl | later
  · exact le_refl _
  · exact Nat.le_of_lt ((List.pairwise_cons.mp ascending).1 other later)

/-- The head of a lane lies in no other group of its arm. -/
theorem Sound.head_outside (sound : s.Sound unit) (queue : s.ledger.opened lane = group :: rest)
    {other : LaneId} {kept : Group} (member : kept ∈ s.ledger.opened other) {collapses : Bool}
    (found : unit.resolve group.hi = some ⟨other, kept.arm, collapses⟩) :
    ¬(kept.lo ≤ group.hi ∧ group.hi < kept.hi) := by
  rintro ⟨lower, upper⟩
  have fits := sound.tracked.fits lane group (queue ▸ List.mem_cons_self)
  obtain ⟨_, resolves⟩ := fits.resolved group.hi fits.hi_mem
  rw [resolves] at found
  injection found with found
  have sameLane : lane = other := congrArg Resolved.lane found
  have sameArm : group.arm = kept.arm := congrArg Resolved.arm found
  subst sameLane
  have apart := sound.tracked.apart lane
  rw [queue] at apart member
  rcases List.mem_cons.mp member with rfl | later
  · exact Nat.lt_irrefl _ upper
  · have beyond := (List.pairwise_cons.mp apart).1 kept later sameArm
    exact absurd lower (Nat.not_le_of_lt beyond)

/-- A group in hand has not reached into any recorded range of its arm. -/
theorem Clear.unreached (clear : s.Clear unit db) (queue : s.ledger.opened lane = group :: rest)
    (closed : s.lanes.latest.get (lane, group.arm) ≠ some group.hi) {terminal oldest : Nat}
    {collapses : Bool} (row : db.invocations.get terminal = some (.terminal (some oldest)))
    (found : unit.resolve terminal = some ⟨lane, group.arm, collapses⟩) :
    ¬(oldest ≤ group.hi ∧ group.hi < terminal) := by
  rintro ⟨lower, upper⟩
  have member : group ∈ s.ledger.opened lane := queue ▸ List.mem_cons_self
  exact closed (clear.pending terminal oldest lane _ collapses row found group member rfl lower
    upper).1

theorem Clear.begin (clear : s.Clear unit db) {thread : Nat} {answer : InvocationState}
    (took : s.workers.get thread = some ⟨lane, .took group.work⟩)
    (queue : s.ledger.opened lane = group :: rest)
    (closed : s.lanes.latest.get (lane, group.arm) ≠ some group.hi) :
    (s.turn thread lane (answer.phase group.work)).Clear unit (db.beginInvocation group.hi).1 := by
  have sound : (s.turn thread lane (answer.phase group.work)).Sound unit := by
    refine clear.sound.turn took ?_
    cases answer <;> exact fun _ => id
  have remembered : (s.turn thread lane (answer.phase group.work)).Remembered unit :=
    clear.remembered.still ⟨rfl, rfl, rfl, rfl, rfl, rfl, rfl, fun _ _ => rfl⟩
  have scanned := clear.sound.scanned lane group (queue ▸ List.mem_cons_self)
  refine clear.restore sound remembered rfl rfl scanned ?_ ?_ (clear.sound.unnamed queue closed)
    (fun _ _ member _ => clear.sound.head_outside queue member) ?_ ?_
  · intro other held
    rw [OpDb.begin_get]
    split
    · rintro ⟨⟩
    · exact held
  · intro other held
    rw [OpDb.begin_get] at held
    split at held
    · next here => exact .inr here.1
    · exact .inl held
  · intro blind terminal oldest lane' arm collapses row
    exact clear.sighted blind terminal oldest lane' arm collapses
      ((OpDb.begin_terminal_iff db _ _ _).mp row)
  · intro terminal oldest lane' arm collapses row
    exact clear.pending terminal oldest lane' arm collapses
      ((OpDb.begin_terminal_iff db _ _ _).mp row)

theorem Clear.settle (clear : s.Clear unit db) {thread : Nat}
    (live : s.workers.get thread = some ⟨lane, .live group.work⟩)
    (queue : s.ledger.opened lane = group :: rest)
    (closed : s.lanes.latest.get (lane, group.arm) ≠ some group.hi) :
    (s.turn thread lane (.settled group.work)).Clear unit
      (db.completeInvocation group.hi group.work.collapsedFrom) := by
  have remembered : (s.turn thread lane (.settled group.work)).Remembered unit :=
    clear.remembered.still ⟨rfl, rfl, rfl, rfl, rfl, rfl, rfl, fun _ _ => rfl⟩
  have member : group ∈ s.ledger.opened lane := queue ▸ List.mem_cons_self
  have fits := clear.sound.tracked.fits lane group member
  refine clear.restore (clear.sound.turn live fun _ => id) remembered rfl rfl
    (clear.sound.scanned lane group member) ?_ ?_ (clear.sound.unnamed queue closed)
    (fun _ _ member _ => clear.sound.head_outside queue member) ?_ ?_
  · intro other held
    rw [OpDb.complete_get]
    split
    · rintro ⟨⟩
    · exact held
  · intro other held
    rw [OpDb.complete_get] at held
    split at held
    · next here => exact .inr here.1
    · exact .inl held
  · intro blind terminal oldest lane' arm collapses row found
    rw [OpDb.complete_get] at row
    split at row
    · next here => exact .inl (here.1 ▸ clear.sound.scanned lane group member)
    · exact clear.sighted blind terminal oldest lane' arm collapses row found
  · intro terminal oldest lane' arm collapses row found kept keptMem sameArm lower upper
    rw [OpDb.complete_get] at row
    split at row
    · next here =>
        -- Nothing of this lane is queued below the group in hand.
        exfalso
        obtain ⟨rfl, -⟩ := here
        obtain ⟨_, resolves⟩ := fits.resolved group.hi fits.hi_mem
        rw [resolves] at found
        cases found
        have least := clear.sound.head_least queue keptMem
        omega
    · exact clear.pending terminal oldest lane' arm collapses row found kept keptMem sameArm lower
        upper

end InHand

end Process

/-! ## The recorded ranges -/

namespace OpDb.Ranged

variable {unit : EffectUnit} {db : OpDb} {s : Process} {lane : LaneId} {group : Group}
  {rest : List Group}

theorem begin (ranged : db.Ranged unit) (clear : s.Clear unit db)
    (queue : s.ledger.opened lane = group :: rest)
    (closed : s.lanes.latest.get (lane, group.arm) ≠ some group.hi) :
    (db.beginInvocation group.hi).1.Ranged unit where
  ordered terminal oldest resolved row :=
    ranged.ordered terminal oldest resolved ((begin_terminal_iff db _ _ _).mp row)
  alone terminal oldest resolved row found position invocation held found' inside := by
    have was := (begin_terminal_iff db _ _ _).mp row
    rw [begin_get] at held
    split at held
    · next here =>
        obtain ⟨rfl, -⟩ := here
        have fits := clear.sound.tracked.fits lane group (queue ▸ List.mem_cons_self)
        obtain ⟨collapses, resolves⟩ := fits.resolved group.hi fits.hi_mem
        rw [resolves] at found'
        cases found'
        exact clear.unreached queue closed was found inside
    · exact ranged.alone terminal oldest resolved was found position invocation held found' inside

theorem settle (ranged : db.Ranged unit) (clear : s.Clear unit db)
    (queue : s.ledger.opened lane = group :: rest) :
    (db.completeInvocation group.hi group.work.collapsedFrom).Ranged unit := by
  have member : group ∈ s.ledger.opened lane := queue ▸ List.mem_cons_self
  have fits := clear.sound.tracked.fits lane group member
  obtain ⟨collapses, resolves⟩ := fits.resolved group.hi fits.hi_mem
  have folded {oldest : Nat} (range : group.work.collapsedFrom = some oldest) :
      oldest = group.lo ∧ group.lo < group.hi := by
    obtain ⟨order, same⟩ := Option.ite_none_right_eq_some.mp range
    exact ⟨(Option.some.inj same).symm, order⟩
  have older {position : Nat} {invocation : Invocation}
      (held : (db.completeInvocation group.hi group.work.collapsedFrom).invocations.get position =
        some invocation) : ∃ earlier, db.invocations.get position = some earlier := by
    rw [complete_get] at held
    split at held
    · next here => exact Option.ne_none_iff_exists'.mp here.2
    · exact ⟨invocation, held⟩
  refine ⟨?_, ?_⟩
  · intro terminal oldest resolved row found
    rw [complete_get] at row
    split at row
    · next here =>
        obtain ⟨rfl, -⟩ := here
        obtain ⟨rfl, order⟩ := folded (Invocation.terminal.inj (Option.some.inj row))
        refine ⟨order, ?_⟩
        rw [resolves] at found
        cases found
        rcases fits.alone with collapsing | single
        · rw [resolves] at collapsing
          cases collapsing
          rfl
        · have only := fits.lo_mem
          rw [single, List.mem_singleton] at only
          omega
    · exact ranged.ordered terminal oldest resolved row found
  · intro terminal oldest resolved row found position invocation held found' inside
    obtain ⟨earlier, was⟩ := older held
    rw [complete_get] at row
    split at row
    · next here =>
        obtain ⟨rfl, -⟩ := here
        obtain ⟨rfl, -⟩ := folded (Invocation.terminal.inj (Option.some.inj row))
        rw [resolves] at found
        cases found
        exact clear.inside lane group member position earlier collapses was found' inside
    · exact ranged.alone terminal oldest resolved row found position earlier was found' inside

end OpDb.Ranged

/-! ## Restarts -/

namespace OpDb

theorem get_of_mem_invocationsAbove {db : OpDb} {after limit position : Nat}
    (member : position ∈ db.invocationsAbove after limit) :
    db.invocations.get position ≠ none := by
  have sorted := List.mem_of_mem_take member
  rw [List.mem_insertionSort, List.mem_filter, Table.mem_keys_iff] at sorted
  obtain ⟨⟨invocation, held⟩, -⟩ := sorted
  rw [held]
  exact nofun

/-- A listing shorter than its limit leaves nothing out. -/
theorem mem_invocationsAbove {db : OpDb} {after limit position : Nat}
    (short : (db.invocationsAbove after (limit + 1)).length ≤ limit) {invocation : Invocation}
    (held : db.invocations.get position = some invocation) (above : after < position) :
    position ∈ db.invocationsAbove after (limit + 1) := by
  unfold invocationsAbove at short ⊢
  rw [List.length_take] at short
  rw [List.take_of_length_le (by omega), List.mem_insertionSort, List.mem_filter,
    Table.mem_keys_iff]
  exact ⟨⟨invocation, held⟩, decide_eq_true above⟩

end OpDb

namespace World

variable {unit : EffectUnit}

/-- What keeps the recorded ranges of a world whole: a process that could not
read everything recorded has no range of its own to run into, the lanes are
forgotten only at marks that were read past, and no group is taken up half way
through a range. -/
structure RangesWhole (unit : EffectUnit) (w : World) (act : WorldAct) : Prop where
  boot : act = .boot → recordedMax < (recorded unit w.db).length →
    ∀ terminal oldest resolved, w.db.invocations.get terminal = some (.terminal (some oldest)) →
      unit.resolve terminal = some resolved → terminal ≤ w.db.watermark ∨
        ∃ row, w.db.lanes.get resolved.lane = some row ∧ terminal ≤ row
  forget : ∀ s next, act = .act next → w.process = some s → s.ForgetsRead next
  head : ∀ s next, act = .act next → w.process = some s → s.TakesWhole unit w.db next

theorem clear_boot {w : World} (whole : w.RangesWhole unit .boot) :
    (bootProcess unit w.db).Clear unit w.db where
  sound := Process.sound_boot unit _ _ _ _
  remembered := Process.remembered_boot unit _ _ _ _
  sighted blind terminal oldest lane arm collapses row found := by
    rcases whole.boot rfl (of_decide_eq_true blind) terminal oldest _ row found with old | dropped
    · exact .inl old
    · exact .inr ((Process.seen_iff _ _ _).mpr dropped)
  newest lane arm openAt named := by
    change (∅ : Table (LaneId × Nat) Nat).get (lane, arm) = some openAt at named
    rw [Table.get_empty] at named
    cases named
  unrecorded lane arm openAt named := by
    change (∅ : Table (LaneId × Nat) Nat).get (lane, arm) = some openAt at named
    rw [Table.get_empty] at named
    cases named
  inside lane group member := by cases member
  recorded anyLatest sighted position invocation held := by
    rcases Nat.lt_or_ge w.db.watermark position with above | old
    · right
      have short : (recorded unit w.db).length ≤ recordedMax :=
        Nat.le_of_not_lt (of_decide_eq_false sighted)
      change position ∈ recorded unit w.db
      unfold recorded at short ⊢
      rw [if_pos anyLatest] at short ⊢
      exact OpDb.mem_invocationsAbove short held above
    · exact .inl old
  listed position member := by
    change position ∈ recorded unit w.db at member
    unfold recorded at member
    split at member
    · exact OpDb.get_of_mem_invocationsAbove member
    · cases member
  ahead lane seen held above := rfl
  pending terminal oldest lane arm collapses row found group member := by cases member

structure Clear (unit : EffectUnit) (w : World) : Prop where
  stored : w.db.Ranged unit
  process : ∀ s, w.process = some s → s.Clear unit w.db

theorem clear_start (unit : EffectUnit) : ({} : World).Clear unit where
  stored := by
    have none (position : Nat) : (∅ : Table Nat Invocation).get position = none :=
      Table.get_empty position
    refine ⟨?_, ?_⟩
    · intro terminal oldest resolved row
      rw [none] at row
      cases row
    · intro terminal oldest resolved row
      rw [none] at row
      cases row
  process s up := by cases up

/-- Only a reservation and a completion touch the invocation rows. -/
theorem stores_invocations {db db' : OpDb} {s : Process} {act : Act}
    (stored : stores db s act = some db') (reserves : ∀ thread answer, act ≠ .begin thread answer)
    (completes : ∀ thread, act ≠ .settle thread) : db'.invocations = db.invocations := by
  unfold stores at stored
  split at stored
  · exact absurd rfl (reserves _ _)
  · exact absurd rfl (completes _)
  · split at stored
    · cases stored
      split <;> rfl
    · cases stored
  · split at stored
    · cases stored
      rfl
    · cases stored
  · split at stored
    · cases stored
      rfl
    · cases stored
  · obtain ⟨-, same⟩ := Option.ite_none_right_eq_some.mp stored
    cases same
    rfl
  · cases stored
    rfl

theorem Clear.step {w w' : World} {act : WorldAct} (clear : w.Clear unit)
    (whole : w.RangesWhole unit act) (taken : w.step unit act = some w') : w'.Clear unit := by
  have kept {db : OpDb} {s : Process} (stored : db.Ranged unit) (process : s.Clear unit db) :
      World.Clear unit ⟨db, some s⟩ :=
    ⟨stored, fun other same => Option.some.inj same ▸ process⟩
  have others {next : Act} (same : act = .act next)
      (reserves : ∀ thread answer, next ≠ .begin thread answer)
      (completes : ∀ thread, next ≠ .settle thread) : w'.Clear unit := by
    subst same
    obtain ⟨s, db, s', up, stored, moved, rfl⟩ := act_cases taken
    have rows := stores_invocations stored reserves completes
    have process := (clear.process s up).step clear.stored (whole.forget s next rfl up)
      (whole.head s next rfl up) moved
    exact kept (clear.stored.congr rows) (process.congr rows)
  cases stepped_of_step taken with
  | boot down => exact kept clear.stored (clear_boot whole)
  | crash up =>
      refine ⟨clear.stored, ?_⟩
      intro s impossible
      cases impossible
  | begin up took answers =>
      have process := clear.process _ up
      obtain ⟨group, rest, queue, rfl, closed⟩ := process.sound.working _ _ _ _ took rfl
      exact kept (clear.stored.begin process queue closed) (process.begin took queue closed)
  | settle up live =>
      have process := clear.process _ up
      obtain ⟨group, rest, queue, rfl, closed⟩ := process.sound.working _ _ _ _ live rfl
      exact kept (clear.stored.settle process queue) (process.settle live queue closed)
  | recordRow up owing => exact others rfl nofun nofun
  | writeMark up marked => exact others rfl nofun nofun
  | sweepRows up sweeping => exact others rfl nofun nofun
  | quiet up moved plain =>
      refine others rfl ?_ ?_
      · rintro thread answer rfl
        exact plain (.begin thread answer)
      · rintro thread rfl
        exact plain (.settle thread)

theorem clear_of_run {acts : List WorldAct} {w : World} (ran : run (step unit) {} acts = some w)
    (whole : Guarded (step unit) (RangesWhole unit) {} acts) : w.Clear unit :=
  run_invariant_of_guarded (Clear unit) (fun _ _ _ clear whole taken => clear.step whole taken)
    (clear_start unit) whole ran

/-- A terminal invocation of the position's own arm and lane has the position in
its recorded range. -/
def Superseded (unit : EffectUnit) (w : World) (position : Nat) : Prop :=
  ∃ terminal collapsedFrom resolved,
    w.db.invocations.get terminal = some (.terminal collapsedFrom) ∧
      unit.resolve terminal = some resolved ∧ unit.resolve position = some resolved ∧
        collapsedFrom.getD terminal ≤ position ∧ position ≤ terminal

/-- Across any crashes and restarts, and however the log is redelivered, as long
as the recorded ranges stay whole: the position a worker invokes is in no range
that has reached a terminal status. -/
theorem superseded_not_invoked (unit : EffectUnit) (acts : List WorldAct) (w w' : World)
    (ran : run (step unit) {} acts = some w)
    (whole : Guarded (step unit) (RangesWhole unit) {} acts) (s : Process) (thread : Nat)
    (lane : LaneId) (work : Work) (up : w.process = some s)
    (took : s.workers.get thread = some ⟨lane, .took work⟩)
    (taken : w.step unit (.act (.begin thread .running)) = some w') :
    ¬w.Superseded unit work.position := by
  have clear := clear_of_run ran whole
  have process := clear.process s up
  obtain ⟨group, rest, queue, rfl, closed⟩ := process.sound.working _ _ _ _ took rfl
  rintro ⟨terminal, collapsedFrom, resolved, row, found, found', lower, upper⟩
  have fits := process.sound.tracked.fits lane group (queue ▸ List.mem_cons_self)
  obtain ⟨_, resolves⟩ := fits.resolved group.hi fits.hi_mem
  change unit.resolve group.hi = some resolved at found'
  rw [resolves] at found'
  cases found'
  change terminal ≥ group.hi at upper
  rcases Nat.eq_or_lt_of_le upper with rfl | below
  · -- The reservation would have answered that the invocation is terminal.
    cases stepped_of_step taken with
    | @begin s' _ lane' work' _ up' took' answers =>
        rw [up] at up'
        cases up'
        rw [took] at took'
        cases took'
        unfold OpDb.beginInvocation at answers
        change w.db.invocations.get group.work.position = _ at row
        rw [row] at answers
        cases answers
    | quiet _ _ plain => exact plain (.begin thread .running)
  · cases collapsedFrom with
    | none => exact absurd below (Nat.not_lt_of_le lower)
    | some oldest => exact process.unreached queue closed row found ⟨lower, below⟩

/-- A worker that takes up a group reaching into a recorded range, of which only a part is
scanned, is let to invoke it, and the range has the position it invokes. -/
theorem superseded_of_half_taken {acts : List WorldAct} {w : World}
    (ran : run (step unit) {} acts = some w)
    (whole : Guarded (step unit) (RangesWhole unit) {} acts) {s : Process} {thread : Nat}
    (up : w.process = some s) (half : ¬s.TakesWhole unit w.db (.head thread)) :
    ∃ next s' lane work, w.step unit (.act (.head thread)) = some next ∧
      next.process = some s' ∧ s'.workers.get thread = some ⟨lane, .took work⟩ ∧
      (next.step unit (.act (.begin thread .running))).isSome = true ∧
      next.Superseded unit work.position := by
  have clear := clear_of_run ran whole
  have process := clear.process s up
  simp only [Process.TakesWhole, not_forall, not_not] at half
  obtain ⟨thread', lane, pending, rest, same, ready, queue, terminal, oldest, collapses, row, found,
    lower, unread⟩ := half
  cases same
  obtain ⟨group, later, opened, rfl, -⟩ := List.map_eq_cons_iff.mp
    ((process.sound.tracked.queue lane).symm.trans queue)
  have member : group ∈ s.ledger.opened lane := opened ▸ List.mem_cons_self
  have fits := process.sound.tracked.fits lane group member
  obtain ⟨_, resolves⟩ := fits.resolved group.hi fits.hi_mem
  have alike := EffectUnit.resolve_eq resolves found rfl rfl
  have below : group.hi < terminal :=
    Nat.lt_of_le_of_lt (process.sound.scanned lane group member) unread
  -- The representative of the range is the only one of its arm that has an invocation.
  have absent : w.db.invocations.get group.hi = none :=
    clear.stored.absent row found (alike ▸ resolves) lower below
  have headed : s.lanes.head lane =
      ({ s.lanes with latest := s.lanes.closeLatest lane group.toPending }, some group.work) := by
    unfold LaneState.head
    rw [queue]
    rfl
  have took : (s.head thread lane).workers.get thread = some ⟨lane, .took group.work⟩ := by
    unfold Process.head
    rw [headed]
    exact (Table.get_set _ _ _ _).trans (if_pos rfl)
  have taken : w.step unit (.act (.head thread)) = some ⟨w.db, some (s.head thread lane)⟩ := by
    simp only [step, up, stores, Process.step, ready]
  have begins : (step unit ⟨w.db, some (s.head thread lane)⟩ (.act (.begin thread .running))).isSome =
      true := by
    have running : (w.db.beginInvocation group.work.position).2 = .running := by
      unfold OpDb.beginInvocation
      rw [show w.db.invocations.get group.work.position = none from absent]
    simp only [step, stores, Process.step, took, running, if_true, Option.isSome_some]
  exact ⟨_, _, lane, group.work, taken, rfl, took, begins, terminal, some oldest, _, row, found,
    alike ▸ resolves, lower, Nat.le_of_lt below⟩

/-- A boot within the limit, and a group taken up once every recorded position is
scanned, keep the ranges whole. -/
def caughtUp (unit : EffectUnit) (w : World) : WorldAct → Bool
  | .boot => (recorded unit w.db).length ≤ recordedMax
  | .act .forgetMark => false
  | .act (.head _) =>
      w.process.all fun s => w.db.invocations.keys.all fun position => position ≤ s.lanes.scanned
  | _ => true

theorem rangesWhole_of_caughtUp {w : World} {act : WorldAct} (caught : w.caughtUp unit act = true) :
    w.RangesWhole unit act where
  boot same many := by
    subst same
    exact absurd many (Nat.not_lt_of_le (of_decide_eq_true caught))
  forget s next same up mark forgets := by
    subst same forgets
    cases caught
  head s next same up := by
    rintro thread lane group rest rfl ready queue terminal oldest collapses row found ⟨-, beyond⟩
    subst same
    unfold caughtUp at caught
    rw [up] at caught
    have listed := (Table.mem_keys_iff w.db.invocations terminal).mpr ⟨_, row⟩
    have scanned := of_decide_eq_true (List.all_eq_true.mp caught terminal listed)
    exact absurd beyond (Nat.not_lt_of_le scanned)

/-- Three edits of one shop; edits collapse. -/
def edits : EffectUnit :=
  .ofLog [⟨["edited"], .latest⟩]
    [("edited", ⟨"i:1"⟩), ("edited", ⟨"i:1"⟩), ("edited", ⟨"i:1"⟩)]

/-- Two edits run as one, and the process dies before anything else is written. -/
def editsFolded : List WorldAct :=
  [.boot, .act (.deliver 2), .act (.claim 0 ⟨"i:1"⟩), .act (.head 0), .act (.begin 0 .running),
    .act (.settle 0), .crash]

/-- The next process reads all three edits before a worker takes the lane up. -/
def readWhole : List WorldAct :=
  [.boot, .act (.deliver 3), .act (.claim 0 ⟨"i:1"⟩), .act (.head 0),
    .act (.begin 0 .alreadyTerminal), .act (.complete 0), .act (.head 0)]

theorem superseded_not_invoked_of_readWhole :
    ∃ w w' s work, run (step edits) {} (editsFolded ++ readWhole) = some w ∧
      w.process = some s ∧ s.workers.get 0 = some ⟨⟨"i:1"⟩, .took work⟩ ∧
      w.step edits (.act (.begin 0 .running)) = some w' ∧ ¬w.Superseded edits work.position := by
  have ended : (run (step edits) {} (editsFolded ++ readWhole)).any (fun w =>
      decide ((w.step edits (.act (.begin 0 .running))).isSome ∧
        w.process.any fun s => s.workers.get 0 = some ⟨⟨"i:1"⟩, .took ⟨3, none⟩⟩)) = true := by
    decide
  obtain ⟨w, ran, holds⟩ := (Option.any_eq_true _ _).mp ended
  obtain ⟨begins, works⟩ := of_decide_eq_true holds
  obtain ⟨w', taken⟩ := Option.isSome_iff_exists.mp begins
  obtain ⟨s, up, took⟩ := (Option.any_eq_true _ _).mp works
  have caught : Guarded (step edits) (fun w act => w.caughtUp edits act = true) {}
      (editsFolded ++ readWhole) := by decide
  have whole := Guarded.imp (fun _ _ => rangesWhole_of_caughtUp) caught
  exact ⟨w, w', s, _, ran, up, of_decide_eq_true took, taken,
    superseded_not_invoked edits _ w w' ran whole s 0 _ _ up (of_decide_eq_true took) taken⟩

/-- The next process reads the first edit alone, and a worker takes it up. -/
def readHalf : List WorldAct :=
  [.boot, .act (.deliver 1), .act (.claim 0 ⟨"i:1"⟩), .act (.head 0)]

/-- The first edit is invoked although the recorded range of the second one has
it, and that invocation is terminal. -/
theorem superseded_invoked :
    ∃ w w' s work, run (step edits) {} (editsFolded ++ readHalf) = some w ∧
      w.process = some s ∧ s.workers.get 0 = some ⟨⟨"i:1"⟩, .took work⟩ ∧
      w.step edits (.act (.begin 0 .running)) = some w' ∧ w.Superseded edits work.position := by
  have ended : (run (step edits) {} (editsFolded ++ readHalf)).any (fun w =>
      decide ((w.step edits (.act (.begin 0 .running))).isSome ∧
        w.db.invocations.get 2 = some (.terminal (some 1)) ∧
        w.process.any fun s => s.workers.get 0 = some ⟨⟨"i:1"⟩, .took ⟨1, none⟩⟩)) = true := by
    decide
  obtain ⟨w, ran, holds⟩ := (Option.any_eq_true _ _).mp ended
  obtain ⟨begins, row, works⟩ := of_decide_eq_true holds
  obtain ⟨w', taken⟩ := Option.isSome_iff_exists.mp begins
  obtain ⟨s, up, took⟩ := (Option.any_eq_true _ _).mp works
  exact ⟨w, w', s, _, ran, up, of_decide_eq_true took, taken, 2, some 1, ⟨⟨"i:1"⟩, 0, true⟩, row,
    by decide, by decide, by decide, by decide⟩

end World

end Hekla.Effect
