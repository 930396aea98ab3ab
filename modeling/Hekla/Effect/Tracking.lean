import Hekla.Effect.Exclusion

/-!
# The history describes the lanes

`Tracked` says that the groups of the history are the groups in the queues, that
they ascend and stay apart, and that the open group of an arm, the high-water of
a lane and the in-flight set name what the history says they do.  It holds in
every state of every run.
-/

namespace Hekla.Effect

open Hekla.Library Hekla.Lanes

/-- A group of `lane`: its members are positions of its arm in that lane, from
`lo` to `hi`, and there is only one unless the arm collapses there. -/
structure Group.Fits (unit : EffectUnit) (lane : LaneId) (group : Group) : Prop where
  lo_mem : group.lo ∈ group.members
  hi_mem : group.hi ∈ group.members
  bounds : ∀ position ∈ group.members, group.lo ≤ position ∧ position ≤ group.hi
  resolved : ∀ position ∈ group.members, ∃ collapses,
    unit.resolve position = some ⟨lane, group.arm, collapses⟩
  alone : unit.resolve group.hi = some ⟨lane, group.arm, true⟩ ∨ group.members = [group.hi]

theorem Group.Fits.lo_le_hi {unit : EffectUnit} {lane : LaneId} {group : Group}
    (fits : group.Fits unit lane) : group.lo ≤ group.hi :=
  (fits.bounds group.hi fits.hi_mem).1

theorem Group.fits_single {unit : EffectUnit} {position : Nat} {resolved : Resolved}
    (found : unit.resolve position = some resolved) :
    (Group.single position resolved.arm).Fits unit resolved.lane where
  lo_mem := List.mem_singleton_self _
  hi_mem := List.mem_singleton_self _
  bounds other member := by
    rw [List.mem_singleton.mp member]
    exact ⟨le_refl _, le_refl _⟩
  resolved other member := by
    rw [List.mem_singleton.mp member]
    exact ⟨resolved.collapsible, found⟩
  alone := .inr rfl

theorem Group.Fits.absorb {unit : EffectUnit} {position : Nat} {lane : LaneId} {group : Group}
    (fits : group.Fits unit lane) (later : group.hi < position)
    (found : unit.resolve position = some ⟨lane, group.arm, true⟩) :
    (group.absorb position).Fits unit lane where
  lo_mem := List.mem_append_left _ fits.lo_mem
  hi_mem := List.mem_append_right _ (List.mem_singleton_self _)
  bounds other member := by
    change group.lo ≤ other ∧ other ≤ position
    rcases List.mem_append.mp member with old | new
    · have within := fits.bounds other old
      omega
    · have same := List.mem_singleton.mp new
      have order := fits.lo_le_hi
      omega
  resolved other member := by
    rcases List.mem_append.mp member with old | new
    · exact fits.resolved other old
    · rw [List.mem_singleton.mp new]
      exact ⟨true, found⟩
  alone := .inl found

/-- The lane states of a dispatcher and the history of its run agree. -/
structure Tracked (unit : EffectUnit) (lanes : LaneState) (ledger : Ledger) : Prop where
  queue : ∀ lane, lanes.queue lane = (ledger.opened lane).map Group.toPending
  fits : ∀ lane, ∀ group ∈ ledger.opened lane, group.Fits unit lane
  ascending : ∀ lane, (ledger.opened lane).Pairwise fun first second => first.hi < second.hi
  apart : ∀ lane, (ledger.opened lane).Pairwise fun first second =>
    first.arm = second.arm → first.hi < second.lo
  high : ∀ lane, ∀ group ∈ ledger.opened lane, ∃ seen, lanes.high.get lane = some seen ∧
    group.hi ≤ seen
  latest : ∀ lane arm openAt, lanes.latest.get (lane, arm) = some openAt →
    ∃ group ∈ ledger.opened lane, group.arm = arm ∧ group.hi = openAt ∧
      ∀ other ∈ ledger.opened lane, other.arm = arm → other.hi ≤ openAt
  collapses : ∀ lane arm openAt, lanes.latest.get (lane, arm) = some openAt →
    lanes.blind = false ∧ unit.resolve openAt = some ⟨lane, arm, true⟩
  inflight : ∀ oldest lane, lanes.inflight.get oldest = some lane ↔
    ∃ group ∈ ledger.opened lane, group.lo = oldest

namespace Tracked

variable {unit : EffectUnit} {lanes : LaneState} {ledger : Ledger}

theorem boot (unit : EffectUnit) (resume : Nat) (rows : Table LaneId Nat) (begun : List Nat)
    (blind : Bool) : Tracked unit (LaneState.resuming resume rows begun blind) {} where
  queue lane := by
    have none : (∅ : Table LaneId (List Pending)).get lane = none := Table.get_empty lane
    change ((∅ : Table LaneId (List Pending)).get lane).getD [] = []
    rw [none]
    rfl
  fits lane group member := by cases member
  ascending lane := List.Pairwise.nil
  apart lane := List.Pairwise.nil
  high lane group member := by cases member
  latest lane arm openAt named := by
    change (∅ : Table (LaneId × Nat) Nat).get (lane, arm) = some openAt at named
    rw [Table.get_empty] at named
    cases named
  collapses lane arm openAt named := by
    change (∅ : Table (LaneId × Nat) Nat).get (lane, arm) = some openAt at named
    rw [Table.get_empty] at named
    cases named
  inflight oldest lane := by
    change (∅ : Table Nat LaneId).get oldest = some lane ↔ _
    rw [Table.get_empty]
    simp

/-- The agreement looks at nothing but the queues, the open groups, the
high-waters, the in-flight set and whether the dispatcher is blind. -/
theorem congr {after : LaneState} (tracked : Tracked unit lanes ledger)
    (queues : after.queues = lanes.queues) (latest : after.latest = lanes.latest)
    (high : after.high = lanes.high) (inflight : after.inflight = lanes.inflight)
    (blind : after.blind = lanes.blind) : Tracked unit after ledger where
  queue lane := by
    unfold LaneState.queue
    rw [queues]
    exact tracked.queue lane
  fits := tracked.fits
  ascending := tracked.ascending
  apart := tracked.apart
  high := by
    rw [high]
    exact tracked.high
  latest := by
    rw [latest]
    exact tracked.latest
  collapses := by
    rw [latest, blind]
    exact tracked.collapses
  inflight := by
    rw [inflight]
    exact tracked.inflight

theorem sameWork {after : LaneState} (tracked : Tracked unit lanes ledger)
    (same : SameWork lanes after) : Tracked unit after ledger :=
  tracked.congr same.queues same.latest same.high same.inflight same.blind

/-! ## Admission -/

theorem eq_of_hi_eq (tracked : Tracked unit lanes ledger) {lane : LaneId} {first second : Group}
    (member : first ∈ ledger.opened lane) (member' : second ∈ ledger.opened lane)
    (same : first.hi = second.hi) : first = second := by
  by_contra different
  have apart : (ledger.opened lane).Pairwise fun first second => first.hi ≠ second.hi :=
    (tracked.ascending lane).imp Nat.ne_of_lt
  have : Std.Symm fun first second : Group => first.hi ≠ second.hi :=
    ⟨fun _ _ unequal => unequal.symm⟩
  exact apart.forall member member' different same

/-- What the group of an admitted position is: a new one, or the open group of
its arm, taken out of the queue and widened. -/
theorem entered_cases (tracked : Tracked unit lanes ledger) (lane : LaneId) (position arm : Nat)
    (declared : Bool) :
    (lanes.superseded lane arm declared = none ∧
        Ledger.entered (ledger.opened lane) (lanes.superseded lane arm declared) position arm =
          ledger.opened lane ++ [Group.single position arm]) ∨
      ∃ before taken after, ledger.opened lane = before ++ taken :: after ∧
        lanes.superseded lane arm declared = some taken.toPending ∧
        Ledger.entered (ledger.opened lane) (lanes.superseded lane arm declared) position arm =
          before ++ after ++ [taken.absorb position] ∧
        lanes.withoutSuperseded lane arm declared =
          (before ++ after).map Group.toPending ∧
        lanes.collapsible declared = true ∧ taken.arm = arm ∧
        lanes.latest.get (lane, arm) = some taken.hi ∧ ∀ other ∈ after, other.arm ≠ arm := by
  cases found : lanes.superseded lane arm declared with
  | none => exact .inl ⟨rfl, rfl⟩
  | some opened =>
      right
      have split := found
      unfold LaneState.superseded at split
      obtain ⟨collapses, named⟩ := Option.ite_none_right_eq_some.mp split
      obtain ⟨openAt, latest, search⟩ := Option.bind_eq_some_iff.mp named
      rw [tracked.queue, List.find?_map, Option.map_eq_some_iff] at search
      obtain ⟨taken, search, rfl⟩ := search
      obtain ⟨isOpen, before, after, groups, notBefore⟩ := List.find?_eq_some_iff_append.mp search
      have hi : taken.hi = openAt := by
        have both := (Bool.and_eq_true _ _).mp isOpen
        exact eq_of_beq both.1
      have sameArm : taken.arm = arm := by
        have both := (Bool.and_eq_true _ _).mp isOpen
        exact eq_of_beq both.2
      subst hi
      have erased : (ledger.opened lane).eraseP
          (fun group => LaneState.isOpen taken.hi arm group.toPending) = before ++ after := by
        rw [groups, List.eraseP_append_right]
        · exact congrArg (before ++ ·) (List.eraseP_cons_of_pos isOpen)
        · intro group member holds
          have fails := notBefore group member
          simp only [Function.comp_apply, Bool.not_eq_eq_eq_not, Bool.not_true] at fails
          rw [fails] at holds
          cases holds
      refine ⟨before, taken, after, groups, rfl, ?_, ?_, collapses, sameArm, latest, ?_⟩
      · have again : (ledger.opened lane).find?
            (fun group => LaneState.isOpen taken.hi arm group.toPending) = some taken := search
        simp only [Ledger.entered, Option.bind_some, again, erased]
      · unfold LaneState.withoutSuperseded
        rw [found]
        dsimp only
        rw [tracked.queue, List.eraseP_map]
        exact congrArg (List.map Group.toPending) erased
      · intro other member same
        obtain ⟨newest, -, -, hi, newestOf⟩ := tracked.latest lane arm taken.hi latest
        have inQueue : other ∈ ledger.opened lane := by
          rw [groups]
          exact List.mem_append_right _ (List.mem_cons_of_mem _ member)
        have notLater := newestOf other inQueue same
        have ascending := tracked.ascending lane
        rw [groups] at ascending
        have later := (List.pairwise_cons.mp (List.pairwise_append.mp ascending).2.1).1 other member
        omega

/-- The open group named for an arm is the one a collapsing position takes over. -/
theorem superseded_of_latest (tracked : Tracked unit lanes ledger) {lane : LaneId}
    {arm openAt : Nat} {declared : Bool} (latest : lanes.latest.get (lane, arm) = some openAt)
    (collapses : lanes.collapsible declared = true) :
    ∃ taken ∈ ledger.opened lane, taken.hi = openAt ∧
      lanes.superseded lane arm declared = some taken.toPending := by
  obtain ⟨group, member, sameArm, hi, -⟩ := tracked.latest lane arm openAt latest
  have present : (lanes.superseded lane arm declared).isSome = true := by
    unfold LaneState.superseded
    rw [if_pos collapses, latest, Option.bind_some, tracked.queue, List.find?_isSome]
    refine ⟨group.toPending, List.mem_map_of_mem member, ?_⟩
    unfold LaneState.isOpen
    rw [hi, sameArm]
    simp
  obtain ⟨opened, supersedes⟩ := Option.isSome_iff_exists.mp present
  rcases tracked.entered_cases lane 0 arm declared with ⟨none, -⟩ | split
  · rw [none] at supersedes
    cases supersedes
  · obtain ⟨before, taken, after, groups, found, -, -, -, -, named, -⟩ := split
    rw [latest] at named
    refine ⟨taken, ?_, (Option.some.inj named).symm, found⟩
    rw [groups]
    exact List.mem_append_right _ List.mem_cons_self

theorem lt_of_fresh {lane : LaneId} {position seen : Nat}
    (fresh : lanes.seen lane position = false) (high : lanes.high.get lane = some seen) :
    seen < position := by
  unfold LaneState.seen at fresh
  rw [high] at fresh
  simpa using fresh

/-- A position its lane has not seen lies above every group queued there. -/
theorem hi_lt_of_fresh (tracked : Tracked unit lanes ledger) {lane : LaneId} {position : Nat}
    (fresh : lanes.seen lane position = false) {group : Group}
    (member : group ∈ ledger.opened lane) : group.hi < position := by
  obtain ⟨seen, high, below⟩ := tracked.high lane group member
  exact Nat.lt_of_le_of_lt below (lt_of_fresh fresh high)

/-- The open group of an arm after a position has entered. -/
theorem latest_enter (lane : LaneId) (position arm : Nat) (declared : Bool) (key : LaneId × Nat) :
    (lanes.enter lane position arm declared).latest.get key =
      if key = (lane, arm) ∧ lanes.collapsible declared = true then
        if lanes.begun.contains position then none else some position
      else lanes.latest.get key := by
  change (if lanes.supersedable position declared then lanes.latest.set (lane, arm) position
    else if lanes.collapsible declared then lanes.latest.remove (lane, arm)
    else lanes.latest).get key = _
  unfold LaneState.supersedable
  cases lanes.collapsible declared with
  | false => simp
  | true =>
      cases lanes.begun.contains position with
      | false => simp
      | true => simp

theorem queue_enter (lane : LaneId) (position arm : Nat) (declared : Bool) (other : LaneId) :
    (lanes.enter lane position arm declared).queue other =
      if other = lane then
        lanes.withoutSuperseded lane arm declared ++
          [LaneState.entering (lanes.superseded lane arm declared) position arm]
      else lanes.queue other := by
  change ((lanes.queues.set lane _).get other).getD [] = _
  rw [Table.get_set]
  split <;> rfl

theorem opened_enter (lane : LaneId) (position arm : Nat) (declared : Bool) (other : LaneId) :
    (ledger.enter lanes lane position arm declared).opened other =
      if other = lane then
        Ledger.entered (ledger.opened lane) (lanes.superseded lane arm declared) position arm
      else ledger.opened other := by
  change Function.update ledger.opened lane _ other = _
  rw [Function.update_apply]

/-- Which groups the lane holds after a position has entered: those there were,
less the one taken over, and the one the position became. -/
theorem mem_entered (tracked : Tracked unit lanes ledger) {lane : LaneId} {position arm : Nat}
    {declared : Bool} {group : Group}
    (member : group ∈ Ledger.entered (ledger.opened lane) (lanes.superseded lane arm declared)
      position arm) :
    (group ∈ ledger.opened lane ∧ ∀ taken, lanes.superseded lane arm declared =
        some taken → group.toPending ≠ taken) ∨
      (group = Group.single position arm ∧ lanes.superseded lane arm declared = none) ∨
        ∃ taken ∈ ledger.opened lane, group = taken.absorb position ∧ taken.arm = arm ∧
          lanes.superseded lane arm declared = some taken.toPending ∧
          lanes.latest.get (lane, arm) = some taken.hi ∧ lanes.collapsible declared = true := by
  rcases tracked.entered_cases lane position arm declared with ⟨none, eq⟩ | split
  · rw [eq] at member
    rcases List.mem_append.mp member with old | new
    · refine .inl ⟨old, ?_⟩
      intro taken some
      rw [none] at some
      cases some
    · exact .inr (.inl ⟨List.mem_singleton.mp new, none⟩)
  · obtain ⟨before, taken, after, groups, found, eq, -, collapses, arm_eq, latest, -⟩ := split
    rw [eq] at member
    have ascending := tracked.ascending lane
    rw [groups] at ascending
    obtain ⟨-, tail, across⟩ := List.pairwise_append.mp ascending
    have takenMem : taken ∈ ledger.opened lane := by
      rw [groups]
      exact List.mem_append_right _ List.mem_cons_self
    rcases List.mem_append.mp member with old | new
    · left
      rcases List.mem_append.mp old with front | back
      · have order := across group front taken List.mem_cons_self
        refine ⟨groups ▸ List.mem_append_left _ front, ?_⟩
        intro other some same
        rw [found] at some
        cases some
        rw [same] at order
        exact Nat.lt_irrefl _ order
      · have order := (List.pairwise_cons.mp tail).1 group back
        refine ⟨groups ▸ List.mem_append_right _ (List.mem_cons_of_mem _ back), ?_⟩
        intro other some same
        rw [found] at some
        cases some
        rw [same] at order
        exact Nat.lt_irrefl _ order
    · exact .inr (.inr ⟨taken, takenMem, List.mem_singleton.mp new, arm_eq, found, latest,
        collapses⟩)

/-- The converse: nothing but the group taken over leaves the lane. -/
theorem mem_entered_of_mem (tracked : Tracked unit lanes ledger) {lane : LaneId}
    (position arm : Nat) (declared : Bool) {group : Group} (member : group ∈ ledger.opened lane) :
    group ∈ Ledger.entered (ledger.opened lane) (lanes.superseded lane arm declared) position arm ∨
      (lanes.superseded lane arm declared = some group.toPending ∧ group.arm = arm ∧
        lanes.latest.get (lane, arm) = some group.hi ∧
        group.absorb position ∈ Ledger.entered (ledger.opened lane)
          (lanes.superseded lane arm declared) position arm) := by
  rcases tracked.entered_cases lane position arm declared with ⟨-, eq⟩ | split
  · rw [eq]
    exact .inl (List.mem_append_left _ member)
  · obtain ⟨before, taken, after, groups, found, eq, -, -, arm_eq, latest, -⟩ := split
    rw [eq]
    rw [groups] at member
    rcases List.mem_append.mp member with front | back
    · exact .inl (List.mem_append_left _ (List.mem_append_left _ front))
    · rcases List.mem_cons.mp back with same | back
      · subst same
        exact .inr ⟨found, arm_eq, latest, List.mem_append_right _ (List.mem_singleton_self _)⟩
      · exact .inl (List.mem_append_left _ (List.mem_append_right _ back))

/-- Admitting a position its lane has not seen keeps the agreement. -/
theorem enter (tracked : Tracked unit lanes ledger) {position : Nat} {resolved : Resolved}
    (found : unit.resolve position = some resolved)
    (fresh : lanes.seen resolved.lane position = false) :
    Tracked unit (lanes.enter resolved.lane position resolved.arm resolved.collapsible)
      (ledger.enter lanes resolved.lane position resolved.arm resolved.collapsible) := by
  obtain ⟨lane, arm, declared⟩ := resolved
  have below {group : Group} (member : group ∈ ledger.opened lane) : group.hi < position :=
    tracked.hi_lt_of_fresh fresh member
  have declares (collapses : lanes.collapsible declared = true) : declared = true := by
    unfold LaneState.collapsible at collapses
    exact ((Bool.and_eq_true _ _).mp collapses).1
  -- Whether an open group is named for this arm is settled by the arm, not by the position.
  have agrees {openAt : Nat} (latest : lanes.latest.get (lane, arm) = some openAt) :
      lanes.collapsible declared = true := by
    obtain ⟨sighted, named⟩ := tracked.collapses lane arm openAt latest
    have same := EffectUnit.collapsible_eq found named rfl rfl
    dsimp only at same
    unfold LaneState.collapsible
    rw [same, sighted]
    rfl
  constructor
  · intro other
    rw [queue_enter, opened_enter]
    split
    · rcases tracked.entered_cases lane position arm declared with ⟨none, eq⟩ | split
      · rw [eq, List.map_append, ← tracked.queue]
        unfold LaneState.withoutSuperseded
        rw [none]
        rfl
      · obtain ⟨before, taken, after, groups, some, eq, without, -, arm_eq, -, -⟩ := split
        rw [eq, without, some]
        subst arm_eq
        simp only [List.map_append, List.map_cons, List.map_nil]
        rfl
    · exact tracked.queue other
  · intro other group member
    rw [opened_enter] at member
    split at member
    · next same =>
        subst same
        rcases tracked.mem_entered member with ⟨old, -⟩ | ⟨rfl, -⟩ | taking
        · exact tracked.fits other group old
        · exact Group.fits_single found
        · obtain ⟨taken, old, rfl, rfl, -, -, collapses⟩ := taking
          refine (tracked.fits other taken old).absorb (below old) ?_
          rw [found, declares collapses]
    · exact tracked.fits other group member
  · intro other
    rw [opened_enter]
    split
    · rcases tracked.entered_cases lane position arm declared with ⟨-, eq⟩ | split
      · rw [eq]
        refine List.pairwise_append.mpr ⟨tracked.ascending lane, List.pairwise_singleton _ _, ?_⟩
        intro group member last new
        rw [List.mem_singleton.mp new]
        exact below member
      · obtain ⟨before, taken, after, groups, -, eq, -⟩ := split
        have sub : (before ++ after).Sublist (ledger.opened lane) := by
          rw [groups]
          exact (List.sublist_cons_self _ _).append_left before
        rw [eq]
        refine List.pairwise_append.mpr
          ⟨(tracked.ascending lane).sublist sub, List.pairwise_singleton _ _, ?_⟩
        intro group member last new
        rw [List.mem_singleton.mp new]
        exact below (sub.subset member)
    · exact tracked.ascending other
  · intro other
    rw [opened_enter]
    split
    · rcases tracked.entered_cases lane position arm declared with ⟨-, eq⟩ | split
      · rw [eq]
        refine List.pairwise_append.mpr ⟨tracked.apart lane, List.pairwise_singleton _ _, ?_⟩
        intro group member last new _
        rw [List.mem_singleton.mp new]
        exact below member
      · obtain ⟨before, taken, after, groups, -, eq, -, -, arm_eq, -, others⟩ := split
        have sub : (before ++ after).Sublist (ledger.opened lane) := by
          rw [groups]
          exact (List.sublist_cons_self _ _).append_left before
        have apart := tracked.apart lane
        rw [groups] at apart
        have ahead := (List.pairwise_append.mp apart).2.2
        rw [eq]
        refine List.pairwise_append.mpr
          ⟨(tracked.apart lane).sublist sub, List.pairwise_singleton _ _, ?_⟩
        intro group member last new sameArm
        rw [List.mem_singleton.mp new] at sameArm ⊢
        rcases List.mem_append.mp member with front | back
        · exact ahead group front taken List.mem_cons_self sameArm
        · exact absurd (sameArm.trans arm_eq) (others group back)
    · exact tracked.apart other
  · intro other group member
    have high : (lanes.enter lane position arm declared).high.get other =
        if other = lane then some position else lanes.high.get other := Table.get_set ..
    rw [high]
    rw [opened_enter] at member
    split at member
    · next same =>
        rw [if_pos same]
        refine ⟨position, rfl, ?_⟩
        rcases tracked.mem_entered member with ⟨old, -⟩ | ⟨rfl, -⟩ | taking
        · exact Nat.le_of_lt (below old)
        · exact le_refl _
        · obtain ⟨taken, -, rfl, -⟩ := taking
          exact le_refl _
    · next different =>
        rw [if_neg different]
        exact tracked.high other group member
  · intro other arm' openAt latest
    rw [latest_enter] at latest
    rw [opened_enter]
    split at latest
    · next here =>
        obtain ⟨same, collapses⟩ := here
        cases same
        rw [if_pos rfl]
        split at latest
        · cases latest
        · cases latest
          have bounded (group : Group)
              (member : group ∈ Ledger.entered (ledger.opened lane)
                (lanes.superseded lane arm declared) position arm) : group.hi ≤ position := by
            rcases tracked.mem_entered member with ⟨old, -⟩ | ⟨rfl, -⟩ | taking
            · exact Nat.le_of_lt (below old)
            · exact le_refl _
            · obtain ⟨taken, -, rfl, -⟩ := taking
              exact le_refl _
          rcases tracked.entered_cases lane position arm declared with ⟨-, eq⟩ | split
          · exact ⟨Group.single position arm, eq ▸ by simp, rfl, rfl,
              fun group member _ => bounded group member⟩
          · obtain ⟨before, taken, after, -, -, eq, -, -, arm_eq, -⟩ := split
            exact ⟨taken.absorb position, eq ▸ by simp, arm_eq, rfl,
              fun group member _ => bounded group member⟩
    · next elsewhere =>
        obtain ⟨group, member, sameArm, hi, newest⟩ := tracked.latest other arm' openAt latest
        split
        · next same =>
            subst same
            have differs : arm' ≠ arm := by
              rintro rfl
              exact elsewhere ⟨rfl, agrees latest⟩
            refine ⟨group, ?_, sameArm, hi, ?_⟩
            · rcases tracked.mem_entered_of_mem position arm declared member with kept | ⟨-, taken, -⟩
              · exact kept
              · exact absurd (sameArm.symm.trans taken) differs
            · intro later laterMem laterArm
              rcases tracked.mem_entered laterMem with ⟨old, -⟩ | ⟨rfl, -⟩ | taking
              · exact newest later old laterArm
              · exact absurd laterArm.symm differs
              · obtain ⟨taken, -, rfl, taken_arm, -⟩ := taking
                exact absurd (laterArm.symm.trans taken_arm) differs
        · exact ⟨group, member, sameArm, hi, newest⟩
  · intro other arm' openAt latest
    rw [latest_enter] at latest
    split at latest
    · next here =>
        obtain ⟨same, collapses⟩ := here
        cases same
        split at latest
        · cases latest
        · cases latest
          refine ⟨?_, ?_⟩
          · change lanes.blind = false
            unfold LaneState.collapsible at collapses
            simpa using ((Bool.and_eq_true _ _).mp collapses).2
          · rw [found, declares collapses]
    · exact tracked.collapses other arm' openAt latest
  · intro oldest other
    rw [opened_enter]
    change (if (lanes.superseded lane arm declared).isSome then lanes.inflight
      else lanes.inflight.set position lane).get oldest = some other ↔ _
    by_cases same : other = lane
    · subst same
      rw [if_pos rfl]
      constructor
      · intro listed
        have cases : (oldest = position ∧ lanes.superseded other arm declared = none) ∨
            lanes.inflight.get oldest = some other := by
          cases supersedes : lanes.superseded other arm declared with
          | none =>
              rw [supersedes] at listed
              simp only [Option.isSome_none, Bool.false_eq_true, if_false, Table.get_set] at listed
              split at listed
              · next at_position => exact .inl ⟨at_position, rfl⟩
              · exact .inr listed
          | some taken =>
              rw [supersedes] at listed
              exact .inr listed
        rcases cases with ⟨rfl, none⟩ | old
        · refine ⟨Group.single oldest arm, ?_, rfl⟩
          simp [Ledger.entered, none]
        · obtain ⟨group, member, lo⟩ := (tracked.inflight oldest other).mp old
          rcases tracked.mem_entered_of_mem position arm declared member with kept | ⟨-, -, -, absorbed⟩
          · exact ⟨group, kept, lo⟩
          · exact ⟨group.absorb position, absorbed, lo⟩
      · rintro ⟨group, member, rfl⟩
        rcases tracked.mem_entered member with ⟨old, -⟩ | ⟨rfl, none⟩ | taking
        · have listed := (tracked.inflight group.lo other).mpr ⟨group, old, rfl⟩
          split
          · exact listed
          · rw [Table.get_set]
            split
            · rfl
            · exact listed
        · rw [none]
          simp [Group.single]
        · obtain ⟨taken, old, rfl, -, some, -⟩ := taking
          rw [some]
          exact (tracked.inflight taken.lo other).mpr ⟨taken, old, rfl⟩
    · rw [if_neg same, ← tracked.inflight]
      split
      · rfl
      · rw [Table.get_set]
        split
        · next at_position =>
            subst at_position
            refine ⟨fun listed => absurd (Option.some.inj listed).symm same, ?_⟩
            intro listed
            obtain ⟨group, member, lo⟩ := (tracked.inflight oldest other).mp listed
            have fits := tracked.fits other group member
            obtain ⟨_, resolves⟩ := fits.resolved group.lo fits.lo_mem
            rw [lo, found] at resolves
            cases resolves
            exact absurd rfl same
        · rfl

/-! ## Working a lane -/

theorem closeLatest_get (lane : LaneId) (group : Pending) (key : LaneId × Nat) :
    (lanes.closeLatest lane group).get key =
      if key = (lane, group.arm) ∧ lanes.latest.get key = some group.hi then none
      else lanes.latest.get key := by
  unfold LaneState.closeLatest
  by_cases here : key = (lane, group.arm)
  · subst here
    split <;> simp_all
  · split <;> simp [here]

/-- Naming fewer open groups keeps the agreement. -/
theorem closing (tracked : Tracked unit lanes ledger) (lane : LaneId) (group : Pending) :
    Tracked unit { lanes with latest := lanes.closeLatest lane group } ledger where
  queue := tracked.queue
  fits := tracked.fits
  ascending := tracked.ascending
  apart := tracked.apart
  high := tracked.high
  latest other arm openAt named := by
    change (lanes.closeLatest lane group).get (other, arm) = some openAt at named
    rw [closeLatest_get] at named
    split at named
    · cases named
    · exact tracked.latest other arm openAt named
  collapses other arm openAt named := by
    change (lanes.closeLatest lane group).get (other, arm) = some openAt at named
    rw [closeLatest_get] at named
    split at named
    · cases named
    · exact tracked.collapses other arm openAt named
  inflight := tracked.inflight

theorem head_none {lane : LaneId} (tracked : Tracked unit lanes ledger)
    (empty : ledger.opened lane = []) : lanes.head lane = (lanes, none) := by
  unfold LaneState.head
  rw [tracked.queue, empty]
  rfl

theorem head_some {lane : LaneId} {group : Group} {rest : List Group}
    (tracked : Tracked unit lanes ledger) (queue : ledger.opened lane = group :: rest) :
    lanes.head lane =
      ({ lanes with latest := lanes.closeLatest lane group.toPending }, some group.work) := by
  unfold LaneState.head
  rw [tracked.queue, queue]
  rfl

theorem retire_head {lane : LaneId} {group : Group} {rest : List Group}
    (tracked : Tracked unit lanes ledger) (queue : ledger.opened lane = group :: rest) :
    lanes.retire lane group.hi =
      { lanes with
        queues := if rest.isEmpty then lanes.queues.remove lane
          else lanes.queues.set lane (rest.map Group.toPending)
        latest := lanes.closeLatest lane group.toPending
        inflight := lanes.inflight.remove group.lo
        skipPromoted := lanes.skipPromoted.erase (lane, group.hi) } := by
  have popped : lanes.retiring lane group.hi =
      some (group.toPending, rest.map Group.toPending) := by
    unfold LaneState.retiring
    rw [tracked.queue, queue]
    simp
  unfold LaneState.retire
  rw [popped]
  simp only [List.isEmpty_map]

theorem close_head {lane : LaneId} {group : Group} {rest : List Group}
    (queue : ledger.opened lane = group :: rest) :
    ledger.close lane group.hi =
      { ledger with
        opened := Function.update ledger.opened lane rest
        closed := Function.update ledger.closed lane (ledger.closed lane ++ [group]) } := by
  unfold Ledger.close
  rw [queue]
  simp

/-- Retiring the group at the head of a lane keeps the agreement. -/
theorem retire {lane : LaneId} {group : Group} {rest : List Group}
    (tracked : Tracked unit lanes ledger) (queue : ledger.opened lane = group :: rest) :
    Tracked unit (lanes.retire lane group.hi) (ledger.close lane group.hi) := by
  rw [tracked.retire_head queue, close_head queue]
  have opened (other : LaneId) : Function.update ledger.opened lane rest other =
      if other = lane then rest else ledger.opened other := Function.update_apply ..
  have sub (other : LaneId) :
      (Function.update ledger.opened lane rest other).Sublist (ledger.opened other) := by
    rw [opened]
    split
    · next same =>
        rw [same, queue]
        exact List.sublist_cons_self _ _
    · exact List.Sublist.refl _
  have closed := tracked.closing lane group.toPending
  constructor
  · intro other
    dsimp only
    rw [opened]
    unfold LaneState.queue
    dsimp only
    by_cases same : other = lane
    · subst same
      rw [if_pos rfl]
      cases rest with
      | nil => simp
      | cons next later => simp
    · rw [if_neg same, ← tracked.queue]
      cases rest with
      | nil => simp [same, LaneState.queue]
      | cons next later => simp [same, LaneState.queue]
  · intro other kept member
    exact tracked.fits other kept ((sub other).subset member)
  · intro other
    exact (tracked.ascending other).sublist (sub other)
  · intro other
    exact (tracked.apart other).sublist (sub other)
  · intro other kept member
    exact tracked.high other kept ((sub other).subset member)
  · intro other arm openAt named
    change (lanes.closeLatest lane group.toPending).get (other, arm) = some openAt at named
    obtain ⟨newest, member, sameArm, hi, newestOf⟩ := closed.latest other arm openAt named
    refine ⟨newest, ?_, sameArm, hi, ?_⟩
    · dsimp only
      rw [opened]
      split
      · next same =>
          subst same
          rw [queue] at member
          rcases List.mem_cons.mp member with first | later
          · subst first
            rw [closeLatest_get] at named
            split at named
            · cases named
            · next stillNamed =>
                exact absurd ⟨by rw [sameArm], named.trans (by rw [hi])⟩ stillNamed
          · exact later
      · exact member
    · intro kept member' arm_eq
      exact newestOf kept ((sub other).subset member') arm_eq
  · exact closed.collapses
  · intro oldest other
    change (lanes.inflight.remove group.lo).get oldest = some other ↔
      ∃ kept ∈ Function.update ledger.opened lane rest other, kept.lo = oldest
    rw [Table.get_remove, opened]
    have fits := tracked.fits lane group (queue ▸ List.mem_cons_self)
    split
    · next at_lo =>
        subst at_lo
        refine ⟨by rintro ⟨⟩, ?_⟩
        rintro ⟨kept, member, lo⟩
        exfalso
        split at member
        · next same =>
            subst same
            have apart := tracked.apart other
            rw [queue] at apart
            have ascending := tracked.ascending other
            rw [queue] at ascending
            have order := (List.pairwise_cons.mp ascending).1 kept member
            have inQueue : kept ∈ ledger.opened other := queue ▸ List.mem_cons_of_mem _ member
            have keptFits := tracked.fits other kept inQueue
            obtain ⟨_, resolves⟩ := fits.resolved group.lo fits.lo_mem
            obtain ⟨_, resolves'⟩ := keptFits.resolved kept.lo keptFits.lo_mem
            rw [lo, resolves] at resolves'
            injection resolves' with same
            have sameArm : group.arm = kept.arm := congrArg Resolved.arm same
            have gap := (List.pairwise_cons.mp apart).1 kept member sameArm
            have := fits.lo_le_hi
            omega
        · next different =>
            have keptFits := tracked.fits other kept member
            obtain ⟨_, resolves⟩ := fits.resolved group.lo fits.lo_mem
            obtain ⟨_, resolves'⟩ := keptFits.resolved kept.lo keptFits.lo_mem
            rw [lo, resolves] at resolves'
            injection resolves' with same
            exact different (congrArg Resolved.lane same).symm
    · next elsewhere =>
        rw [tracked.inflight]
        split
        · next same =>
            subst same
            rw [queue]
            constructor
            · rintro ⟨kept, member, lo⟩
              rcases List.mem_cons.mp member with first | later
              · exact absurd (first ▸ lo).symm elsewhere
              · exact ⟨kept, later, lo⟩
            · rintro ⟨kept, member, lo⟩
              exact ⟨kept, List.mem_cons_of_mem _ member, lo⟩
        · rfl

/-- Forgetting at a mark below every open group keeps the agreement. -/
theorem forget (tracked : Tracked unit lanes ledger) {mark : Nat}
    (below : ∀ lane, ∀ group ∈ ledger.opened lane, mark < group.lo) :
    Tracked unit (lanes.forget mark) ledger :=
  { tracked with
    high := by
      intro lane group member
      obtain ⟨seen, high, order⟩ := tracked.high lane group member
      refine ⟨seen, ?_, order⟩
      change (lanes.high.retain fun _ seen => mark < seen).get lane = some seen
      have bounds := (tracked.fits lane group member).lo_le_hi
      have above := below lane group member
      rw [Table.get_retain, high, Option.filter_some, if_pos]
      exact decide_eq_true (by omega)
    queue := tracked.queue
    latest := tracked.latest
    collapses := tracked.collapses
    inflight := tracked.inflight }

end Tracked

end Hekla.Effect
