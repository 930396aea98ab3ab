import Hekla.Effect.Handlings

/-!
# Collapse partitions what a lane admits

The groups a lane ever had, retired and queued, ascend by the position that
runs, and the groups of one arm stand for disjoint ranges.  Work that was once
handed out is a retired group or the frozen group at the head, so it never
changes afterwards.
-/

namespace Hekla.Effect

open Hekla.Library Hekla.Lanes

namespace Process

variable {unit : EffectUnit}

/-- The history of every lane is a partition, in the order the lane ran it. -/
structure Partitioned (s : Process) : Prop where
  ascending : ∀ lane, (s.ledger.groups lane).Pairwise fun first second => first.hi < second.hi
  apart : ∀ lane, (s.ledger.groups lane).Pairwise fun first second =>
    first.arm = second.arm → first.hi < second.lo
  once : ∀ lane, (s.ledger.admitted lane).Pairwise fun first second => first.1 < second.1
  handed : ∀ lane, (s.ledger.handed lane).Pairwise fun first second =>
    first.position < second.position ∨ first = second
  fixed : ∀ lane, ∀ work ∈ s.ledger.handed lane,
    (∃ group ∈ s.ledger.closed lane, group.work = work) ∨ Frozen s.lanes s.ledger lane work

theorem partitioned_boot (resume : Nat) (rows : Table LaneId Nat) (begun : List Nat)
    (blind : Bool) : (boot resume rows begun blind).Partitioned where
  ascending _ := List.Pairwise.nil
  apart _ := List.Pairwise.nil
  once _ := List.Pairwise.nil
  handed _ := List.Pairwise.nil
  fixed lane work member := by cases member

theorem hi_le_scanned {s : Process} (accounted : s.Accounted unit) {lane : LaneId} {group : Group}
    (member : group ∈ s.ledger.groups lane) : group.hi ≤ s.lanes.scanned :=
  (accounted.positive lane group.hi group.arm (accounted.members lane group member group.hi
    (accounted.fits lane group member).hi_mem)).2

theorem Partitioned.congr {s s' : Process} (partitioned : s.Partitioned)
    (ledger : s'.ledger = s.ledger)
    (frozen : ∀ lane work, Frozen s.lanes s.ledger lane work →
      Frozen s'.lanes s.ledger lane work) : s'.Partitioned where
  ascending := by
    rw [ledger]
    exact partitioned.ascending
  apart := by
    rw [ledger]
    exact partitioned.apart
  once := by
    rw [ledger]
    exact partitioned.once
  handed := by
    rw [ledger]
    exact partitioned.handed
  fixed := by
    rw [ledger]
    exact fun lane work member => (partitioned.fixed lane work member).imp_right (frozen lane work)

/-- A new position joins a partition: it lies above everything scanned, so above
every group there is. -/
theorem Partitioned.offer {s : Process} (partitioned : s.Partitioned)
    (accounted : s.Accounted unit) (sound : s.Sound unit) {position : Nat} {resolved : Resolved}
    (found : unit.resolve position = some resolved)
    (fresh : s.lanes.seen resolved.lane position = false) (new : s.lanes.scanned < position) :
    (s.offer position resolved).Partitioned := by
  have tracked := sound.tracked.enter found fresh
  have above {lane : LaneId} {group : Group} (member : group ∈ s.ledger.groups lane) :
      group.hi < position := Nat.lt_of_le_of_lt (hi_le_scanned accounted member) new
  rw [offer_of_fresh fresh]
  constructor
  · intro lane
    have before := List.pairwise_append.mp (partitioned.ascending lane)
    refine List.pairwise_append.mpr ⟨before.1, tracked.ascending lane, ?_⟩
    intro first retired second queued
    rcases mem_opened_enter sound.tracked queued with old | ⟨-, rfl | ⟨taken, -, rfl, -⟩⟩
    · exact before.2.2 first retired second old
    · exact above (List.mem_append_left _ retired)
    · exact above (List.mem_append_left _ retired)
  · intro lane
    have before := List.pairwise_append.mp (partitioned.apart lane)
    refine List.pairwise_append.mpr ⟨before.1, tracked.apart lane, ?_⟩
    intro first retired second queued sameArm
    rcases mem_opened_enter sound.tracked queued with old | ⟨rfl, rfl | ⟨taken, old, rfl, -⟩⟩
    · exact before.2.2 first retired second old sameArm
    · exact above (List.mem_append_left _ retired)
    · exact before.2.2 first retired taken old sameArm
  · intro lane
    dsimp only
    rw [admitted_enter]
    split
    · refine List.pairwise_append.mpr ⟨partitioned.once _, List.pairwise_singleton _ _, ?_⟩
      rintro ⟨earlier, arm⟩ member ⟨later, arm'⟩ last
      cases List.mem_singleton.mp last
      exact Nat.lt_of_le_of_lt (accounted.positive _ earlier arm member).2 new
    · exact partitioned.once lane
  · exact partitioned.handed
  · intro lane work member
    refine (partitioned.fixed lane work member).imp_right ?_
    exact fun frozen => frozen_enter sound.tracked fresh frozen

theorem Partitioned.advance {s : Process} (partitioned : s.Partitioned)
    (accounted : s.Accounted unit) (sound : s.Sound unit) (remembered : s.Remembered unit) :
    (s.advance unit).Partitioned := by
  rcases advance_cases unit s with ⟨eq, -⟩ | ⟨resolved, found, fresh, eq⟩
  · rw [eq]
    exact partitioned.congr rfl fun _ _ => id
  · rw [eq]
    have joined := partitioned.offer accounted sound found fresh (remembered.scanned_lt found fresh)
    exact joined.congr rfl fun _ _ => id

/-- Handing out the head of a lane: what was handed out before lies below it, or
is the same work again. -/
theorem Partitioned.hand {s s' : Process} (partitioned : s.Partitioned) {lane : LaneId}
    {group : Group} {rest : List Group} (queue : s.ledger.opened lane = group :: rest)
    (ledger : s'.ledger = s.ledger.hand lane group.work)
    (lanes : s'.lanes = { s.lanes with latest := s.lanes.closeLatest lane group.toPending }) :
    s'.Partitioned where
  ascending := by
    rw [ledger]
    exact partitioned.ascending
  apart := by
    rw [ledger]
    exact partitioned.apart
  once := by
    rw [ledger]
    exact partitioned.once
  handed other := by
    rw [ledger]
    change (Function.update s.ledger.handed lane _ other).Pairwise _
    rw [Function.update_apply]
    split
    · refine List.pairwise_append.mpr ⟨partitioned.handed lane, List.pairwise_singleton _ _, ?_⟩
      intro earlier member now last
      rw [List.mem_singleton.mp last]
      rcases partitioned.fixed lane earlier member with ⟨retired, closed, rfl⟩ | frozen
      · have order := (List.pairwise_append.mp (partitioned.ascending lane)).2.2
        exact .inl (order retired closed group (queue ▸ List.mem_cons_self))
      · obtain ⟨first, later, again, rfl, -⟩ := frozen
        rw [queue] at again
        cases again
        exact .inr rfl
    · exact partitioned.handed other
  fixed other work member := by
    rw [ledger] at member ⊢
    rw [lanes]
    change work ∈ Function.update s.ledger.handed lane _ other at member
    rw [Function.update_apply] at member
    have old (was : work ∈ s.ledger.handed other) :=
      (partitioned.fixed other work was).imp_right fun frozen =>
        frozen_closing frozen lane group.toPending
    split at member
    · next same =>
        subst same
        rcases List.mem_append.mp member with before | now
        · exact old before
        · rw [List.mem_singleton.mp now]
          refine .inr ⟨group, rest, queue, rfl, ?_⟩
          change (s.lanes.closeLatest other group.toPending).get (other, group.arm) ≠ _
          rw [Tracked.closeLatest_get]
          split
          · rintro ⟨⟩
          · next open_still => exact fun named => open_still ⟨rfl, named⟩
    · exact old member

theorem Partitioned.close {s s' : Process} (partitioned : s.Partitioned) (sound : s.Sound unit)
    {lane : LaneId} {group : Group} {rest : List Group}
    (queue : s.ledger.opened lane = group :: rest)
    (ledger : s'.ledger = s.ledger.close lane group.hi)
    (lanes : s'.lanes = s.lanes.retire lane group.hi) : s'.Partitioned where
  ascending other := by
    rw [ledger, groups_close queue]
    exact partitioned.ascending other
  apart other := by
    rw [ledger, groups_close queue]
    exact partitioned.apart other
  once := by
    rw [ledger, admitted_close]
    exact partitioned.once
  handed := by
    rw [ledger, Tracked.close_head queue]
    exact partitioned.handed
  fixed other work member := by
    rw [ledger, Tracked.close_head queue] at member ⊢
    rw [lanes, sound.tracked.retire_head queue]
    rcases partitioned.fixed other work member with ⟨retired, closed, rfl⟩ | frozen
    · refine .inl ⟨retired, ?_, rfl⟩
      dsimp only
      rw [Function.update_apply]
      split
      · next same =>
          subst same
          exact List.mem_append_left _ closed
      · exact closed
    · by_cases same : other = lane
      · subst same
        obtain ⟨first, later, again, rfl, -⟩ := frozen
        rw [queue] at again
        cases again
        refine .inl ⟨group, ?_, rfl⟩
        dsimp only
        rw [Function.update_apply, if_pos rfl]
        exact List.mem_append_right _ (List.mem_singleton_self _)
      · right
        obtain ⟨first, later, here, is_work, closed⟩ := frozen_closing frozen lane group.toPending
        refine ⟨first, later, ?_, is_work, closed⟩
        dsimp only
        rw [Function.update_apply, if_neg same]
        exact here

theorem Partitioned.step {s s' : Process} {act : Act} (partitioned : s.Partitioned)
    (accounted : s.Accounted unit) (sound : s.Sound unit) (remembered : s.Remembered unit)
    (taken : s.step unit act = some s') : s'.Partitioned := by
  cases writes_of_step sound taken with
  | nothing ledger latest =>
      refine partitioned.congr ledger ?_
      rintro lane work ⟨group, rest, queue, is_work, closed⟩
      exact ⟨group, rest, queue, is_work, latest ▸ closed⟩
  | deliver polling ahead =>
      refine (deliver_keeps (fun s => s.Partitioned ∧ s.Accounted unit ∧ s.Sound unit ∧
        s.Remembered unit ∧ s.reader = .polling) sound.behind ahead
        ⟨partitioned, accounted, sound, remembered, polling⟩ ?_).1
      rintro s ⟨partitioned, accounted, sound, remembered, polling⟩
      exact ⟨partitioned.advance accounted sound remembered, accounted.advance sound,
        sound.advance polling, remembered.advance sound.behind, (assign_reader s _).trans polling⟩
  | head ready queue ledger lanes => exact partitioned.hand queue ledger lanes
  | complete settled queue ledger lanes => exact partitioned.close sound queue ledger lanes

theorem partitioned_of_run {resume : Nat} {rows : Table LaneId Nat} {begun : List Nat}
    {blind : Bool} {acts : List Act} {s : Process}
    (ran : run (step unit) (boot resume rows begun blind) acts = some s)
    (guarded : Guarded (step unit) ForgetsRead (boot resume rows begun blind) acts) :
    s.Partitioned := by
  refine (run_invariant_of_guarded
    (fun s => s.Partitioned ∧ s.Accounted unit ∧ s.Sound unit ∧ s.Remembered unit) ?_
    ⟨partitioned_boot resume rows begun blind, accounted_boot unit resume rows begun blind,
      sound_boot unit resume rows begun blind, remembered_boot unit resume rows begun blind⟩
    guarded ran).1
  rintro s act s' ⟨partitioned, accounted, sound, remembered⟩ ok taken
  exact ⟨partitioned.step accounted sound remembered taken, accounted.step sound taken,
    sound.step taken, remembered.step sound ok taken⟩

/-- What was handed out stays handed out. -/
theorem handed_mono {s s' : Process} {act : Act} (sound : s.Sound unit)
    (taken : s.step unit act = some s') {lane : LaneId} {work : Work}
    (handed : work ∈ s.ledger.handed lane) : work ∈ s'.ledger.handed lane := by
  cases writes_of_step sound taken with
  | nothing ledger latest =>
      rw [ledger]
      exact handed
  | deliver polling ahead =>
      refine deliver_keeps (fun next => work ∈ next.ledger.handed lane) sound.behind ahead handed ?_
      intro next kept
      rcases advance_cases unit next with ⟨eq, -⟩ | ⟨resolved, -, fresh, eq⟩
      · rw [eq]
        exact kept
      · rw [eq, offer_of_fresh fresh]
        exact kept
  | @head _ _ other group rest ready queue ledger lanes =>
      rw [ledger]
      change work ∈ Function.update s.ledger.handed other _ lane
      rw [Function.update_apply]
      split
      · next same =>
          subst same
          exact List.mem_append_left _ handed
      · exact handed
  | complete settled queue ledger lanes =>
      rw [ledger, Tracked.close_head queue]
      exact handed

theorem handed_of_run {s s' : Process} {acts : List Act} (sound : s.Sound unit)
    (ran : run (step unit) s acts = some s') {lane : LaneId} {work : Work}
    (handed : work ∈ s.ledger.handed lane) : work ∈ s'.ledger.handed lane := by
  refine (run_invariant (fun s => s.Sound unit ∧ work ∈ s.ledger.handed lane) ?_
    ⟨sound, handed⟩ ran).2
  rintro s act s' ⟨sound, handed⟩ taken
  exact ⟨sound.step taken, handed_mono sound taken handed⟩

/-! ## The handlings of one lane -/

/-- What a lane has out, as its workers and the history have it. -/
def HasOut (s : Process) (lane : LaneId) : Hold → Prop
  | .idle => ∀ thread, s.inHand lane thread = none
  | .working work => work ∈ s.ledger.handed lane ∧ ∃ thread, s.inHand lane thread = some work
  | .waiting work => (∀ thread, s.inHand lane thread = none) ∧ work ∈ s.ledger.handed lane ∧
      ∀ group ∈ s.ledger.closed lane, group.work ≠ work

theorem Partitioned.closed_below {s : Process} (partitioned : s.Partitioned) {lane : LaneId}
    {group : Group} {rest : List Group} (queue : s.ledger.opened lane = group :: rest) :
    ∀ retired ∈ s.ledger.closed lane, retired.hi < group.hi := by
  intro retired closed
  have order := (List.pairwise_append.mp (partitioned.ascending lane)).2.2
  exact order retired closed group (queue ▸ List.mem_cons_self)

/-- All that a lane's threads have in hand is one work. -/
theorem Sound.inHand_eq {s : Process} (sound : s.Sound unit) {lane : LaneId}
    {thread other : Nat} {work work' : Work} (held : s.inHand lane thread = some work)
    (held' : s.inHand lane other = some work') : work = work' := by
  obtain ⟨phase, working, -⟩ := worker_of_inHand held
  by_cases same : other = thread
  · rw [same, held] at held'
    exact Option.some.inj held'
  · rw [inHand_unique sound.placed (owner_of_worker working) same] at held'
    cases held'

/-- Work in hand has not been retired. -/
theorem Partitioned.inHand_open {s : Process} (partitioned : s.Partitioned)
    (sound : s.Sound unit) {lane : LaneId} {thread : Nat} {work : Work}
    (held : s.inHand lane thread = some work) :
    ∀ group ∈ s.ledger.closed lane, group.work ≠ work := by
  obtain ⟨phase, working, inPhase⟩ := worker_of_inHand held
  obtain ⟨first, rest, queue, rfl, -⟩ := sound.working thread lane phase work working inPhase
  intro group closed same
  have below := partitioned.closed_below queue group closed
  exact Nat.ne_of_lt below (congrArg Work.position same)

/-- One action takes an orderly history of a lane to an orderly one. -/
theorem orderly_step {s s' : Process} {act : Act} (partitioned : s.Partitioned)
    (sound : s.Sound unit) (taken : s.step unit act = some s') {lane : LaneId}
    {trace : List Handling} {hold : Hold}
    (orderly : Orderly trace ((s.ledger.closed lane).map fun group => group.work) hold)
    (hasOut : s.HasOut lane hold) :
    ∃ after, Orderly (trace ++ (s.handling lane act).toList)
      ((s'.ledger.closed lane).map fun group => group.work) after ∧ s'.HasOut lane after := by
  cases handles_of_step sound taken lane with
  | nothing shown closed handed inHand =>
      rw [shown, closed, Option.toList_none, List.append_nil]
      refine ⟨hold, orderly, ?_⟩
      cases hold <;> simpa only [HasOut, closed, handed, inHand] using hasOut
  | @hand thread group rest shown queue closed handed free takes =>
      rw [shown, closed]
      have out : s'.HasOut lane (.working group.work) := by
        refine ⟨?_, thread, takes⟩
        rw [handed]
        exact List.mem_append_right _ (List.mem_singleton_self _)
      cases hold with
      | idle =>
          refine ⟨_, .hand orderly ?_, out⟩
          intro earlier member
          obtain ⟨retired, closed, rfl⟩ := List.mem_map.mp member
          exact partitioned.closed_below queue retired closed
      | working work =>
          obtain ⟨-, other, held⟩ := hasOut
          rw [free] at held
          cases held
      | waiting work =>
          obtain ⟨-, before, neverClosed⟩ := hasOut
          rcases partitioned.fixed lane work before with ⟨retired, closed, same⟩ | frozen
          · exact absurd same (neverClosed retired closed)
          · obtain ⟨first, later, again, rfl, -⟩ := frozen
            rw [queue] at again
            cases again
            exact ⟨_, .again orderly, out⟩
  | complete shown held closed handed free =>
      rw [shown, closed, List.map_append, List.map_singleton]
      cases hold with
      | idle =>
          rw [hasOut] at held
          cases held
      | working work =>
          obtain ⟨-, other, held'⟩ := hasOut
          cases sound.inHand_eq held' held
          exact ⟨.idle, .complete orderly, free⟩
      | waiting work =>
          rw [hasOut.1] at held
          cases held
  | @giveBack thread work shown held closed handed free =>
      rw [shown, closed]
      cases hold with
      | idle =>
          rw [hasOut] at held
          cases held
      | working out =>
          obtain ⟨before, other, held'⟩ := hasOut
          cases sound.inHand_eq held' held
          refine ⟨.waiting work, .giveBack orderly, free, ?_, ?_⟩
          · rw [handed]
            exact before
          · rw [closed]
            exact partitioned.inHand_open sound held
      | waiting out =>
          rw [hasOut.1] at held
          cases held

/-- What was handed out, in the words of the history. -/
theorem handed_step {s s' : Process} {act : Act} (sound : s.Sound unit)
    (taken : s.step unit act = some s') (lane : LaneId) :
    s'.ledger.handed lane =
      s.ledger.handed lane ++ (s.handling lane act).toList.filterMap Handling.out := by
  cases handles_of_step sound taken lane with
  | nothing shown closed handed inHand => simp [shown, handed]
  | hand shown queue closed handed free takes => simp [shown, handed, Handling.out]
  | complete shown held closed handed free => simp [shown, handed, Handling.out]
  | giveBack shown held closed handed free => simp [shown, handed, Handling.out]

/-- The works one lane was handed out for come in order, the ones that completed
are its retired groups, and the history has them all. -/
structure Served (s : Process) (lane : LaneId) (trace : List Handling) : Prop where
  orderly : ∃ hold, Orderly trace ((s.ledger.closed lane).map fun group => group.work) hold
  ascending : ∀ before between after first second,
    trace = before ++ .handed first :: between ++ .handed second :: after →
      first.position < second.position ∨
        first = second ∧ .returned first ∈ between ∧ .completed first ∉ between
  handed : trace.filterMap Handling.out = s.ledger.handed lane

theorem served_of_run {s s' : Process} {acts : List Act} (partitioned : s.Partitioned)
    (accounted : s.Accounted unit) (sound : s.Sound unit) (remembered : s.Remembered unit)
    (ran : run (step unit) s acts = some s')
    (guarded : Guarded (step unit) ForgetsRead s acts) {lane : LaneId} {trace : List Handling}
    {hold : Hold} (orderly : Orderly trace ((s.ledger.closed lane).map fun group => group.work) hold)
    (hasOut : s.HasOut lane hold) (handed : trace.filterMap Handling.out = s.ledger.handed lane) :
    s'.Served lane (trace ++ handlings unit lane s acts) := by
  induction acts generalizing s trace hold with
  | nil =>
      obtain rfl := Option.some.inj ran
      rw [handlings, List.append_nil]
      exact ⟨⟨hold, orderly⟩, fun _ _ _ _ _ split => orderly.handed_again split, handed⟩
  | cons act rest ih =>
      obtain ⟨next, taken, tail⟩ := run_cons.mp ran
      obtain ⟨ok, later⟩ := Guarded.cons guarded
      obtain ⟨after, orderlyNext, outNext⟩ := orderly_step partitioned sound taken orderly hasOut
      have handedNext : (trace ++ (s.handling lane act).toList).filterMap Handling.out =
          next.ledger.handed lane := by
        rw [List.filterMap_append, handed, handed_step sound taken]
      have served := ih (partitioned.step accounted sound remembered taken)
        (accounted.step sound taken) (sound.step taken) (remembered.step sound ok taken) tail
        (later next taken) orderlyNext outNext handedNext
      rw [handlings, taken, ← List.append_assoc]
      exact served

/-! ## The partition of one lane -/

/-- What collapse makes of the positions one lane admitted: groups in ascending
order, each with exactly the positions of its arm in its range, each admitted
position in exactly one of them, and work that is fixed once it was handed out.
The groups that have not retired are the queue the lane is in. -/
structure Collapsed (unit : EffectUnit) (s : Process) (lane : LaneId) : Prop where
  queued : s.lanes.queue lane = (s.ledger.opened lane).map Group.toPending
  handed : (s.ledger.handed lane).Pairwise fun first second =>
    first.position < second.position ∨ first = second
  begun : ∀ work ∈ s.ledger.handed lane, ∃ group ∈ s.ledger.groups lane, group.work = work
  ascending : (s.ledger.groups lane).Pairwise fun first second => first.hi < second.hi
  disjoint : (s.ledger.closed lane).Pairwise fun first second =>
    first.arm = second.arm → first.hi < second.lo
  range : ∀ group ∈ s.ledger.groups lane, ∀ position,
    (position, group.arm) ∈ s.ledger.admitted lane →
      (position ∈ group.members ↔ group.lo ≤ position ∧ position ≤ group.hi)
  unique : ∀ position arm, (position, arm) ∈ s.ledger.admitted lane →
    ∃ group ∈ s.ledger.groups lane, group.arm = arm ∧ position ∈ group.members ∧
      ∀ other ∈ s.ledger.groups lane, position ∈ other.members → other = group
  alone : ∀ group ∈ s.ledger.groups lane, unit.resolve group.hi = some ⟨lane, group.arm, false⟩ →
    group.lo = group.hi ∧ group.members = [group.hi]
  again : ∀ position arm declared, (position, arm) ∈ s.ledger.admitted lane →
    s.position < position → s.lanes.admitPosition lane position arm declared = (s.lanes, {})
  offered : s.position ≤ s.cursor

/-- Two groups of one lane whose ranges share a position of their arm are one group. -/
theorem Partitioned.eq_of_overlap {s : Process} (partitioned : s.Partitioned) {lane : LaneId} {first second : Group}
    (member : first ∈ s.ledger.groups lane) (member' : second ∈ s.ledger.groups lane)
    (sameArm : first.arm = second.arm) {position : Nat}
    (within : first.lo ≤ position ∧ position ≤ first.hi)
    (within' : second.lo ≤ position ∧ position ≤ second.hi) : first = second := by
  by_contra different
  have separate : (s.ledger.groups lane).Pairwise fun first second =>
      first.arm = second.arm → first.hi < second.lo ∨ second.hi < first.lo :=
    (partitioned.apart lane).imp fun apart same => .inl (apart same)
  have : Std.Symm fun first second : Group =>
      first.arm = second.arm → first.hi < second.lo ∨ second.hi < first.lo :=
    ⟨fun _ _ apart same => (apart same.symm).symm⟩
  rcases separate.forall member member' different sameArm with before | after
  · omega
  · omega

theorem collapsed {s : Process} (partitioned : s.Partitioned) (accounted : s.Accounted unit)
    (sound : s.Sound unit) (remembered : s.Remembered unit) (lane : LaneId) :
    s.Collapsed unit lane where
  queued := sound.tracked.queue lane
  handed := partitioned.handed lane
  begun work member := by
    rcases partitioned.fixed lane work member with ⟨group, closed, is_work⟩ | frozen
    · exact ⟨group, List.mem_append_left _ closed, is_work⟩
    · obtain ⟨group, rest, queue, is_work, -⟩ := frozen
      exact ⟨group, List.mem_append_right _ (queue ▸ List.mem_cons_self), is_work⟩
  ascending := partitioned.ascending lane
  disjoint := (List.pairwise_append.mp (partitioned.apart lane)).1
  range group member position admitted := by
    refine ⟨(accounted.fits lane group member).bounds position, fun within => ?_⟩
    obtain ⟨holder, holds, sameArm, inside⟩ := accounted.covered lane position group.arm admitted
    have within' := (accounted.fits lane holder holds).bounds position inside
    have same := partitioned.eq_of_overlap holds member sameArm within' within
    exact same ▸ inside
  unique position arm admitted := by
    obtain ⟨group, member, sameArm, inside⟩ := accounted.covered lane position arm admitted
    refine ⟨group, member, sameArm, inside, ?_⟩
    intro other member' inside'
    have fits := accounted.fits lane group member
    have fits' := accounted.fits lane other member'
    obtain ⟨_, resolves⟩ := fits.resolved position inside
    obtain ⟨_, resolves'⟩ := fits'.resolved position inside'
    rw [resolves] at resolves'
    injection resolves' with same
    exact partitioned.eq_of_overlap member' member (congrArg Resolved.arm same).symm
      (fits'.bounds position inside') (fits.bounds position inside)
  alone group member plain := by
    have fits := accounted.fits lane group member
    rcases fits.alone with collapses | single
    · rw [plain] at collapses
      cases collapses
    · have lowest := fits.lo_mem
      rw [single] at lowest
      exact ⟨List.mem_singleton.mp lowest, single⟩
  again position arm declared admitted above := by
    obtain ⟨group, member, -, inside⟩ := accounted.covered lane position arm admitted
    obtain ⟨_, resolves⟩ := (accounted.fits lane group member).resolved position inside
    have seen := remembered.known position _ resolves above
      (accounted.positive lane position arm admitted).2
    unfold LaneState.admitPosition
    rw [if_pos seen]
  offered := remembered.read

/-- While the forgets are all at marks the subscription has read past, collapse
partitions what each lane admits; the lane's workers are handed its groups in
ascending order, each until it completes; and work once handed out is still a
group of its lane, with the same position and range, in every later state. -/
theorem collapse_partition (unit : EffectUnit) (resume : Nat) (rows : Table LaneId Nat)
    (begun : List Nat) (blind : Bool) (acts : List Act) (s : Process)
    (ran : run (step unit) (boot resume rows begun blind) acts = some s)
    (guarded : Guarded (step unit) ForgetsRead (boot resume rows begun blind) acts) :
    (∀ lane, s.Collapsed unit lane) ∧
      (∀ lane, s.Served lane (handlings unit lane (boot resume rows begun blind) acts)) ∧
        ∀ lane, ∀ work ∈ s.ledger.handed lane, ∀ later s', run (step unit) s later = some s' →
          Guarded (step unit) ForgetsRead s later →
            ∃ group ∈ s'.ledger.groups lane, group.work = work := by
  refine ⟨fun lane => collapsed (partitioned_of_run ran guarded) (accounted_of_run ran)
    (sound_of_run ran) (remembered_of_run ran guarded) lane, ?_, ?_⟩
  · intro lane
    have idle : (boot resume rows begun blind).HasOut lane .idle := by
      intro thread
      change ((∅ : Table Nat Worker).get thread).bind _ = none
      rw [Table.get_empty, Option.bind_none]
    exact served_of_run (partitioned_boot resume rows begun blind)
      (accounted_boot unit resume rows begun blind) (sound_boot unit resume rows begun blind)
      (remembered_boot unit resume rows begun blind) ran guarded .start idle rfl
  · intro lane work handed later s' ranLater guardedLater
    have whole := run_append.mpr ⟨s, ran, ranLater⟩
    have guardedWhole := Guarded.join guarded guardedLater ran
    exact (collapsed (partitioned_of_run whole guardedWhole) (accounted_of_run whole)
      (sound_of_run whole) (remembered_of_run whole guardedWhole) lane).begun work
        (handed_of_run (sound_of_run ran) ranLater handed)

/-- A shop is edited twice around a payment; edits collapse and payments do not. -/
def editedTwice : EffectUnit :=
  .ofLog [⟨["edited"], .latest⟩, ⟨["paid"], .every⟩]
    [("edited", ⟨"i:1"⟩), ("paid", ⟨"i:1"⟩), ("edited", ⟨"i:1"⟩), ("edited", ⟨"i:1"⟩)]

/-- The payment completes, and the folded edit is handed out, given back and
handed out again. -/
def editedRun : List Act :=
  [.deliver 3, .claim 0 ⟨"i:1"⟩, .head 0, .begin 0 .running, .settle 0, .complete 0,
    .recordRow 0 false, .head 0, .deliver 4, .defer 0 60, .promote 60, .claim 0 ⟨"i:1"⟩, .head 0]

theorem collapse_partition_of_editedTwice :
    ∃ s, run (step editedTwice) (boot 0 ∅ [] false) editedRun = some s ∧
      s.Collapsed editedTwice ⟨"i:1"⟩ ∧
        s.Served ⟨"i:1"⟩ [.handed ⟨2, none⟩, .completed ⟨2, none⟩, .handed ⟨3, some 1⟩,
          .returned ⟨3, some 1⟩, .handed ⟨3, some 1⟩] := by
  have ended : (run (step editedTwice) (boot 0 ∅ [] false) editedRun).isSome = true := by decide
  have shown : handlings editedTwice ⟨"i:1"⟩ (boot 0 ∅ [] false) editedRun =
      [.handed ⟨2, none⟩, .completed ⟨2, none⟩, .handed ⟨3, some 1⟩, .returned ⟨3, some 1⟩,
        .handed ⟨3, some 1⟩] := by decide
  obtain ⟨s, ran⟩ := Option.isSome_iff_exists.mp ended
  have partition := collapse_partition editedTwice 0 ∅ [] false _ s ran
    (guarded_of_never_forgets (by simp [editedRun]))
  exact ⟨s, ran, partition.1 _, shown ▸ partition.2.1 _⟩

end Process

end Hekla.Effect
