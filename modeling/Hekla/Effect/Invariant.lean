import Hekla.Effect.Tracking

/-!
# What holds in every state of a process

`Sound` adds to the schedule and the history what ties the threads to them: the
work a worker has in hand is the group at the head of its lane, which nothing
may take over any more, and the mark the reader is publishing lies below every
open group.
-/

namespace Hekla.Effect

open Hekla.Library Hekla.Lanes

/-- The work a worker has in hand. -/
def Phase.work : Phase → Option Work
  | .took work | .live work | .settled work => some work
  | .ready | .owing _ | .recorded _ | .leaving => none

/-- The work is the group at the head of the lane, and no later position may
take that group over. -/
def Frozen (lanes : LaneState) (ledger : Ledger) (lane : LaneId) (work : Work) : Prop :=
  ∃ group rest, ledger.opened lane = group :: rest ∧ group.work = work ∧
    lanes.latest.get (lane, group.arm) ≠ some group.hi

namespace Process

variable {unit : EffectUnit}

/-- A mark every open group lies above. -/
structure Passed (s : Process) (mark : Nat) : Prop where
  scanned : mark ≤ s.lanes.scanned
  below : ∀ lane, ∀ group ∈ s.ledger.opened lane, mark < group.lo

/-- What ties the schedule, the history and the threads of a process together. -/
structure Sound (unit : EffectUnit) (s : Process) : Prop where
  placed : s.Placed
  tracked : Tracked unit s.lanes s.ledger
  working : ∀ thread lane phase work, s.workers.get thread = some ⟨lane, phase⟩ →
    phase.work = some work → Frozen s.lanes s.ledger lane work
  marked : ∀ mark, s.reader = .marked mark ∨ s.reader = .written mark → s.Passed mark
  behind : s.cursor ≤ s.lanes.scanned
  durable : s.persisted ≤ s.lanes.scanned
  scanned : ∀ lane, ∀ group ∈ s.ledger.opened lane, group.hi ≤ s.lanes.scanned

theorem sound_boot (unit : EffectUnit) (resume : Nat) (rows : Table LaneId Nat)
    (begun : List Nat) (blind : Bool) : (boot resume rows begun blind).Sound unit where
  placed := placed_boot resume rows begun blind
  tracked := Tracked.boot unit resume rows begun blind
  working thread lane phase work working := by
    have idle : (∅ : Table Nat Worker).get thread = none := Table.get_empty thread
    change (∅ : Table Nat Worker).get thread = some ⟨lane, phase⟩ at working
    rw [idle] at working
    cases working
  marked mark reading := by
    rcases reading with reading | reading <;> cases reading
  behind := le_refl resume
  durable := le_refl resume
  scanned lane group member := by cases member

/-- An action that only moves lanes in the schedule, and leaves the workers with
work they had, keeps everything. -/
theorem Sound.congr {s s' : Process} (sound : s.Sound unit) (placed : s'.Placed)
    (same : SameWork s.lanes s'.lanes) (ledger : s'.ledger = s.ledger)
    (cursor : s'.cursor = s.cursor) (persisted : s'.persisted = s.persisted)
    (reader : s'.reader = s.reader)
    (working : ∀ thread lane phase work, s'.workers.get thread = some ⟨lane, phase⟩ →
      phase.work = some work → Frozen s.lanes s.ledger lane work) : s'.Sound unit where
  placed := placed
  tracked := by
    rw [ledger]
    exact sound.tracked.sameWork same
  working thread lane phase work here inHand := by
    unfold Frozen
    rw [ledger, same.latest]
    exact working thread lane phase work here inHand
  marked mark reading := by
    rw [reader] at reading
    obtain ⟨scanned, below⟩ := sound.marked mark reading
    refine ⟨?_, ?_⟩
    · rw [same.scanned]
      exact scanned
    · rw [ledger]
      exact below
  behind := by
    rw [cursor, same.scanned]
    exact sound.behind
  durable := by
    rw [persisted, same.scanned]
    exact sound.durable
  scanned := by
    rw [ledger, same.scanned]
    exact sound.scanned

/-! ## The reader -/

theorem frozen_enter {lanes : LaneState} {ledger : Ledger} (tracked : Tracked unit lanes ledger)
    {position : Nat} {resolved : Resolved} (fresh : lanes.seen resolved.lane position = false)
    {lane : LaneId} {work : Work} (frozen : Frozen lanes ledger lane work) :
    Frozen (lanes.enter resolved.lane position resolved.arm resolved.collapsible)
      (ledger.enter lanes resolved.lane position resolved.arm resolved.collapsible) lane work := by
  obtain ⟨group, rest, queue, is_work, closed⟩ := frozen
  have stays : ∃ later, (ledger.enter lanes resolved.lane position resolved.arm
      resolved.collapsible).opened lane = group :: later := by
    rw [Tracked.opened_enter]
    split
    · next same =>
        subst same
        rcases tracked.entered_cases resolved.lane position resolved.arm resolved.collapsible with
          ⟨-, eq⟩ | ⟨before, taken, after, groups, -, eq, -, -, arm_eq, latest, -⟩
        · rw [eq, queue]
          exact ⟨_, rfl⟩
        · rw [queue] at groups
          cases before with
          | nil =>
              obtain ⟨rfl, -⟩ := List.cons.inj groups
              rw [arm_eq] at closed
              exact absurd latest closed
          | cons first others =>
              obtain ⟨rfl, -⟩ := List.cons.inj groups
              rw [eq]
              exact ⟨_, rfl⟩
    · exact ⟨rest, queue⟩
  obtain ⟨later, queueThen⟩ := stays
  refine ⟨group, later, queueThen, is_work, ?_⟩
  rw [Tracked.latest_enter]
  split
  · next here =>
      have same : lane = resolved.lane := congrArg Prod.fst here.1
      subst same
      have above := tracked.hi_lt_of_fresh fresh (queue ▸ List.mem_cons_self)
      split
      · rintro ⟨⟩
      · intro named
        have := Option.some.inj named
        omega
  · exact closed

theorem Sound.offer {s : Process} (sound : s.Sound unit) (polling : s.reader = .polling)
    {position : Nat} {resolved : Resolved} (found : unit.resolve position = some resolved)
    (scanned : position ≤ s.lanes.scanned) : (s.offer position resolved).Sound unit := by
  cases seen : s.lanes.seen resolved.lane position with
  | true =>
      rw [offer_of_seen seen]
      exact sound
  | false =>
      have placed := sound.placed.offer position resolved
      rw [offer_of_fresh seen] at placed ⊢
      refine ⟨placed, sound.tracked.enter found seen, ?_, ?_, sound.behind, sound.durable, ?_⟩
      · intro thread lane phase work here inHand
        exact frozen_enter sound.tracked seen (sound.working thread lane phase work here inHand)
      · intro mark reading
        dsimp only at reading
        rw [polling] at reading
        rcases reading with reading | reading <;> cases reading
      · intro lane group member
        change group ∈ (s.ledger.enter s.lanes resolved.lane position resolved.arm
          resolved.collapsible).opened lane at member
        change group.hi ≤ s.lanes.scanned
        rw [Tracked.opened_enter] at member
        split at member
        · next same =>
            subst same
            rcases sound.tracked.mem_entered member with ⟨old, -⟩ | ⟨rfl, -⟩ | taking
            · exact sound.scanned _ group old
            · exact scanned
            · obtain ⟨taken, -, rfl, -⟩ := taking
              exact scanned
        · exact sound.scanned lane group member

/-- Reading further, with nothing admitted. -/
theorem Sound.scanTo {s : Process} (sound : s.Sound unit) (upto : Nat) :
    (s.scanTo upto).Sound unit where
  placed := sound.placed.congr rfl rfl rfl (fun _ => rfl) rfl id
  tracked := sound.tracked.congr rfl rfl rfl rfl rfl
  working := sound.working
  marked mark reading := by
    obtain ⟨scanned, below⟩ := sound.marked mark reading
    exact ⟨le_trans scanned (le_max_left _ _), below⟩
  behind := le_max_right _ _
  durable := le_trans sound.durable (le_max_left _ _)
  scanned lane group member := le_trans (sound.scanned lane group member) (le_max_left _ _)

/-- Reading one position is noting that it was read and then assigning it. -/
theorem advance_eq (s : Process) :
    s.advance unit =
      (((s.scanTo (s.cursor + 1)).assign unit (s.cursor + 1)).scanTo (s.cursor + 1)) :=
  (assign_scanTo s (le_refl _) _).symm

theorem assign_reader (s : Process) (position : Nat) :
    (s.assign unit position).reader = s.reader := by
  unfold assign
  split <;> rfl

theorem Sound.advance {s : Process} (sound : s.Sound unit) (polling : s.reader = .polling) :
    (s.advance unit).Sound unit := by
  rw [advance_eq]
  have read := sound.scanTo (s.cursor + 1)
  cases found : unit.resolve (s.cursor + 1) with
  | none =>
      rw [assign_of_none found]
      exact read.scanTo _
  | some resolved =>
      rw [assign_of_some found]
      exact (read.offer polling found (le_max_right _ _)).scanTo _

theorem Sound.deliver {s : Process} (sound : s.Sound unit) (polling : s.reader = .polling)
    {upto : Nat} (ahead : s.cursor ≤ upto) : (s.deliver unit upto).Sound unit := by
  have kept : (s.deliver unit upto).Sound unit ∧ (s.deliver unit upto).reader = .polling := by
    refine deliver_keeps (fun s => s.Sound unit ∧ s.reader = .polling) sound.behind ahead
      ⟨sound, polling⟩ ?_
    rintro s ⟨sound, polling⟩
    exact ⟨sound.advance polling, (assign_reader s _).trans polling⟩
  exact kept.1

theorem Sound.resubscribe {s : Process} (sound : s.Sound unit) : s.resubscribe.Sound unit where
  placed := sound.placed.congr rfl rfl rfl (fun _ => rfl) rfl id
  tracked := sound.tracked.congr rfl rfl rfl rfl rfl
  working := sound.working
  marked mark reading := by
    rcases reading with reading | reading <;> cases reading
  behind := le_max_right _ _
  durable := le_trans sound.durable (le_max_left _ _)
  scanned lane group member := le_trans (sound.scanned lane group member) (le_max_left _ _)

/-- The mark lies below every open group when it is read. -/
theorem Sound.passed_lowWater {s : Process} (sound : s.Sound unit)
    (moved : s.position < s.lanes.lowWater) : s.Passed s.lanes.lowWater := by
  unfold LaneState.lowWater at moved ⊢
  cases oldest : s.lanes.inflight.firstKey with
  | none =>
      refine ⟨le_refl _, ?_⟩
      intro lane group member
      have listed := (sound.tracked.inflight group.lo lane).mpr ⟨group, member, rfl⟩
      rw [(Table.firstKey_eq_none_iff _).mp oldest] at listed
      cases listed
  | some first =>
      rw [oldest] at moved
      refine ⟨min_le_right _ _, ?_⟩
      intro lane group member
      have listed := (sound.tracked.inflight group.lo lane).mpr ⟨group, member, rfl⟩
      have order := ((Table.firstKey_eq_some_iff _ _).mp oldest).2 group.lo lane listed
      dsimp only at moved ⊢
      omega

theorem Sound.forgetMark {s : Process} (sound : s.Sound unit) {mark : Nat}
    (written : s.reader = .written mark) : (s.forgetMark mark).Sound unit where
  placed := sound.placed.congr rfl rfl rfl (fun _ => rfl) rfl id
  tracked := sound.tracked.forget (sound.marked mark (.inr written)).below
  working := sound.working
  marked other reading := by
    unfold Process.forgetMark at reading
    dsimp only at reading
    split at reading <;> rcases reading with reading | reading <;> cases reading
  behind := sound.behind
  durable := sound.durable
  scanned := sound.scanned

/-! ## The workers -/

/-- A worker keeps its work, or has none, when it moves on inside its lane. -/
theorem Sound.turn {s : Process} (sound : s.Sound unit) {thread : Nat} {lane : LaneId}
    {before after : Phase} (here : s.workers.get thread = some ⟨lane, before⟩)
    (keeps : ∀ work, after.work = some work → before.work = some work) :
    (s.turn thread lane after).Sound unit := by
  have placed : (s.turn thread lane after).Placed :=
    sound.placed.congr rfl rfl rfl (owner_turn (owner_of_worker here) after) rfl id
  refine sound.congr placed (.refl _) rfl rfl rfl rfl ?_
  intro other lane' phase work working inHand
  change (s.workers.set thread ⟨lane, after⟩).get other = some ⟨lane', phase⟩ at working
  rw [Table.get_set] at working
  split at working
  · cases working
    exact sound.working thread lane before work here (keeps work inHand)
  · exact sound.working other lane' phase work working inHand

/-- Closing the open group of one lane freezes no less in the others. -/
theorem frozen_closing {lanes : LaneState} {ledger : Ledger} {lane : LaneId} {work : Work}
    (frozen : Frozen lanes ledger lane work) (other : LaneId) (group : Pending) :
    Frozen { lanes with latest := lanes.closeLatest other group } ledger lane work := by
  obtain ⟨first, rest, queue, is_work, closed⟩ := frozen
  refine ⟨first, rest, queue, is_work, ?_⟩
  change (lanes.closeLatest other group).get (lane, first.arm) ≠ _
  rw [Tracked.closeLatest_get]
  split
  · rintro ⟨⟩
  · exact closed

theorem Sound.head {s : Process} (sound : s.Sound unit) {thread : Nat} {lane : LaneId}
    (ready : s.workers.get thread = some ⟨lane, .ready⟩) : (s.head thread lane).Sound unit := by
  have owns := owner_of_worker ready
  cases queue : s.ledger.opened lane with
  | nil =>
      unfold Process.head
      rw [sound.tracked.head_none queue]
      exact sound.turn ready fun _ idle => by cases idle
  | cons group rest =>
      unfold Process.head
      rw [sound.tracked.head_some queue]
      have frozenOthers (other : LaneId) (work : Work) (frozen : Frozen s.lanes s.ledger other work) :=
        frozen_closing frozen lane group.toPending
      refine ⟨?_, ?_, ?_, ?_, sound.behind, sound.durable, sound.scanned⟩
      · exact sound.placed.congr rfl rfl rfl (owner_turn owns _) rfl id
      · have closing := sound.tracked.closing lane group.toPending
        exact { closing with
          queue := closing.queue
          latest := closing.latest
          collapses := closing.collapses
          inflight := closing.inflight }
      · intro other lane' phase work working inHand
        change (s.workers.set thread ⟨lane, .took group.work⟩).get other = some ⟨lane', phase⟩
          at working
        rw [Table.get_set] at working
        split at working
        · cases working
          cases inHand
          refine ⟨group, rest, queue, rfl, ?_⟩
          change (s.lanes.closeLatest lane group.toPending).get (lane, group.arm) ≠ _
          rw [Tracked.closeLatest_get]
          split
          · rintro ⟨⟩
          · next kept => exact fun named => kept ⟨rfl, named⟩
        · exact frozenOthers lane' work (sound.working other lane' phase work working inHand)
      · intro mark reading
        obtain ⟨scanned, below⟩ := sound.marked mark reading
        exact ⟨scanned, below⟩

theorem Sound.complete {s : Process} (sound : s.Sound unit) {thread : Nat} {lane : LaneId}
    {work : Work} (settled : s.workers.get thread = some ⟨lane, .settled work⟩) :
    (s.complete thread lane work).Sound unit := by
  have owns := owner_of_worker settled
  obtain ⟨group, rest, queue, rfl, closed⟩ := sound.working thread lane _ work settled rfl
  have sub (other : LaneId) :
      ((s.ledger.close lane group.hi).opened other).Sublist (s.ledger.opened other) := by
    rw [Tracked.close_head queue]
    dsimp only
    rw [Function.update_apply]
    split
    · next same =>
        rw [same, queue]
        exact List.sublist_cons_self _ _
    · exact List.Sublist.refl _
  have scanned : (s.lanes.retire lane group.hi).scanned = s.lanes.scanned := by
    rw [sound.tracked.retire_head queue]
  refine ⟨sound.placed.complete owns, sound.tracked.retire queue, ?_, ?_, ?_, ?_, ?_⟩
  · intro other lane' phase work working inHand
    change (s.workers.set thread _).get other = some ⟨lane', phase⟩ at working
    rw [Table.get_set] at working
    split at working
    · cases working
      exfalso
      split at inHand <;> cases inHand
    · next different =>
        have elsewhere : lane' ≠ lane := by
          rintro rfl
          exact different (sound.placed.unique other thread lane' (owner_of_worker working) owns)
        obtain ⟨first, later, queue', is_work, closed'⟩ :=
          sound.working other lane' phase work working inHand
        refine ⟨first, later, ?_, is_work, ?_⟩
        · change (s.ledger.close lane group.hi).opened lane' = first :: later
          rw [Tracked.close_head queue]
          dsimp only
          rw [Function.update_apply, if_neg elsewhere, queue']
        · change (s.lanes.retire lane group.hi).latest.get (lane', first.arm) ≠ some first.hi
          rw [sound.tracked.retire_head queue]
          dsimp only
          rw [Tracked.closeLatest_get]
          split
          · rintro ⟨⟩
          · exact closed'
  · intro mark reading
    obtain ⟨scannedMark, below⟩ := sound.marked mark reading
    refine ⟨?_, fun other kept member => below other kept ((sub other).subset member)⟩
    change mark ≤ (s.lanes.retire lane group.hi).scanned
    rw [scanned]
    exact scannedMark
  · change s.cursor ≤ (s.lanes.retire lane group.hi).scanned
    rw [scanned]
    exact sound.behind
  · change s.persisted ≤ (s.lanes.retire lane group.hi).scanned
    rw [scanned]
    exact sound.durable
  · intro other kept member
    change kept.hi ≤ (s.lanes.retire lane group.hi).scanned
    rw [scanned]
    exact sound.scanned other kept ((sub other).subset member)

/-- Giving a lane up leaves the other workers with the work they had. -/
theorem Sound.remaining {s : Process} (sound : s.Sound unit) (thread : Nat) :
    ∀ other lane phase work, (s.workers.remove thread).get other = some ⟨lane, phase⟩ →
      phase.work = some work → Frozen s.lanes s.ledger lane work := by
  intro other lane phase work working inHand
  rw [Table.get_remove] at working
  split at working
  · cases working
  · exact sound.working other lane phase work working inHand

/-- Work in hand is at a position of its own lane, so one thread has it. -/
theorem Sound.one_worker {s : Process} (sound : s.Sound unit) {thread other : Nat}
    {lane lane' : LaneId} {phase phase' : Phase} {work work' : Work}
    (working : s.workers.get thread = some ⟨lane, phase⟩) (inHand : phase.work = some work)
    (working' : s.workers.get other = some ⟨lane', phase'⟩) (inHand' : phase'.work = some work')
    (same : work.position = work'.position) : thread = other := by
  obtain ⟨group, rest, queue, rfl, -⟩ := sound.working thread lane phase work working inHand
  obtain ⟨group', rest', queue', rfl, -⟩ := sound.working other lane' phase' work' working' inHand'
  have fits := sound.tracked.fits lane group (queue ▸ List.mem_cons_self)
  have fits' := sound.tracked.fits lane' group' (queue' ▸ List.mem_cons_self)
  obtain ⟨_, found⟩ := fits.resolved group.hi fits.hi_mem
  obtain ⟨_, found'⟩ := fits'.resolved group'.hi fits'.hi_mem
  change group.hi = group'.hi at same
  rw [same, found'] at found
  injection found with found
  have lanes : lane' = lane := congrArg Resolved.lane found
  subst lanes
  exact sound.placed.unique thread other lane' (owner_of_worker working) (owner_of_worker working')

/-! ## Every run -/

theorem Sound.step {s s' : Process} {act : Act} (sound : s.Sound unit)
    (taken : s.step unit act = some s') : s'.Sound unit := by
  have placed := sound.placed.step taken
  cases stepped_of_step taken with
  | deliver polling ahead => exact sound.deliver polling ahead
  | resubscribe => exact sound.resubscribe
  | promote polling =>
      exact sound.congr placed (LaneState.wakeAll_sameWork _ _) rfl rfl rfl rfl
        sound.working
  | promoteMatching polling =>
      exact sound.congr placed (LaneState.wakeAll_sameWork _ _) rfl rfl rfl rfl
        sound.working
  | readOld => exact sound
  | readMark polling moved =>
      refine { sound with placed := placed, marked := ?_ }
      intro mark reading
      have same : mark = s.lanes.lowWater := by
        rcases reading with reading | reading <;> cases reading
        rfl
      obtain ⟨scanned, below⟩ := sound.passed_lowWater moved
      subst same
      exact ⟨scanned, below⟩
  | @writeMark mark marked =>
      obtain ⟨scanned, below⟩ := sound.marked mark (.inl marked)
      refine { sound with placed := placed, marked := ?_, durable := scanned }
      intro other reading
      have same : other = mark := by
        rcases reading with reading | reading <;> cases reading
        rfl
      subst same
      exact ⟨scanned, below⟩
  | forgetMark written => exact sound.forgetMark written
  | sweepRows sweeping =>
      refine { sound with placed := placed, marked := ?_ }
      intro mark reading
      rcases reading with reading | reading <;> cases reading
  | pruneRows pruning =>
      refine ⟨placed, sound.tracked.congr rfl rfl rfl rfl rfl, sound.working, ?_, sound.behind,
        sound.durable, sound.scanned⟩
      intro mark reading
      rcases reading with reading | reading <;> cases reading
  | @claim thread lane idle ticket =>
      refine sound.congr placed (LaneState.claim_sameWork _ _) rfl rfl rfl rfl ?_
      intro other lane' phase work working inHand
      change (if (s.lanes.claim lane).2 then s.workers.set thread ⟨lane, .ready⟩
        else s.workers).get other = some ⟨lane', phase⟩ at working
      split at working
      · rw [Table.get_set] at working
        split at working
        · cases working
          cases inHand
        · exact sound.working other lane' phase work working inHand
      · exact sound.working other lane' phase work working inHand
  | head ready => exact sound.head ready
  | beginTerminal took => exact sound.turn took fun _ => id
  | beginRunning took => exact sound.turn took fun _ => id
  | settle live => exact sound.turn live fun _ => id
  | complete settled => exact sound.complete settled
  | recordRow owing =>
      refine sound.turn owing ?_
      intro work inHand
      split at inHand <;> cases inHand
  | @noteRow thread lane position recorded =>
      have turned : (s.turn thread lane .ready).Sound unit :=
        sound.turn recorded fun _ idle => by cases idle
      refine { turned with
        placed := placed, tracked := turned.tracked.congr rfl rfl rfl rfl rfl, marked := ?_ }
      intro mark reading
      obtain ⟨scanned, below⟩ := turned.marked mark reading
      exact ⟨scanned, below⟩
  | defer working =>
      exact sound.congr placed (LaneState.defer_sameWork _ _ _) rfl rfl rfl rfl (sound.remaining _)
  | release working =>
      exact sound.congr placed (LaneState.release_sameWork _ _) rfl rfl rfl rfl (sound.remaining _)
  | stop => exact sound.congr placed (.refl _) rfl rfl rfl rfl sound.working

theorem sound_of_run {resume : Nat} {rows : Table LaneId Nat} {begun : List Nat} {blind : Bool}
    {acts : List Act} {s : Process}
    (ran : run (step unit) (boot resume rows begun blind) acts = some s) : s.Sound unit :=
  run_invariant (Sound unit) (fun _ _ _ sound taken => sound.step taken)
    (sound_boot unit resume rows begun blind) ran

end Process

end Hekla.Effect
