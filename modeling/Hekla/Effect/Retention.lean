import Hekla.Effect.Coverage
import Hekla.Effect.Watermark

/-!
# Retention and rewinds

Two operations delete invocation rows beside the dispatcher: a sweep reclaims
terminal rows the mark has passed, and a rewind of a stopped effect discards
every row above its target.  Either takes the journal rows of an invocation with
it.  What a restart runs again is decided by the mark, the lane rows and the
invocation rows above the mark.

`finished` is the history of a run: the positions that have been terminal since
the last rewind below them.  No action reads it.
-/

namespace Hekla.Effect

open Hekla.Library Hekla.Lanes

namespace OpDb

/-- A terminal row at or below the mark, among those old enough to be picked. -/
def reclaims (db : OpDb) (picked : List Nat) (position : Nat) : Invocation → Bool
  | .terminal _ => decide (position ≤ db.watermark) && picked.contains position
  | .running => false

/-- Delete the picked rows that may be reclaimed. -/
def sweepEffectJournal (db : OpDb) (picked : List Nat) : OpDb :=
  { db with
    invocations := db.invocations.retain fun position invocation =>
      !db.reclaims picked position invocation }

/-- Discard every invocation above the target and every lane row, and move the mark. -/
def rewindEffect (db : OpDb) (target : Nat) : OpDb where
  watermark := target
  lanes := ∅
  invocations := db.invocations.retain fun position _ => decide (position ≤ target)

end OpDb

/-- A journal row: the position of its invocation, and the call. -/
abbrev JournalRow := Nat × String × Nat

/-- Delete the journal rows of the invocations that were deleted. -/
def cascade (before after : Table Nat Invocation) (journal : Table JournalRow String) :
    Table JournalRow String :=
  journal.retain fun row _ => !((before.get row.1).isSome && (after.get row.1).isNone)

/-- How many rows a delete took. -/
def deleted {κ β : Type} (before after : Table κ β) : Nat :=
  before.entries.length - after.entries.length

structure RewindCounts where
  invocations : Nat
  lanes : Nat
  quarantine : Bool
  deriving DecidableEq

/-- One effect's store with what retention and rewinds are about. -/
structure Retention where
  world : World := {}
  journal : Table JournalRow String := ∅
  quarantine : Option Nat := none
  liveBoundary : Nat := 0
  finished : List Nat := []

inductive RetentionAct where
  | world (act : WorldAct)
  | record (thread : Nat) (hash : String) (ordinal : Nat) (result : String)
  | quarantine (thread : Nat)
  | sweep (picked : List Nat)
  | rewind (target : Nat) (includeLive : Bool)

namespace Retention

/-- A store no process runs on; its terminal rows are what has finished so far. -/
def stored (db : OpDb) (journal : Table JournalRow String) (quarantine : Option Nat)
    (liveBoundary : Nat) : Retention where
  world := { db }
  journal
  quarantine
  liveBoundary
  finished := db.invocations.keys.filter fun position =>
    match db.invocations.get position with
    | some (.terminal _) => true
    | _ => false

variable (unit : EffectUnit)

/-- The effect with the live boundary its activation row has. -/
def unitOf (r : Retention) : EffectUnit := { unit with liveBoundary := r.liveBoundary }

/-- The position an action makes terminal. -/
def settling (r : Retention) : WorldAct → List Nat
  | .act (.settle thread) =>
      match r.world.process.bind fun s => s.workers.get thread with
      | some ⟨_, .live work⟩ => [work.position]
      | _ => []
  | _ => []

def sweep (r : Retention) (picked : List Nat) : Retention :=
  let db := r.world.db.sweepEffectJournal picked
  { r with
    world := { r.world with db }
    journal := cascade r.world.db.invocations db.invocations r.journal }

/-- Move a stopped effect back, in one transaction, and count what was discarded. -/
def rewind (r : Retention) (target : Nat) (includeLive : Bool) : Retention × RewindCounts :=
  let db := r.world.db.rewindEffect target
  let quarantine := r.quarantine.filter fun position => decide (position ≤ target)
  ({ r with
      world := { r.world with db }
      journal := cascade r.world.db.invocations db.invocations r.journal
      quarantine
      liveBoundary :=
        if includeLive && decide (target < r.liveBoundary) then target else r.liveBoundary
      finished := r.finished.filter fun position => decide (position ≤ target) },
    { invocations := deleted r.world.db.invocations db.invocations
      lanes := deleted r.world.db.lanes db.lanes
      quarantine := r.quarantine.isSome && quarantine.isNone })

/-- What a rewind would discard. -/
def rewindPreview (r : Retention) (target : Nat) : RewindCounts where
  invocations := r.world.db.invocations.entries.countP fun entry => decide (target < entry.1)
  lanes := r.world.db.lanes.entries.length
  quarantine := r.quarantine.any fun position => decide (target < position)

/-- Journal a call of the invocation a worker is at. -/
def record (r : Retention) (thread : Nat) (hash : String) (ordinal : Nat) (result : String) :
    Option Retention :=
  match r.world.process.bind fun s => s.workers.get thread with
  | some ⟨_, .live work⟩ =>
      match r.journal.get (work.position, hash, ordinal) with
      | none => some { r with journal := r.journal.set (work.position, hash, ordinal) result }
      | some _ => none
  | _ => none

def step (r : Retention) : RetentionAct → Option Retention
  | .world act =>
      (r.world.step (r.unitOf unit) act).map fun world =>
        { r with world, finished := r.finished ++ r.settling act }
  | .record thread hash ordinal result => r.record thread hash ordinal result
  | .quarantine thread =>
      match r.world.process.bind fun s => s.workers.get thread with
      | some ⟨_, .settled work⟩ => some { r with quarantine := some work.position }
      | _ => none
  | .sweep picked => some (r.sweep picked)
  | .rewind target includeLive =>
      match r.world.process with
      | some _ => none
      | none => some (r.rewind target includeLive).1

/-- Every forget is at a mark the subscription has read past. -/
def ForgetsRead (r : Retention) : RetentionAct → Prop
  | .world (.act act) => ∀ s, r.world.process = some s → s.ForgetsRead act
  | _ => True

end Retention

/-! ## What a sweep and a rewind leave -/

section Deletes

variable {db : OpDb} {position : Nat}

/-- A sweep leaves every row above the mark. -/
theorem sweep_get_above (picked : List Nat) (above : db.watermark < position) :
    (db.sweepEffectJournal picked).invocations.get position = db.invocations.get position := by
  refine Table.get_retain_of_kept fun invocation _ => ?_
  cases invocation with
  | running => rfl
  | terminal collapsedFrom => simp [OpDb.reclaims, Nat.not_le_of_lt above]

/-- A sweep takes a row only at or below the mark. -/
theorem le_watermark_of_swept {picked : List Nat} {invocation : Invocation}
    (held : db.invocations.get position = some invocation)
    (gone : (db.sweepEffectJournal picked).invocations.get position ≠ some invocation) :
    position ≤ db.watermark := by
  by_contra above
  rw [sweep_get_above picked (Nat.lt_of_not_le above)] at gone
  exact gone held

theorem rewind_get (target : Nat) :
    (db.rewindEffect target).invocations.get position =
      if position ≤ target then db.invocations.get position else none := by
  split
  · next upto => exact Table.get_retain_of_kept fun _ _ => decide_eq_true upto
  · next above => exact Table.get_retain_of_dropped fun _ _ => decide_eq_false above

theorem cascade_get {before after : Table Nat Invocation} {journal : Table JournalRow String}
    (row : JournalRow) :
    (cascade before after journal).get row =
      if before.get row.1 ≠ none ∧ after.get row.1 = none then none else journal.get row := by
  split
  · next gone =>
      refine Table.get_retain_of_dropped fun _ _ => ?_
      rw [gone.2, Option.isSome_iff_ne_none.mpr gone.1]
      rfl
  · next kept =>
      refine Table.get_retain_of_kept fun _ _ => ?_
      cases held : before.get row.1 with
      | none => rfl
      | some invocation =>
          cases left : after.get row.1 with
          | none => exact absurd ⟨by rw [held]; rintro ⟨⟩, left⟩ kept
          | some other => rfl

/-- What a delete takes is what fails the test. -/
theorem deleted_retain {κ β : Type} (table : Table κ β) (keep : κ → β → Bool) :
    deleted table (table.retain keep) =
      table.entries.countP fun entry => !keep entry.1 entry.2 := by
  unfold deleted Table.retain
  dsimp only
  have total := List.length_eq_countP_add_countP (fun entry => keep entry.1 entry.2)
    (l := table.entries)
  rw [← List.countP_eq_length_filter, total, Nat.add_sub_cancel_left]
  refine List.countP_congr fun entry _ => ?_
  simp

/-- The positions a booting dispatcher reads are all above the mark. -/
theorem invocationsAbove_sweep (picked : List Nat) (limit : Nat) :
    (db.sweepEffectJournal picked).invocationsAbove db.watermark limit =
      db.invocationsAbove db.watermark limit := by
  have same : ((db.sweepEffectJournal picked).invocations.keys.filter fun position =>
      db.watermark < position) = db.invocations.keys.filter fun position =>
        db.watermark < position := by
    unfold OpDb.sweepEffectJournal AList.keys List.keys Table.retain
    dsimp only
    rw [List.filter_map, List.filter_map, List.filter_filter]
    congr 1
    refine List.filter_congr fun entry _ => ?_
    obtain ⟨position, invocation⟩ := entry
    cases invocation with
    | running => simp [OpDb.reclaims]
    | terminal collapsedFrom =>
        simp only [OpDb.reclaims, Function.comp_apply]
        by_cases above : db.watermark < position
        · simp [above, Nat.not_le_of_lt above]
        · simp [above]
  unfold OpDb.invocationsAbove
  rw [same]

end Deletes

/-! ## Nothing at or below the mark is invoked again -/

namespace Process

variable {unit : EffectUnit}

/-- What a process has in hand lies above the mark, and has a row while it runs. -/
structure Ahead (unit : EffectUnit) (db : OpDb) (s : Process) : Prop where
  sound : s.Sound unit
  remembered : s.Remembered unit
  persisted : s.persisted = db.watermark
  passed : s.persisted ≤ s.lanes.lowWater
  marking : ∀ mark, s.reader = .marked mark → s.persisted ≤ mark
  live : ∀ thread lane work, s.workers.get thread = some ⟨lane, .live work⟩ →
    db.invocations.get work.position ≠ none

theorem ahead_boot (unit : EffectUnit) (db : OpDb) : (World.bootProcess unit db).Ahead unit db where
  sound := sound_boot unit _ _ _ _
  remembered := remembered_boot unit _ _ _ _
  persisted := rfl
  passed := (le_lowWater_iff (sound_boot unit _ _ _ _) _).mpr ⟨le_refl _, nofun⟩
  marking mark reading := by cases reading
  live thread lane work working := by
    have idle : (∅ : Table Nat Worker).get thread = none := Table.get_empty thread
    change (∅ : Table Nat Worker).get thread = _ at working
    rw [idle] at working
    cases working

/-- The work a worker has in hand is above the mark. -/
theorem Ahead.above {db : OpDb} {s : Process} (ahead : s.Ahead unit db) {thread : Nat}
    {lane : LaneId} {phase : Phase} {work : Work}
    (working : s.workers.get thread = some ⟨lane, phase⟩) (inHand : phase.work = some work) :
    db.watermark < work.position := by
  obtain ⟨group, rest, queue, rfl, -⟩ := ahead.sound.working thread lane phase work working inHand
  have member : group ∈ s.ledger.opened lane := queue ▸ List.mem_cons_self
  have fits := ahead.sound.tracked.fits lane group member
  have started : group.lo ≠ 0 := by
    intro zero
    obtain ⟨collapses, found⟩ := fits.resolved group.lo fits.lo_mem
    rw [zero, unit.resolve_zero] at found
    cases found
  have below := ((le_lowWater_iff ahead.sound _).mp ahead.passed).2 lane group member
  have order := fits.lo_le_hi
  rw [ahead.persisted] at below
  change db.watermark < group.hi
  omega

/-- The mark of the reader, after an action. -/
theorem Ahead.marking_step {db : OpDb} {s s' : Process} {act : Act} (ahead : s.Ahead unit db)
    (taken : s.step unit act = some s') {mark : Nat} (reading : s'.reader = .marked mark) :
    s'.persisted ≤ mark := by
  rcases still_or_reads taken with still | reads
  · rw [still.persisted]
    exact ahead.marking mark (still.reader mark (.inl reading) ▸ reading)
  cases reads with
  | @deliver upto polling behind =>
      have kept : (s.deliver unit upto).persisted = s.persisted ∧
          (s.deliver unit upto).reader = .polling :=
        deliver_keeps (fun next => next.persisted = s.persisted ∧ next.reader = .polling)
          ahead.sound.behind behind ⟨rfl, polling⟩ fun next same =>
            ⟨(advance_persisted next).trans same.1, (assign_reader next _).trans same.2⟩
      rw [kept.2] at reading
      cases reading
  | resubscribe => cases reading
  | readMark polling moved =>
      cases reading
      exact ahead.passed
  | writeMark marked => cases reading
  | @forgetMark passed written =>
      change (if (s.lanes.forget passed).rowsToSweep passed then Reader.sweeping passed
        else .polling) = .marked mark at reading
      split at reading <;> cases reading

/-- An action leaves a process ahead of its mark, given what it wrote. -/
theorem Ahead.step {db db' : OpDb} {s s' : Process} {act : Act} (ahead : s.Ahead unit db)
    (reads : s.ForgetsRead act) (taken : s.step unit act = some s')
    (persisted : s'.persisted = db'.watermark)
    (moved : s'.persisted = s.persisted ∨ ∃ mark, s.reader = .marked mark ∧ s'.persisted = mark)
    (live : ∀ thread lane work, s'.workers.get thread = some ⟨lane, .live work⟩ →
      db'.invocations.get work.position ≠ none) : s'.Ahead unit db' where
  sound := ahead.sound.step taken
  remembered := ahead.remembered.step ahead.sound reads taken
  persisted := persisted
  passed := by
    have grown := lowWater_mono ahead.sound ahead.remembered taken
    rcases moved with same | ⟨mark, marked, same⟩
    · rw [same]
      exact le_trans ahead.passed grown
    · rw [same]
      obtain ⟨scanned, under⟩ := ahead.sound.marked mark (.inl marked)
      refine le_trans ((le_lowWater_iff ahead.sound mark).mpr ⟨scanned, ?_⟩) grown
      intro lane group member
      have above := under lane group member
      omega
  marking mark := ahead.marking_step taken
  live := live

end Process

namespace World

variable {unit : EffectUnit} {w w' : World}

/-- A running process of the world is ahead of the mark of its store. -/
def Ahead (unit : EffectUnit) (w : World) : Prop :=
  ∀ s, w.process = some s → s.Ahead unit w.db

/-- What one action leaves: what was terminal is, and the mark has not moved back. -/
structure Advances (db db' : OpDb) : Prop where
  watermark : db.watermark ≤ db'.watermark
  terminal : ∀ position collapsedFrom,
    db.invocations.get position = some (.terminal collapsedFrom) →
      ∃ collapsedFrom', db'.invocations.get position = some (.terminal collapsedFrom')

theorem Advances.refl (db : OpDb) : Advances db db :=
  ⟨le_refl _, fun _ collapsedFrom row => ⟨collapsedFrom, row⟩⟩

/-- Who runs an invocation once one worker has turned to another phase. -/
theorem live_of_turn {s : Process} {thread other : Nat} {lane lane' : LaneId} {phase : Phase}
    {work : Work} (working : (s.turn thread lane phase).workers.get other = some ⟨lane', .live work⟩) :
    (other = thread ∧ phase = .live work) ∨ s.workers.get other = some ⟨lane', .live work⟩ := by
  change (s.workers.set thread ⟨lane, phase⟩).get other = _ at working
  rw [Table.get_set] at working
  split at working
  · next same =>
      cases working
      exact .inl ⟨same, rfl⟩
  · exact .inr working

theorem row_of_begin {db : OpDb} {position other : Nat} (row : db.invocations.get other ≠ none) :
    (db.beginInvocation position).1.invocations.get other ≠ none := by
  rw [OpDb.begin_get, if_neg]
  · exact row
  · exact fun absent => row absent.2

theorem stepped_ahead {act : WorldAct} (ahead : w.Ahead unit)
    (reads : ∀ one s, act = .act one → w.process = some s → s.ForgetsRead one)
    (taken : w.step unit act = some w') : w'.Ahead unit ∧ Advances w.db w'.db := by
  cases act with
  | boot =>
      cases stepped_of_step taken with
      | boot down =>
          refine ⟨?_, .refl _⟩
          rintro s ⟨⟩
          exact Process.ahead_boot unit w.db
  | crash =>
      cases stepped_of_step taken with
      | crash up => exact ⟨fun _ never => (by cases never), .refl _⟩
  | act act =>
      obtain ⟨s, db', s', up, stored, moved, rfl⟩ := act_cases taken
      have here := ahead s up
      have fine := reads act s rfl up
      have next (persisted : s'.persisted = db'.watermark)
          (moves : s'.persisted = s.persisted ∨
            ∃ mark, s.reader = .marked mark ∧ s'.persisted = mark)
          (live : ∀ thread lane work, s'.workers.get thread = some ⟨lane, .live work⟩ →
            db'.invocations.get work.position ≠ none) : (World.mk db' (some s')).Ahead unit := by
        rintro other ⟨⟩
        exact here.step fine moved persisted moves live
      have fields := here.persisted
      cases stepped_of_step taken with
      | begin up' took answers =>
          cases up.symm.trans up'
          refine ⟨next ?_ (.inl rfl) ?_, ?_, ?_⟩
          · exact fields.trans (OpDb.begin_fields _ _).1.symm
          · intro other lane work working
            rcases live_of_turn working with ⟨-, phase⟩ | same
            · cases answer : (w.db.beginInvocation _).2 with
              | alreadyTerminal =>
                  rw [← answers, answer] at phase
                  cases phase
              | running =>
                  rw [← answers, answer] at phase
                  cases phase
                  rw [OpDb.begin_running _ _ answer]
                  rintro ⟨⟩
            · exact row_of_begin (here.live other lane work same)
          · exact (OpDb.begin_fields _ _).1.ge
          · exact fun position collapsedFrom row =>
              ⟨collapsedFrom, (OpDb.begin_terminal_iff _ _ _ _).mpr row⟩
      | settle up' live =>
          cases up.symm.trans up'
          refine ⟨next ?_ (.inl rfl) ?_, ?_, ?_⟩
          · exact fields.trans (OpDb.complete_fields _ _ _).1.symm
          · intro other lane work working
            rcases live_of_turn working with ⟨-, phase⟩ | same
            · cases phase
            · rw [OpDb.complete_get]
              split
              · rintro ⟨⟩
              · exact here.live other lane work same
          · exact (OpDb.complete_fields _ _ _).1.ge
          · intro position collapsedFrom row
            rw [OpDb.complete_get]
            split
            · exact ⟨_, rfl⟩
            · exact ⟨collapsedFrom, row⟩
      | @recordRow _ _ held position written up' owing =>
          cases up.symm.trans up'
          have kept : (if written = true then w.db.recordEffectLane held position
              else w.db).invocations = w.db.invocations := by split <;> rfl
          have mark : (if written = true then w.db.recordEffectLane held position
              else w.db).watermark = w.db.watermark := by split <;> rfl
          refine ⟨next (fields.trans mark.symm) (.inl rfl) ?_, mark.ge, ?_⟩
          · intro other lane work working
            rw [kept]
            rcases live_of_turn working with ⟨-, phase⟩ | same
            · split at phase <;> cases phase
            · exact here.live other lane work same
          · exact fun position collapsedFrom row => ⟨collapsedFrom, kept ▸ row⟩
      | @writeMark _ mark up' marked =>
          cases up.symm.trans up'
          refine ⟨next rfl (.inr ⟨mark, marked, rfl⟩) here.live, ?_, ?_⟩
          · exact fields ▸ here.marking mark marked
          · exact fun position collapsedFrom row => ⟨collapsedFrom, row⟩
      | sweepRows up' sweeping =>
          cases up.symm.trans up'
          refine ⟨next fields (.inl rfl) here.live, ?_, ?_⟩
          · exact le_refl w.db.watermark
          · exact fun position collapsedFrom row => ⟨collapsedFrom, row⟩
      | quiet up' taken' plain =>
          cases up.symm.trans up'
          have same := Process.persisted_of_quiet here.sound moved plain
          refine ⟨next (same.trans fields) (.inl same) ?_, .refl _⟩
          intro thread lane work working
          rcases Process.worker_of_quiet moved plain working with before | fresh | ⟨_, -, owing⟩
          · exact here.live thread lane work before
          · rcases fresh with ready | leaving | ⟨_, took⟩
            · cases ready
            · cases leaving
            · cases took
          · cases owing

/-- What a worker settles is terminal. -/
theorem settled_terminal {thread : Nat} {s : Process} {lane : LaneId} {work : Work}
    (ahead : w.Ahead unit) (up : w.process = some s)
    (live : s.workers.get thread = some ⟨lane, .live work⟩)
    (taken : w.step unit (.act (.settle thread)) = some w') :
    ∃ collapsedFrom, w'.db.invocations.get work.position = some (.terminal collapsedFrom) := by
  cases stepped_of_step taken with
  | settle up' live' =>
      cases up.symm.trans up'
      rw [live] at live'
      cases live'
      refine ⟨work.collapsedFrom, ?_⟩
      rw [OpDb.complete_get, if_pos ⟨rfl, (ahead s up).live thread lane work live⟩]
  | quiet up' taken' plain => exact absurd (.settle thread) plain

end World

namespace Retention

variable {unit : EffectUnit} {r r' : Retention}

/-- What has finished is terminal still or at or below the mark, and a running
process is ahead of the mark. -/
structure Kept (unit : EffectUnit) (r : Retention) : Prop where
  done : ∀ position ∈ r.finished, (∃ collapsedFrom,
    r.world.db.invocations.get position = some (.terminal collapsedFrom)) ∨
      position ≤ r.world.db.watermark
  ahead : r.world.Ahead (r.unitOf unit)

theorem kept_stored (unit : EffectUnit) (db : OpDb) (journal : Table JournalRow String)
    (quarantine : Option Nat) (liveBoundary : Nat) :
    (stored db journal quarantine liveBoundary).Kept unit where
  done position member := by
    obtain ⟨-, terminal⟩ := List.mem_filter.mp member
    left
    change ∃ collapsedFrom, db.invocations.get position = some (.terminal collapsedFrom)
    cases row : db.invocations.get position with
    | none =>
        rw [row] at terminal
        cases terminal
    | some invocation =>
        cases invocation with
        | running =>
            rw [row] at terminal
            cases terminal
        | terminal collapsedFrom => exact ⟨collapsedFrom, rfl⟩
  ahead := nofun

/-- What an action makes terminal was in a worker's hands. -/
theorem mem_settling {act : WorldAct} {position : Nat} (settles : position ∈ r.settling act) :
    ∃ thread s lane work, act = .act (.settle thread) ∧ r.world.process = some s ∧
      s.workers.get thread = some ⟨lane, .live work⟩ ∧ position = work.position := by
  unfold settling at settles
  split at settles
  · next thread =>
      split at settles
      · next lane work working =>
          obtain ⟨s, up, live⟩ := Option.bind_eq_some_iff.mp working
          exact ⟨thread, s, lane, work, rfl, up, live, List.mem_singleton.mp settles⟩
      · cases settles
  · cases settles

theorem Kept.world {act : WorldAct} {world : World} (kept : r.Kept unit)
    (reads : r.ForgetsRead (.world act))
    (taken : r.world.step (r.unitOf unit) act = some world) :
    ({ r with world, finished := r.finished ++ r.settling act } : Retention).Kept unit := by
  have forgets : ∀ one s, act = .act one → r.world.process = some s → s.ForgetsRead one := by
    rintro one s rfl up
    exact reads s up
  obtain ⟨ahead, advances⟩ := World.stepped_ahead kept.ahead forgets taken
  refine ⟨?_, ahead⟩
  intro position member
  rcases List.mem_append.mp member with before | settles
  · rcases kept.done position before with ⟨collapsedFrom, row⟩ | below
    · exact .inl (advances.terminal position collapsedFrom row)
    · exact .inr (le_trans below advances.watermark)
  · obtain ⟨thread, s, lane, work, rfl, up, live, rfl⟩ := mem_settling settles
    exact .inl (World.settled_terminal kept.ahead up live taken)

theorem Kept.sweep (kept : r.Kept unit) (picked : List Nat) : (r.sweep picked).Kept unit := by
  constructor
  · intro position member
    rcases kept.done position member with ⟨collapsedFrom, row⟩ | below
    · by_cases gone : (r.world.db.sweepEffectJournal picked).invocations.get position =
          some (.terminal collapsedFrom)
      · exact .inl ⟨collapsedFrom, gone⟩
      · right
        change position ≤ r.world.db.watermark
        exact le_watermark_of_swept row gone
    · exact .inr below
  · intro s up
    have here := kept.ahead s up
    refine ⟨here.sound, here.remembered, here.persisted, here.passed, here.marking, ?_⟩
    intro thread lane work working
    change (r.world.db.sweepEffectJournal picked).invocations.get work.position ≠ none
    rw [sweep_get_above picked (here.above working rfl)]
    exact here.live thread lane work working

theorem kept_rewind (unit : EffectUnit) (down : r.world.process = none) (target : Nat)
    (includeLive : Bool) : (r.rewind target includeLive).1.Kept unit := by
  constructor
  · intro position member
    obtain ⟨-, upto⟩ := List.mem_filter.mp member
    exact .inr (of_decide_eq_true upto)
  · intro s up
    change r.world.process = some s at up
    rw [down] at up
    cases up

theorem Kept.step {act : RetentionAct} (kept : r.Kept unit) (reads : r.ForgetsRead act)
    (taken : r.step unit act = some r') : r'.Kept unit := by
  cases act with
  | world act =>
      obtain ⟨world, moved, rfl⟩ := Option.map_eq_some_iff.mp taken
      exact kept.world reads moved
  | record thread hash ordinal result =>
      unfold Retention.step Retention.record at taken
      dsimp only at taken
      split at taken
      · split at taken
        · cases taken
          exact ⟨kept.done, kept.ahead⟩
        · cases taken
      · cases taken
  | quarantine thread =>
      unfold Retention.step at taken
      dsimp only at taken
      split at taken
      · cases taken
        exact ⟨kept.done, kept.ahead⟩
      · cases taken
  | sweep picked =>
      cases taken
      exact kept.sweep picked
  | rewind target includeLive =>
      unfold Retention.step at taken
      dsimp only at taken
      split at taken
      · cases taken
      · next down =>
          cases taken
          exact kept_rewind unit down target includeLive

/-- A worker that starts an invocation does not start a finished one. -/
theorem Kept.unfinished {thread : Nat} (kept : r.Kept unit)
    (taken : r.step unit (.world (.act (.begin thread .running))) = some r') {s : Process}
    {lane : LaneId} {work : Work} (up : r.world.process = some s)
    (took : s.workers.get thread = some ⟨lane, .took work⟩) : work.position ∉ r.finished := by
  intro finished
  obtain ⟨world, moved, -⟩ := Option.map_eq_some_iff.mp taken
  have above := (kept.ahead s up).above took rfl
  rcases kept.done work.position finished with ⟨collapsedFrom, row⟩ | below
  · cases World.stepped_of_step moved with
    | begin up' took' answers =>
        cases up.symm.trans up'
        rw [took] at took'
        cases took'
        unfold OpDb.beginInvocation at answers
        rw [row] at answers
        cases answers
    | quiet up' taken' plain => exact absurd (.begin thread .running) plain
  · omega

theorem kept_of_run {db : OpDb} {journal : Table JournalRow String} {quarantine : Option Nat}
    {liveBoundary : Nat} {acts : List RetentionAct}
    (guarded : Guarded (step unit) ForgetsRead (stored db journal quarantine liveBoundary) acts)
    (ran : run (step unit) (stored db journal quarantine liveBoundary) acts = some r) :
    r.Kept unit :=
  run_invariant_of_guarded (Kept unit) (fun _ _ _ kept reads taken => kept.step reads taken)
    (kept_stored unit db journal quarantine liveBoundary) guarded ran

/-- A sweep changes nothing a restart reads. -/
structure SweepsBehind (unit : EffectUnit) (r swept : Retention) : Prop where
  mark : swept.world.db.watermark = r.world.db.watermark
  rows : ∀ position, r.world.db.watermark < position →
    swept.world.db.invocations.get position = r.world.db.invocations.get position
  journal : ∀ row : JournalRow, r.world.db.watermark < row.1 →
    swept.journal.get row = r.journal.get row
  boots : World.bootProcess unit swept.world.db = World.bootProcess unit r.world.db

theorem sweeps_behind (unit : EffectUnit) (r : Retention) (picked : List Nat) :
    SweepsBehind unit r (r.sweep picked) where
  mark := rfl
  rows position above := sweep_get_above picked above
  journal row above := by
    change (cascade _ _ r.journal).get row = _
    rw [cascade_get, sweep_get_above picked above, if_neg]
    rintro ⟨present, absent⟩
    exact present absent
  boots := by
    have same := @invocationsAbove_sweep r.world.db picked (recordedMax + 1)
    have recorded : World.recorded unit (r.sweep picked).world.db =
        World.recorded unit r.world.db := by
      unfold World.recorded
      change (if unit.anyLatest = true then
        (r.world.db.sweepEffectJournal picked).invocationsAbove r.world.db.watermark
          (recordedMax + 1) else []) = _
      rw [same]
    unfold World.bootProcess
    rw [recorded]
    rfl

/-- A rewind discards what its preview counted, and every lane row. -/
structure Rewinds (r rewound : Retention) (counts : RewindCounts) (target : Nat) : Prop where
  counted : counts = r.rewindPreview target
  mark : rewound.world.db.watermark = target
  rows : ∀ position, rewound.world.db.invocations.get position =
    if position ≤ target then r.world.db.invocations.get position else none
  journal : ∀ row : JournalRow, rewound.journal.get row =
    if r.world.db.invocations.get row.1 ≠ none ∧ target < row.1 then none else r.journal.get row
  lanes : ∀ lane, rewound.world.db.lanes.get lane = none

theorem rewinds (r : Retention) (target : Nat) (includeLive : Bool) :
    Rewinds r (r.rewind target includeLive).1 (r.rewind target includeLive).2 target where
  counted := by
    unfold rewind rewindPreview
    dsimp only
    congr 1
    · change deleted r.world.db.invocations (r.world.db.invocations.retain _) = _
      rw [deleted_retain]
      refine List.countP_congr fun entry _ => ?_
      simp
    · cases r.quarantine with
      | none => rfl
      | some position =>
          by_cases upto : position ≤ target
          · simp [upto]
          · simp [upto, Nat.lt_of_not_le upto]
  mark := rfl
  rows position := rewind_get target
  journal row := by
    change (cascade _ _ r.journal).get row = _
    rw [cascade_get, rewind_get]
    by_cases upto : row.1 ≤ target
    · rw [if_pos upto, if_neg, if_neg]
      · exact fun gone => Nat.not_lt_of_le upto gone.2
      · exact fun gone => gone.1 gone.2
    · rw [if_neg upto]
      simp [Nat.lt_of_not_le upto]
  lanes lane := Table.get_empty lane

/-- What has finished stays finished until a rewind below it. -/
theorem finished_until_rewind {act : RetentionAct} (taken : r.step unit act = some r')
    {position : Nat} (finished : position ∈ r.finished) (reopened : position ∉ r'.finished) :
    ∃ target includeLive, act = .rewind target includeLive ∧ target < position := by
  cases act with
  | world act =>
      obtain ⟨world, -, rfl⟩ := Option.map_eq_some_iff.mp taken
      exact absurd (List.mem_append_left _ finished) reopened
  | record thread hash ordinal result =>
      unfold Retention.step Retention.record at taken
      dsimp only at taken
      split at taken
      · split at taken
        · cases taken
          exact absurd finished reopened
        · cases taken
      · cases taken
  | quarantine thread =>
      unfold Retention.step at taken
      dsimp only at taken
      split at taken
      · cases taken
        exact absurd finished reopened
      · cases taken
  | sweep picked =>
      cases taken
      exact absurd finished reopened
  | rewind target includeLive =>
      unfold Retention.step at taken
      dsimp only at taken
      split at taken
      · cases taken
      · cases taken
        refine ⟨target, includeLive, rfl, Nat.lt_of_not_le fun upto => reopened ?_⟩
        exact List.mem_filter.mpr ⟨finished, decide_eq_true upto⟩

/-- In every run whose forgets are all at marks the subscription has read past, a
worker never starts an invocation at a position that has finished, which it stays
until a rewind below it; a sweep leaves everything a restart reads, and every
invocation and journal row above the mark; and a rewind discards the rows its
preview counts and every lane row. -/
theorem journal_sweep_safe (unit : EffectUnit) (db : OpDb) (journal : Table JournalRow String)
    (quarantine : Option Nat) (liveBoundary : Nat) (acts : List RetentionAct) (r : Retention)
    (guarded : Guarded (step unit) ForgetsRead (stored db journal quarantine liveBoundary) acts)
    (ran : run (step unit) (stored db journal quarantine liveBoundary) acts = some r) :
    (∀ thread r' s lane work, r.step unit (.world (.act (.begin thread .running))) = some r' →
        r.world.process = some s → s.workers.get thread = some ⟨lane, .took work⟩ →
          work.position ∉ r.finished) ∧
      (∀ act r' position, r.step unit act = some r' → position ∈ r.finished →
        position ∉ r'.finished →
          ∃ target includeLive, act = .rewind target includeLive ∧ target < position) ∧
      (∀ picked r', r.step unit (.sweep picked) = some r' → SweepsBehind (r.unitOf unit) r r') ∧
      ∀ target includeLive r', r.step unit (.rewind target includeLive) = some r' →
        Rewinds r r' (r.rewind target includeLive).2 target := by
  refine ⟨?_, ?_, ?_, ?_⟩
  · intro thread r' s lane work taken up took
    exact (kept_of_run guarded ran).unfinished taken up took
  · intro act r' position taken finished reopened
    exact finished_until_rewind taken finished reopened
  · rintro picked r' ⟨⟩
    exact sweeps_behind (r.unitOf unit) r picked
  · intro target includeLive r' taken
    unfold step at taken
    dsimp only at taken
    split at taken
    · cases taken
    · cases taken
      exact rewinds r target includeLive

/-- The second lane's position runs while the first lane is at work, which then
finishes too. -/
def secondLaneFirst : List WorldAct :=
  [.boot, .act (.deliver 2),
    .act (.claim 0 ⟨"i:2"⟩), .act (.head 0), .act (.begin 0 .running), .act (.settle 0),
    .act (.complete 0), .act (.recordRow 0 true), .act (.noteRow 0), .act (.release 0),
    .act (.claim 0 ⟨"i:1"⟩), .act (.head 0), .act (.begin 0 .running), .act (.settle 0),
    .act (.complete 0), .act (.release 0)]

/-- Both positions are finished, and the mark is written. -/
def published : List RetentionAct :=
  secondLaneFirst.map .world ++ [.world (.act .readMark), .world (.act .writeMark)]

theorem journal_sweep_safe_of_published :
    ∃ r, run (step Process.twoLanes) (stored {} ∅ none 0) published = some r ∧
      2 ∈ r.finished ∧ SweepsBehind (r.unitOf Process.twoLanes) r (r.sweep [1, 2]) := by
  have ended : (run (step Process.twoLanes) (stored {} ∅ none 0) published).any
      (fun r => decide (2 ∈ r.finished)) = true := by decide
  obtain ⟨r, ran, finished⟩ := (Option.any_eq_true _ _).mp ended
  have guarded : Guarded (step Process.twoLanes) ForgetsRead (stored {} ∅ none 0) published := by
    refine Guarded.of_forall ?_
    intro act member r
    unfold published secondLaneFirst at member
    cases act with
    | world act =>
        cases act with
        | boot => exact trivial
        | crash => exact trivial
        | act act =>
            rintro s _ mark rfl
            simp at member
    | _ => exact trivial
  obtain ⟨-, -, swept, -⟩ := journal_sweep_safe Process.twoLanes {} ∅ none 0 _ r guarded ran
  exact ⟨r, ran, of_decide_eq_true finished, swept [1, 2] _ rfl⟩

/-- The driver loses the log before the mark is written, and publishes it once
only the first position has been delivered again. -/
def sweptEarly : List RetentionAct :=
  secondLaneFirst.map .world ++
    [.world (.act (.resubscribe 0)), .world (.act (.deliver 1)), .world (.act .readMark),
      .world (.act .writeMark), .world (.act .forgetMark), .world (.act .sweepRows),
      .world (.act .pruneRows), .sweep [2], .world (.act (.deliver 2)),
      .world (.act (.claim 0 ⟨"i:2"⟩)), .world (.act (.head 0))]

/-- The second position's row is swept before it is delivered again, and the
position is started anew. -/
theorem swept_position_runs_again :
    ∃ r r', run (step Process.twoLanes) (stored {} ∅ none 0) sweptEarly = some r ∧
      r.step Process.twoLanes (.world (.act (.begin 0 .running))) = some r' ∧
      (r.world.process.bind fun s => s.workers.get 0) = some ⟨⟨"i:2"⟩, .took ⟨2, none⟩⟩ ∧
      2 ∈ r.finished := by
  have ended : (run (step Process.twoLanes) (stored {} ∅ none 0) sweptEarly).any
      (fun r => (r.step Process.twoLanes (.world (.act (.begin 0 .running)))).isSome &&
        decide ((r.world.process.bind fun s => s.workers.get 0) =
          some ⟨⟨"i:2"⟩, .took ⟨2, none⟩⟩ ∧ 2 ∈ r.finished)) = true := by decide
  obtain ⟨r, ran, holds⟩ := (Option.any_eq_true _ _).mp ended
  obtain ⟨started, state⟩ := Bool.and_eq_true_iff.mp holds
  obtain ⟨r', taken⟩ := Option.isSome_iff_exists.mp started
  exact ⟨r, r', ran, taken, of_decide_eq_true state⟩

end Retention

end Hekla.Effect
