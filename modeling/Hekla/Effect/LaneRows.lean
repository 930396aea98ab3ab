import Hekla.Effect.Deploys

/-!
# What a lane row may speak for

A lane row says that its lane is done up to a position, and the next process
drops what it admits below that.  The row names no event type and no key.  So a
definition may only be dropped what the row's own definition matched in that
lane, which the guard does not ask: it compares the event types of both schemes
and lets a new one through.

`floor` is the mark a definition was admitted at.  What lies at or below it is
none of that definition's, and what lies above was settled under it, settled in
a store an earlier definition left, or is still queued.
-/

namespace Hekla.Effect

open Hekla.Library Hekla.Lanes

theorem Settled.mono {unit : EffectUnit} {db db' : OpDb} {resolved : Resolved} {position : Nat}
    (settled : Settled unit db resolved position) (keeps : db.KeepsTerminal db') :
    Settled unit db' resolved position := by
  obtain ⟨terminal, collapsedFrom, row, rest⟩ := settled
  exact ⟨terminal, collapsedFrom, keeps terminal collapsedFrom row, rest⟩

section Spoken

variable (unit : EffectUnit) (excused : Nat → Prop)

/-- The position is excused or has been settled. -/
def Spoken (db : OpDb) (resolved : Resolved) (position : Nat) : Prop :=
  excused position ∨ Settled unit db resolved position

variable {unit excused}

theorem Spoken.mono {db db' : OpDb} {resolved : Resolved} {position : Nat}
    (spoken : Spoken unit excused db resolved position) (keeps : db.KeepsTerminal db') :
    Spoken unit excused db' resolved position :=
  spoken.imp_right fun settled => settled.mono keeps

end Spoken

/-! ## The store -/

/-- The mark and the lane rows claim nothing that is not spoken for. -/
structure OpDb.Honest (unit : EffectUnit) (excused : Nat → Prop) (db : OpDb) : Prop where
  mark : ∀ position resolved, unit.resolve position = some resolved → position ≤ db.watermark →
    Spoken unit excused db resolved position
  rows : ∀ lane row, db.lanes.get lane = some row → ∀ position resolved,
    unit.resolve position = some resolved → resolved.lane = lane → position ≤ row →
      Spoken unit excused db resolved position

theorem OpDb.Honest.congr {unit : EffectUnit} {excused : Nat → Prop} {db db' : OpDb}
    (honest : db.Honest unit excused) (watermark : db'.watermark = db.watermark)
    (lanes : db'.lanes = db.lanes) (keeps : db.KeepsTerminal db') : db'.Honest unit excused where
  mark position resolved found below :=
    (honest.mark position resolved found (watermark ▸ below)).mono keeps
  rows lane row held position resolved found same below :=
    (honest.rows lane row (lanes ▸ held) position resolved found same below).mono keeps

/-! ## A process -/

namespace Process

variable {unit : EffectUnit} {excused : Nat → Prop}

/-- The range recorded with the invocation a worker has finished, or found
finished, has all that its group stands for. -/
def Spans (s : Process) (db : OpDb) : Prop :=
  ∀ thread lane work, s.workers.get thread = some ⟨lane, .settled work⟩ →
    ∃ collapsedFrom, db.invocations.get work.position = some (.terminal collapsedFrom) ∧
      collapsedFrom.getD work.position ≤ work.collapsedFrom.getD work.position

/-- Whoever has finished an invocation had finished it before. -/
theorem Spans.mono {db db' : OpDb} {s s' : Process} (spans : s.Spans db)
    (keeps : db.KeepsTerminal db')
    (same : ∀ thread lane work, s'.workers.get thread = some ⟨lane, .settled work⟩ →
      s.workers.get thread = some ⟨lane, .settled work⟩) : s'.Spans db' := by
  intro thread lane work settled
  obtain ⟨collapsedFrom, row, reaches⟩ := spans thread lane work (same thread lane work settled)
  exact ⟨collapsedFrom, keeps _ _ row, reaches⟩

theorem Spans.quiet {db : OpDb} {s s' : Process} {act : Act} (spans : s.Spans db)
    (taken : s.step unit act = some s') (plain : ¬act.Stores) : s'.Spans db := by
  refine spans.mono (fun _ _ => id) ?_
  intro thread lane work settled
  rcases worker_of_quiet taken plain settled with same | fresh | ⟨other, -, owes⟩
  · exact same
  · rcases fresh with fresh | fresh | ⟨other, fresh⟩ <;> cases fresh
  · cases owes

/-- A worker that turns to what is not finished leaves the others as they were. -/
theorem Spans.turn {db db' : OpDb} {s : Process} {thread : Nat} {lane : LaneId} {phase : Phase}
    (spans : s.Spans db) (keeps : db.KeepsTerminal db')
    (unfinished : ∀ work, phase ≠ .settled work) : (s.turn thread lane phase).Spans db' := by
  refine spans.mono keeps ?_
  intro other lane' work settled
  change (s.workers.set thread ⟨lane, phase⟩).get other = some ⟨lane', .settled work⟩ at settled
  rw [Table.get_set] at settled
  split at settled
  · cases settled
    exact absurd rfl (unfinished work)
  · exact settled

/-- A worker turns to an invocation whose recorded range has all of its group. -/
theorem Spans.finish {db db' : OpDb} {s : Process} {thread : Nat} {lane : LaneId} {work : Work}
    (spans : s.Spans db) (keeps : db.KeepsTerminal db') {collapsedFrom : Option Nat}
    (row : db'.invocations.get work.position = some (.terminal collapsedFrom))
    (reaches : collapsedFrom.getD work.position ≤ work.collapsedFrom.getD work.position) :
    (s.turn thread lane (.settled work)).Spans db' := by
  intro other lane' work' settled
  change (s.workers.set thread ⟨lane, .settled work⟩).get other = some ⟨lane', .settled work'⟩
    at settled
  rw [Table.get_set] at settled
  split at settled
  · cases settled
    exact ⟨collapsedFrom, row, reaches⟩
  · obtain ⟨recorded, held, spanned⟩ := spans other lane' work' settled
    exact ⟨recorded, keeps _ _ held, spanned⟩

/-- What a process scanned is queued or spoken for. -/
structure Honest (unit : EffectUnit) (excused : Nat → Prop) (db : OpDb) (s : Process) : Prop where
  sound : s.Sound unit
  persisted : s.persisted = db.watermark
  scanned : ∀ position resolved, unit.resolve position = some resolved →
    position ≤ s.lanes.scanned → s.Holds resolved position ∨ Spoken unit excused db resolved position
  high : ∀ lane seen, s.lanes.high.get lane = some seen → seen ≤ s.lanes.scanned ∨
    ∀ position resolved, unit.resolve position = some resolved → resolved.lane = lane →
      position ≤ seen → Spoken unit excused db resolved position
  backs : s.Backs db
  spans : s.Spans db

theorem Honest.advance {db : OpDb} {s : Process} (honest : s.Honest unit excused db)
    (polling : s.reader = .polling) : (s.advance unit).Honest unit excused db := by
  have behind := honest.sound.behind
  have grown : s.lanes.scanned ≤ (s.advance unit).lanes.scanned := by
    rw [advance_scanned]
    exact le_max_left _ _
  have reached : s.cursor + 1 ≤ (s.advance unit).lanes.scanned := by
    rw [advance_scanned]
    exact le_max_right _ _
  refine ⟨honest.sound.advance polling, (advance_persisted s).trans honest.persisted, ?_, ?_, ?_,
    honest.spans.mono (fun _ _ => id) fun _ _ _ settled => advance_workers s ▸ settled⟩
  · intro position resolved found scanned
    rcases advance_cases unit s with ⟨eq, seen⟩ | ⟨entering, entered, fresh, eq⟩
    · rw [eq]
      rcases le_scanned_advance behind scanned with old | rfl
      · exact honest.scanned position resolved found old
      -- A dropped position was offered before, or its lane's row speaks for it.
      · obtain ⟨high, held, below⟩ := (seen_iff _ _ _).mp (seen resolved found)
        rcases honest.high resolved.lane high held with old | claimed
        · exact honest.scanned _ resolved found (le_trans below old)
        · exact .inr (claimed _ resolved found rfl below)
    · rw [eq]
      rcases le_scanned_advance behind scanned with old | rfl
      · exact (honest.scanned position resolved found old).imp_left
          fun holds => holds.enter honest.sound fresh
      · rw [entered] at found
        cases found
        exact .inl (holds_entered honest.sound fresh)
  · intro lane seen held
    have old (was : s.lanes.high.get lane = some seen) :=
      (honest.high lane seen was).imp_left fun below => le_trans below grown
    rcases advance_cases unit s with ⟨eq, -⟩ | ⟨entering, -, fresh, eq⟩
    · rw [eq] at held
      exact old held
    · rw [eq, offer_of_fresh fresh] at held
      change (s.lanes.high.set entering.lane (s.cursor + 1)).get lane = some seen at held
      rw [Table.get_set] at held
      split at held
      · cases held
        exact .inl reached
      · exact old held
  · intro thread lane phase working
    rw [advance_workers] at working
    exact Phase.Backed.grow (honest.backs thread lane phase working) grown

/-- The group that retires is terminal at its end and recorded with its range, so
what it stood for is settled. -/
theorem settled_of_retired {db : OpDb} {lane : LaneId} {group : Group}
    (fits : group.Fits unit lane) {collapsedFrom : Option Nat}
    (row : db.invocations.get group.hi = some (.terminal collapsedFrom))
    (reaches : collapsedFrom.getD group.hi ≤ group.work.collapsedFrom.getD group.hi)
    {resolved : Resolved}
    {position : Nat} (found : unit.resolve position = some resolved) (sameLane : resolved.lane = lane)
    (sameArm : group.arm = resolved.arm) (lower : group.lo ≤ position) (upper : position ≤ group.hi) :
    Settled unit db resolved position := by
  obtain ⟨_, resolves⟩ := fits.resolved group.hi fits.hi_mem
  have eq := EffectUnit.resolve_eq found resolves sameLane sameArm.symm
  refine ⟨group.hi, collapsedFrom, row, eq ▸ resolves, ?_⟩
  rcases fits.alone with collapses | single
  · rw [resolves] at collapses
    have starts : group.work.collapsedFrom.getD group.hi = group.lo := by
      have order := fits.lo_le_hi
      change (if group.lo < group.hi then some group.lo else none).getD group.hi = group.lo
      split
      · rfl
      · change group.hi = group.lo
        omega
    exact .inr ⟨eq ▸ congrArg Resolved.collapsible (Option.some.inj collapses),
      le_trans (starts ▸ reaches) lower, upper⟩
  · have first := fits.lo_mem
    rw [single, List.mem_singleton] at first
    exact .inl (by omega)

theorem Honest.quiet {db : OpDb} {s s' : Process} {act : Act} (honest : s.Honest unit excused db)
    (taken : s.step unit act = some s') (plain : ¬act.Stores) : s'.Honest unit excused db := by
  have sound' := honest.sound.step taken
  have persisted := (persisted_of_quiet honest.sound taken plain).trans honest.persisted
  have delivered {upto : Nat} (polling : s.reader = .polling) (ahead : s.cursor ≤ upto) :
      (s.deliver unit upto).Honest unit excused db := by
    refine (deliver_keeps (fun s => s.Honest unit excused db ∧ s.reader = .polling)
      honest.sound.behind ahead ⟨honest, polling⟩ ?_).1
    rintro next ⟨honest, polling⟩
    exact ⟨honest.advance polling, (assign_reader next _).trans polling⟩
  rcases deliver_or_quiet honest.sound taken with ⟨upto, polling, ahead, rfl⟩ | quiet
  · exact delivered polling ahead
  · refine ⟨sound', persisted, ?_, ?_, honest.backs.quiet honest.sound taken plain,
      honest.spans.quiet taken plain⟩
    · intro position resolved found below
      rcases honest.scanned position resolved found (quiet.scanned ▸ below) with holds | spoken
      · obtain ⟨group, member, sameArm, lower, upper⟩ := holds
        cases writes_of_step honest.sound taken with
        | nothing ledger latest => exact .inl ⟨group, ledger ▸ member, sameArm, lower, upper⟩
        | deliver polling ahead => exact (delivered polling ahead).scanned position resolved found below
        | head ready queue ledger lanes => exact .inl ⟨group, ledger ▸ member, sameArm, lower, upper⟩
        | @complete _ thread lane retired rest settled queue ledger lanes =>
            by_cases same : group = retired ∧ resolved.lane = lane
            · obtain ⟨rfl, sameLane⟩ := same
              obtain ⟨collapsedFrom, row, reaches⟩ := honest.spans thread lane _ settled
              have fits := honest.sound.tracked.fits lane group (queue ▸ List.mem_cons_self)
              exact .inr (.inr (settled_of_retired fits row reaches found sameLane sameArm lower
                upper))
            · refine .inl ⟨group, ?_, sameArm, lower, upper⟩
              rw [ledger, Tracked.close_head queue]
              dsimp only
              rw [Function.update_apply]
              split
              · next sameLane =>
                  rw [sameLane, queue] at member
                  rcases List.mem_cons.mp member with first | later
                  · exact absurd ⟨first, sameLane⟩ same
                  · exact later
              · exact member
      · exact .inr spoken
    · intro lane seen held
      rw [quiet.scanned]
      exact honest.high lane seen (quiet.high lane seen held)

/-- A store that keeps its terminal rows serves a process as well, provided it
backs the workers. -/
theorem Honest.restore {db db' : OpDb} {s s' : Process} (honest : s.Honest unit excused db)
    (sound : s'.Sound unit) (keeps : db.KeepsTerminal db') (lanes : s'.lanes = s.lanes)
    (ledger : s'.ledger = s.ledger) (persisted : s'.persisted = db'.watermark)
    (backs : s'.Backs db') (spans : s'.Spans db') : s'.Honest unit excused db' where
  sound := sound
  persisted := persisted
  scanned position resolved found below := by
    rw [lanes] at below
    rcases honest.scanned position resolved found below with ⟨group, member, rest⟩ | spoken
    · exact .inl ⟨group, ledger ▸ member, rest⟩
    · exact .inr (spoken.mono keeps)
  high lane seen held := by
    rw [lanes] at held ⊢
    refine (honest.high lane seen held).imp_right ?_
    exact fun claimed position resolved found same below =>
      (claimed position resolved found same below).mono keeps
  backs := backs
  spans := spans

/-- A position its lane has seen is queued there or spoken for. -/
theorem Honest.dropped {db : OpDb} {s : Process} (honest : s.Honest unit excused db)
    {position : Nat} {resolved : Resolved} (found : unit.resolve position = some resolved)
    (seen : s.lanes.seen resolved.lane position = true) :
    s.Holds resolved position ∨ Spoken unit excused db resolved position := by
  obtain ⟨high, held, below⟩ := (seen_iff _ _ _).mp seen
  rcases honest.high resolved.lane high held with old | claimed
  · exact honest.scanned position resolved found (le_trans below old)
  · exact .inr (claimed position resolved found rfl below)

/-! ## Above the floor -/

/-- A process that has only to do with what lies above a floor. -/
structure Beyond (floor : Nat) (s : Process) : Prop where
  persisted : floor ≤ s.persisted
  cursor : floor ≤ s.cursor
  opened : ∀ lane, ∀ group ∈ s.ledger.opened lane, floor < group.lo
  marked : ∀ mark, s.reader = .marked mark → floor ≤ mark

variable {floor : Nat}

theorem Beyond.advance {s : Process} (beyond : s.Beyond floor) (sound : s.Sound unit)
    (polling : s.reader = .polling) : (s.advance unit).Beyond floor where
  persisted := (advance_persisted s) ▸ beyond.persisted
  cursor := Nat.le_succ_of_le beyond.cursor
  opened lane group member := by
    rcases advance_cases unit s with ⟨eq, -⟩ | ⟨resolved, -, fresh, eq⟩
    · rw [eq] at member
      exact beyond.opened lane group member
    · rw [eq, offer_of_fresh fresh] at member
      change group ∈ (s.ledger.enter s.lanes resolved.lane (s.cursor + 1) resolved.arm
        resolved.collapsible).opened lane at member
      rw [Tracked.opened_enter] at member
      split at member
      · next same =>
          subst same
          rcases sound.tracked.mem_entered member with ⟨old, -⟩ | ⟨rfl, -⟩ | ⟨taken, old, rfl, -⟩
          · exact beyond.opened resolved.lane group old
          · exact Nat.lt_succ_of_le beyond.cursor
          · exact beyond.opened resolved.lane taken old
      · exact beyond.opened lane group member
  marked mark reading := by
    have here : (s.advance unit).reader = s.reader := assign_reader s _
    rw [here, polling] at reading
    cases reading

theorem Beyond.step {s s' : Process} {act : Act} (beyond : s.Beyond floor) (sound : s.Sound unit)
    (taken : s.step unit act = some s') : s'.Beyond floor := by
  have opened (same : s'.persisted = s.persisted) (cursor : s'.cursor = s.cursor)
      (reader : ∀ mark, s'.reader = .marked mark → s'.reader = s.reader) : s'.Beyond floor := by
    refine ⟨same ▸ beyond.persisted, cursor ▸ beyond.cursor, ?_,
      fun mark reading => beyond.marked mark (reader mark reading ▸ reading)⟩
    intro lane group member
    cases writes_of_step sound taken with
    | nothing ledger latest => exact beyond.opened lane group (ledger ▸ member)
    | deliver polling ahead =>
        refine (deliver_keeps (fun s => s.Beyond floor ∧ s.Sound unit ∧ s.reader = .polling)
          sound.behind ahead ⟨beyond, sound, polling⟩ ?_).1.opened lane group member
        rintro next ⟨beyond, sound, polling⟩
        exact ⟨beyond.advance sound polling, sound.advance polling, (assign_reader next _).trans polling⟩
    | head ready queue ledger lanes =>
        rw [ledger] at member
        exact beyond.opened lane group member
    | @complete _ _ retiring _ rest settled queue ledger lanes =>
        rw [ledger, Tracked.close_head queue] at member
        dsimp only at member
        rw [Function.update_apply] at member
        split at member
        · next same =>
            subst same
            exact beyond.opened lane group (queue ▸ List.mem_cons_of_mem _ member)
        · exact beyond.opened lane group member
  rcases still_or_reads taken with still | reads
  · exact opened still.persisted still.cursor fun mark reading => still.reader mark (.inl reading)
  cases reads with
  | deliver polling ahead =>
      refine (deliver_keeps (fun s => s.Beyond floor ∧ s.Sound unit ∧ s.reader = .polling)
        sound.behind ahead ⟨beyond, sound, polling⟩ ?_).1
      rintro next ⟨beyond, sound, polling⟩
      exact ⟨beyond.advance sound polling, sound.advance polling, (assign_reader next _).trans polling⟩
  | resubscribe => exact ⟨beyond.persisted, beyond.persisted, beyond.opened, nofun⟩
  | readMark polling moved =>
      refine ⟨beyond.persisted, beyond.cursor, beyond.opened, ?_⟩
      rintro _ ⟨⟩
      refine (le_lowWater_iff sound floor).mpr ⟨le_trans beyond.persisted sound.durable, ?_⟩
      intro lane group member
      have above := beyond.opened lane group member
      omega
  | writeMark marked =>
      exact ⟨beyond.marked _ marked, beyond.cursor, beyond.opened, nofun⟩
  | @forgetMark mark written =>
      refine ⟨beyond.persisted, beyond.cursor, beyond.opened, ?_⟩
      intro other reading
      change (if (s.lanes.forget mark).rowsToSweep mark then Reader.sweeping mark else .polling) =
        .marked other at reading
      split at reading <;> cases reading

end Process

/-! ## The store after each write -/

namespace OpDb.Honest

variable {unit : EffectUnit} {excused : Nat → Prop} {db : OpDb} {s : Process}

/-- A lane row is right when no group queued in its lane starts below it. -/
theorem recordRow (stored : db.Honest unit excused) (honest : s.Honest unit excused db)
    {thread : Nat} {lane : LaneId} {position : Nat}
    (owing : s.workers.get thread = some ⟨lane, .owing position⟩)
    (above : ∀ group ∈ s.lanes.queue lane, position ≤ group.lo) :
    (db.recordEffectLane lane position).Honest unit excused where
  mark := stored.mark
  rows other row held earlier resolved found same below := by
    change (db.lanes.set lane (max ((db.lanes.get lane).getD position) position)).get other =
      some row at held
    change Spoken unit excused db resolved earlier
    obtain ⟨⟨collapsedFrom, terminal⟩, scanned⟩ := honest.backs thread lane _ owing
    have upto (below : earlier ≤ position) (sameLane : resolved.lane = lane) :
        Spoken unit excused db resolved earlier := by
      rcases honest.scanned earlier resolved found (le_trans below scanned) with holds | spoken
      · obtain ⟨group, member, sameArm, lower, upper⟩ := holds
        have queued : group.toPending ∈ s.lanes.queue lane := by
          rw [honest.sound.tracked.queue, ← sameLane]
          exact List.mem_map_of_mem member
        have start := above _ queued
        have here : earlier = position := by omega
        subst here
        exact .inr ⟨earlier, collapsedFrom, terminal, found, .inl rfl⟩
      · exact spoken
    rw [Table.get_set] at held
    split at held
    · next sameLane =>
        cases held
        rw [sameLane] at same
        cases old : db.lanes.get lane with
        | none =>
            rw [old] at below
            exact upto (by simpa using below) same
        | some recorded =>
            rw [old] at below
            rcases le_max_iff.mp below with within | within
            · exact stored.rows lane recorded old earlier resolved found same within
            · exact upto within same
    · exact stored.rows other row held earlier resolved found same below

theorem writeMark (stored : db.Honest unit excused) (honest : s.Honest unit excused db) {mark : Nat}
    (marked : s.reader = .marked mark) : (db.setEffectWatermark mark).Honest unit excused where
  rows := stored.rows
  mark position resolved found below := by
    obtain ⟨scanned, above⟩ := honest.sound.marked mark (.inl marked)
    rcases honest.scanned position resolved found (le_trans below scanned) with holds | spoken
    · obtain ⟨group, member, -, lower, -⟩ := holds
      have beyond := above resolved.lane group member
      change position ≤ mark at below
      omega
    · exact spoken

theorem sweepRows (stored : db.Honest unit excused) (mark : Nat) :
    (db.sweepEffectLanes mark).Honest unit excused where
  mark := stored.mark
  rows lane row held := by
    change (db.lanes.retain fun _ position => mark < position).get lane = some row at held
    rw [Table.get_retain, Option.filter_eq_some_iff] at held
    exact stored.rows lane row held.1

end OpDb.Honest

/-! ## One definition, across crashes and restarts -/

namespace World

variable {unit : EffectUnit} {excused : Nat → Prop} {floor : Nat} {w w' : World}

structure Honest (unit : EffectUnit) (excused : Nat → Prop) (floor : Nat) (w : World) : Prop where
  stored : w.db.Honest unit excused
  raised : floor ≤ w.db.watermark
  process : ∀ s, w.process = some s → s.Honest unit excused w.db ∧ s.Beyond floor

theorem Honest.step {act : WorldAct} (honest : w.Honest unit excused floor)
    (behind : w.RowsBehind act) (whole : w.RangeRecorded act)
    (taken : w.step unit act = some w') : w'.Honest unit excused floor := by
  obtain ⟨stored, below, process⟩ := honest
  have only {db : OpDb} {s : Process} (kept : s.Honest unit excused db) (beyond : s.Beyond floor) :
      ∀ s', (⟨db, some s⟩ : World).process = some s' → s'.Honest unit excused db ∧ s'.Beyond floor := by
    rintro _ ⟨⟩
    exact ⟨kept, beyond⟩
  cases stepped_of_step taken with
  | boot down =>
      refine ⟨stored, below, only ⟨Process.sound_boot .., rfl, ?_, ?_, ?_, ?_⟩
        ⟨below, below, nofun, nofun⟩⟩
      · intro position resolved found scanned
        exact .inr (stored.mark position resolved found scanned)
      · intro lane seen held
        exact .inr (stored.rows lane seen held)
      · intro thread lane phase working
        change (∅ : Table Nat Worker).get thread = some ⟨lane, phase⟩ at working
        rw [Table.get_empty] at working
        cases working
      · intro thread lane work settled
        change (∅ : Table Nat Worker).get thread = some ⟨lane, .settled work⟩ at settled
        rw [Table.get_empty] at settled
        cases settled
  | crash up => exact ⟨stored, below, nofun⟩
  | @begin s thread lane work answer up took answers =>
      obtain ⟨kept, beyond⟩ := process s up
      obtain ⟨watermark, lanes⟩ := OpDb.begin_fields w.db work.position
      have keeps : w.db.KeepsTerminal (w.db.beginInvocation work.position).1 :=
        fun position collapsedFrom row => (OpDb.begin_terminal_iff w.db _ _ _).mpr row
      refine ⟨stored.congr watermark lanes keeps, watermark ▸ below, only ?_
        ⟨beyond.persisted, beyond.cursor, beyond.opened, beyond.marked⟩⟩
      refine kept.restore (kept.sound.begin answer took) keeps rfl rfl
        (watermark ▸ kept.persisted) (kept.backs.begin answers) ?_
      cases answer with
      | running => exact kept.spans.turn keeps (by rintro _ ⟨⟩)
      | alreadyTerminal =>
          obtain ⟨collapsedFrom, row⟩ := OpDb.begin_terminal w.db work.position answers
          have found := (OpDb.begin_terminal_iff w.db work.position _ _).mp row
          exact kept.spans.finish keeps row (whole s thread lane work collapsedFrom rfl up took found)
  | @settle s thread lane work up live =>
      obtain ⟨kept, beyond⟩ := process s up
      obtain ⟨watermark, lanes⟩ := OpDb.complete_fields w.db work.position work.collapsedFrom
      have keeps := OpDb.keepsTerminal_complete (kept.backs thread lane _ live) work.collapsedFrom
      refine ⟨stored.congr watermark lanes keeps, watermark ▸ below, only ?_
        ⟨beyond.persisted, beyond.cursor, beyond.opened, beyond.marked⟩⟩
      refine kept.restore (kept.sound.turn live fun _ => id) keeps rfl rfl
        (watermark ▸ kept.persisted) (kept.backs.settle kept.sound live)
        (kept.spans.finish keeps ?_ (le_refl _))
      have running : w.db.invocations.get work.position = some .running :=
        kept.backs thread lane _ live
      rw [OpDb.complete_get, if_pos ⟨rfl, by rw [running]; rintro ⟨⟩⟩]
  | @recordRow s thread lane position written up owing =>
      obtain ⟨kept, beyond⟩ := process s up
      have turned : (s.turn thread lane (if written then .recorded position else .ready)).Sound
          unit := kept.sound.turn owing (by cases written <;> exact nofun)
      have backs := kept.backs.recordRow thread lane position written
      have spans : (s.turn thread lane (if written then .recorded position else .ready)).Spans
          w.db := kept.spans.turn (fun _ _ => id) (by cases written <;> rintro _ ⟨⟩)
      have beyond' : (s.turn thread lane (if written then .recorded position else .ready)).Beyond
          floor := ⟨beyond.persisted, beyond.cursor, beyond.opened, beyond.marked⟩
      cases written with
      | false =>
          exact ⟨stored, below,
            only (kept.restore turned (fun _ _ => id) rfl rfl kept.persisted backs spans) beyond'⟩
      | true =>
          refine ⟨stored.recordRow kept owing (behind s thread lane position rfl up owing), below,
            only ?_ beyond'⟩
          exact kept.restore turned (fun _ _ => id) rfl rfl kept.persisted backs spans
  | @writeMark s mark up marked =>
      obtain ⟨kept, beyond⟩ := process s up
      have moved : s.step unit .writeMark =
          some { s with persisted := mark, reader := .written mark } := by
        simp only [Process.step, marked]
      refine ⟨stored.writeMark kept marked, beyond.marked mark marked,
        only ?_ (beyond.step kept.sound moved)⟩
      exact kept.restore (kept.sound.step moved) (fun _ _ => id) rfl rfl rfl kept.backs kept.spans
  | @sweepRows s mark up sweeping =>
      obtain ⟨kept, beyond⟩ := process s up
      have moved : s.step unit .sweepRows = some { s with reader := .pruning mark } := by
        simp only [Process.step, sweeping]
      refine ⟨stored.sweepRows mark, below, only ?_ (beyond.step kept.sound moved)⟩
      exact kept.restore (kept.sound.step moved) (fun _ _ => id) rfl rfl kept.persisted kept.backs
        kept.spans
  | @quiet s s' act up moved plain =>
      obtain ⟨kept, beyond⟩ := process s up
      exact ⟨stored, below, only (kept.quiet moved plain) (beyond.step kept.sound moved)⟩

end World

/-! ## Every sequence of deploys -/

namespace Deployed

variable {log : EventLog}

/-- What a definition admitted at a mark need not answer for. -/
def Excused (floor : Nat) (past : List (EffectUnit × OpDb)) (position : Nat) : Prop :=
  position ≤ floor ∨ SettledBefore past position

structure Honest (log : EventLog) (d : Deployed) : Prop where
  activated : d.activation = none → d.arms = none
  unused : d.arms = none → d.world.process = none ∧ ∀ lane, d.world.db.lanes.get lane = none
  running : ∀ arms, d.arms = some arms →
    ∃ floor, d.world.Honest (d.unit log arms) (Excused floor d.past) floor

theorem honest_start (log : EventLog) : ({} : Deployed).Honest log :=
  ⟨fun _ => rfl, fun _ => ⟨rfl, fun lane => Table.get_empty lane⟩, nofun⟩

/-- The rows a store holds speak for what the next definition matches. -/
theorem rows_admitted {d : Deployed} (honest : d.Honest log) {arms : List KeyedArm} {head : Nat}
    (careful : d.world.db.effectLanesOutstanding = 0 ∨
      ∃ old, d.arms = some old ∧ within old arms = true)
    {lane : LaneId} {row : Nat} (held : d.world.db.lanes.get lane = some row)
    {position : Nat} {resolved : Resolved}
    (found : (log.unit arms (d.activate arms head).liveBoundary).resolve position = some resolved)
    (same : resolved.lane = lane) (below : position ≤ row) :
    Excused d.world.db.watermark
      (d.past ++ (d.arms.map fun before => (d.unit log before, d.world.db)).toList) position := by
  rcases careful with drained | ⟨old, deployed, kept⟩
  · exact .inl (le_trans below (no_row_above drained held))
  · obtain ⟨floor, world⟩ := honest.running old deployed
    have boundary : (d.activate arms head).liveBoundary =
        (d.activation.map Activation.liveBoundary).getD 0 := by
      unfold activate
      cases activated : d.activation with
      | none =>
          rw [honest.activated activated] at deployed
          cases deployed
      | some activation => rfl
    rw [boundary] at found
    obtain ⟨before, matched, sameLane⟩ := resolve_within kept found
    rw [deployed, Option.map_some, Option.toList_some]
    rcases world.stored.rows lane row held position before matched (sameLane.trans same) below with
      (low | past) | settled
    · exact .inl (le_trans low world.raised)
    · obtain ⟨left, member, rest⟩ := past
      exact .inr ⟨left, List.mem_append_left _ member, rest⟩
    · exact .inr ⟨_, List.mem_append_right _ List.mem_cons_self, before, matched, settled⟩

theorem Honest.step {d d' : Deployed} {act : DeployAct} (honest : d.Honest log)
    (careful : d.Careful act) (taken : d.step log act = some d') : d'.Honest log := by
  cases stepped_of_step taken with
  | @blocked arms head down blocks =>
      refine ⟨nofun, honest.unused, ?_⟩
      intro old deployed
      obtain ⟨floor, world⟩ := honest.running old deployed
      refine ⟨floor, ?_⟩
      have same : (d.activate arms head) = d.activation.getD ⟨head, laneScheme arms⟩ := rfl
      cases activated : d.activation with
      | none =>
          rw [honest.activated activated] at deployed
          cases deployed
      | some activation =>
          unfold unit at world ⊢
          rw [same, activated]
          rw [activated] at world
          exact world
  | @admitted arms head down admits =>
      have careful : d.world.db.effectLanesOutstanding = 0 ∨
          ∃ old, d.arms = some old ∧ within old arms = true :=
        careful.resolve_left (by rw [admits]; exact Bool.false_ne_true)
      refine ⟨nofun, nofun, ?_⟩
      rintro _ ⟨⟩
      refine ⟨d.world.db.watermark, ⟨?_, ?_⟩, le_refl _, ?_⟩
      · intro position resolved found below
        exact .inl (.inl below)
      · intro lane row held position resolved found same below
        exact .inl (rows_admitted honest careful held found same below)
      · intro s up
        rw [down] at up
        cases up
  | @world act arms world deployed moved =>
      obtain ⟨floor, kept⟩ := honest.running arms deployed
      refine ⟨honest.activated, ?_, ?_⟩
      · intro unused
        rw [deployed] at unused
        cases unused
      · intro other same
        have eq : other = arms := Option.some.inj (same.symm.trans deployed)
        subst eq
        exact ⟨floor, kept.step careful.1 careful.2 moved⟩

/-- Across any deploys, restarts and order of completions, while each deploy
finds no lane ahead of the mark or matches only what its predecessor matched in
the same lanes, no group is longer than the range recorded with an invocation it
finds terminal, and no row is written while its lane queues a group that starts
below it: a matched position above the mark that a lane row speaks for has been
settled, under the deployed definition or an earlier one; and one a process
drops on admission is still queued there or has been settled. -/
theorem lane_rows_survive_deploys (log : EventLog) (acts : List DeployAct) (d : Deployed)
    (ran : run (step log) {} acts = some d) (careful : Guarded (step log) Careful {} acts)
    (arms : List KeyedArm) (deployed : d.arms = some arms) (position : Nat) (resolved : Resolved)
    (found : (d.unit log arms).resolve position = some resolved)
    (above : d.world.db.watermark < position) :
    ((∃ row, d.world.db.lanes.get resolved.lane = some row ∧ position ≤ row) →
        Settled (d.unit log arms) d.world.db resolved position ∨ SettledBefore d.past position) ∧
      ∀ s, d.world.process = some s → s.lanes.seen resolved.lane position = true →
        s.Holds resolved position ∨
          Settled (d.unit log arms) d.world.db resolved position ∨ SettledBefore d.past position := by
  have honest : d.Honest log :=
    run_invariant_of_guarded (Honest log) (fun _ _ _ honest ok taken => honest.step ok taken)
      (honest_start log) careful ran
  obtain ⟨floor, world⟩ := honest.running arms deployed
  have settled (spoken : Spoken (d.unit log arms) (Excused floor d.past) d.world.db resolved
      position) :
      Settled (d.unit log arms) d.world.db resolved position ∨ SettledBefore d.past position := by
    rcases spoken with (low | past) | settled
    · exact absurd (le_trans low world.raised) (Nat.not_le_of_lt above)
    · exact .inr past
    · exact .inl settled
  constructor
  · rintro ⟨row, held, below⟩
    exact settled (world.stored.rows resolved.lane row held position resolved found rfl below)
  · intro s up seen
    exact ((world.process s up).1.dropped found seen).imp_right settled

/-- A run whose lane rows are written behind their lanes can be told by looking. -/
def behindRows (w : World) : WorldAct → Bool
  | .act (.recordRow thread true) =>
      w.process.all fun s => (s.workers.get thread).all fun worker =>
        match worker.phase with
        | .owing position => (s.lanes.queue worker.lane).all fun group => decide (position ≤ group.lo)
        | _ => true
  | _ => true

theorem rowsBehind_of_behindRows {w : World} {act : WorldAct} (behind : behindRows w act = true) :
    w.RowsBehind act := by
  rintro s thread lane position rfl up owing group member
  simp only [behindRows, up, owing, Option.all_some, List.all_eq_true, decide_eq_true_eq] at behind
  exact behind group member

/-- And whether a group is taken up for an invocation with a shorter range. -/
def recordsRange (w : World) : WorldAct → Bool
  | .act (.begin thread .alreadyTerminal) =>
      w.process.all fun s => (s.workers.get thread).all fun worker =>
        match worker.phase with
        | .took work =>
            match w.db.invocations.get work.position with
            | some (.terminal collapsedFrom) =>
                decide (collapsedFrom.getD work.position ≤ work.collapsedFrom.getD work.position)
            | _ => true
        | _ => true
  | _ => true

theorem rangeRecorded_of_recordsRange {w : World} {act : WorldAct}
    (records : recordsRange w act = true) : w.RangeRecorded act := by
  rintro s thread lane work collapsedFrom rfl up took row
  simp only [recordsRange, up, took, row, Option.all_some, decide_eq_true_eq] at records
  exact records

def carefully (d : Deployed) : DeployAct → Bool
  | .deploy arms head =>
      d.blocking arms head || d.world.db.effectLanesOutstanding == 0 ||
        d.arms.any fun old => within old arms
  | .world act => behindRows d.world act && recordsRange d.world act

theorem careful_of_carefully {d : Deployed} {act : DeployAct} (told : d.carefully act = true) :
    d.Careful act := by
  cases act with
  | deploy arms head =>
      simp only [carefully, Bool.or_eq_true, beq_iff_eq] at told
      rcases told with (blocks | drained) | told
      · exact .inl blocks
      · exact .inr (.inl drained)
      · obtain ⟨old, deployed, kept⟩ := (Option.any_eq_true _ _).mp told
        exact .inr (.inr ⟨old, deployed, kept⟩)
  | world act =>
      obtain ⟨behind, records⟩ := Bool.and_eq_true_iff.mp told
      exact ⟨rowsBehind_of_behindRows behind, rangeRecorded_of_recordsRange records⟩

/-- Two customers: one pays, the other is refunded and pays. -/
def payments : EventLog where
  eventType position := [none, some "paid", some "refunded", some "paid"].getD position none
  partitionKey _ position := [none, some ⟨"i:1"⟩, some ⟨"i:2"⟩, some ⟨"i:2"⟩].getD position none
  fromOne := rfl

def paidArm : KeyedArm := ⟨⟨["paid"], .every⟩, ["customer"]⟩

def refundedArm : KeyedArm := ⟨⟨["refunded"], .every⟩, ["customer"]⟩

/-- The second customer's payment completes while the first's is queued, and
leaves a row; then the server is stopped and started again. -/
def restartedAfter (arms : List KeyedArm) : List DeployAct :=
  [.deploy [paidArm] 0, .world .boot, .world (.act (.deliver 3)),
    .world (.act (.claim 0 ⟨"i:2"⟩)), .world (.act (.head 0)),
    .world (.act (.begin 0 .running)), .world (.act (.settle 0)), .world (.act (.complete 0)),
    .world (.act (.recordRow 0 true)), .world .crash, .deploy arms 3, .world .boot]

/-- Started again as it was, the effect drops the payment that is done. -/
theorem lane_rows_survive_deploys_of_restart :
    ∃ d, run (step payments) {} (restartedAfter [paidArm]) = some d ∧
      (Settled (d.unit payments [paidArm]) d.world.db ⟨⟨"i:2"⟩, 0, false⟩ 3 ∨
        SettledBefore d.past 3) := by
  have ended : (run (step payments) {} (restartedAfter [paidArm])).any (fun d =>
      decide (d.arms = some [paidArm] ∧ d.world.db.watermark < 3 ∧
        (d.unit payments [paidArm]).resolve 3 = some ⟨⟨"i:2"⟩, 0, false⟩ ∧
        d.world.db.lanes.get ⟨"i:2"⟩ = some 3)) = true := by decide
  have told : Guarded (step payments) (fun d act => d.carefully act = true) {}
      (restartedAfter [paidArm]) := by decide
  obtain ⟨d, ran, holds⟩ := (Option.any_eq_true _ _).mp ended
  obtain ⟨deployed, above, found, held⟩ := of_decide_eq_true holds
  have careful := Guarded.imp (fun _ _ => careful_of_carefully) told
  exact ⟨d, ran, (lane_rows_survive_deploys payments _ d ran careful [paidArm] deployed 3 _ found
    above).1 ⟨3, held, le_refl 3⟩⟩

/-- Started again with an arm for refunds, which no scheme had before, the
effect is admitted and drops the refund: the row of its lane is a payment's. -/
theorem new_event_type_dropped :
    ∃ d s, run (step payments) {} (restartedAfter [paidArm, refundedArm]) = some d ∧
      d.arms = some [paidArm, refundedArm] ∧ d.world.process = some s ∧
      (d.unit payments [paidArm, refundedArm]).resolve 2 = some ⟨⟨"i:2"⟩, 1, false⟩ ∧
      d.world.db.watermark < 2 ∧ s.lanes.seen ⟨"i:2"⟩ 2 = true ∧
      ¬s.Holds ⟨⟨"i:2"⟩, 1, false⟩ 2 ∧
      ¬Settled (d.unit payments [paidArm, refundedArm]) d.world.db ⟨⟨"i:2"⟩, 1, false⟩ 2 ∧
      ¬SettledBefore d.past 2 := by
  have ended : (run (step payments) {} (restartedAfter [paidArm, refundedArm])).any (fun d =>
      d.world.process.any fun s =>
        decide (d.arms = some [paidArm, refundedArm] ∧ d.world.db.watermark < 2 ∧
          (d.unit payments [paidArm, refundedArm]).resolve 2 = some ⟨⟨"i:2"⟩, 1, false⟩ ∧
          (d.unit payments [paidArm, refundedArm]).resolve 3 = some ⟨⟨"i:2"⟩, 0, false⟩ ∧
          s.lanes.seen ⟨"i:2"⟩ 2 = true ∧ (s.ledger.opened ⟨"i:2"⟩).length = 0 ∧
          d.world.db.invocations.keys = [3]) &&
        d.past.all fun before => (before.1.resolve 2).isNone) = true := by decide
  obtain ⟨d, ran, holds⟩ := (Option.any_eq_true _ _).mp ended
  obtain ⟨s, up, holds⟩ := (Option.any_eq_true _ _).mp holds
  obtain ⟨holds, unmatched⟩ := Bool.and_eq_true_iff.mp holds
  obtain ⟨deployed, above, found, payment, seen, idle, keys⟩ := of_decide_eq_true holds
  refine ⟨d, s, ran, deployed, up, found, above, seen, ?_, ?_, ?_⟩
  · rintro ⟨group, member, -⟩
    rw [List.length_eq_zero_iff.mp idle] at member
    cases member
  · rintro ⟨terminal, collapsedFrom, row, resolves, -⟩
    have listed := (Table.mem_keys_iff d.world.db.invocations terminal).mpr ⟨_, row⟩
    rw [keys, List.mem_singleton] at listed
    rw [listed, payment] at resolves
    cases resolves
  · rintro ⟨before, member, resolved, matched, -⟩
    have none := List.all_eq_true.mp unmatched before member
    rw [matched] at none
    cases none

/-- One customer asks, and another edits, is paid, and edits again. -/
def requests : EventLog where
  eventType position :=
    [none, some "asked", some "edited", some "paid", some "edited"].getD position none
  partitionKey _ position :=
    [none, some ⟨"i:9"⟩, some ⟨"i:1"⟩, some ⟨"i:1"⟩, some ⟨"i:1"⟩].getD position none
  fromOne := rfl

def latestArm (events : List String) : KeyedArm := ⟨⟨events, .latest⟩, ["customer"]⟩

def everyArm (events : List String) : KeyedArm := ⟨⟨events, .every⟩, ["customer"]⟩

/-- The payment runs between the two edits, which fold; the server stops before a
row is written.  A definition that folds edits and payments together then finds
the payment terminal when it takes up the first edit and the payment as one. -/
def regrouped : List DeployAct :=
  [.deploy [everyArm ["asked", "paid"], latestArm ["edited"]] 0, .world .boot,
    .world (.act (.deliver 4)), .world (.act (.claim 0 ⟨"i:1"⟩)), .world (.act (.head 0)),
    .world (.act (.begin 0 .running)), .world (.act (.settle 0)), .world .crash,
    .deploy [everyArm ["asked"], latestArm ["paid", "edited"]] 4, .world .boot,
    .world (.act (.deliver 4)), .world (.act (.claim 0 ⟨"i:1"⟩)), .world (.act (.head 0)),
    .world (.act (.begin 0 .alreadyTerminal)), .world (.act (.complete 0)),
    .world (.act (.recordRow 0 true)), .world .crash, .world .boot]

/-- The first edit is dropped by the row of its lane, was never run and lies in no
recorded range, although both definitions match the same event types in the same
lanes. -/
theorem regrouped_edit_dropped :
    ∃ d s, run (step requests) {} regrouped = some d ∧ d.world.process = some s ∧
      d.arms = some [everyArm ["asked"], latestArm ["paid", "edited"]] ∧
      d.world.db.watermark < 2 ∧ s.lanes.seen ⟨"i:1"⟩ 2 = true ∧
      (d.unit requests [everyArm ["asked"], latestArm ["paid", "edited"]]).resolve 2 =
        some ⟨⟨"i:1"⟩, 1, true⟩ ∧
      ¬Settled (d.unit requests [everyArm ["asked"], latestArm ["paid", "edited"]]) d.world.db
        ⟨⟨"i:1"⟩, 1, true⟩ 2 ∧ ¬SettledBefore d.past 2 := by
  have ended : (run (step requests) {} regrouped).any (fun d =>
      d.world.process.any fun s =>
        decide (d.arms = some [everyArm ["asked"], latestArm ["paid", "edited"]] ∧
          d.world.db.watermark < 2 ∧ s.lanes.seen ⟨"i:1"⟩ 2 = true ∧
          (d.unit requests [everyArm ["asked"], latestArm ["paid", "edited"]]).resolve 2 =
            some ⟨⟨"i:1"⟩, 1, true⟩ ∧
          d.world.db.invocations.entries = [⟨3, .terminal none⟩]) &&
        d.past.all fun before => decide (before.2.invocations.entries = [⟨3, .terminal none⟩])) =
        true := by decide +kernel
  obtain ⟨d, ran, holds⟩ := (Option.any_eq_true _ _).mp ended
  obtain ⟨s, up, holds⟩ := (Option.any_eq_true _ _).mp holds
  obtain ⟨holds, left⟩ := Bool.and_eq_true_iff.mp holds
  obtain ⟨deployed, above, seen, found, rows⟩ := of_decide_eq_true holds
  have never {unit : EffectUnit} {db : OpDb} {resolved : Resolved}
      (rows : db.invocations.entries = [⟨3, .terminal none⟩]) : ¬Settled unit db resolved 2 := by
    rintro ⟨terminal, collapsedFrom, row, -, reaches⟩
    have listed := (Table.get_eq_some_iff db.invocations terminal _).mp row
    rw [rows, List.mem_singleton] at listed
    cases listed
    rcases reaches with same | ⟨-, lower, -⟩
    · cases same
    · exact absurd lower (by decide)
  refine ⟨d, s, ran, up, deployed, above, seen, found, never rows, ?_⟩
  rintro ⟨before, member, resolved, -, settled⟩
  exact never (of_decide_eq_true (List.all_eq_true.mp left before member)) settled

end Deployed

end Hekla.Effect
