import Hekla.Effect.Accounting
import Hekla.Effect.Durable

/-!
# What the mark and the lane rows cover

A position is covered when a terminal invocation of its own arm and lane stands
for it.  What a process scanned is in an open group or covered, and a terminal
invocation has every earlier position of its arm and lane covered, since the
group it was had them all before it.  The mark inherits that from the
in-flight set.  A lane row does not: it speaks for every arm of the lane, and
an open group of another arm may still start below it.
-/

namespace Hekla.Effect

open Hekla.Library Hekla.Lanes

namespace OpDb

/-- A terminal invocation of the position's own arm and lane stands for it. -/
def Covers (unit : EffectUnit) (db : OpDb) (resolved : Resolved) (position : Nat) : Prop :=
  ∃ terminal collapsedFrom, db.invocations.get terminal = some (.terminal collapsedFrom) ∧
    unit.resolve terminal = some resolved ∧ collapsedFrom.getD terminal ≤ position ∧
      position ≤ terminal

/-- Every terminal row of the first store is a row of the second. -/
def KeepsTerminal (db db' : OpDb) : Prop :=
  ∀ position collapsedFrom, db.invocations.get position = some (.terminal collapsedFrom) →
    db'.invocations.get position = some (.terminal collapsedFrom)

theorem Covers.mono {unit : EffectUnit} {db db' : OpDb} {resolved : Resolved} {position : Nat}
    (covers : db.Covers unit resolved position) (keeps : db.KeepsTerminal db') :
    db'.Covers unit resolved position := by
  obtain ⟨terminal, collapsedFrom, row, found, lower, upper⟩ := covers
  exact ⟨terminal, collapsedFrom, keeps terminal collapsedFrom row, found, lower, upper⟩

theorem Covers.of_terminal {unit : EffectUnit} {db : OpDb} {resolved : Resolved} {position : Nat}
    {collapsedFrom : Option Nat}
    (row : db.invocations.get position = some (.terminal collapsedFrom))
    (found : unit.resolve position = some resolved) (ordered : collapsedFrom.getD position ≤ position) :
    db.Covers unit resolved position :=
  ⟨position, collapsedFrom, row, found, ordered, le_refl _⟩

/-! ## What each write does to the rows -/

theorem begin_get (db : OpDb) (position other : Nat) :
    (db.beginInvocation position).1.invocations.get other =
      if other = position ∧ db.invocations.get other = none then some .running
      else db.invocations.get other := by
  unfold beginInvocation
  by_cases same : other = position
  · subst same
    cases row : db.invocations.get other with
    | none => simp
    | some invocation => cases invocation <;> simp [row]
  · cases row : db.invocations.get position with
    | none => simp [same]
    | some invocation => cases invocation <;> simp [same]

theorem begin_running (db : OpDb) (position : Nat)
    (answers : (db.beginInvocation position).2 = .running) :
    (db.beginInvocation position).1.invocations.get position = some .running := by
  unfold beginInvocation at answers ⊢
  cases row : db.invocations.get position with
  | none => simp
  | some invocation =>
      cases invocation with
      | running => exact row
      | terminal collapsedFrom =>
          rw [row] at answers
          cases answers

theorem begin_terminal (db : OpDb) (position : Nat)
    (answers : (db.beginInvocation position).2 = .alreadyTerminal) :
    ∃ collapsedFrom, (db.beginInvocation position).1.invocations.get position =
      some (.terminal collapsedFrom) := by
  unfold beginInvocation at answers ⊢
  cases row : db.invocations.get position with
  | none =>
      rw [row] at answers
      cases answers
  | some invocation =>
      cases invocation with
      | running =>
          rw [row] at answers
          cases answers
      | terminal collapsedFrom => exact ⟨collapsedFrom, row⟩

theorem begin_fields (db : OpDb) (position : Nat) :
    (db.beginInvocation position).1.watermark = db.watermark ∧
      (db.beginInvocation position).1.lanes = db.lanes := by
  unfold beginInvocation
  split <;> exact ⟨rfl, rfl⟩

theorem begin_terminal_iff (db : OpDb) (position other : Nat) (collapsedFrom : Option Nat) :
    (db.beginInvocation position).1.invocations.get other = some (.terminal collapsedFrom) ↔
      db.invocations.get other = some (.terminal collapsedFrom) := by
  rw [begin_get]
  split
  · next absent =>
      rw [absent.2]
      simp
  · rfl

theorem complete_get (db : OpDb) (position : Nat) (collapsedFrom : Option Nat) (other : Nat) :
    (db.completeInvocation position collapsedFrom).invocations.get other =
      if other = position ∧ db.invocations.get other ≠ none then some (.terminal collapsedFrom)
      else db.invocations.get other := by
  unfold completeInvocation
  by_cases same : other = position
  · subst same
    cases row : db.invocations.get other with
    | none => simp [row]
    | some invocation => simp
  · cases row : db.invocations.get position with
    | none => simp [same]
    | some invocation => simp [same]

theorem complete_fields (db : OpDb) (position : Nat) (collapsedFrom : Option Nat) :
    (db.completeInvocation position collapsedFrom).watermark = db.watermark ∧
      (db.completeInvocation position collapsedFrom).lanes = db.lanes := by
  unfold completeInvocation
  split <;> exact ⟨rfl, rfl⟩

/-- Completing a running invocation loses no terminal row. -/
theorem keepsTerminal_complete {db : OpDb} {position : Nat}
    (running : db.invocations.get position = some .running) (collapsedFrom : Option Nat) :
    db.KeepsTerminal (db.completeInvocation position collapsedFrom) := by
  intro other recorded row
  rw [complete_get, if_neg]
  · exact row
  · rintro ⟨rfl, -⟩
    rw [running] at row
    cases row

/-- The store at rest covers what its mark and its lane rows claim. -/
structure Covering (unit : EffectUnit) (db : OpDb) : Prop where
  mark : ∀ position resolved, unit.resolve position = some resolved → position ≤ db.watermark →
    db.Covers unit resolved position
  rows : ∀ lane row, db.lanes.get lane = some row → ∀ position resolved,
    unit.resolve position = some resolved → resolved.lane = lane → position ≤ row →
      db.Covers unit resolved position
  earlier : ∀ terminal collapsedFrom resolved,
    db.invocations.get terminal = some (.terminal collapsedFrom) →
      unit.resolve terminal = some resolved → ∀ position, unit.resolve position = some resolved →
        position ≤ terminal → db.Covers unit resolved position

/-- A store whose marks and rows are those of a covering one, and whose terminal
rows are the same, is covering. -/
theorem Covering.congr {unit : EffectUnit} {db db' : OpDb} (covering : db.Covering unit)
    (watermark : db'.watermark = db.watermark) (lanes : db'.lanes = db.lanes)
    (terminal : ∀ position collapsedFrom,
      db'.invocations.get position = some (.terminal collapsedFrom) ↔
        db.invocations.get position = some (.terminal collapsedFrom)) : db'.Covering unit where
  mark position resolved found below :=
    (covering.mark position resolved found (watermark ▸ below)).mono fun at_position from_position =>
      (terminal at_position from_position).mpr
  rows lane row held position resolved found same below :=
    (covering.rows lane row (lanes ▸ held) position resolved found same below).mono
      fun at_position from_position => (terminal at_position from_position).mpr
  earlier at_position from_position resolved row found position found' below :=
    (covering.earlier at_position from_position resolved ((terminal _ _).mp row) found position
      found' below).mono fun other from_other => (terminal other from_other).mpr

end OpDb

/-- What the store holds of the invocation a worker is at. -/
def Phase.Backed (db : OpDb) (scanned : Nat) : Phase → Prop
  | .live work => db.invocations.get work.position = some .running
  | .settled work => ∃ collapsedFrom,
      db.invocations.get work.position = some (.terminal collapsedFrom)
  | .owing position => (∃ collapsedFrom,
      db.invocations.get position = some (.terminal collapsedFrom)) ∧ position ≤ scanned
  | .ready | .took _ | .recorded _ | .leaving => True

namespace Process

variable {unit : EffectUnit}

/-- The position is in an open group of its arm and lane. -/
def Holds (s : Process) (resolved : Resolved) (position : Nat) : Prop :=
  ∃ group ∈ s.ledger.opened resolved.lane, group.arm = resolved.arm ∧ group.lo ≤ position ∧
    position ≤ group.hi

/-- The store backs every worker. -/
def Backs (s : Process) (db : OpDb) : Prop :=
  ∀ thread lane phase, s.workers.get thread = some ⟨lane, phase⟩ → phase.Backed db s.lanes.scanned

/-- What a running process scanned is in an open group or covered by the store. -/
structure Covering (unit : EffectUnit) (db : OpDb) (s : Process) : Prop where
  sound : s.Sound unit
  persisted : s.persisted = db.watermark
  scanned : ∀ position resolved, unit.resolve position = some resolved →
    position ≤ s.lanes.scanned → s.Holds resolved position ∨ db.Covers unit resolved position
  high : ∀ lane seen, s.lanes.high.get lane = some seen → seen ≤ s.lanes.scanned ∨
    ∀ position resolved, unit.resolve position = some resolved → resolved.lane = lane →
      position ≤ seen → db.Covers unit resolved position
  backed : ∀ thread lane phase, s.workers.get thread = some ⟨lane, phase⟩ →
    phase.Backed db s.lanes.scanned

/-! ## The reader -/

theorem Holds.enter {s : Process} (sound : s.Sound unit) {position : Nat} {entering : Resolved}
    (fresh : s.lanes.seen entering.lane position = false) {resolved : Resolved} {earlier : Nat}
    (holds : s.Holds resolved earlier) :
    (s.offer position entering).Holds resolved earlier := by
  obtain ⟨group, member, sameArm, lower, upper⟩ := holds
  rw [offer_of_fresh fresh]
  unfold Holds
  dsimp only
  rw [Tracked.opened_enter]
  split
  · next same =>
      rw [same] at member
      rcases sound.tracked.mem_entered_of_mem position entering.arm entering.collapsible member with
        kept | ⟨-, -, -, absorbed⟩
      · exact ⟨group, kept, sameArm, lower, upper⟩
      · have below := sound.tracked.hi_lt_of_fresh fresh member
        exact ⟨group.absorb position, absorbed, sameArm, lower,
          Nat.le_of_lt (Nat.lt_of_le_of_lt upper below)⟩
  · exact ⟨group, member, sameArm, lower, upper⟩

/-- A position that enters is in the group it becomes. -/
theorem holds_entered {s : Process} (sound : s.Sound unit) {position : Nat} {resolved : Resolved}
    (fresh : s.lanes.seen resolved.lane position = false) :
    (s.offer position resolved).Holds resolved position := by
  rw [offer_of_fresh fresh]
  unfold Holds
  dsimp only
  rw [Tracked.opened_enter, if_pos rfl]
  rcases sound.tracked.entered_cases resolved.lane position resolved.arm resolved.collapsible with
    ⟨-, eq⟩ | ⟨before, taken, after, groups, -, eq, -, -, sameArm, -⟩
  · exact ⟨Group.single position resolved.arm, eq ▸ by simp, rfl, le_refl _, le_refl _⟩
  · have member : taken ∈ s.ledger.opened resolved.lane := by
      rw [groups]
      exact List.mem_append_right _ List.mem_cons_self
    have order := (sound.tracked.fits resolved.lane taken member).lo_le_hi
    have below := sound.tracked.hi_lt_of_fresh fresh member
    exact ⟨taken.absorb position, eq ▸ by simp, sameArm,
      Nat.le_of_lt (Nat.lt_of_le_of_lt order below), le_refl _⟩

theorem Phase.Backed.grow {db : OpDb} {scanned scanned' : Nat} {phase : Phase}
    (backed : phase.Backed db scanned) (grown : scanned ≤ scanned') :
    phase.Backed db scanned' := by
  cases phase with
  | owing position => exact ⟨backed.1, le_trans backed.2 grown⟩
  | _ => exact backed

theorem advance_workers (s : Process) : (s.advance unit).workers = s.workers := by
  rcases advance_cases unit s with ⟨eq, -⟩ | ⟨resolved, -, fresh, eq⟩
  · rw [eq]
    rfl
  · rw [eq, offer_of_fresh fresh]
    rfl

theorem advance_persisted (s : Process) : (s.advance unit).persisted = s.persisted := by
  rcases advance_cases unit s with ⟨eq, -⟩ | ⟨resolved, -, fresh, eq⟩
  · rw [eq]
    rfl
  · rw [eq, offer_of_fresh fresh]
    rfl

theorem Covering.advance {db : OpDb} {s : Process} (covering : s.Covering unit db)
    (polling : s.reader = .polling) : (s.advance unit).Covering unit db := by
  have behind := covering.sound.behind
  have grown : s.lanes.scanned ≤ (s.advance unit).lanes.scanned := by
    rw [advance_scanned]
    exact le_max_left _ _
  have reached : s.cursor + 1 ≤ (s.advance unit).lanes.scanned := by
    rw [advance_scanned]
    exact le_max_right _ _
  refine ⟨covering.sound.advance polling, (advance_persisted s).trans covering.persisted, ?_, ?_, ?_⟩
  · intro position resolved found scanned
    rcases advance_cases unit s with ⟨eq, seen⟩ | ⟨entering, entered, fresh, eq⟩
    · rcases le_scanned_advance behind scanned with old | rfl
      · rw [eq]
        exact covering.scanned position resolved found old
      · rw [eq]
        -- A dropped position was offered before, or its lane's row speaks for it.
        obtain ⟨high, held, below⟩ := (seen_iff _ _ _).mp (seen resolved found)
        rcases covering.high resolved.lane high held with old | claimed
        · exact covering.scanned _ resolved found (le_trans below old)
        · exact .inr (claimed _ resolved found rfl below)
    · rw [eq]
      rcases le_scanned_advance behind scanned with old | rfl
      · exact (covering.scanned position resolved found old).imp_left
          fun holds => holds.enter covering.sound fresh
      · rw [entered] at found
        cases found
        exact .inl (holds_entered covering.sound fresh)
  · intro lane seen held
    have old (was : s.lanes.high.get lane = some seen) :
        seen ≤ (s.advance unit).lanes.scanned ∨ ∀ position resolved,
          unit.resolve position = some resolved → resolved.lane = lane → position ≤ seen →
            db.Covers unit resolved position :=
      (covering.high lane seen was).imp_left fun below => le_trans below grown
    rcases advance_cases unit s with ⟨eq, -⟩ | ⟨entering, -, fresh, eq⟩
    · rw [eq] at held
      exact old held
    · rw [eq, offer_of_fresh fresh] at held
      change (s.lanes.high.set entering.lane (s.cursor + 1)).get lane = some seen at held
      rw [Table.get_set] at held
      split at held
      · cases held
        exact .inl reached
      · exact old held
  · intro thread lane phase working
    rw [advance_workers] at working
    exact Phase.Backed.grow (covering.backed thread lane phase working) grown

/-! ## Actions that leave the store alone -/

/-- How a worker comes to be where it is, after an action that leaves the store
alone: it was there, it has nothing the store knows of, or it owes the row of
the work it has just completed. -/
theorem worker_of_quiet {s s' : Process} {act : Act} (taken : s.step unit act = some s')
    (plain : ¬act.Stores) {thread : Nat} {lane : LaneId} {phase : Phase}
    (working : s'.workers.get thread = some ⟨lane, phase⟩) :
    s.workers.get thread = some ⟨lane, phase⟩ ∨
      (phase = .ready ∨ phase = .leaving ∨ ∃ work, phase = .took work) ∨
        ∃ work, s.workers.get thread = some ⟨lane, .settled work⟩ ∧
          phase = .owing work.position := by
  have moved {other : Nat} {held : LaneId} {next : Phase}
      (here : (s.workers.set other ⟨held, next⟩).get thread = some ⟨lane, phase⟩) :
      (thread = other ∧ held = lane ∧ next = phase) ∨
        s.workers.get thread = some ⟨lane, phase⟩ := by
    rw [Table.get_set] at here
    split at here
    · next same =>
        cases here
        exact .inl ⟨same, rfl, rfl⟩
    · exact .inr here
  have removed {other : Nat} (here : (s.workers.remove other).get thread = some ⟨lane, phase⟩) :
      s.workers.get thread = some ⟨lane, phase⟩ := by
    rw [Table.get_remove] at here
    split at here
    · cases here
    · exact here
  cases stepped_of_step taken with
  | @deliver upto polling ahead =>
      rw [deliver_workers] at working
      exact .inl working
  | beginTerminal took => exact absurd (.begin _ _) plain
  | beginRunning took => exact absurd (.begin _ _) plain
  | settle live => exact absurd (.settle _) plain
  | recordRow owing => exact absurd (.recordRow _ _) plain
  | writeMark marked => exact absurd .writeMark plain
  | sweepRows sweeping => exact absurd .sweepRows plain
  | claim idle ticket =>
      unfold Process.claim at working
      dsimp only at working
      split at working
      · rcases moved working with ⟨-, -, rfl⟩ | same
        · exact .inr (.inl (.inl rfl))
        · exact .inl same
      · exact .inl working
  | head ready =>
      unfold Process.head at working
      dsimp only at working
      split at working
      · rcases moved working with ⟨-, -, rfl⟩ | same
        · exact .inr (.inl (.inr (.inr ⟨_, rfl⟩)))
        · exact .inl same
      · rcases moved working with ⟨-, -, rfl⟩ | same
        · exact .inr (.inl (.inr (.inl rfl)))
        · exact .inl same
  | complete settled =>
      rcases moved working with ⟨rfl, rfl, rfl⟩ | same
      · split
        · exact .inr (.inr ⟨_, settled, rfl⟩)
        · exact .inr (.inl (.inl rfl))
      · exact .inl same
  | noteRow recorded =>
      rcases moved working with ⟨-, -, rfl⟩ | same
      · exact .inr (.inl (.inl rfl))
      · exact .inl same
  | defer held => exact .inl (removed working)
  | release held => exact .inl (removed working)
  | _ => exact .inl working

theorem persisted_of_quiet {s s' : Process} {act : Act} (sound : s.Sound unit)
    (taken : s.step unit act = some s') (plain : ¬act.Stores) : s'.persisted = s.persisted := by
  rcases still_or_reads taken with still | reads
  · exact still.persisted
  cases reads with
  | deliver polling ahead =>
      refine deliver_keeps (fun next => next.persisted = s.persisted) sound.behind ahead rfl ?_
      intro next same
      rw [advance_persisted, same]
  | resubscribe => rfl
  | readMark => rfl
  | writeMark => exact absurd .writeMark plain
  | forgetMark => rfl

theorem Backs.quiet {db : OpDb} {s s' : Process} {act : Act} (backs : s.Backs db)
    (sound : s.Sound unit) (taken : s.step unit act = some s') (plain : ¬act.Stores) :
    s'.Backs db := by
  intro thread lane phase working
  refine Phase.Backed.grow ?_ (scanned_mono sound taken)
  rcases worker_of_quiet taken plain working with same | fresh | ⟨work, settled, rfl⟩
  · exact backs thread lane phase same
  · rcases fresh with rfl | rfl | ⟨work, rfl⟩ <;> exact trivial
  · refine ⟨backs thread lane _ settled, ?_⟩
    obtain ⟨group, rest, queue, rfl, -⟩ := sound.working thread lane _ work settled rfl
    exact sound.scanned lane group (queue ▸ List.mem_cons_self)

theorem Covering.quiet {db : OpDb} {s s' : Process} {act : Act} (covering : s.Covering unit db)
    (stored : db.Covering unit) (taken : s.step unit act = some s') (plain : ¬act.Stores) :
    s'.Covering unit db := by
  have sound' := covering.sound.step taken
  have persisted := (persisted_of_quiet covering.sound taken plain).trans covering.persisted
  rcases deliver_or_quiet covering.sound taken with ⟨upto, polling, ahead, rfl⟩ | quiet
  · refine (deliver_keeps (fun s => s.Covering unit db ∧ s.reader = .polling) covering.sound.behind
      ahead ⟨covering, polling⟩ ?_).1
    rintro next ⟨covering, polling⟩
    exact ⟨covering.advance polling, (assign_reader next _).trans polling⟩
  · refine ⟨sound', persisted, ?_, ?_, Backs.quiet covering.backed covering.sound taken plain⟩
    · intro position resolved found below
      rcases covering.scanned position resolved found (quiet.scanned ▸ below) with holds | covers
      · obtain ⟨group, member, sameArm, lower, upper⟩ := holds
        cases writes_of_step covering.sound taken with
        | nothing ledger latest => exact .inl ⟨group, ledger ▸ member, sameArm, lower, upper⟩
        | deliver polling ahead =>
            have delivered := deliver_keeps (fun s => s.Covering unit db ∧ s.reader = .polling)
              covering.sound.behind ahead ⟨covering, polling⟩
              fun next kept => ⟨kept.1.advance kept.2, (assign_reader next _).trans kept.2⟩
            exact delivered.1.scanned position resolved found below
        | head ready queue ledger lanes => exact .inl ⟨group, ledger ▸ member, sameArm, lower, upper⟩
        | @complete _ thread lane retired rest settled queue ledger lanes =>
            -- The group that retires is terminal, so all of its arm up to it is covered.
            by_cases same : group = retired ∧ resolved.lane = lane
            · obtain ⟨rfl, sameLane⟩ := same
              obtain ⟨collapsedFrom, row⟩ := covering.backed thread lane _ settled
              have fits := covering.sound.tracked.fits lane group (queue ▸ List.mem_cons_self)
              obtain ⟨_, resolves⟩ := fits.resolved group.hi fits.hi_mem
              have eq := EffectUnit.resolve_eq found resolves sameLane sameArm.symm
              exact .inr (stored.earlier group.hi collapsedFrom resolved row (eq ▸ resolves)
                position found upper)
            · refine .inl ⟨group, ?_, sameArm, lower, upper⟩
              rw [ledger, Tracked.close_head queue]
              dsimp only
              rw [Function.update_apply]
              split
              · next sameLane =>
                  rw [sameLane, queue] at member
                  rcases List.mem_cons.mp member with first | later
                  · exact absurd ⟨first, sameLane⟩ same
                  · exact later
              · exact member
      · exact .inr covers
    · intro lane seen held
      rw [quiet.scanned]
      exact covering.high lane seen (quiet.high lane seen held)

/-! ## Actions that write the store -/

/-- A store that keeps its mark and its terminal rows serves a process as well,
provided it backs the workers. -/
theorem Covering.restore {db db' : OpDb} {s s' : Process} (covering : s.Covering unit db)
    (sound : s'.Sound unit) (keeps : db.KeepsTerminal db') (lanes : s'.lanes = s.lanes)
    (ledger : s'.ledger = s.ledger) (persisted : s'.persisted = db'.watermark)
    (backed : ∀ thread lane phase, s'.workers.get thread = some ⟨lane, phase⟩ →
      phase.Backed db' s.lanes.scanned) : s'.Covering unit db' where
  sound := sound
  persisted := persisted
  scanned position resolved found below := by
    rw [lanes] at below
    rcases covering.scanned position resolved found below with holds | covers
    · obtain ⟨group, member, rest⟩ := holds
      exact .inl ⟨group, ledger ▸ member, rest⟩
    · exact .inr (covers.mono keeps)
  high lane seen held := by
    rw [lanes] at held ⊢
    refine (covering.high lane seen held).imp_right ?_
    exact fun claimed position resolved found same below =>
      (claimed position resolved found same below).mono keeps
  backed thread lane phase working := by
    rw [lanes]
    exact backed thread lane phase working

/-- A reservation changes nothing for a worker at another invocation. -/
theorem Phase.Backed.begin {db : OpDb} {scanned position : Nat} {phase : Phase}
    (backed : phase.Backed db scanned) : phase.Backed (db.beginInvocation position).1 scanned := by
  cases phase with
  | live work =>
      change (db.beginInvocation position).1.invocations.get work.position = some .running
      rw [OpDb.begin_get, if_neg]
      · exact backed
      · rintro ⟨-, absent⟩
        change db.invocations.get work.position = some .running at backed
        rw [absent] at backed
        cases backed
  | settled work =>
      obtain ⟨collapsedFrom, row⟩ := backed
      exact ⟨collapsedFrom, (OpDb.begin_terminal_iff db position _ _).mpr row⟩
  | owing at_position =>
      obtain ⟨⟨collapsedFrom, row⟩, below⟩ := backed
      exact ⟨⟨collapsedFrom, (OpDb.begin_terminal_iff db position _ _).mpr row⟩, below⟩
  | _ => exact trivial

theorem Backs.begin {db : OpDb} {s : Process} {thread : Nat} {lane : LaneId} {work : Work}
    {answer : InvocationState} (backs : s.Backs db)
    (answers : (db.beginInvocation work.position).2 = answer) :
    (s.turn thread lane (answer.phase work)).Backs (db.beginInvocation work.position).1 := by
  intro other lane' phase working
  change (s.workers.set thread ⟨lane, answer.phase work⟩).get other = some ⟨lane', phase⟩ at working
  rw [Table.get_set] at working
  split at working
  · cases working
    cases answer with
    | alreadyTerminal => exact OpDb.begin_terminal db work.position answers
    | running => exact OpDb.begin_running db work.position answers
  · exact Phase.Backed.begin (backs other lane' phase working)

theorem Sound.begin {s : Process} {thread : Nat} {lane : LaneId} {work : Work}
    (answer : InvocationState) (sound : s.Sound unit)
    (took : s.workers.get thread = some ⟨lane, .took work⟩) :
    (s.turn thread lane (answer.phase work)).Sound unit :=
  sound.turn took (by cases answer <;> exact fun _ => id)

theorem Covering.begin {db : OpDb} {s : Process} {thread : Nat} {lane : LaneId} {work : Work}
    {answer : InvocationState} (covering : s.Covering unit db)
    (took : s.workers.get thread = some ⟨lane, .took work⟩)
    (answers : (db.beginInvocation work.position).2 = answer) :
    (s.turn thread lane (answer.phase work)).Covering unit (db.beginInvocation work.position).1 := by
  refine covering.restore (covering.sound.begin answer took) ?_ rfl rfl ?_
    (Backs.begin covering.backed answers)
  · exact fun position collapsedFrom row => (OpDb.begin_terminal_iff db _ _ _).mpr row
  · rw [(OpDb.begin_fields db work.position).1]
    exact covering.persisted

/-- One thread has the invocation it completes in hand, so the others keep theirs. -/
theorem Backs.settle {db : OpDb} {s : Process} {thread : Nat} {lane : LaneId} {work : Work}
    (backs : s.Backs db) (sound : s.Sound unit)
    (live : s.workers.get thread = some ⟨lane, .live work⟩) :
    (s.turn thread lane (.settled work)).Backs
      (db.completeInvocation work.position work.collapsedFrom) := by
  have running : db.invocations.get work.position = some .running := backs thread lane _ live
  have keeps := OpDb.keepsTerminal_complete running work.collapsedFrom
  intro other lane' phase working
  change (s.workers.set thread ⟨lane, .settled work⟩).get other = some ⟨lane', phase⟩ at working
  rw [Table.get_set] at working
  split at working
  · cases working
    refine ⟨work.collapsedFrom, ?_⟩
    rw [OpDb.complete_get, if_pos ⟨rfl, by rw [running]; rintro ⟨⟩⟩]
  · next different =>
      have backed := backs other lane' phase working
      cases phase with
      | live work' =>
          change (db.completeInvocation _ _).invocations.get work'.position = some .running
          rw [OpDb.complete_get, if_neg]
          · exact backed
          · rintro ⟨same, -⟩
            exact different (sound.one_worker working rfl live rfl same)
      | settled work' =>
          obtain ⟨collapsedFrom, row⟩ := backed
          exact ⟨collapsedFrom, keeps _ _ row⟩
      | owing position =>
          obtain ⟨⟨collapsedFrom, row⟩, below⟩ := backed
          exact ⟨⟨collapsedFrom, keeps _ _ row⟩, below⟩
      | _ => exact trivial

theorem Covering.settle {db : OpDb} {s : Process} {thread : Nat} {lane : LaneId} {work : Work}
    (covering : s.Covering unit db) (live : s.workers.get thread = some ⟨lane, .live work⟩) :
    (s.turn thread lane (.settled work)).Covering unit
      (db.completeInvocation work.position work.collapsedFrom) := by
  have keeps := OpDb.keepsTerminal_complete (covering.backed thread lane _ live) work.collapsedFrom
  refine covering.restore (covering.sound.turn live fun _ => id) keeps rfl rfl ?_
    (Backs.settle covering.backed covering.sound live)
  rw [(OpDb.complete_fields db work.position work.collapsedFrom).1]
  exact covering.persisted

/-- A worker that has dealt with its lane row rests on nothing. -/
theorem Backs.recordRow {db : OpDb} {s : Process} (backs : s.Backs db) (thread : Nat) (lane : LaneId)
    (position : Nat) (written : Bool) :
    (s.turn thread lane (if written then .recorded position else .ready)).Backs db := by
  intro other lane' phase working
  change (s.workers.set thread _).get other = some ⟨lane', phase⟩ at working
  rw [Table.get_set] at working
  split at working
  · cases working
    cases written <;> exact trivial
  · exact backs other lane' phase working

/-- Everything of its arm and lane up to the work in hand is in the group in
hand or covered. -/
theorem Covering.upto_work {db : OpDb} {s : Process} (covering : s.Covering unit db)
    {lane : LaneId} {group : Group} {rest : List Group}
    (queue : s.ledger.opened lane = group :: rest) {resolved : Resolved}
    (found : unit.resolve group.hi = some resolved) {position : Nat}
    (found' : unit.resolve position = some resolved) (below : position ≤ group.hi) :
    group.lo ≤ position ∨ db.Covers unit resolved position := by
  have member : group ∈ s.ledger.opened lane := queue ▸ List.mem_cons_self
  have fits := covering.sound.tracked.fits lane group member
  obtain ⟨_, resolves⟩ := fits.resolved group.hi fits.hi_mem
  rw [found] at resolves
  cases resolves
  have scanned := le_trans below (covering.sound.scanned lane group member)
  rcases covering.scanned position _ found' scanned with ⟨other, held, sameArm, lower, -⟩ | covers
  · left
    change other ∈ s.ledger.opened lane at held
    rw [queue] at held
    rcases List.mem_cons.mp held with first | later
    · exact first ▸ lower
    · exfalso
      have apart := covering.sound.tracked.apart lane
      rw [queue] at apart
      have beyond := (List.pairwise_cons.mp apart).1 other later sameArm.symm
      omega
  · exact .inr covers

end Process

/-! ## The store after each write -/

namespace OpDb.Covering

variable {unit : EffectUnit} {db : OpDb} {s : Process}

theorem settle (stored : db.Covering unit) (covering : s.Covering unit db) {thread : Nat}
    {lane : LaneId} {work : Work} (live : s.workers.get thread = some ⟨lane, .live work⟩) :
    (db.completeInvocation work.position work.collapsedFrom).Covering unit := by
  have running : db.invocations.get work.position = some .running :=
    covering.backed thread lane _ live
  have keeps := keepsTerminal_complete running work.collapsedFrom
  obtain ⟨watermark, lanes⟩ := complete_fields db work.position work.collapsedFrom
  refine ⟨?_, ?_, ?_⟩
  · intro position resolved found below
    exact (stored.mark position resolved found (watermark ▸ below)).mono keeps
  · intro other row held position resolved found same below
    exact (stored.rows other row (lanes ▸ held) position resolved found same below).mono keeps
  · intro terminal collapsedFrom resolved row found position found' below
    rw [complete_get] at row
    split at row
    · next here =>
        obtain ⟨group, rest, queue, rfl, -⟩ := covering.sound.working thread lane _ work live rfl
        have member : group ∈ s.ledger.opened lane := queue ▸ List.mem_cons_self
        have order := (covering.sound.tracked.fits lane group member).lo_le_hi
        have at_hi : terminal = group.hi := here.1
        subst at_hi
        rcases covering.upto_work queue found found' below with inside | covers
        · refine ⟨group.hi, group.work.collapsedFrom, ?_, found, ?_, below⟩
          · rw [complete_get, if_pos ⟨rfl, here.2⟩]
          · change (if group.lo < group.hi then some group.lo else none).getD group.hi ≤ position
            split
            · exact inside
            · change group.hi ≤ position
              omega
        · exact covers.mono keeps
    · exact (stored.earlier terminal collapsedFrom resolved row found position found' below).mono
        keeps

/-- A lane row is right when no group queued in its lane starts below it. -/
theorem recordRow (stored : db.Covering unit) (covering : s.Covering unit db) {thread : Nat}
    {lane : LaneId} {position : Nat} (owing : s.workers.get thread = some ⟨lane, .owing position⟩)
    (above : ∀ group ∈ s.lanes.queue lane, position ≤ group.lo) :
    (db.recordEffectLane lane position).Covering unit where
  mark := stored.mark
  earlier := stored.earlier
  rows other row held earlier resolved found same below := by
    change (db.lanes.set lane (max ((db.lanes.get lane).getD position) position)).get other =
      some row at held
    change db.Covers unit resolved earlier
    rw [Table.get_set] at held
    obtain ⟨⟨collapsedFrom, terminal⟩, scanned⟩ := covering.backed thread lane _ owing
    have upto (below : earlier ≤ position) (sameLane : resolved.lane = lane) :
        db.Covers unit resolved earlier := by
      rcases covering.scanned earlier resolved found (le_trans below scanned) with holds | covers
      · obtain ⟨group, member, sameArm, lower, upper⟩ := holds
        have queued : group.toPending ∈ s.lanes.queue lane := by
          rw [covering.sound.tracked.queue, ← sameLane]
          exact List.mem_map_of_mem member
        have start := above _ queued
        have here : earlier = position := by omega
        subst here
        exact stored.earlier earlier collapsedFrom resolved terminal found earlier found (le_refl _)
      · exact covers
    split at held
    · next sameLane =>
        cases held
        rw [sameLane] at same
        cases old : db.lanes.get lane with
        | none =>
            rw [old] at below
            refine upto ?_ same
            simpa using below
        | some recorded =>
            rw [old] at below
            rcases le_max_iff.mp below with within | within
            · exact stored.rows lane recorded old earlier resolved found same within
            · exact upto within same
    · exact stored.rows other row held earlier resolved found same below

theorem writeMark (stored : db.Covering unit) (covering : s.Covering unit db) {mark : Nat}
    (marked : s.reader = .marked mark) : (db.setEffectWatermark mark).Covering unit where
  rows := stored.rows
  earlier := stored.earlier
  mark position resolved found below := by
    obtain ⟨scanned, above⟩ := covering.sound.marked mark (.inl marked)
    rcases covering.scanned position resolved found (le_trans below scanned) with holds | covers
    · obtain ⟨group, member, -, lower, -⟩ := holds
      have beyond := above resolved.lane group member
      change position ≤ mark at below
      omega
    · exact covers

theorem sweepRows (stored : db.Covering unit) (mark : Nat) :
    (db.sweepEffectLanes mark).Covering unit where
  mark := stored.mark
  earlier := stored.earlier
  rows lane row held := by
    change (db.lanes.retain fun _ position => mark < position).get lane = some row at held
    rw [Table.get_retain, Option.filter_eq_some_iff] at held
    exact stored.rows lane row held.1

end OpDb.Covering

/-! ## Every run -/

namespace World

variable {unit : EffectUnit}

structure Covering (unit : EffectUnit) (w : World) : Prop where
  stored : w.db.Covering unit
  process : ∀ s, w.process = some s → s.Covering unit w.db

/-- No lane row is written at a position while its lane still queues a group
that starts below it. -/
def RowsBehind (w : World) (act : WorldAct) : Prop :=
  ∀ s thread lane position, act = .act (.recordRow thread true) → w.process = some s →
    s.workers.get thread = some ⟨lane, .owing position⟩ →
      ∀ group ∈ s.lanes.queue lane, position ≤ group.lo

theorem covering_start (unit : EffectUnit) : ({} : World).Covering unit where
  stored := by
    refine ⟨?_, ?_, ?_⟩
    · intro position resolved found below
      have zero : position = 0 := Nat.le_zero.mp below
      rw [zero, EffectUnit.resolve_zero] at found
      cases found
    · intro lane row held
      change (∅ : Table LaneId Nat).get lane = some row at held
      rw [Table.get_empty] at held
      cases held
    · intro terminal collapsedFrom resolved row
      change (∅ : Table Nat Invocation).get terminal = some (.terminal collapsedFrom) at row
      rw [Table.get_empty] at row
      cases row
  process s up := by cases up

theorem Covering.step {w w' : World} {act : WorldAct} (covering : w.Covering unit)
    (behind : w.RowsBehind act) (taken : w.step unit act = some w') : w'.Covering unit := by
  obtain ⟨stored, process⟩ := covering
  have only {db : OpDb} {s : Process} (kept : s.Covering unit db) :
      ∀ s', (⟨db, some s⟩ : World).process = some s' → s'.Covering unit db := by
    rintro _ ⟨⟩
    exact kept
  cases stepped_of_step taken with
  | boot down =>
      refine ⟨stored, only ⟨Process.sound_boot .., rfl, ?_, ?_, ?_⟩⟩
      · intro position resolved found below
        exact .inr (stored.mark position resolved found below)
      · intro lane seen held
        exact .inr (stored.rows lane seen held)
      · intro thread lane phase working
        change (∅ : Table Nat Worker).get thread = some ⟨lane, phase⟩ at working
        rw [Table.get_empty] at working
        cases working
  | crash up => exact ⟨stored, nofun⟩
  | @begin s thread lane work answer up took answers =>
      obtain ⟨watermark, lanes⟩ := OpDb.begin_fields w.db work.position
      exact ⟨stored.congr watermark lanes (OpDb.begin_terminal_iff w.db work.position),
        only ((process s up).begin took answers)⟩
  | @settle s thread lane work up live =>
      exact ⟨stored.settle (process s up) live, only ((process s up).settle live)⟩
  | @recordRow s thread lane position written up owing =>
      have kept := process s up
      have turned : (s.turn thread lane (if written then .recorded position else .ready)).Sound
          unit := kept.sound.turn owing (by cases written <;> exact nofun)
      have backed := Process.Backs.recordRow kept.backed thread lane position written
      cases written with
      | false => exact ⟨stored, only (kept.restore turned (fun _ _ => id) rfl rfl kept.persisted backed)⟩
      | true =>
          refine ⟨stored.recordRow kept owing (behind s thread lane position rfl up owing), only ?_⟩
          exact kept.restore turned (fun _ _ => id) rfl rfl kept.persisted backed
  | @writeMark s mark up marked =>
      have kept := process s up
      have moved : (Process.step unit s .writeMark) =
          some { s with persisted := mark, reader := .written mark } := by
        simp only [Process.step, marked]
      refine ⟨stored.writeMark kept marked, only ?_⟩
      exact kept.restore (kept.sound.step moved) (fun _ _ => id) rfl rfl rfl kept.backed
  | @sweepRows s mark up sweeping =>
      have kept := process s up
      have moved : (Process.step unit s .sweepRows) = some { s with reader := .pruning mark } := by
        simp only [Process.step, sweeping]
      refine ⟨stored.sweepRows mark, only ?_⟩
      exact kept.restore (kept.sound.step moved) (fun _ _ => id) rfl rfl kept.persisted kept.backed
  | @quiet s s' act up moved plain => exact ⟨stored, only ((process s up).quiet stored moved plain)⟩

theorem covering_of_run {acts : List WorldAct} {w : World}
    (ran : run (step unit) {} acts = some w)
    (behind : Guarded (step unit) RowsBehind {} acts) : w.Covering unit :=
  run_invariant_of_guarded (Covering unit) (fun _ _ _ covering ok taken => covering.step ok taken)
    (covering_start unit) behind ran

/-- The position is terminal itself, or lies in the recorded range of a terminal
invocation of the same arm and lane. -/
def SettledAt (unit : EffectUnit) (w : World) (position : Nat) (resolved : Resolved) : Prop :=
  (∃ collapsedFrom, w.db.invocations.get position = some (.terminal collapsedFrom)) ∨
    ∃ terminal oldest resolved', w.db.invocations.get terminal = some (.terminal (some oldest)) ∧
      unit.resolve terminal = some resolved' ∧ resolved'.lane = resolved.lane ∧
        resolved'.arm = resolved.arm ∧ oldest ≤ position ∧ position ≤ terminal

theorem settledAt_of_covers {w : World} {position : Nat} {resolved : Resolved}
    (covers : w.db.Covers unit resolved position) : w.SettledAt unit position resolved := by
  obtain ⟨terminal, collapsedFrom, row, found, lower, upper⟩ := covers
  cases collapsedFrom with
  | none =>
      have same : terminal = position := Nat.le_antisymm lower upper
      exact .inl ⟨none, same ▸ row⟩
  | some oldest => exact .inr ⟨terminal, oldest, resolved, row, found, rfl, rfl, lower, upper⟩

/-- Across any crashes and restarts, and however the log is redelivered, as long
as no lane row is written while its lane queues a group that starts below it:
every matched position at or below the persisted mark, or at or below its own
lane's row, is terminal or in the recorded range of its arm and lane. -/
theorem durable_coverage (unit : EffectUnit) (acts : List WorldAct) (w : World)
    (ran : run (step unit) {} acts = some w)
    (behind : Guarded (step unit) RowsBehind {} acts) (position : Nat) (resolved : Resolved)
    (found : unit.resolve position = some resolved)
    (claimed : position ≤ w.db.watermark ∨
      ∃ row, w.db.lanes.get resolved.lane = some row ∧ position ≤ row) :
    w.SettledAt unit position resolved := by
  have stored := (covering_of_run ran behind).stored
  rcases claimed with below | ⟨row, held, below⟩
  · exact settledAt_of_covers (stored.mark position resolved found below)
  · exact settledAt_of_covers (stored.rows resolved.lane row held position resolved found rfl below)

/-- An edit, a payment and another edit of one shop; edits collapse. -/
def editsAroundPayment : EffectUnit :=
  .ofLog [⟨["edited"], .latest⟩, ⟨["paid"], .every⟩]
    [("edited", ⟨"i:1"⟩), ("paid", ⟨"i:1"⟩), ("edited", ⟨"i:1"⟩)]

/-- The batch is read and the payment runs first: the second edit has taken the
first one over and gone to the back of the queue. -/
def paymentFirst : List WorldAct :=
  [.boot, .act (.deliver 3), .act (.claim 0 ⟨"i:1"⟩), .act (.head 0), .act (.begin 0 .running),
    .act (.settle 0), .act (.complete 0)]

/-- The edits run as one, and the mark passes all three. -/
def editsAfter : List WorldAct :=
  [.act (.recordRow 0 false), .act (.head 0), .act (.begin 0 .running), .act (.settle 0),
    .act (.complete 0), .act .readMark, .act .writeMark, .crash]

theorem rowsBehind_edits :
    Guarded (step editsAroundPayment) RowsBehind {} (paymentFirst ++ editsAfter) := by
  refine Guarded.of_forall fun act member state s thread lane position same => ?_
  subst same
  simp [paymentFirst, editsAfter] at member

theorem durable_coverage_of_edits :
    ∃ w, run (step editsAroundPayment) {} (paymentFirst ++ editsAfter) = some w ∧
      w.SettledAt editsAroundPayment 1 ⟨⟨"i:1"⟩, 0, true⟩ := by
  have ended : (run (step editsAroundPayment) {} (paymentFirst ++ editsAfter)).any
      (fun w => decide (1 ≤ w.db.watermark)) = true := by decide
  obtain ⟨w, ran, below⟩ := (Option.any_eq_true _ _).mp ended
  exact ⟨w, ran, durable_coverage editsAroundPayment _ w ran rowsBehind_edits 1 _ (by decide)
    (.inl (of_decide_eq_true below))⟩

/-- The row the payment leaves says the lane is done up to it, while the first
edit is still queued in that lane and terminal nowhere. -/
theorem lane_row_leads :
    ∃ w, run (step editsAroundPayment) {} (paymentFirst ++ [.act (.recordRow 0 true)]) = some w ∧
      editsAroundPayment.resolve 1 = some ⟨⟨"i:1"⟩, 0, true⟩ ∧
      (∃ row, w.db.lanes.get ⟨"i:1"⟩ = some row ∧ 1 ≤ row) ∧
      ¬w.SettledAt editsAroundPayment 1 ⟨⟨"i:1"⟩, 0, true⟩ := by
  have ended : (run (step editsAroundPayment) {} (paymentFirst ++ [.act (.recordRow 0 true)])).any
      (fun w => decide (w.db.lanes.get ⟨"i:1"⟩ = some 2 ∧ w.db.invocations.keys = [2])) = true := by
    decide
  obtain ⟨w, ran, holds⟩ := (Option.any_eq_true _ _).mp ended
  obtain ⟨row, keys⟩ := of_decide_eq_true holds
  have only (position : Nat) (invocation : Invocation)
      (held : w.db.invocations.get position = some invocation) : position = 2 := by
    have listed := (Table.mem_keys_iff w.db.invocations position).mpr ⟨invocation, held⟩
    rw [keys] at listed
    exact List.mem_singleton.mp listed
  refine ⟨w, ran, by decide, ⟨2, row, by decide⟩, ?_⟩
  rintro (⟨_, held⟩ | ⟨terminal, oldest, resolved, held, found, -, sameArm, -⟩)
  · have impossible := only 1 _ held
    cases impossible
  · have at_payment := only terminal _ held
    subst at_payment
    have paid : editsAroundPayment.resolve 2 = some ⟨⟨"i:1"⟩, 1, false⟩ := by decide
    rw [paid] at found
    cases found
    cases sameArm

end World

end Hekla.Effect
