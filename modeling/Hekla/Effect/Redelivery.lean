import Hekla.Effect.Invariant

/-!
# Redelivery after a re-subscribe

A driver that re-subscribes resumes from the persisted mark and is offered
again what its lanes already have.  As long as the high-waters are forgotten
only at marks the subscription has read past, every position above the
published mark that was ever scanned is still remembered by its lane, so a
redelivered position is dropped and whatever is admitted is new.
-/

namespace Hekla.Effect

open Hekla.Library Hekla.Lanes

namespace Process

variable {unit : EffectUnit}

/-- The subscription has read up to the mark whose lanes are about to be forgotten. -/
def ForgetsRead (s : Process) (act : Act) : Prop :=
  ∀ mark, act = .forgetMark → s.reader = .written mark → mark ≤ s.cursor

/-- A run that never forgets meets the condition. -/
theorem guarded_of_never_forgets {s : Process} {acts : List Act}
    (never : ∀ act ∈ acts, act ≠ .forgetMark) : Guarded (step unit) ForgetsRead s acts := by
  refine Guarded.of_forall ?_
  intro act member s mark same
  exact absurd same (never act member)

/-- Every scanned position above the published mark is remembered by its lane. -/
structure Remembered (unit : EffectUnit) (s : Process) : Prop where
  known : ∀ position resolved, unit.resolve position = some resolved → s.position < position →
    position ≤ s.lanes.scanned → s.lanes.seen resolved.lane position = true
  read : s.position ≤ s.cursor
  persisted : s.position ≤ s.persisted
  marking : ∀ mark, s.reader = .marked mark ∨ s.reader = .written mark → s.position < mark
  written : ∀ mark, s.reader = .written mark → s.persisted = mark

theorem remembered_boot (unit : EffectUnit) (resume : Nat) (rows : Table LaneId Nat)
    (begun : List Nat) (blind : Bool) : (boot resume rows begun blind).Remembered unit where
  known position resolved _ above scanned := by
    change resume < position at above
    change position ≤ resume at scanned
    omega
  read := le_refl resume
  persisted := le_refl resume
  marking mark reading := by
    rcases reading with reading | reading <;> cases reading
  written mark reading := by cases reading

theorem seen_iff (lanes : LaneState) (lane : LaneId) (position : Nat) :
    lanes.seen lane position = true ↔ ∃ seen, lanes.high.get lane = some seen ∧ position ≤ seen := by
  unfold LaneState.seen
  rw [Option.any_eq_true]
  simp

theorem seen_congr {lanes after : LaneState} (high : after.high = lanes.high) (lane : LaneId)
    (position : Nat) : after.seen lane position = lanes.seen lane position := by
  unfold LaneState.seen
  rw [high]

/-- Entering a position forgets nothing a lane has seen. -/
theorem seen_enter {lanes : LaneState} {lane : LaneId} {position : Nat} (arm : Nat)
    (declared : Bool) (fresh : lanes.seen lane position = false) {other : LaneId} {earlier : Nat}
    (seen : lanes.seen other earlier = true) :
    (lanes.enter lane position arm declared).seen other earlier = true := by
  obtain ⟨high, held, below⟩ := (seen_iff _ _ _).mp seen
  refine (seen_iff _ _ _).mpr ?_
  change ∃ seen, (lanes.high.set lane position).get other = some seen ∧ earlier ≤ seen
  rw [Table.get_set]
  split
  · next same =>
      subst same
      have order := Tracked.lt_of_fresh fresh held
      exact ⟨position, rfl, by omega⟩
  · exact ⟨high, held, below⟩

theorem seen_entered (lanes : LaneState) (lane : LaneId) (position arm : Nat) (declared : Bool) :
    (lanes.enter lane position arm declared).seen lane position = true := by
  refine (seen_iff _ _ _).mpr ⟨position, ?_, le_refl _⟩
  change (lanes.high.set lane position).get lane = some position
  rw [Table.get_set, if_pos rfl]

/-- What the reader admits next lies above everything scanned. -/
theorem Remembered.scanned_lt {s : Process} (remembered : s.Remembered unit)
    {resolved : Resolved} (found : unit.resolve (s.cursor + 1) = some resolved)
    (fresh : s.lanes.seen resolved.lane (s.cursor + 1) = false) :
    s.lanes.scanned < s.cursor + 1 := by
  by_contra scanned
  have above : s.position < s.cursor + 1 := Nat.lt_succ_of_le remembered.read
  have seen := remembered.known _ resolved found above (Nat.le_of_not_lt scanned)
  rw [fresh] at seen
  cases seen

/-- One position is read: it is none of the effect's, it is dropped, or it is
new and enters. -/
theorem advance_cases (unit : EffectUnit) (s : Process) :
    (s.advance unit = s.scanTo (s.cursor + 1) ∧
        ∀ resolved, unit.resolve (s.cursor + 1) = some resolved →
          s.lanes.seen resolved.lane (s.cursor + 1) = true) ∨
      ∃ resolved, unit.resolve (s.cursor + 1) = some resolved ∧
        s.lanes.seen resolved.lane (s.cursor + 1) = false ∧
        s.advance unit = (s.offer (s.cursor + 1) resolved).scanTo (s.cursor + 1) := by
  unfold advance
  cases found : unit.resolve (s.cursor + 1) with
  | none =>
      rw [assign_of_none found]
      exact .inl ⟨rfl, fun resolved impossible => by cases impossible⟩
  | some resolved =>
      rw [assign_of_some found]
      cases seen : s.lanes.seen resolved.lane (s.cursor + 1) with
      | true =>
          rw [offer_of_seen seen]
          refine .inl ⟨rfl, ?_⟩
          intro other same
          cases same
          exact seen
      | false => exact .inr ⟨resolved, rfl, seen, rfl⟩

/-- A position read is one that was scanned before, or the next one. -/
theorem le_scanned_advance {s : Process} (behind : s.cursor ≤ s.lanes.scanned) {position : Nat}
    (scanned : position ≤ (s.advance unit).lanes.scanned) :
    position ≤ s.lanes.scanned ∨ position = s.cursor + 1 := by
  rw [advance_scanned] at scanned
  omega

theorem Remembered.advance {s : Process} (remembered : s.Remembered unit)
    (behind : s.cursor ≤ s.lanes.scanned) : (s.advance unit).Remembered unit := by
  have read : s.position ≤ s.cursor + 1 := Nat.le_succ_of_le remembered.read
  rcases advance_cases unit s with ⟨eq, seen⟩ | ⟨resolved, found, fresh, eq⟩
  · refine ⟨?_, eq ▸ read, eq ▸ remembered.persisted, eq ▸ remembered.marking,
      eq ▸ remembered.written⟩
    intro position other resolves above scanned
    rcases le_scanned_advance behind scanned with old | rfl
    · rw [eq] at above ⊢
      exact remembered.known position other resolves above old
    · rw [eq]
      exact seen other resolves
  · refine ⟨?_, eq ▸ read, eq ▸ remembered.persisted, eq ▸ remembered.marking,
      eq ▸ remembered.written⟩
    intro position other resolves above scanned
    have entered := offer_of_fresh fresh
    rcases le_scanned_advance behind scanned with old | rfl
    · rw [eq, entered] at above ⊢
      exact seen_enter resolved.arm resolved.collapsible fresh
        (remembered.known position other resolves above old)
    · rw [found] at resolves
      cases resolves
      rw [eq, entered]
      exact seen_entered s.lanes resolved.lane _ resolved.arm resolved.collapsible

/-- An action that neither reads the log nor moves the mark. -/
structure Still (s s' : Process) : Prop where
  high : s'.lanes.high = s.lanes.high
  scanned : s'.lanes.scanned = s.lanes.scanned
  begun : s'.lanes.begun = s.lanes.begun
  blind : s'.lanes.blind = s.lanes.blind
  cursor : s'.cursor = s.cursor
  position : s'.position = s.position
  persisted : s'.persisted = s.persisted
  reader : ∀ mark, s'.reader = .marked mark ∨ s'.reader = .written mark → s'.reader = s.reader

theorem Still.of_sameWork {s s' : Process} (same : SameWork s.lanes s'.lanes)
    (cursor : s'.cursor = s.cursor) (position : s'.position = s.position)
    (persisted : s'.persisted = s.persisted) (reader : s'.reader = s.reader) : Still s s' :=
  ⟨same.high, same.scanned, same.begun, same.blind, cursor, position, persisted, fun _ _ => reader⟩

theorem head_still (s : Process) (thread : Nat) (lane : LaneId) : Still s (s.head thread lane) := by
  unfold head LaneState.head
  split
  · exact ⟨rfl, rfl, rfl, rfl, rfl, rfl, rfl, fun _ _ => rfl⟩
  · exact ⟨rfl, rfl, rfl, rfl, rfl, rfl, rfl, fun _ _ => rfl⟩

theorem complete_still (s : Process) (thread : Nat) (lane : LaneId) (work : Work) :
    Still s (s.complete thread lane work) := by
  unfold complete LaneState.complete LaneState.retire
  split
  · exact ⟨rfl, rfl, rfl, rfl, rfl, rfl, rfl, fun _ _ => rfl⟩
  · exact ⟨rfl, rfl, rfl, rfl, rfl, rfl, rfl, fun _ _ => rfl⟩

/-- The reader's actions on the log and the mark, apart from all others. -/
inductive Reads (unit : EffectUnit) (s : Process) : Act → Process → Prop where
  | deliver {upto : Nat} (polling : s.reader = .polling) (ahead : s.cursor ≤ upto) :
      Reads unit s (.deliver upto) (s.deliver unit upto)
  | resubscribe : Reads unit s (.resubscribe s.persisted) s.resubscribe
  | readMark (polling : s.reader = .polling) (moved : s.position < s.lanes.lowWater) :
      Reads unit s .readMark { s with reader := .marked s.lanes.lowWater }
  | writeMark {mark : Nat} (marked : s.reader = .marked mark) :
      Reads unit s .writeMark { s with persisted := mark, reader := .written mark }
  | forgetMark {mark : Nat} (written : s.reader = .written mark) :
      Reads unit s .forgetMark (s.forgetMark mark)

theorem still_or_reads {s s' : Process} {act : Act} (taken : s.step unit act = some s') :
    Still s s' ∨ Reads unit s act s' := by
  cases stepped_of_step taken with
  | deliver polling ahead => exact .inr (.deliver polling ahead)
  | resubscribe => exact .inr .resubscribe
  | readMark polling moved => exact .inr (.readMark polling moved)
  | writeMark marked => exact .inr (.writeMark marked)
  | forgetMark written => exact .inr (.forgetMark written)
  | promote polling => exact .inl (.of_sameWork (LaneState.wakeAll_sameWork _ _) rfl rfl rfl rfl)
  | promoteMatching polling =>
      exact .inl (.of_sameWork (LaneState.wakeAll_sameWork _ _) rfl rfl rfl rfl)
  | claim idle ticket => exact .inl (.of_sameWork (LaneState.claim_sameWork _ _) rfl rfl rfl rfl)
  | head ready => exact .inl (head_still s _ _)
  | complete settled => exact .inl (complete_still s _ _ _)
  | defer working => exact .inl (.of_sameWork (LaneState.defer_sameWork _ _ _) rfl rfl rfl rfl)
  | release working => exact .inl (.of_sameWork (LaneState.release_sameWork _ _) rfl rfl rfl rfl)
  | sweepRows sweeping =>
      refine .inl ⟨rfl, rfl, rfl, rfl, rfl, rfl, rfl, ?_⟩
      rintro mark (reading | reading) <;> cases reading
  | pruneRows pruning =>
      refine .inl ⟨rfl, rfl, rfl, rfl, rfl, rfl, rfl, ?_⟩
      rintro mark (reading | reading) <;> cases reading
  | _ => exact .inl ⟨rfl, rfl, rfl, rfl, rfl, rfl, rfl, fun _ _ => rfl⟩

/-- An action that reads nothing: the log is scanned no further, and what the
lanes remember can only shrink. -/
structure Quiet (s s' : Process) : Prop where
  scanned : s'.lanes.scanned = s.lanes.scanned
  blind : s'.lanes.blind = s.lanes.blind
  high : ∀ lane seen, s'.lanes.high.get lane = some seen → s.lanes.high.get lane = some seen
  dropping : ∀ lane position, s.lanes.seen lane position = true →
    position ≤ s.lanes.scanned ∨ s'.lanes.seen lane position = true
  begun : ∀ position ∈ s'.lanes.begun, position ∈ s.lanes.begun
  listed : ∀ position ∈ s.lanes.begun,
    position ≤ s.lanes.scanned ∨ position ∈ s'.lanes.begun

theorem Still.quiet {s s' : Process} (still : Still s s') : Quiet s s' where
  scanned := still.scanned
  blind := still.blind
  high _ _ held := still.high ▸ held
  dropping lane position seen := .inr ((seen_congr still.high lane position).trans seen)
  begun _ member := still.begun ▸ member
  listed _ member := .inr (still.begun.symm ▸ member)

/-- Every action but a batch is quiet. -/
theorem deliver_or_quiet {s s' : Process} {act : Act} (sound : s.Sound unit)
    (taken : s.step unit act = some s') :
    (∃ upto, s.reader = .polling ∧ s.cursor ≤ upto ∧ s' = s.deliver unit upto) ∨ Quiet s s' := by
  rcases still_or_reads taken with still | reads
  · exact .inr still.quiet
  cases reads with
  | @deliver upto polling ahead => exact .inl ⟨upto, polling, ahead, rfl⟩
  | resubscribe =>
      exact .inr ⟨max_eq_left sound.durable, rfl, fun _ _ => id, fun _ _ => .inr, fun _ => id,
        fun _ => .inr⟩
  | readMark => exact .inr ⟨rfl, rfl, fun _ _ => id, fun _ _ => .inr, fun _ => id, fun _ => .inr⟩
  | writeMark => exact .inr ⟨rfl, rfl, fun _ _ => id, fun _ _ => .inr, fun _ => id, fun _ => .inr⟩
  | @forgetMark mark written =>
      have passed := (sound.marked mark (.inr written)).scanned
      refine .inr ⟨rfl, rfl, ?_, ?_, fun position member => (List.mem_filter.mp member).1, ?_⟩
      · intro lane seen held
        change (s.lanes.high.retain fun _ seen => mark < seen).get lane = some seen at held
        rw [Table.get_retain, Option.filter_eq_some_iff] at held
        exact held.1
      · intro lane position seen
        obtain ⟨high, held, below⟩ := (seen_iff _ _ _).mp seen
        rcases Nat.lt_or_ge mark high with above | old
        · refine .inr ((seen_iff _ _ _).mpr ⟨high, ?_, below⟩)
          change (s.lanes.high.retain fun _ seen => mark < seen).get lane = some high
          rw [Table.get_retain, held, Option.filter_some, if_pos (decide_eq_true above)]
        · exact .inl (le_trans below (le_trans old passed))
      · intro position member
        rcases Nat.lt_or_ge mark position with above | below
        · exact .inr (List.mem_filter.mpr ⟨member, decide_eq_true above⟩)
        · exact .inl (le_trans below passed)

theorem Remembered.still {s s' : Process} (remembered : s.Remembered unit) (still : Still s s') :
    s'.Remembered unit where
  known at_position resolved found above below := by
    rw [seen_congr still.high]
    exact remembered.known at_position resolved found (still.position ▸ above)
      (still.scanned ▸ below)
  read := by
    rw [still.position, still.cursor]
    exact remembered.read
  persisted := by
    rw [still.position, still.persisted]
    exact remembered.persisted
  marking mark reading := by
    rw [still.position]
    exact remembered.marking mark (still.reader mark reading ▸ reading)
  written mark reading := by
    rw [still.persisted]
    exact remembered.written mark (still.reader mark (.inr reading) ▸ reading)

theorem Remembered.step {s s' : Process} {act : Act} (remembered : s.Remembered unit)
    (sound : s.Sound unit) (guarded : s.ForgetsRead act) (taken : s.step unit act = some s') :
    s'.Remembered unit := by
  rcases still_or_reads taken with still | reads
  · exact remembered.still still
  cases reads with
  | deliver polling ahead =>
      refine (deliver_keeps (fun s => s.Remembered unit ∧ s.cursor ≤ s.lanes.scanned) sound.behind
        ahead ⟨remembered, sound.behind⟩ ?_).1
      rintro s ⟨remembered, behind⟩
      refine ⟨remembered.advance behind, ?_⟩
      rw [advance_scanned]
      exact le_max_right _ _
  | resubscribe =>
      refine ⟨?_, remembered.persisted, remembered.persisted, ?_, nofun⟩
      · intro position resolved found above below
        change position ≤ max s.lanes.scanned s.persisted at below
        rw [max_eq_left sound.durable] at below
        exact remembered.known position resolved found above below
      · rintro mark (reading | reading) <;> cases reading
  | readMark polling moved =>
      refine { remembered with marking := ?_, written := nofun }
      rintro mark (reading | reading) <;> cases reading
      exact moved
  | @writeMark mark marked =>
      have above := remembered.marking mark (.inl marked)
      refine { remembered with persisted := Nat.le_of_lt above, marking := ?_, written := ?_ }
      · rintro other (reading | reading) <;> cases reading
        exact above
      · intro other reading
        cases reading
        rfl
  | @forgetMark mark written =>
      have durable := remembered.written mark written
      refine ⟨?_, guarded mark rfl written, ?_, ?_, ?_⟩
      · intro position resolved found above below
        change mark < position at above
        have older := remembered.marking mark (.inr written)
        obtain ⟨seen, high, order⟩ := (seen_iff _ _ _).mp
          (remembered.known position resolved found (Nat.lt_trans older above) below)
        refine (seen_iff _ _ _).mpr ⟨seen, ?_, order⟩
        change (s.lanes.high.retain fun _ seen => mark < seen).get resolved.lane = some seen
        rw [Table.get_retain, high, Option.filter_some, if_pos]
        exact decide_eq_true (by omega)
      · change mark ≤ s.persisted
        rw [durable]
      · intro other reading
        unfold Process.forgetMark at reading
        dsimp only at reading
        split at reading <;> rcases reading with reading | reading <;> cases reading
      · intro other reading
        unfold Process.forgetMark at reading
        dsimp only at reading
        split at reading <;> cases reading

/-- In a run whose forgets are all at marks the subscription has read past,
what the lanes were offered is remembered throughout. -/
theorem remembered_of_run {resume : Nat} {rows : Table LaneId Nat} {begun : List Nat}
    {blind : Bool} {acts : List Act} {s : Process}
    (ran : run (step unit) (boot resume rows begun blind) acts = some s)
    (guarded : Guarded (step unit) ForgetsRead (boot resume rows begun blind) acts) :
    s.Remembered unit := by
  refine (run_invariant_of_guarded (fun s => s.Sound unit ∧ s.Remembered unit) ?_
    ⟨sound_boot unit resume rows begun blind, remembered_boot unit resume rows begun blind⟩
    guarded ran).2
  rintro s act s' ⟨sound, remembered⟩ ok taken
  exact ⟨sound.step taken, remembered.step sound ok taken⟩

end Process

end Hekla.Effect
