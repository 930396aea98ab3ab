import Hekla.Backup.Advancing

/-!
# A target that is marked complete

However a run's operations and the writes of the source follow each other, and whichever
runs end early, a target that is marked complete is the log of one moment of the run that
claimed it last, with the database of no earlier a moment beside it.
-/

namespace Hekla.Backup.Copying

open Hekla.Library

def Phase.early : Phase → Bool
  | .tidying | .claiming | .listing => true
  | _ => false

def Phase.claimed : Phase → Bool
  | .tidying | .claiming => false
  | _ => true

variable (headOf : (String → Option Contents) → UInt64)

/-- A run that has listed nothing yet, or has done what its phase says. -/
def Going (now : Source) (seen : List Source) (target : Target) (attempt : Attempt) : Prop :=
  attempt.phase.early = true ∨ ∃ listed, attempt.files = listed.files ∧
    Tracked listed.segments now seen ∧ Underway headOf listed now seen target attempt.phase

/-- What an operation leaves. -/
structure Goes (now : Source) (seen : List Source) (result : Target × Option Attempt) : Prop where
  held : Held now result.1.events
  going : ∀ next, result.2 = some next → Going headOf now seen result.1 next

variable {headOf} {faults : Stage → Option String} {listed now : Source} {seen : List Source}
  {target : Target} {before : UInt64}

theorem Goes.ended (held : Held now target.events) : Goes headOf now seen (target, none) :=
  ⟨held, fun _ further => by cases further⟩

theorem Goes.next {next : Attempt} (held : Held now target.events) (going : Going headOf now seen target next) :
    Goes headOf now seen (target, some next) :=
  ⟨held, fun _ further => Option.some.inj further ▸ going⟩

theorem Goes.onward {phase : Phase} (held : Held now target.events) (tracked : Tracked listed.segments now seen)
    (underway : Underway headOf listed now seen target phase) :
    Goes headOf now seen (target, some ⟨before, listed.files, phase⟩) :=
  .next held (.inr ⟨listed, rfl, tracked, underway⟩)

/-! ## Phase after phase -/

theorem goes_sweeping (held : Held now target.events) (tracked : Tracked listed.segments now seen) :
    Goes headOf now seen (advance headOf faults now target ⟨before, listed.files, .sweeping⟩) := by
  simp only [advance]
  split
  · exact .onward held tracked trivial
  · refine .onward held tracked ⟨List.Subset.refl _, ⟨fun _ none_ => ?_, fun one member => ?_⟩,
      scanning_from_end (List.Subset.refl _)⟩
    · cases none_
    · have file : (one.name, one.size) ∈ listed.files :=
        (Source.mem_files (listed.logs one member).1).mpr ⟨one, member, rfl, rfl⟩
      exact .inl (List.mem_map_of_mem file)

theorem goes_measuring {todo : List (String × Nat)} {stop : Nat} {planned : List Planned}
    (held : Held now target.events) (tracked : Tracked listed.segments now seen)
    (underway : Underway headOf listed now seen target (.measuring todo stop planned)) :
    Goes headOf now seen (advance headOf faults now target ⟨before, listed.files, .measuring todo stop planned⟩) := by
  obtain ⟨known, planning, scanning⟩ := underway
  cases todo with
  | nil => exact .onward held tracked planning
  | cons file rest =>
      obtain ⟨path, size⟩ := file
      have scanned := scanning _ rfl
      simp only [advance]
      split
      · exact .ended held
      · next start told =>
          obtain ⟨bytes, found, chunk⟩ := Option.bind_eq_some_iff.mp told
          have further := Scanning.onward tracked scanned found (scanChunk_onward chunk_pos chunk).2
          refine .onward held tracked ⟨known, planning, fun file first => ?_⟩
          obtain rfl := Option.some.inj first
          exact further
      · next extent told =>
          obtain ⟨bytes, found, chunk⟩ := Option.bind_eq_some_iff.mp told
          have left : rest ⊆ listed.files := fun _ member => known (List.mem_cons_of_mem _ member)
          refine .onward held tracked ⟨left, ?_, scanning_from_end left⟩
          exact planning.next held tracked (known List.mem_cons_self)
            fun one member named => measured_of_scan tracked scanned found chunk member named

theorem goes_removing {planned : List Planned} (held : Held now target.events)
    (tracked : Tracked listed.segments now seen)
    (underway : Underway headOf listed now seen target (.removing planned)) :
    Goes headOf now seen (advance headOf faults now target ⟨before, listed.files, .removing planned⟩) := by
  simp only [advance]
  split
  · next path stale =>
      have absent := List.find?_some stale
      exact .onward held.remove tracked (Planning.remove underway (by simpa using absent))
  · next clean =>
      refine .onward held tracked ⟨underway, within_of_kept fun path key => ?_⟩
      simpa using List.find?_eq_none.mp clean path key

theorem goes_creating {planned : List Planned} (held : Held now target.events)
    (tracked : Tracked listed.segments now seen)
    (underway : Underway headOf listed now seen target (.creating planned)) :
    Goes headOf now seen (advance headOf faults now target ⟨before, listed.files, .creating planned⟩) := by
  obtain ⟨planning, within⟩ := underway
  cases planned with
  | nil =>
      have settled : Settled listed.segments now target.events := by
        refine ⟨fun one member => ?_, within⟩
        rcases planning.covered one member with left | ⟨_, none_, _⟩ | copied
        · cases left
        · cases none_
        · exact copied
      exact .onward held tracked (settled.moment tracked)
  | cons file rest =>
      refine .onward held tracked ⟨⟨planning, within⟩, fun first same => ?_⟩
      obtain rfl := Option.some.inj same
      exact ⟨Nat.zero_le _, written_nothing (planning.measured _ List.mem_cons_self)⟩

theorem goes_writing {planned : List Planned} {done : Nat} (held : Held now target.events)
    (tracked : Tracked listed.segments now seen)
    (underway : Underway headOf listed now seen target (.writing planned done)) :
    Goes headOf now seen (advance headOf faults now target ⟨before, listed.files, .writing planned done⟩) := by
  obtain ⟨⟨planning, within⟩, written⟩ := underway
  cases planned with
  | nil => exact .ended held
  | cons file rest =>
      obtain ⟨bound, front⟩ := written file rfl
      have plan := planning.measured _ List.mem_cons_self
      simp only [advance]
      split
      · split
        · exact .ended held
        · next read told =>
            obtain ⟨bytes, found, chunk⟩ := Option.bind_eq_some_iff.mp told
            refine .onward held tracked ⟨⟨planning, within⟩, fun first same => ?_⟩
            obtain rfl := Option.some.inj same
            exact ⟨by omega, front.chunk plan found chunk (by omega)⟩
      · next all =>
          refine .onward held tracked ⟨⟨planning, within⟩, fun first same => ?_⟩
          obtain rfl := Option.some.inj same
          have reached : done = file.extent := by omega
          exact reached ▸ front

theorem goes_sizing {planned : List Planned} (held : Held now target.events)
    (tracked : Tracked listed.segments now seen)
    (underway : Underway headOf listed now seen target (.sizing planned)) :
    Goes headOf now seen (advance headOf faults now target ⟨before, listed.files, .sizing planned⟩) := by
  obtain ⟨⟨planning, within⟩, written⟩ := underway
  cases planned with
  | nil => exact .ended held
  | cons file rest =>
      refine .onward held tracked ⟨⟨planning, within⟩, fun first same => ?_⟩
      obtain rfl := Option.some.inj same
      exact (written _ rfl).sized (planning.measured _ List.mem_cons_self)

theorem goes_placing {planned : List Planned} (held : Held now target.events)
    (tracked : Tracked listed.segments now seen)
    (underway : Underway headOf listed now seen target (.placing planned)) :
    Goes headOf now seen (advance headOf faults now target ⟨before, listed.files, .placing planned⟩) := by
  obtain ⟨⟨planning, within⟩, written⟩ := underway
  cases planned with
  | nil => exact .ended held
  | cons file rest =>
      have plan := planning.measured _ List.mem_cons_self
      simp only [advance]
      split
      · exact .ended held
      · next bytes found =>
          refine .onward (held.place plan (written file rfl) found) tracked ?_
          exact ⟨planning.place (written file rfl) found, within.place plan⟩

/-! ## The database -/

theorem goes_snapshotting (current : seen.head? = some now) (held : Held now target.events)
    (tracked : Tracked listed.segments now seen)
    (underway : Underway headOf listed now seen target .snapshotting) :
    Goes headOf now seen (advance headOf faults now target ⟨before, listed.files, .snapshotting⟩) := by
  obtain ⟨log, member, logs⟩ := underway
  exact .onward held tracked ⟨seen, log, now, List.suffix_rfl, member, current, logs, rfl⟩

theorem goes_checking (held : Held now target.events) (tracked : Tracked listed.segments now seen)
    (underway : Underway headOf listed now seen target .checking) :
    Goes headOf now seen (advance headOf faults now target ⟨before, listed.files, .checking⟩) := by
  simp only [advance]
  split
  · exact .onward held tracked ⟨rfl, underway⟩
  · exact .ended held

/-- A clamp lowers the snapshot to the head of the log that was copied. -/
theorem goes_clamping {head : UInt64} (held : Held now target.events)
    (tracked : Tracked listed.segments now seen)
    (underway : Underway headOf listed now seen target (.clamping head)) :
    Goes headOf now seen (advance headOf faults now target ⟨before, listed.files, .clamping head⟩) := by
  obtain ⟨rfl, upTo, log, later, suffix, member, last, logs, incoming⟩ := underway
  simp only [advance, incoming, id]
  rcases clampToLog_cases later.state "hekla.db.incoming" faults (headOf target.events.get) with
    ran | ⟨failure, _, _, failed, -⟩
  · rw [ran]
    exact .onward held tracked ⟨upTo, log, later, suffix, member, last, logs, rfl⟩
  · rw [failed]
    exact .ended held

theorem goes_installing (held : Held now target.events) (tracked : Tracked listed.segments now seen)
    (underway : Underway headOf listed now seen target .installing) :
    Goes headOf now seen (advance headOf faults now target ⟨before, listed.files, .installing⟩) := by
  obtain ⟨upTo, log, later, suffix, member, last, logs, incoming⟩ := underway
  simp only [advance, incoming]
  exact .onward held tracked ⟨upTo, log, later, suffix, member, last, logs, rfl⟩

/-- Every operation keeps what a run has done. -/
theorem goes_advance {attempt : Attempt} (current : seen.head? = some now) (held : Held now target.events)
    (going : Going headOf now seen target attempt) :
    Goes headOf now seen (advance headOf faults now target attempt) := by
  obtain ⟨before, files, phase⟩ := attempt
  rcases going with early | ⟨listed, rfl, tracked, underway⟩
  · cases phase with
    | tidying =>
        simp only [advance]
        split
        · exact .next held (.inl rfl)
        · exact .next held (.inl rfl)
        · exact .next held (.inl rfl)
    | claiming => exact .next held (.inl rfl)
    | listing => exact .onward held (.start (List.mem_of_head? current)) trivial
    | _ => cases early
  · cases phase with
    | tidying =>
        simp only [advance]
        split
        · exact .next held (.inl rfl)
        · exact .next held (.inl rfl)
        · exact .next held (.inl rfl)
    | claiming => exact .next held (.inl rfl)
    | listing => exact .onward held (.start (List.mem_of_head? current)) trivial
    | sweeping => exact goes_sweeping held tracked
    | measuring todo stop planned => exact goes_measuring held tracked underway
    | removing planned => exact goes_removing held tracked underway
    | creating planned => exact goes_creating held tracked underway
    | writing planned done => exact goes_writing held tracked underway
    | sizing planned => exact goes_sizing held tracked underway
    | placing planned => exact goes_placing held tracked underway
    | snapshotting => exact goes_snapshotting current held tracked underway
    | checking => exact goes_checking held tracked underway
    | clearing head => exact .onward held tracked underway
    | clamping head => exact goes_clamping held tracked underway
    | installing => exact goes_installing held tracked underway
    | marking => exact .ended held

/-! ## The manifest -/

/-- Before the target is claimed it stays what it was. -/
theorem advance_unclaimed {attempt : Attempt} (unclaimed : attempt.phase = .tidying) :
    (advance headOf faults now target attempt).1.events = target.events ∧
      (advance headOf faults now target attempt).1.state = target.state ∧
      (advance headOf faults now target attempt).1.manifest = target.manifest ∧
      ∀ next, (advance headOf faults now target attempt).2 = some next → next.phase.claimed = false := by
  obtain ⟨before, files, phase⟩ := attempt
  obtain rfl : phase = .tidying := unclaimed
  simp only [advance]
  split
  · exact ⟨rfl, rfl, rfl, fun next same => Option.some.inj same ▸ rfl⟩
  · exact ⟨rfl, rfl, rfl, fun next same => Option.some.inj same ▸ rfl⟩
  · exact ⟨rfl, rfl, rfl, fun next same => Option.some.inj same ▸ rfl⟩

/-- From then on only the end of a run marks it complete. -/
theorem advance_claimed {attempt : Attempt} (claimed : attempt.phase.claimed = true)
    (further : attempt.phase ≠ .marking) :
    (advance headOf faults now target attempt).1.manifest = target.manifest := by
  obtain ⟨before, files, phase⟩ := attempt
  cases phase with
  | tidying => cases claimed
  | claiming => cases claimed
  | marking => exact absurd rfl further
  | measuring todo stop planned =>
      cases todo with
      | nil => rfl
      | cons file rest =>
          simp only [advance]
          split <;> rfl
  | creating planned => cases planned <;> rfl
  | writing planned done =>
      cases planned with
      | nil => rfl
      | cons file rest =>
          simp only [advance]
          split
          · split <;> rfl
          · rfl
  | sizing planned => cases planned <;> rfl
  | placing planned =>
      cases planned with
      | nil => rfl
      | cons file rest =>
          simp only [advance]
          split <;> rfl
  | clamping head =>
      simp only [advance]
      split
      · rfl
      · split <;> rfl
  | listing => rfl
  | snapshotting => rfl
  | clearing head => rfl
  | sweeping | removing planned | checking | installing =>
      simp only [advance]
      split <;> rfl

theorem Copies.congr {one other : Target} {log later : Source} (copies : Copies headOf one log later)
    (events : other.events = one.events) (state : other.state = one.state) : Copies headOf other log later :=
  ⟨by rw [events]; exact copies.logs, by rw [state, events]; exact copies.state⟩

/-! ## The system -/

/-- What holds of a source and its target at any time. -/
structure Sound (headOf : (String → Option Contents) → UInt64) (system : System) : Prop where
  current : system.seen.head? = some system.source
  held : Held system.source system.target.events
  going : ∀ attempt, system.running = some attempt →
    Going headOf system.source system.seen system.target attempt
  marked : system.target.manifest = some true →
    (∀ attempt, system.running = some attempt → attempt.phase.claimed = false) ∧
      Taken system.seen fun log later => Copies headOf system.target log later

theorem sound_initial (source : Source) : Sound headOf (.initial source) where
  current := rfl
  held := by
    intro path bytes _ there
    cases there
  going _ none_ := by cases none_
  marked unmarked := by cases unmarked

variable {system : System}

/-- The source may be written to at any time. -/
theorem Sound.turns {source : Source} (sound : Sound headOf system) (grows : Grows system.source source) :
    Sound headOf (system.turns source) where
  current := rfl
  held := sound.held.grows grows
  going attempt running := by
    rcases sound.going attempt running with early | ⟨listed, files, tracked, underway⟩
    · exact .inl early
    · exact .inr ⟨listed, files, tracked.grows grows, underway.grows grows⟩
  marked complete := ⟨(sound.marked complete).1, (sound.marked complete).2.cons source⟩

theorem Phase.unclaimed {phase : Phase} (unclaimed : ¬ phase.claimed = true) :
    phase = .tidying ∨ phase = .claiming := by
  cases phase with
  | tidying => exact .inl rfl
  | claiming => exact .inr rfl
  | _ => exact absurd rfl unclaimed

theorem Sound.advanced {attempt : Attempt} (sound : Sound headOf system)
    (running : system.running = some attempt) : Sound headOf (system.advanced headOf attempt faults) := by
  have goes : Goes headOf system.source system.seen
      (advance headOf faults system.source system.target attempt) :=
    goes_advance sound.current sound.held (sound.going attempt running)
  by_cases claiming : attempt.phase = .claiming
  · obtain ⟨before, files, phase⟩ := attempt
    obtain rfl : phase = .claiming := claiming
    refine ⟨rfl, sound.held, fun next same => .inl (Option.some.inj same ▸ rfl), fun unmarked => ?_⟩
    cases unmarked
  · have seen : (system.advanced headOf attempt faults).seen = system.seen := by
      unfold System.advanced
      dsimp only
      split
      · next here => exact absurd here claiming
      · rfl
    refine ⟨seen ▸ sound.current, goes.held, seen ▸ goes.going, fun complete => ?_⟩
    rw [seen]
    by_cases marking : attempt.phase = .marking
    · obtain ⟨before, files, phase⟩ := attempt
      obtain rfl : phase = .marking := marking
      refine ⟨fun next same => ?_, ?_⟩
      · cases same
      · rcases sound.going _ running with early | ⟨listed, -, -, taken⟩
        · cases early
        · exact taken.imp fun log later copies => ⟨copies.logs, copies.state⟩
    · by_cases claimed : attempt.phase.claimed = true
      · have same : (advance headOf faults system.source system.target attempt).1.manifest =
            system.target.manifest := advance_claimed claimed marking
        have unclaimed := (sound.marked (same ▸ complete)).1 attempt running
        rw [unclaimed] at claimed
        cases claimed
      · have tidying := (Phase.unclaimed claimed).resolve_right claiming
        obtain ⟨events, state, manifest, next⟩ :=
          @advance_unclaimed headOf faults system.source system.target attempt tidying
        refine ⟨next, (sound.marked (manifest ▸ complete)).2.imp fun log later copies => ?_⟩
        exact copies.congr events state

/-- Every step keeps what holds. -/
theorem Sound.step {next : System} {act : Act} (sound : Sound headOf system)
    (stepped : system.step headOf act = some next) : Sound headOf next := by
  cases act with
  | grow byte =>
      obtain ⟨source, grown, rfl⟩ := Option.map_eq_some_iff.mp stepped
      exact sound.turns (grows_grow grown)
  | roll name size =>
      obtain ⟨source, grown, rfl⟩ := Option.map_eq_some_iff.mp stepped
      exact sound.turns (grows_roll grown)
  | index path bytes =>
      obtain ⟨source, grown, rfl⟩ := Option.map_eq_some_iff.mp stepped
      exact sound.turns (grows_index grown)
  | commit state =>
      cases stepped
      exact sound.turns (.still rfl)
  | start =>
      simp only [System.step] at stepped
      split at stepped
      · cases stepped
        refine ⟨sound.current, sound.held, fun attempt same => ?_, fun complete => ⟨fun attempt same => ?_, ?_⟩⟩
        · exact .inl (Option.some.inj same ▸ rfl)
        · exact Option.some.inj same ▸ rfl
        · exact (sound.marked complete).2
      · cases stepped
  | advance faults =>
      obtain ⟨attempt, running, rfl⟩ := Option.map_eq_some_iff.mp stepped
      exact sound.advanced running
  | crash =>
      cases stepped
      refine ⟨sound.current, sound.held, fun attempt none_ => ?_, fun complete => ⟨fun attempt none_ => ?_, ?_⟩⟩
      · cases none_
      · cases none_
      · exact (sound.marked complete).2

/-- In every run a target is marked complete only while no run that claimed it is underway,
and then it has the segments of the source as they were at one moment since it was last
claimed, and the database of no earlier a moment, lowered to the head of that log. -/
theorem complete_is_copy (headOf : (String → Option Contents) → UInt64) (source : Source) (acts : List Act)
    (final : System) (ran : run (System.step headOf) (.initial source) acts = some final)
    (complete : final.target.manifest = some true) :
    (∀ attempt, final.running = some attempt → attempt.phase.claimed = false) ∧
      Taken final.seen fun log later => Copies headOf final.target log later := by
  have sound : Sound headOf final :=
    run_invariant (Sound headOf) (fun _ _ _ sound stepped => sound.step stepped) (sound_initial source) ran
  exact sound.marked complete

def noTables : OpStore where
  version := 0
  known := by decide
  database := ∅
  shaped _ := rfl

/-- A log of one segment that nothing is written to yet. -/
def newLog : Source where
  segments := [⟨"00.log", 8, [], Nat.zero_le _⟩]
  newest := List.pairwise_singleton _ _
  logs := by decide
  others := ∅
  apart _ _ found := by cases found
  state := noTables

/-- The head of a log of one segment whose records are a byte each. -/
def bytesWritten (files : String → Option Contents) : UInt64 :=
  match files "00.log" with
  | some bytes => UInt64.ofNat (bytes.filter (· != 0)).length
  | none => 0

/-- A byte is written after the log was measured. -/
def overtaken : List Act :=
  [.grow 7, .start] ++ List.replicate 5 (.advance fun _ => none) ++ [.grow 9] ++
    List.replicate 14 (.advance fun _ => none)

theorem overtaken_is_copy : ∃ final, run (System.step bytesWritten) (.initial newLog) overtaken = some final ∧
    final.target.manifest = some true ∧
      Taken final.seen fun log later => Copies bytesWritten final.target log later := by
  have finished : (run (System.step bytesWritten) (.initial newLog) overtaken).any
      (fun final => final.target.manifest == some true) = true := by decide
  obtain ⟨final, ran, marked⟩ := (Option.any_eq_true _ _).mp finished
  have complete : final.target.manifest = some true := beq_iff_eq.mp marked
  exact ⟨final, ran, complete, (complete_is_copy bytesWritten newLog overtaken final ran complete).2⟩

end Hekla.Backup.Copying
