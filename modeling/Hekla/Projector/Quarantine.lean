import Hekla.Projector.Steps
import Hekla.Library.Runs

/-!
# What a violation leaves behind

A batch that ends behind the published position is a violation.  It quarantines the
projector, whose file records nothing of it: the file names the definition it was
built under, and no more.  A rebuild that fails before its model is swapped in leaves
that file, and the thread decides from it alone whether to serve again.

A run here is one thread's.  What it is given is not tied to the log: any batch may
arrive, ending anywhere.
-/

namespace Hekla.Projector

open Hekla.Library

variable {Record Keys Rows Definition : Type}

/-- Rows made as the recorded definition makes them, of whatever events. -/
structure ReadModel.Whole (projections : Definition → Projection Record Keys Rows) (blank : Rows)
    (model : ReadModel Definition Rows) : Prop where
  built : ∀ definition, model.definition = some definition →
    ∃ records, (projections definition).Projected blank records model.rows
  blank : model.definition = none → model.checkpoint = 0 → model.rows = blank

/-- A projector, with the number of rebuilds that have landed, and what that number was
when a violation was last found. -/
structure Watched (Record Definition Rows : Type) where
  world : World Record Definition Rows
  rebuilds : Nat := 0
  violation : Option Nat := none

/-- A violation was found since the model was built. -/
def Watched.Violated (watched : Watched Record Definition Rows) : Prop :=
  watched.violation = some watched.rebuilds

instance (watched : Watched Record Definition Rows) : Decidable watched.Violated :=
  inferInstanceAs (Decidable (_ = _))

/-- The model behind the name. -/
def World.live (world : World Record Definition Rows) : Option (ReadModel Definition Rows) :=
  (world.files.names .live).bind world.files.file

/-- Whether a step found that the position it was to publish is behind `position`. -/
def regresses (position : Nat) : Thread → Thread → Bool
  | .publishing _ reached, .tailing _ _ => decide (reached < position)
  | _, _ => false

/-- Whether a step moved a rebuilt model behind the name. -/
def lands : Thread → Thread → Bool
  | .swapping _, .sweeping => true
  | _, _ => false

/-- What is known of a projector after a step. -/
def Watched.after (watched : Watched Record Definition Rows) (next : World Record Definition Rows) :
    Watched Record Definition Rows where
  world := next
  rebuilds := watched.rebuilds + (lands watched.world.thread next.thread).toNat
  violation :=
    if regresses watched.world.position watched.world.thread next.thread then some watched.rebuilds
    else watched.violation

/-- A batch taken by a projector that follows the log, wherever it ends. -/
def World.astray (world : World Record Definition Rows) (projection : Projection Record Keys Rows)
    (keys : Record → Keys) (batch : List Record) (reached : Nat) :
    Option (World Record Definition Rows) :=
  match world.thread with
  | .tailing model _ =>
      if world.replay || !world.readiness.appliesBatches || batch.isEmpty then none
      else (world.files.file model).map fun found =>
        match found.applyBatch projection keys batch reached with
        | .error _ => { world with thread := .stopped }
        | .ok next =>
            { world with
              files := world.files.write model next
              thread := .publishing model reached }
  | _ => none

/-- What happens to a thread while it runs. -/
inductive Event (Record Keys Definition : Type) where
  | act (action : Action Record Keys Definition)
  | astray (keys : Record → Keys) (batch : List Record) (reached : Nat)

section Rows

variable {projections : Definition → Projection Record Keys Rows} {blank : Rows}
  {watched : Watched Record Definition Rows} {handle : Nat} {model : ReadModel Definition Rows}

theorem World.live_of_named {world : World Record Definition Rows}
    (named : world.files.names .live = some handle) : world.live = world.files.file handle := by
  unfold World.live
  rw [named]
  rfl

/-- A current model is made as the definition makes it. -/
theorem ReadModel.Whole.projected {definition : Definition} (whole : model.Whole projections blank)
    (current : model.Current definition) :
    ∃ records, (projections definition).Projected blank records model.rows := by
  rcases current with stamped | ⟨unstamped, empty⟩
  · exact whole.built definition stamped
  · rw [whole.blank unstamped empty]
    exact ⟨[], .nil⟩

theorem ReadModel.Whole.of_projected {definition : Definition} {records : List Record}
    (stamped : model.definition = some definition)
    (projected : (projections definition).Projected blank records model.rows) :
    model.Whole projections blank where
  built other named := by
    cases stamped.symm.trans named
    exact ⟨records, projected⟩
  blank unstamped := by cases stamped.symm.trans unstamped

theorem ReadModel.catchUp_rows (watermark : Nat) : (model.catchUp watermark).rows = model.rows := by
  unfold ReadModel.catchUp
  split <;> rfl

/-- A watermark past where a model stands is not zero. -/
theorem ReadModel.Whole.catchUp (whole : model.Whole projections blank) (watermark : Nat) :
    (model.catchUp watermark).Whole projections blank := by
  unfold ReadModel.catchUp
  split
  · next behind =>
      refine ⟨whole.built, fun _ empty => ?_⟩
      have reached : watermark = 0 := empty
      exact absurd (reached ▸ behind) (Nat.not_lt_zero _)
  · exact whole

/-- A batch goes on from what the rows were made of. -/
theorem ReadModel.applyBatch_whole {definition : Definition} {later : ReadModel Definition Rows}
    {keys : Record → Keys} {batch : List Record} {reached : Nat}
    (projected : ∃ records, (projections definition).Projected blank records model.rows)
    (applied : model.applyBatch (projections definition) keys batch reached = .ok later) :
    later.checkpoint = reached ∧ later.definition = model.definition ∧
      ∃ records, (projections definition).Projected blank records later.rows := by
  obtain ⟨records, before⟩ := projected
  unfold ReadModel.applyBatch at applied
  cases rows : (projections definition).applyAll keys batch model.rows with
  | error why =>
      rw [rows] at applied
      cases applied
  | ok made =>
      rw [rows] at applied
      cases applied
      exact ⟨rfl, rfl, _, before.applyAll rows⟩

/-- A step that finds no violation and swaps nothing in. -/
def Calm (position : Nat) (before after : Thread) : Prop :=
  lands before after = false ∧ regresses position before after = false

theorem Watched.after_of_calm {world : World Record Definition Rows}
    (calm : Calm watched.world.position watched.world.thread world.thread) :
    watched.after world = { watched with world } := by
  unfold Watched.after
  rw [calm.1, calm.2]
  rfl

theorem Calm.refl (position : Nat) (thread : Thread) : Calm position thread thread := by
  cases thread <;> exact ⟨rfl, rfl⟩

end Rows

variable [DecidableEq Definition]

def watch (projections : Definition → Projection Record Keys Rows) (blank : Rows)
    (watched : Watched Record Definition Rows) :
    Event Record Keys Definition → Option (Watched Record Definition Rows)
  -- The next process runs another thread.
  | .act (.restart _ _ _) => none
  | .act action => (step projections blank watched.world action).map watched.after
  | .astray keys batch reached =>
      (watched.world.astray (projections watched.world.definition) keys batch reached).map
        watched.after

/-- Whether the event decides what to serve from the model a failed rebuild left. -/
def judges : Thread → Event Record Keys Definition → Bool
  | .judging _, .act (.proceed _ _) => true
  | _, _ => false

/-- What a failed rebuild leaves is judged only when no violation was found in it. -/
def Respects (watched : Watched Record Definition Rows) (event : Event Record Keys Definition) : Prop :=
  judges watched.world.thread event = true → ¬ watched.Violated

instance (watched : Watched Record Definition Rows) (event : Event Record Keys Definition) :
    Decidable (Respects watched event) :=
  inferInstanceAs (Decidable (_ → _))

section Invariant

variable (projections : Definition → Projection Record Keys Rows) (blank : Rows)
  (watched : Watched Record Definition Rows)

/-- A projector that is ready serves a model built wholly under its definition, in
which no violation was found. -/
def Watched.Honest : Prop :=
  watched.world.readiness = .ready →
    (∃ model records, watched.world.live = some model ∧ model.Current watched.world.definition ∧
      (projections watched.world.definition).Projected blank records model.rows) ∧
    ¬ watched.Violated

/-- The model being built is not the one that is read, and is the definition's. -/
def Making (handle fresh : Nat) (also : ReadModel Definition Rows → Prop) : Prop :=
  watched.world.files.names .rebuild = some fresh ∧ fresh ≠ handle ∧
    ∃ found, watched.world.files.file fresh = some found ∧
      (∃ records, (projections watched.world.definition).Projected blank records found.rows) ∧
      also found

/-- What holds at each of the thread's steps, of the model behind the name. -/
def Rests (handle : Nat) (model : ReadModel Definition Rows) : Thread → Prop
  | .reconciling plan connection => connection = handle ∧
      watched.world.readiness = plan.readiness ∧ ∃ autoRebuild,
        plan = reconcileFrom model.definition model.checkpoint watched.world.definition autoRebuild
  | .subscribing connection | .tailing connection _ | .judging connection
  | .resetting connection =>
      connection = handle ∧ model.Settled ∧ watched.world.readiness ≠ .rebuilding
  | .publishing connection _ =>
      connection = handle ∧ model.Settled ∧ watched.world.readiness = .ready
  | .clearing _ | .failed => model.Settled
  | .creating _ => model.Settled ∧ watched.world.files.names .rebuild = none
  | .projecting _ fresh _ => model.Settled ∧
      Making projections blank watched handle fresh fun found => found.definition = none
  | .stamping _ fresh => model.Settled ∧
      Making projections blank watched handle fresh fun _ => True
  | .sealing _ fresh | .swapping fresh => model.Settled ∧
      Making projections blank watched handle fresh fun found =>
        found.definition = some watched.world.definition
  | .sweeping | .reopening =>
      model.definition = some watched.world.definition ∧ ¬ watched.Violated
  | .republishing connection | .rebuilt connection =>
      connection = handle ∧ model.definition = some watched.world.definition ∧ ¬ watched.Violated
  | .surviving => model.Settled ∧ watched.world.readiness ≠ .rebuilding
  | .stopped => True

/-- What holds of the model behind the name. -/
structure Held (handle : Nat) (model : ReadModel Definition Rows) : Prop where
  named : watched.world.files.names .live = some handle
  found : watched.world.files.file handle = some model
  ready : watched.world.readiness = .ready →
    model.Current watched.world.definition ∧ ¬ watched.Violated
  quarantined : watched.world.readiness = .quarantined → ∃ landed, watched.violation = some landed
  violated : watched.Violated → model.Current watched.world.definition
  rests : Rests projections blank watched handle model watched.world.thread

structure Watched.Kept : Prop where
  files : ∀ handle model, watched.world.files.file handle = some model →
    model.Whole projections blank
  counted : ∀ landed, watched.violation = some landed → landed ≤ watched.rebuilds
  held : ∃ handle model, Held projections blank watched handle model

/-- A step that keeps what is known, and writes nothing that is read while the projector
is quarantined. -/
structure Passes (next : Watched Record Definition Rows) : Prop where
  kept : next.Kept projections blank
  quiet : watched.world.readiness = .quarantined →
    next.world.live = watched.world.live ∨ watched.rebuilds < next.rebuilds

end Invariant

variable {projections : Definition → Projection Record Keys Rows} {blank : Rows}
  {watched next : Watched Record Definition Rows} {handle : Nat}
  {model : ReadModel Definition Rows}

theorem Watched.Kept.honest (kept : watched.Kept projections blank) :
    watched.Honest projections blank := by
  intro ready
  obtain ⟨handle, model, held⟩ := kept.held
  obtain ⟨current, unviolated⟩ := held.ready ready
  obtain ⟨records, projected⟩ := (kept.files handle model held.found).projected current
  refine ⟨⟨model, records, ?_, current, projected⟩, unviolated⟩
  exact (World.live_of_named held.named).trans held.found

/-! ## The kinds of step -/

section Kinds

variable (kept : watched.Kept projections blank)
  (held : Held projections blank watched handle model)

include kept held

/-- A step that writes no file. -/
theorem Held.quiet {log : List Record} {position : Nat} {readiness : Readiness} {replay : Bool}
    {thread : Thread} (calm : Calm watched.world.position watched.world.thread thread)
    (ready : readiness = .ready → model.Current watched.world.definition ∧ ¬ watched.Violated)
    (quarantined : readiness = .quarantined → ∃ landed, watched.violation = some landed)
    (rests : Rests projections blank
      { watched with world := { watched.world with log, position, readiness, replay, thread } }
      handle model thread) :
    Passes projections blank watched
      (watched.after { watched.world with log, position, readiness, replay, thread }) := by
  rw [Watched.after_of_calm calm]
  exact ⟨⟨kept.files, kept.counted, handle, model, held.named, held.found, ready, quarantined,
    held.violated, rests⟩, fun _ => .inl rfl⟩

/-- A commit to the model that is read. -/
theorem Held.commit {later : ReadModel Definition Rows} {thread : Thread}
    (calm : Calm watched.world.position watched.world.thread thread)
    (serving : watched.world.readiness ≠ .quarantined)
    (whole : later.Whole projections blank)
    (current : later.Current watched.world.definition)
    (rests : Rests projections blank
      { watched with
        world := { watched.world with files := watched.world.files.write handle later, thread } }
      handle later thread) :
    Passes projections blank watched
      (watched.after
        { watched.world with files := watched.world.files.write handle later, thread }) := by
  rw [Watched.after_of_calm calm]
  refine ⟨⟨?_, kept.counted, handle, later, held.named, Directory.file_write_self held.found,
    fun ready => ⟨current, (held.ready ready).2⟩, held.quarantined, fun _ => current, rests⟩,
    fun quarantined => absurd quarantined serving⟩
  intro other found there
  rcases Directory.file_write_cases there with ⟨-, rfl⟩ | ⟨-, before⟩
  · exact whole
  · exact kept.files other found before

/-- A write to the model being built. -/
theorem Held.make {fresh : Nat} {later : ReadModel Definition Rows} {thread : Thread}
    (calm : Calm watched.world.position watched.world.thread thread) (apart : fresh ≠ handle)
    (whole : later.Whole projections blank)
    (rests : Rests projections blank
      { watched with
        world := { watched.world with files := watched.world.files.write fresh later, thread } }
      handle model thread) :
    Passes projections blank watched
      (watched.after
        { watched.world with files := watched.world.files.write fresh later, thread }) := by
  have found : (watched.world.files.write fresh later).file handle = some model :=
    (Directory.file_write_ne apart.symm).trans held.found
  rw [Watched.after_of_calm calm]
  refine ⟨⟨?_, kept.counted, handle, model, held.named, found, held.ready, held.quarantined,
    held.violated, rests⟩, fun _ => .inl ?_⟩
  · intro other found there
    rcases Directory.file_write_cases there with ⟨-, rfl⟩ | ⟨-, before⟩
    · exact whole
    · exact kept.files other found before
  · rw [World.live_of_named held.named, held.found]
    exact (World.live_of_named (by exact held.named)).trans found

end Kinds

/-! ## Batches -/

variable {keys : Record → Keys} {upto : Nat}

/-- A projector that applies batches while it follows the log is ready. -/
theorem ready_of_appliesBatches {readiness : Readiness} (applies : readiness.appliesBatches = true)
    (following : readiness ≠ .rebuilding) : readiness = .ready := by
  cases readiness with
  | ready => rfl
  | rebuilding => exact absurd rfl following
  | stale | quarantined | failed => cases applies

/-- A batch applied to the model that is read, and where it ends. -/
theorem Held.apply (kept : watched.Kept projections blank)
    (held : Held projections blank watched handle model) {position reached : Nat}
    {batch : List Record} {outcome : World Record Definition Rows}
    (tailing : watched.world.thread = .tailing handle position) (settled : model.Settled)
    (ready : watched.world.readiness = .ready)
    (taken : (match model.applyBatch (projections watched.world.definition) keys batch reached with
      | .error _ => { watched.world with thread := .stopped }
      | .ok next =>
          { watched.world with
            files := watched.world.files.write handle next
            thread := .publishing handle reached }) = outcome) :
    Passes projections blank watched (watched.after outcome) := by
  have current := (held.ready ready).1
  cases applied : model.applyBatch (projections watched.world.definition) keys batch reached with
  | error why =>
      rw [applied] at taken
      cases taken
      refine held.quiet kept ?_ held.ready held.quarantined trivial
      rw [tailing]
      exact ⟨rfl, rfl⟩
  | ok later =>
      obtain ⟨-, same, records, made⟩ :=
        ReadModel.applyBatch_whole ((kept.files handle model held.found).projected current) applied
      have stamped : later.definition = some watched.world.definition :=
        same.trans (current.settled settled)
      rw [applied] at taken
      cases taken
      refine held.commit kept ?_ (by rw [ready]; exact nofun) (.of_projected stamped made)
        (.inl stamped) ⟨rfl, ReadModel.settled_of_definition stamped, ready⟩
      rw [tailing]
      exact ⟨rfl, rfl⟩

theorem Held.poll (kept : watched.Kept projections blank)
    (held : Held projections blank watched handle model) {position : Nat}
    {outcome : World Record Definition Rows}
    (tailing : watched.world.thread = .tailing handle position) (settled : model.Settled)
    (ready : watched.world.readiness = .ready)
    (taken : watched.world.poll (projections watched.world.definition) keys upto handle position =
      some outcome) :
    Passes projections blank watched (watched.after outcome) := by
  unfold World.poll at taken
  cases polled : (projections watched.world.definition).pollBatch watched.world.log position upto with
  | none =>
      rw [polled] at taken
      cases taken
  | some batch =>
      rw [polled] at taken
      cases batch with
      | nil =>
          have current := (held.ready ready).1
          have stamped := current.settled settled
          obtain ⟨records, made⟩ := (kept.files handle model held.found).projected current
          dsimp only at taken
          split at taken
          · unfold World.commit at taken
            rw [held.found] at taken
            cases taken
            refine held.commit kept ?_ (by rw [ready]; exact nofun) (.of_projected stamped made)
              (.inl stamped) ⟨rfl, ReadModel.settled_of_definition stamped, ready⟩
            rw [tailing]
            exact ⟨rfl, rfl⟩
          · cases taken
            refine held.quiet kept ?_ held.ready held.quarantined
              ⟨rfl, settled, by rw [ready]; exact nofun⟩
            rw [tailing]
            exact ⟨rfl, rfl⟩
      | cons first rest =>
          dsimp only at taken
          rw [held.found, Option.map_some] at taken
          exact held.apply kept tailing settled ready (Option.some.inj taken)

/-! ## A rebuild -/

theorem Held.project (kept : watched.Kept projections blank)
    (held : Held projections blank watched handle model) {connection fresh position : Nat}
    {outcome : World Record Definition Rows}
    (projecting : watched.world.thread = .projecting connection fresh position)
    (taken : watched.world.project (projections watched.world.definition) keys upto connection fresh
      position = some outcome) :
    Passes projections blank watched (watched.after outcome) := by
  have rests := held.rests
  rw [projecting] at rests
  obtain ⟨settled, named, apart, found, there, made, unstamped⟩ := rests
  have whole := kept.files fresh found there
  unfold World.project at taken
  cases polled : (projections watched.world.definition).pollBatch watched.world.log position upto with
  | none =>
      rw [polled] at taken
      cases taken
  | some batch =>
      obtain ⟨-, selected⟩ := Projection.pollBatch_eq_some.mp polled
      rw [polled] at taken
      cases batch with
      | nil =>
          unfold World.commit at taken
          rw [there] at taken
          cases taken
          refine held.make kept ?_ apart ?_
            ⟨settled, named, apart, _, Directory.file_write_self there, ?_, trivial⟩
          · rw [projecting]
            exact ⟨rfl, rfl⟩
          · exact whole.catchUp upto
          · rw [← ReadModel.catchUp_rows upto] at made
            exact made
      | cons first rest =>
          dsimp only at taken
          rw [there, Option.map_some] at taken
          have outcome_eq := Option.some.inj taken
          cases applied :
              found.applyBatch (projections watched.world.definition) keys (first :: rest) upto with
          | error why =>
              rw [applied] at outcome_eq
              cases outcome_eq
              refine held.quiet kept ?_ held.ready held.quarantined settled
              rw [projecting]
              exact ⟨rfl, rfl⟩
          | ok later =>
              obtain ⟨reached, same, further⟩ := ReadModel.applyBatch_whole made applied
              have moved : upto ≠ 0 :=
                Projection.pos_of_selected (selected ▸ List.cons_ne_nil first rest)
              rw [applied] at outcome_eq
              cases outcome_eq
              refine held.make kept ?_ apart ⟨?_, ?_⟩
                ⟨settled, named, apart, later, Directory.file_write_self there, further,
                  same.trans unstamped⟩
              · rw [projecting]
                exact ⟨rfl, rfl⟩
              · intro other stamped
                cases (same.trans unstamped).symm.trans stamped
              · intro _ empty
                exact absurd (reached.symm.trans empty) moved

/-- What is left of an earlier rebuild is behind a name that is not read. -/
theorem Held.clear (kept : watched.Kept projections blank)
    (held : Held projections blank watched handle model) {connection : Nat}
    (clearing : watched.world.thread = .clearing connection) (settled : model.Settled) :
    Passes projections blank watched (watched.after
      { watched.world with
        files := watched.world.files.unlink .rebuild
        thread := .creating connection }) := by
  have named : (watched.world.files.unlink .rebuild).names .live = some handle :=
    (Directory.names_unlink_ne (by decide)).trans held.named
  rw [Watched.after_of_calm (by rw [clearing]; exact ⟨rfl, rfl⟩)]
  refine ⟨⟨kept.files, kept.counted, handle, model, named, held.found, held.ready, held.quarantined,
    held.violated, settled, Directory.names_unlink_self⟩, fun _ => .inl ?_⟩
  rw [World.live_of_named held.named]
  exact World.live_of_named named

/-- A new model is empty, and behind no name that is read. -/
theorem Held.create (kept : watched.Kept projections blank)
    (held : Held projections blank watched handle model) {connection : Nat}
    (creating : watched.world.thread = .creating connection) (settled : model.Settled) :
    Passes projections blank watched (watched.after
      { watched.world with
        files := watched.world.files.create .rebuild { rows := blank }
        thread := .projecting connection watched.world.files.files.length 0 }) := by
  have inside : handle < watched.world.files.files.length := Directory.lt_of_file held.found
  have named : (watched.world.files.create .rebuild { rows := blank }).names .live = some handle :=
    (Directory.names_create_ne (by decide)).trans held.named
  have found : (watched.world.files.create .rebuild { rows := blank }).file handle = some model :=
    (Directory.file_create_of_lt inside).trans held.found
  rw [Watched.after_of_calm (by rw [creating]; exact ⟨rfl, rfl⟩)]
  refine ⟨⟨?_, kept.counted, handle, model, named, found, held.ready, held.quarantined, held.violated,
    settled, Directory.names_create_self, inside.ne', _, Directory.file_create_new, ⟨[], .nil⟩, rfl⟩,
    fun _ => .inl ?_⟩
  · intro other made there
    rcases Directory.file_create_cases there with ⟨-, rfl⟩ | old
    · exact ⟨nofun, fun _ _ => rfl⟩
    · exact kept.files other made old
  · rw [World.live_of_named held.named, held.found]
    exact (World.live_of_named (by exact named)).trans found

/-- A model swapped in is new: whatever was found was found in the one it replaces. -/
theorem Held.swap (kept : watched.Kept projections blank)
    (held : Held projections blank watched handle model) {fresh : Nat}
    (swapping : watched.world.thread = .swapping fresh)
    {files : Directory DbFile (ReadModel Definition Rows)}
    (renamed : watched.world.files.rename .rebuild .live = some files) :
    Passes projections blank watched
      (watched.after { watched.world with files, thread := .sweeping }) := by
  have rests := held.rests
  rw [swapping] at rests
  obtain ⟨-, named, apart, found, there, -, stamped⟩ := rests
  obtain ⟨moved, same⟩ := Directory.rename_eq_some (by decide) renamed
  have content (other : Nat) : files.file other = watched.world.files.file other := by
    unfold Directory.file
    rw [same]
  have unviolated : watched.violation ≠ some (watched.rebuilds + 1) := fun violated =>
    absurd (kept.counted _ violated) (Nat.not_succ_le_self _)
  have landed : watched.after { watched.world with files, thread := .sweeping } =
      { watched with
        world := { watched.world with files, thread := .sweeping }
        rebuilds := watched.rebuilds + 1 } := by
    unfold Watched.after
    rw [swapping]
    rfl
  rw [landed]
  refine ⟨⟨?_, ?_, fresh, found, moved.trans named, (content fresh).trans there,
    fun _ => ⟨.inl stamped, unviolated⟩, held.quarantined, fun violated => absurd violated unviolated,
    stamped, unviolated⟩, fun _ => .inr (Nat.lt_succ_self _)⟩
  · intro other old before
    exact kept.files other old ((content other).symm.trans before)
  · intro earlier violation
    exact Nat.le_succ_of_le (kept.counted earlier violation)

/-! ## Every step -/

/-- A batch that ends behind the published position was taken in a ready projector. -/
theorem Held.publish (kept : watched.Kept projections blank)
    (held : Held projections blank watched handle model) {connection position : Nat}
    (publishing : watched.world.thread = .publishing connection position) :
    Passes projections blank watched (watched.after
      { watched.world.advancePosition position with thread := .tailing connection position }) := by
  have rests := held.rests
  rw [publishing] at rests
  obtain ⟨rfl, settled, ready⟩ := rests
  obtain ⟨current, unviolated⟩ := held.ready ready
  unfold World.advancePosition
  split
  · next behind =>
      have found : watched.after
          { watched.world with
            readiness := .quarantined
            thread := .tailing connection position } =
          { watched with
            world := { watched.world with
              readiness := .quarantined
              thread := .tailing connection position }
            violation := some watched.rebuilds } := by
        unfold Watched.after
        rw [publishing, if_pos (by exact decide_eq_true behind)]
        rfl
      rw [found]
      refine ⟨⟨kept.files, ?_, connection, model, held.named, held.found, by rintro ⟨⟩,
        fun _ => ⟨_, rfl⟩, fun _ => current, rfl, settled, by rintro ⟨⟩⟩, fun quarantined => ?_⟩
      · intro landed same
        exact Nat.le_of_eq (Option.some.inj same).symm
      · cases ready.symm.trans quarantined
  · next onward =>
      refine held.quiet kept ?_ held.ready held.quarantined
        ⟨rfl, settled, by rw [ready]; rintro ⟨⟩⟩
      rw [publishing]
      exact ⟨rfl, decide_eq_false onward⟩

/-- Every step of the thread itself. -/
theorem Watched.Kept.proceed (kept : watched.Kept projections blank)
    {outcome : World Record Definition Rows}
    (respected : ∀ connection, watched.world.thread = .judging connection → ¬ watched.Violated)
    (taken : watched.world.proceed projections blank keys upto = some outcome) :
    Passes projections blank watched (watched.after outcome) := by
  obtain ⟨handle, model, held⟩ := kept.held
  have rests := held.rests
  unfold World.proceed at taken
  cases thread : watched.world.thread with
  | reconciling plan connection =>
      rw [thread] at taken rests
      obtain ⟨rfl, readiness, autoRebuild, planned⟩ := rests
      have settled (unstamped : plan ≠ .stamp) : model.Settled :=
        ReadModel.settled_of_reconcile (planned ▸ unstamped)
      cases plan with
      | upToDate | stale =>
          cases taken
          exact held.quiet kept (by rw [thread]; exact ⟨rfl, rfl⟩) held.ready held.quarantined
            ⟨rfl, settled (by rintro ⟨⟩), by rw [readiness]; rintro ⟨⟩⟩
      | rebuild =>
          cases taken
          exact held.quiet kept (by rw [thread]; exact ⟨rfl, rfl⟩) held.ready held.quarantined
            (settled (by rintro ⟨⟩))
      | stamp =>
          have current := ReadModel.current_of_reconcile (congrArg Reconcile.readiness planned.symm)
          obtain ⟨records, made⟩ := (kept.files connection model held.found).projected current
          dsimp only [World.commit] at taken
          rw [held.found] at taken
          cases taken
          exact held.commit kept (by rw [thread]; exact ⟨rfl, rfl⟩) (by rw [readiness]; rintro ⟨⟩)
            (.of_projected rfl made) (.inl rfl) ⟨rfl, by rintro ⟨⟩, by rw [readiness]; rintro ⟨⟩⟩
  | subscribing connection =>
      rw [thread] at taken rests
      obtain ⟨rfl, settled, following⟩ := rests
      dsimp only at taken
      rw [held.found] at taken
      cases taken
      exact held.quiet kept (by rw [thread]; exact ⟨rfl, rfl⟩) held.ready held.quarantined
        ⟨rfl, settled, following⟩
  | tailing connection position =>
      have tailing := thread
      rw [thread] at taken rests
      obtain ⟨rfl, settled, following⟩ := rests
      dsimp only at taken
      split at taken
      · cases taken
        exact held.quiet kept (by rw [thread]; exact ⟨rfl, rfl⟩) held.ready held.quarantined settled
      · split at taken
        · next applies =>
            exact held.poll kept tailing settled (ready_of_appliesBatches applies following) taken
        · cases taken
          exact held.quiet kept (.refl _ _) held.ready held.quarantined held.rests
  | publishing connection position =>
      have publishing := thread
      rw [thread] at taken
      cases taken
      exact held.publish kept publishing
  | clearing connection =>
      have clearing := thread
      rw [thread] at taken rests
      cases taken
      exact held.clear kept clearing rests
  | creating connection =>
      have creates := held.create kept thread
      rw [thread] at taken rests
      obtain ⟨settled, unnamed⟩ := rests
      cases taken
      rw [Directory.openOrCreate_of_none unnamed]
      dsimp only
      rw [Directory.file_create_new]
      exact creates settled
  | projecting connection fresh position =>
      have projecting := thread
      rw [thread] at taken
      exact held.project kept projecting taken
  | stamping connection fresh =>
      rw [thread] at taken rests
      obtain ⟨settled, named, apart, found, there, ⟨records, made⟩, -⟩ := rests
      dsimp only [World.commit] at taken
      rw [there] at taken
      cases taken
      exact held.make kept (by rw [thread]; exact ⟨rfl, rfl⟩) apart (.of_projected rfl made)
        ⟨settled, named, apart, _, Directory.file_write_self there, ⟨records, made⟩, rfl⟩
  | sealing connection fresh =>
      rw [thread] at taken rests
      cases taken
      exact held.quiet kept (by rw [thread]; exact ⟨rfl, rfl⟩) held.ready held.quarantined rests
  | swapping fresh =>
      have swapping := thread
      rw [thread] at taken rests
      dsimp only at taken
      cases renamed : watched.world.files.rename .rebuild .live with
      | none =>
          rw [renamed] at taken
          cases taken
          exact held.quiet kept (by rw [thread]; exact ⟨rfl, rfl⟩) held.ready held.quarantined
            rests.1
      | some files =>
          rw [renamed] at taken
          cases taken
          exact held.swap kept swapping renamed
  | sweeping =>
      rw [thread] at taken rests
      cases taken
      exact held.quiet kept (by rw [thread]; exact ⟨rfl, rfl⟩) held.ready held.quarantined rests
  | reopening =>
      rw [thread] at taken rests
      dsimp only at taken
      rw [Directory.openOrCreate_of_named held.named] at taken
      cases taken
      exact held.quiet kept (by rw [thread]; exact ⟨rfl, rfl⟩) held.ready held.quarantined
        ⟨rfl, rests⟩
  | republishing connection =>
      rw [thread] at taken rests
      obtain ⟨rfl, stamped⟩ := rests
      dsimp only at taken
      rw [held.found] at taken
      cases taken
      exact held.quiet kept (by rw [thread]; exact ⟨rfl, rfl⟩) held.ready held.quarantined
        ⟨rfl, stamped⟩
  | rebuilt connection =>
      rw [thread] at taken rests
      obtain ⟨rfl, stamped, unviolated⟩ := rests
      cases taken
      exact held.quiet kept (by rw [thread]; exact ⟨rfl, rfl⟩)
        (fun _ => ⟨.inl stamped, unviolated⟩) (by rintro ⟨⟩)
        ⟨rfl, ReadModel.settled_of_definition stamped, by rintro ⟨⟩⟩
  | failed =>
      rw [thread] at taken rests
      cases taken
      exact held.quiet kept (by rw [thread]; exact ⟨rfl, rfl⟩) (by rintro ⟨⟩) (by rintro ⟨⟩)
        ⟨rests, by rintro ⟨⟩⟩
  | surviving =>
      rw [thread] at taken rests
      dsimp only at taken
      rw [Directory.openOrCreate_of_named held.named] at taken
      cases taken
      exact held.quiet kept (by rw [thread]; exact ⟨rfl, rfl⟩) held.ready held.quarantined
        ⟨rfl, rests⟩
  | judging connection =>
      have unviolated := respected connection thread
      rw [thread] at taken rests
      obtain ⟨rfl, settled, following⟩ := rests
      dsimp only at taken
      rw [held.found] at taken
      cases taken
      refine held.quiet kept (by rw [thread]; exact ⟨rfl, rfl⟩) ?_ ?_ ⟨rfl, settled, ?_⟩
      · split
        · exact held.ready
        · next mismatch =>
            intro _
            exact ⟨ReadModel.current_of_reconcile (readiness_of_ne_stale mismatch), unviolated⟩
      · split
        · exact held.quarantined
        · rintro ⟨⟩
      · dsimp only
        split
        · exact following
        · rintro ⟨⟩
  | resetting connection =>
      rw [thread] at taken rests
      obtain ⟨rfl, settled, following⟩ := rests
      dsimp only at taken
      rw [held.found] at taken
      cases taken
      exact held.quiet kept (by rw [thread]; exact ⟨rfl, rfl⟩) held.ready held.quarantined
        ⟨rfl, settled, following⟩
  | stopped =>
      rw [thread] at taken
      cases taken

/-- A step that fails leaves the model that is read as it was. -/
theorem Watched.Kept.fault (kept : watched.Kept projections blank) {thread : Thread}
    (faulted : watched.world.thread.faulted = some thread) :
    Passes projections blank watched (watched.after { watched.world with thread }) := by
  obtain ⟨handle, model, held⟩ := kept.held
  have rests := held.rests
  have calm : Calm watched.world.position watched.world.thread thread := by
    cases before : watched.world.thread <;> rw [before] at faulted <;> cases faulted <;>
      exact ⟨rfl, rfl⟩
  have stop (stopped : thread = .stopped) :
      Passes projections blank watched (watched.after { watched.world with thread }) := by
    subst stopped
    exact held.quiet kept calm held.ready held.quarantined trivial
  have outlive (failed : thread = .failed) (settled : model.Settled) :
      Passes projections blank watched (watched.after { watched.world with thread }) := by
    subst failed
    exact held.quiet kept calm held.ready held.quarantined settled
  cases before : watched.world.thread with
  | reconciling | subscribing | tailing | publishing | surviving | judging | resetting =>
      rw [before] at faulted
      exact stop (Option.some.inj faulted).symm
  | clearing =>
      rw [before] at faulted rests
      exact outlive (Option.some.inj faulted).symm rests
  | creating | projecting | stamping | sealing | swapping =>
      rw [before] at faulted rests
      exact outlive (Option.some.inj faulted).symm rests.1
  | sweeping | reopening =>
      rw [before] at faulted rests
      exact outlive (Option.some.inj faulted).symm (ReadModel.settled_of_definition rests.1)
  | republishing =>
      rw [before] at faulted rests
      exact outlive (Option.some.inj faulted).symm (ReadModel.settled_of_definition rests.2.1)
  | rebuilt | failed | stopped =>
      rw [before] at faulted
      cases faulted

theorem Watched.Kept.astray (kept : watched.Kept projections blank) {batch : List Record}
    {reached : Nat} {outcome : World Record Definition Rows}
    (taken : watched.world.astray (projections watched.world.definition) keys batch reached =
      some outcome) :
    Passes projections blank watched (watched.after outcome) := by
  obtain ⟨handle, model, held⟩ := kept.held
  have rests := held.rests
  unfold World.astray at taken
  cases thread : watched.world.thread with
  | tailing connection position =>
      have tailing := thread
      rw [thread] at taken rests
      obtain ⟨rfl, settled, following⟩ := rests
      dsimp only at taken
      split at taken
      · cases taken
      · next admitted =>
          rw [Bool.or_eq_true, Bool.or_eq_true, not_or, not_or] at admitted
          have applies : watched.world.readiness.appliesBatches = true := by
            simpa using admitted.1.2
          rw [held.found, Option.map_some] at taken
          exact held.apply kept tailing settled (ready_of_appliesBatches applies following)
            (Option.some.inj taken)
  | _ =>
      rw [thread] at taken
      cases taken

/-- Every step that meets the condition keeps what is known. -/
theorem Watched.Kept.passes (kept : watched.Kept projections blank)
    {event : Event Record Keys Definition} (respected : Respects watched event)
    (taken : watch projections blank watched event = some next) :
    Passes projections blank watched next := by
  obtain ⟨handle, model, held⟩ := kept.held
  cases event with
  | astray keys batch reached =>
      obtain ⟨outcome, stepped, rfl⟩ := Option.map_eq_some_iff.mp taken
      exact kept.astray stepped
  | act action =>
      cases action with
      | append record =>
          cases taken
          exact held.quiet kept (.refl _ _) held.ready held.quarantined held.rests
      | requestReplay =>
          cases taken
          exact held.quiet kept (.refl _ _) held.ready held.quarantined held.rests
      | proceed keys upto =>
          obtain ⟨outcome, stepped, rfl⟩ := Option.map_eq_some_iff.mp taken
          refine kept.proceed ?_ stepped
          intro connection judging
          exact respected (by rw [judging]; rfl)
      | fault =>
          obtain ⟨outcome, stepped, rfl⟩ := Option.map_eq_some_iff.mp taken
          obtain ⟨thread, faulted, rfl⟩ := Option.map_eq_some_iff.mp stepped
          exact kept.fault faulted
      | restart definition autoRebuild removed => cases taken

/-! ## Every run -/

/-- A model of the definition is not stale. -/
theorem ReadModel.Current.ne_stale {definition : Definition} (current : model.Current definition) :
    reconcileFrom model.definition model.checkpoint definition false ≠ .stale := by
  unfold reconcileFrom
  rcases current with stamped | ⟨unstamped, empty⟩
  · rw [stamped]
    dsimp only
    rw [if_pos rfl]
    exact nofun
  · rw [unstamped]
    dsimp only
    rw [if_pos empty]
    exact nofun

/-- What a failed rebuild leaves is served, though a violation was found in it. -/
theorem Watched.Kept.not_honest (kept : watched.Kept projections blank)
    {event : Event Record Keys Definition} (judged : judges watched.world.thread event = true)
    (violated : watched.Violated) (taken : watch projections blank watched event = some next) :
    ¬ next.Honest projections blank := by
  obtain ⟨handle, model, held⟩ := kept.held
  have rests := held.rests
  cases thread : watched.world.thread with
  | judging connection =>
      rw [thread] at judged rests
      obtain ⟨rfl, -, -⟩ := rests
      cases event with
      | astray => cases judged
      | act action =>
          cases action with
          | proceed keys upto =>
              obtain ⟨outcome, stepped, rfl⟩ := Option.map_eq_some_iff.mp taken
              unfold step World.proceed at stepped
              rw [thread] at stepped
              dsimp only at stepped
              rw [held.found] at stepped
              cases stepped
              rw [Watched.after_of_calm (by rw [thread]; exact ⟨rfl, rfl⟩)]
              intro honest
              exact (honest (if_neg (held.violated violated).ne_stale)).2 violated
          | append | requestReplay | fault | restart => cases judged
  | _ =>
      rw [thread] at judged
      cases judged

/-- A run starts on whatever whole files there are. -/
theorem kept_spawn {log : List Record} {files : Directory DbFile (ReadModel Definition Rows)}
    (whole : ∀ handle model, files.file handle = some model → model.Whole projections blank)
    (definition : Definition) (autoRebuild : Bool) :
    Watched.Kept projections blank { world := spawn blank log files definition autoRebuild } := by
  have quiet (plan : Reconcile) : plan.readiness ≠ .quarantined := by
    cases plan <;> exact nofun
  unfold spawn
  cases named : files.names .live with
  | some handle =>
      obtain ⟨model, found⟩ := Directory.file_of_named named
      rw [Directory.openOrCreate_of_named named]
      dsimp only
      rw [found]
      dsimp only [Option.getD_some]
      exact ⟨whole, nofun, handle, model, named, found,
        fun ready => ⟨ReadModel.current_of_reconcile ready, nofun⟩,
        fun quarantined => absurd quarantined (quiet _), nofun, rfl, rfl, autoRebuild, rfl⟩
  | none =>
      rw [Directory.openOrCreate_of_none named]
      dsimp only
      rw [Directory.file_create_new]
      dsimp only [Option.getD_some]
      have serving := quiet (reconcileFrom none 0 definition autoRebuild)
      refine ⟨?_, nofun, _, _, Directory.names_create_self, Directory.file_create_new,
        fun _ => ⟨.inr ⟨rfl, rfl⟩, nofun⟩, fun quarantined => absurd quarantined serving, nofun,
        rfl, rfl, autoRebuild, rfl⟩
      intro other found there
      rcases Directory.file_create_cases there with ⟨-, rfl⟩ | old
      · exact ⟨nofun, fun _ _ => rfl⟩
      · exact whole other found old

/-- A violation is only forgotten for a later one. -/
theorem violation_of_watch (kept : watched.Kept projections blank)
    {event : Event Record Keys Definition} {landed : Nat}
    (violation : ∃ last, watched.violation = some last ∧ landed ≤ last)
    (taken : watch projections blank watched event = some next) :
    ∃ last, next.violation = some last ∧ landed ≤ last := by
  have kept_after (outcome : World Record Definition Rows) :
      ∃ last, (watched.after outcome).violation = some last ∧ landed ≤ last := by
    obtain ⟨last, found, order⟩ := violation
    unfold Watched.after
    dsimp only
    split
    · exact ⟨_, rfl, Nat.le_trans order (kept.counted last found)⟩
    · exact ⟨last, found, order⟩
  cases event with
  | astray keys batch reached =>
      obtain ⟨outcome, -, rfl⟩ := Option.map_eq_some_iff.mp taken
      exact kept_after outcome
  | act action =>
      cases action with
      | restart => cases taken
      | append | requestReplay =>
          cases taken
          exact kept_after _
      | proceed | fault =>
          obtain ⟨outcome, -, rfl⟩ := Option.map_eq_some_iff.mp taken
          exact kept_after outcome

/-- After a violation a projector is ready again only once a rebuild has landed. -/
theorem Watched.Kept.landed_of_ready (kept : watched.Kept projections blank) {landed : Nat}
    (violation : watched.violation = some landed) {events : List (Event Record Keys Definition)}
    (guarded : Guarded (watch projections blank) Respects watched events)
    (ran : run (watch projections blank) watched events = some next)
    (ready : next.world.readiness = .ready) : landed < next.rebuilds := by
  have preserved : next.Kept projections blank ∧
      ∃ last, next.violation = some last ∧ landed ≤ last :=
    run_invariant_of_guarded
      (fun watched => watched.Kept projections blank ∧
        ∃ last, watched.violation = some last ∧ landed ≤ last)
      (fun watched event next before respected taken =>
        ⟨(before.1.passes respected taken).kept, violation_of_watch before.1 before.2 taken⟩)
      ⟨kept, landed, violation, Nat.le_refl _⟩ guarded ran
  obtain ⟨keptNext, last, found, order⟩ := preserved
  have unviolated : ¬ next.Violated := (keptNext.honest ready).2
  have different : last ≠ next.rebuilds := by
    rintro rfl
    exact unviolated found
  exact Nat.lt_of_le_of_lt order (Nat.lt_of_le_of_ne (keptNext.counted last found) different)

/-- In a run that judges no model a violation was found in, a projector that is ready
serves what was built wholly under its definition and found sound, the next step keeps
that exactly when it meets the condition too, and one that is quarantined writes
nothing that is read and serves again only once a rebuild has landed. -/
theorem ready_exact {log : List Record} {files : Directory DbFile (ReadModel Definition Rows)}
    {definition : Definition} {autoRebuild : Bool} {events : List (Event Record Keys Definition)}
    (whole : ∀ handle model, files.file handle = some model → model.Whole projections blank)
    (guarded : Guarded (watch projections blank) Respects
      { world := spawn blank log files definition autoRebuild } events)
    (ran : run (watch projections blank)
      { world := spawn blank log files definition autoRebuild } events = some watched) :
    watched.Honest projections blank ∧
    (∀ (event : Event Record Keys Definition) next,
      watch projections blank watched event = some next →
        (next.Honest projections blank ↔ Respects watched event)) ∧
    (watched.world.readiness = .quarantined →
      (∀ (event : Event Record Keys Definition) next, Respects watched event →
        watch projections blank watched event = some next →
          next.world.live = watched.world.live ∨ watched.rebuilds < next.rebuilds) ∧
      ∃ landed, watched.violation = some landed ∧
        ∀ (later : List (Event Record Keys Definition)) final,
          Guarded (watch projections blank) Respects watched later →
          run (watch projections blank) watched later = some final →
          final.world.readiness = .ready → landed < final.rebuilds) := by
  have kept : watched.Kept projections blank :=
    run_invariant_of_guarded (fun watched => watched.Kept projections blank)
      (fun watched event next before respected taken => (before.passes respected taken).kept)
      (kept_spawn whole definition autoRebuild) guarded ran
  refine ⟨kept.honest, ?_, ?_⟩
  · intro event next taken
    constructor
    · intro honest judged violated
      exact kept.not_honest judged violated taken honest
    · intro respected
      exact (kept.passes respected taken).kept.honest
  · intro quarantined
    obtain ⟨handle, model, held⟩ := kept.held
    obtain ⟨landed, violation⟩ := held.quarantined quarantined
    refine ⟨?_, landed, violation, ?_⟩
    · intro event next respected taken
      exact (kept.passes respected taken).quiet quarantined
    · intro later final guardedLater ranLater ready
      exact kept.landed_of_ready violation guardedLater ranLater ready

/-! A projector that counts is told that its last batch ended where it had begun.  Its
replay then fails at the first step. -/

def tally (_ : Unit) : Projection Unit Unit Nat where
  selects _ := true
  apply _ rows _ := .ok (rows + 1)

def proceeds (upto : Nat) : Event Unit Unit Unit := .act (.proceed (fun _ => ()) upto)

/-- A batch is published, and the next ends behind it. -/
def regression : List (Event Unit Unit Unit) :=
  [.act (.append ()), proceeds 0, proceeds 0, proceeds 1, proceeds 1, .astray (fun _ => ()) [()] 0,
    proceeds 0]

def failedReplay : List (Event Unit Unit Unit) :=
  regression ++ [.act .requestReplay, proceeds 0, .act .fault, proceeds 0, proceeds 0, proceeds 0]

theorem quarantined_of_regression : ∃ watched : Watched Unit Unit Nat,
    run (watch tally 0) { world := spawn 0 [] Directory.empty () true } regression = some watched ∧
      watched.world.readiness = .quarantined ∧ watched.Honest tally 0 ∧
      ∃ landed, watched.violation = some landed ∧
        ∀ later final, Guarded (watch tally 0) Respects watched later →
          run (watch tally 0) watched later = some final →
          final.world.readiness = .ready → landed < final.rebuilds := by
  have reached : (run (watch tally 0) { world := spawn 0 [] Directory.empty () true }
      regression).map (fun watched => watched.world.readiness) = some .quarantined := by decide
  obtain ⟨watched, ran, quarantined⟩ := Option.map_eq_some_iff.mp reached
  have whole (handle : Nat) (model : ReadModel Unit Nat)
      (found : (Directory.empty : Directory DbFile _).file handle = some model) :
      model.Whole tally 0 := by cases found
  obtain ⟨honest, -, waits⟩ := ready_exact whole (by decide) ran
  exact ⟨watched, ran, quarantined, honest, (waits quarantined).2⟩

/-- The replay that fails leaves the projector ready, with the violation in its model. -/
theorem ready_though_violated : ¬ ∀ (events : List (Event Unit Unit Unit)) watched,
    run (watch tally 0) { world := spawn 0 [] Directory.empty () true } events = some watched →
      watched.Honest tally 0 := by
  intro always
  have reached : (run (watch tally 0) { world := spawn 0 [] Directory.empty () true }
      failedReplay).map (fun watched => (watched.world.readiness, decide watched.Violated)) =
      some (.ready, true) := by decide
  obtain ⟨watched, ran, same⟩ := Option.map_eq_some_iff.mp reached
  rw [Prod.mk.injEq, decide_eq_true_iff] at same
  exact (always failedReplay watched ran same.1).2 same.2

end Hekla.Projector
