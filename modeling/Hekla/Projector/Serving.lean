import Hekla.Projector.Thread

/-!
# What is published is stored

Whatever the thread has done or failed to do, the position it published is not
ahead of the checkpoint behind the read model's name; a projector that is ready
has a model of its definition there; and no step takes back what is behind the
name, or behind the connection of a read.  A rebuild makes its model where no read
can see it, and swaps it in only once it has come as far as the log.
-/

namespace Hekla.Projector

open Hekla.Library Hekla.Reads

variable {Record Keys Rows Definition : Type}

/-! ## What the thread knows -/

/-- A later state of a model that may be served. -/
structure ReadModel.Grows (model later : ReadModel Definition Rows) (definition : Definition) :
    Prop where
  checkpoint : model.checkpoint ≤ later.checkpoint
  current : model.Current definition → later.Current definition

theorem ReadModel.Grows.refl (model : ReadModel Definition Rows) (definition : Definition) :
    model.Grows model definition :=
  ⟨Nat.le_refl _, id⟩

section Invariant

variable (projections : Definition → Projection Record Keys Rows) (blank : Rows)
  (world : World Record Definition Rows)

/-- The model being built is not the one that is read, and reflects the log. -/
def Building (handle fresh : Nat) (also : ReadModel Definition Rows → Prop) : Prop :=
  world.files.names .rebuild = some fresh ∧ fresh ≠ handle ∧
    ∃ found, world.files.file fresh = some found ∧
      (projections world.definition).Projected blank
        ((projections world.definition).selected world.log 0 found.checkpoint) found.rows ∧
      also found

variable [DecidableEq Definition]

/-- What holds at each of the thread's steps, of the model behind the name. -/
def Fits (handle : Nat) (model : ReadModel Definition Rows) : Thread → Prop
  | .reconciling plan connection => connection = handle ∧ world.readiness = plan.readiness ∧
      ∃ autoRebuild,
        plan = reconcileFrom model.definition model.checkpoint world.definition autoRebuild
  | .subscribing connection | .judging connection | .resetting connection =>
      connection = handle ∧ model.Settled ∧ world.readiness ≠ .rebuilding
  | .tailing connection position | .publishing connection position =>
      connection = handle ∧ model.Settled ∧ world.readiness ≠ .rebuilding ∧
        position = model.checkpoint
  | .clearing _ | .failed => model.Settled
  | .creating _ => model.Settled ∧ world.files.names .rebuild = none
  | .projecting _ fresh position => model.Settled ∧
      Building projections blank world handle fresh fun found =>
        found.definition = none ∧ found.checkpoint = position
  | .stamping _ fresh => model.Settled ∧
      Building projections blank world handle fresh fun found =>
        model.checkpoint ≤ found.checkpoint
  | .sealing _ fresh | .swapping fresh => model.Settled ∧
      Building projections blank world handle fresh fun found =>
        found.definition = some world.definition ∧ model.checkpoint ≤ found.checkpoint
  | .sweeping | .reopening => model.definition = some world.definition
  | .republishing connection | .rebuilt connection =>
      connection = handle ∧ model.definition = some world.definition
  | .surviving => model.Settled ∧ world.readiness ≠ .rebuilding
  | .stopped => True

/-- What holds of the model behind the name. -/
structure Served (handle : Nat) (model : ReadModel Definition Rows) : Prop where
  named : world.files.names .live = some handle
  found : world.files.file handle = some model
  published : world.position ≤ model.checkpoint
  ready : world.readiness = .ready → model.Current world.definition
  fits : Fits projections blank world handle model world.thread

structure World.Sound : Prop where
  files : ∀ handle model, world.files.file handle = some model →
    model.Sound projections blank world.log
  live : ∃ handle model, Served projections blank world handle model

/-- What may be served at the definition. -/
def Good (model : ReadModel Definition Rows) : Prop :=
  model.Current world.definition ∧ model.Sound projections blank world.log

/-- What a read can have open. -/
def Visible (handle : Nat) : Prop :=
  handle < world.files.files.length ∧ world.thread.fresh ≠ some handle

end Invariant

/-! ## What a step leaves alone -/

/-- A step that takes back nothing a read can see. -/
structure Evolves (world next : World Record Definition Rows) : Prop where
  definition : next.definition = world.definition
  log : ∃ records, next.log = world.log ++ records
  named : ∀ handle model, world.files.names .live = some handle →
    world.files.file handle = some model → ∃ handle' later,
      next.files.names .live = some handle' ∧ next.files.file handle' = some later ∧
        model.Grows later world.definition
  opened : ∀ handle model, Visible world handle → world.files.file handle = some model →
    Visible next handle ∧ ∃ later, next.files.file handle = some later ∧
      model.Grows later world.definition

variable [DecidableEq Definition] {projections : Definition → Projection Record Keys Rows}
  {blank : Rows} {world next : World Record Definition Rows}

theorem Evolves.keeps (evolves : Evolves world next) (sound : next.Sound projections blank)
    (projector : String) :
    Keeps (reading projector) (Good projections blank) Visible world next where
  held := by
    rintro model ⟨current, before⟩
    obtain ⟨records, grown⟩ := evolves.log
    refine ⟨evolves.definition ▸ current, ?_⟩
    rw [grown]
    exact before.grown records
  named := by
    rintro least ⟨handle, model, named, found, ⟨current, -⟩, reached⟩
    obtain ⟨handle', later, named', found', grows⟩ := evolves.named handle model named found
    refine ⟨handle', later, named', found', ⟨?_, sound.files handle' later found'⟩, ?_⟩
    · exact evolves.definition ▸ grows.current current
    · exact Nat.le_trans reached grows.checkpoint
  opened := by
    rintro handle model visible found ⟨current, -⟩
    obtain ⟨still, later, found', grows⟩ := evolves.opened handle model visible found
    refine ⟨still, later, found', ⟨?_, sound.files handle later found'⟩, grows.checkpoint⟩
    exact evolves.definition ▸ grows.current current

theorem World.Sound.honest (sound : world.Sound projections blank) (projector : String) :
    Honest (reading projector) (Good projections blank) Visible world where
  gate := by
    intro passed
    obtain ⟨handle, model, served⟩ := sound.live
    have ready : world.readiness = .ready := by
      change notServable projector world.readiness = none at passed
      cases readiness : world.readiness with
      | ready => rfl
      | rebuilding | stale | quarantined | failed =>
          rw [readiness] at passed
          cases passed
    exact ⟨handle, model, served.named, served.found,
      ⟨served.ready ready, sound.files handle model served.found⟩, Nat.zero_le _⟩
  published := by
    intro handle model named found
    obtain ⟨handle', model', served⟩ := sound.live
    cases served.named.symm.trans named
    cases served.found.symm.trans found
    exact served.published
  visible := by
    intro handle named
    obtain ⟨handle', model, served⟩ := sound.live
    cases served.named.symm.trans named
    refine ⟨world.files.valid .live handle named, ?_⟩
    intro fresh
    have fits := served.fits
    cases thread : world.thread with
    | projecting connection fresh' position | stamping connection fresh'
    | sealing connection fresh' | swapping fresh' =>
        rw [thread] at fits fresh
        cases fresh
        exact fits.2.2.1 rfl
    | _ =>
        rw [thread] at fresh
        cases fresh

end Hekla.Projector
