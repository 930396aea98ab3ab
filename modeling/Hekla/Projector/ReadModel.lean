import Hekla.Library.Directory

/-!
# What a projector keeps

A projector folds the events it selects into the rows of a read model, one after
the other.  The model records the position it has been projected to, and the
definition it was built under; that is compared with the running one to decide
whether the model can be served, and carried on from.
-/

namespace Hekla.Projector

open Hekla.Library

/-- Whether a read model on disk can be served at the current definition. -/
inductive Readiness where
  | ready
  | rebuilding
  | stale
  | quarantined
  | failed
  deriving DecidableEq

/-- Whether a batch built from the current definition can be applied. -/
def Readiness.appliesBatches : Readiness → Bool
  | .ready | .rebuilding => true
  | .stale | .quarantined | .failed => false

/-- What reconciling a read model with the current definition requires. -/
inductive Reconcile where
  | upToDate
  | stamp
  | rebuild
  | stale
  deriving DecidableEq

def Reconcile.readiness : Reconcile → Readiness
  | .upToDate | .stamp => .ready
  | .rebuild => .rebuilding
  | .stale => .stale

/-- What a projector does with an event, at the keys it finds. -/
structure Projection (Record Keys Rows : Type) where
  selects : Record → Bool
  apply : Keys → Rows → Record → Except String Rows

/-- The rows of a read model, the definition they were built under and the
position they were projected to. -/
structure ReadModel (Definition Rows : Type) where
  definition : Option Definition := none
  checkpoint : Nat := 0
  rows : Rows

variable {Record Keys Rows Definition : Type}

/-- A model with no recorded definition takes the current one if it is empty, and
is not taken for current otherwise. -/
def reconcileFrom [DecidableEq Definition] (previous : Option Definition) (checkpoint : Nat)
    (definition : Definition) (autoRebuild : Bool) : Reconcile :=
  let mismatch := if autoRebuild then Reconcile.rebuild else .stale
  match previous with
  | some previous => if previous = definition then .upToDate else mismatch
  | none => if checkpoint = 0 then .stamp else mismatch

namespace Projection

variable (projection : Projection Record Keys Rows)

/-- Each event applied to the rows the one before it left, at the keys it finds. -/
def applyAll (keys : Record → Keys) (batch : List Record) (rows : Rows) : Except String Rows :=
  batch.foldlM (fun rows record => projection.apply (keys record) rows record) rows

/-- The events of the log that are selected, between two positions. -/
def selected (log : List Record) (start upto : Nat) : List Record :=
  ((log.take upto).drop start).filter projection.selects

/-- A poll of a subscription: the selected events up to some position.  There are
none only when it has caught up with the log. -/
def pollBatch (log : List Record) (start upto : Nat) : Option (List Record) :=
  if start ≤ upto ∧ upto ≤ log.length ∧
      (projection.selected log start upto = [] → upto = log.length) then
    some (projection.selected log start upto)
  else none

/-- Rows that reflect each of the events, in order, at whatever keys it found. -/
inductive Projected (blank : Rows) : List Record → Rows → Prop where
  | nil : Projected blank [] blank
  | snoc {records : List Record} {rows next : Rows} {record : Record} (keys : Keys)
      (before : Projected blank records rows)
      (applied : projection.apply keys rows record = .ok next) :
      Projected blank (records ++ [record]) next

end Projection

namespace ReadModel

/-- A batch and the checkpoint behind it, in one transaction. -/
def applyBatch (model : ReadModel Definition Rows) (projection : Projection Record Keys Rows)
    (keys : Record → Keys) (batch : List Record) (checkpoint : Nat) :
    Except String (ReadModel Definition Rows) :=
  (projection.applyAll keys batch model.rows).map fun rows => { model with rows, checkpoint }

def advanceCheckpoint (model : ReadModel Definition Rows) (position : Nat) :
    ReadModel Definition Rows :=
  { model with checkpoint := position }

/-- Advance to the watermark of a subscription that has caught up. -/
def catchUp (model : ReadModel Definition Rows) (watermark : Nat) : ReadModel Definition Rows :=
  if model.checkpoint < watermark then model.advanceCheckpoint watermark else model

def setDefinition (model : ReadModel Definition Rows) (definition : Definition) :
    ReadModel Definition Rows :=
  { model with definition := some definition }

/-- A model of the definition, or one that may still become that. -/
def Current (model : ReadModel Definition Rows) (definition : Definition) : Prop :=
  model.definition = some definition ∨ model.definition = none ∧ model.checkpoint = 0

/-- A model something has been recorded in. -/
def Settled (model : ReadModel Definition Rows) : Prop :=
  model.definition = none → model.checkpoint ≠ 0

/-- What every read model holds.  One that records a definition reflects the log as
that definition does. -/
structure Sound (projections : Definition → Projection Record Keys Rows) (blank : Rows)
    (log : List Record) (model : ReadModel Definition Rows) : Prop where
  reached : model.checkpoint ≤ log.length
  built : ∀ definition, model.definition = some definition →
    (projections definition).Projected blank
      ((projections definition).selected log 0 model.checkpoint) model.rows
  blank : model.definition = none → model.checkpoint = 0 → model.rows = blank

end ReadModel

/-! ## Projecting -/

namespace Projection

variable {projection : Projection Record Keys Rows} {blank rows next : Rows}
  {log batch records : List Record} {start upto : Nat}

/-- Applying a batch goes on from what the rows reflect. -/
theorem Projected.applyAll {keys : Record → Keys} (projected : projection.Projected blank records rows)
    (applied : projection.applyAll keys batch rows = .ok next) :
    projection.Projected blank (records ++ batch) next := by
  induction batch generalizing records rows with
  | nil =>
      cases applied
      rwa [List.append_nil]
  | cons record rest ih =>
      unfold Projection.applyAll at applied
      rw [List.foldlM_cons] at applied
      cases first : projection.apply (keys record) rows record with
      | error why =>
          rw [first] at applied
          cases applied
      | ok middle =>
          rw [first] at applied
          have later := ih (projected.snoc (keys record) first) applied
          rwa [List.append_assoc] at later

theorem selected_append (order : start ≤ upto) :
    projection.selected log 0 start ++ projection.selected log start upto =
      projection.selected log 0 upto := by
  unfold selected
  rw [← List.filter_append, List.drop_zero, List.drop_zero]
  have cut := List.take_append_drop start (log.take upto)
  rw [List.take_take, Nat.min_eq_left order] at cut
  rw [cut]

/-- What a log grows by changes nothing up to where it stood. -/
theorem selected_grown (inside : upto ≤ log.length) :
    projection.selected (log ++ records) start upto = projection.selected log start upto := by
  unfold selected
  rw [List.take_append_of_le_length inside]

theorem pollBatch_eq_some : projection.pollBatch log start upto = some batch ↔
    (start ≤ upto ∧ upto ≤ log.length ∧ (batch = [] → upto = log.length)) ∧
      projection.selected log start upto = batch := by
  unfold pollBatch
  split
  · next polled =>
      constructor
      · intro same
        cases same
        exact ⟨polled, rfl⟩
      · rintro ⟨-, rfl⟩
        rfl
  · next refused =>
      constructor
      · intro same
        cases same
      · rintro ⟨polled, rfl⟩
        exact absurd polled refused

/-- A model stays what it was when the events it advances past are not selected. -/
theorem Projected.past (projected : projection.Projected blank (projection.selected log 0 start) rows)
    (order : start ≤ upto) (polled : projection.selected log start upto = []) :
    projection.Projected blank (projection.selected log 0 upto) rows := by
  rw [← Projection.selected_append order, polled, List.append_nil]
  exact projected

theorem pos_of_selected (nonempty : projection.selected log start upto ≠ []) : upto ≠ 0 := by
  rintro rfl
  exact nonempty (by simp [selected])

end Projection

namespace ReadModel

variable {projections : Definition → Projection Record Keys Rows}
  {blank : Rows} {log : List Record} {model next : ReadModel Definition Rows}
  {definition : Definition}

theorem Current.settled (current : model.Current definition) (settled : model.Settled) :
    model.definition = some definition := by
  rcases current with stamped | ⟨unstamped, empty⟩
  · exact stamped
  · exact absurd empty (settled unstamped)

theorem settled_of_definition (stamped : model.definition = some definition) : model.Settled := by
  intro unstamped
  cases stamped.symm.trans unstamped

/-- A current model reflects the log up to its checkpoint. -/
theorem Sound.projected (sound : model.Sound projections blank log)
    (current : model.Current definition) :
    (projections definition).Projected blank
      ((projections definition).selected log 0 model.checkpoint) model.rows := by
  rcases current with stamped | ⟨unstamped, empty⟩
  · exact sound.built definition stamped
  · rw [sound.blank unstamped empty, empty]
    exact .nil

theorem Sound.grown (sound : model.Sound projections blank log) (records : List Record) :
    model.Sound projections blank (log ++ records) where
  reached := by
    rw [List.length_append]
    exact Nat.le_add_right_of_le sound.reached
  built other stamped := by
    rw [Projection.selected_grown sound.reached]
    exact sound.built other stamped
  blank := sound.blank

theorem catchUp_eq {watermark : Nat} (order : model.checkpoint ≤ watermark) :
    model.catchUp watermark = model.advanceCheckpoint watermark := by
  unfold catchUp
  split
  · rfl
  · next late =>
      rw [← Nat.le_antisymm order (Nat.not_lt.mp late)]
      rfl

theorem Sound.advanceCheckpoint (sound : model.Sound projections blank log)
    (unstamped : model.definition = none) {watermark : Nat} (order : model.checkpoint ≤ watermark)
    (inside : watermark ≤ log.length) :
    (model.advanceCheckpoint watermark).Sound projections blank log where
  reached := inside
  built other named := by cases unstamped.symm.trans named
  blank _ empty := sound.blank unstamped (Nat.le_zero.mp (empty ▸ order))

/-- A model that reflects the log under the definition it records, if any, is sound. -/
theorem Sound.of_projected (reached : model.checkpoint ≤ log.length)
    (projected : (projections definition).Projected blank
      ((projections definition).selected log 0 model.checkpoint) model.rows)
    (stamped : model.definition = some definition ∨ model.definition = none ∧ model.checkpoint ≠ 0) :
    model.Sound projections blank log where
  reached := reached
  built other named := by
    rcases stamped with stamped | ⟨unstamped, -⟩
    · cases stamped.symm.trans named
      exact projected
    · cases unstamped.symm.trans named
  blank unstamped empty := by
    rcases stamped with stamped | ⟨-, moved⟩
    · cases stamped.symm.trans unstamped
    · exact absurd empty moved

/-- A batch that is applied goes on from what the model reflects. -/
theorem applyBatch_ok {projection : Projection Record Keys Rows} {log batch : List Record}
    {keys : Record → Keys} {upto : Nat}
    (projected : projection.Projected blank (projection.selected log 0 model.checkpoint) model.rows)
    (order : model.checkpoint ≤ upto)
    (polled : projection.selected log model.checkpoint upto = batch)
    (applied : model.applyBatch projection keys batch upto = .ok next) :
    next.checkpoint = upto ∧ next.definition = model.definition ∧
      projection.Projected blank (projection.selected log 0 upto) next.rows := by
  unfold ReadModel.applyBatch at applied
  cases rows : projection.applyAll keys batch model.rows with
  | error why =>
      rw [rows] at applied
      cases applied
  | ok reached =>
      rw [rows] at applied
      cases applied
      refine ⟨rfl, rfl, ?_⟩
      rw [← Projection.selected_append order, polled]
      exact projected.applyAll rows

variable [DecidableEq Definition]

/-- What is neither rebuilt nor left stale may be served. -/
theorem current_of_reconcile {autoRebuild : Bool}
    (planned : (reconcileFrom model.definition model.checkpoint definition autoRebuild).readiness =
      .ready) : model.Current definition := by
  have mismatch : (if autoRebuild then Reconcile.rebuild else .stale).readiness ≠ .ready := by
    cases autoRebuild <;> decide
  unfold reconcileFrom at planned
  dsimp only at planned
  cases recorded : model.definition with
  | none =>
      rw [recorded] at planned
      dsimp only at planned
      split at planned
      · next empty => exact .inr ⟨recorded, empty⟩
      · exact absurd planned mismatch
  | some previous =>
      rw [recorded] at planned
      dsimp only at planned
      split at planned
      · next same => exact .inl (recorded.trans (congrArg some same))
      · exact absurd planned mismatch

/-- Only an empty model is stamped. -/
theorem settled_of_reconcile {autoRebuild : Bool}
    (planned : reconcileFrom model.definition model.checkpoint definition autoRebuild ≠ .stamp) :
    model.Settled := by
  intro recorded empty
  apply planned
  unfold reconcileFrom
  rw [recorded]
  exact if_pos empty

end ReadModel

end Hekla.Projector
