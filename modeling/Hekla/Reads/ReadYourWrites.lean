import Hekla.Folds.Serving
import Hekla.Projector.Steps

/-!
# Read your writes

A read that waited for a position is answered from a projector's rows, or from the
derived tables, as of that position or a later one, which it reports.  This holds
whatever the thread behind it does between the moves of the read or fails to do, and
wherever its process ends, as long as no swap it ends in, or fails in, leaves frames
of the old database beside the rebuilt one: what is read then is neither model.
-/

namespace Hekla.Reads

open Hekla.Library

/-- Of every interleaving of a projector's thread, and of the thread of the derived
tables, with reads, where every swap is of whole files. -/
theorem read_your_writes :
    (∀ {Record Keys Rows Definition Answer : Type} [DecidableEq Definition]
      (projections : Definition → Projector.Projection Record Keys Rows) (blank : Rows)
      (definition : Definition) (autoRebuild : Bool) (projector : String)
      (turns : List (Library.Turn (Projector.Action Record Keys Definition) Keys
        (Projector.ReadModel Definition Rows) ErrorResponse (Answer × Nat)))
      (final : Serving (Projector.World Record Definition Rows) Nat
        (Projector.ReadModel Definition Rows) ErrorResponse Keys (Answer × Nat)),
      run ((Projector.reading projector).serve (Projector.step projections blank)
        Projector.Action.ends)
        { state := Projector.spawn blank [] Directory.empty definition autoRebuild } turns =
          some final →
      ∀ (read : Nat) (wait : Option Wait)
        (query : Keys → Projector.ReadModel Definition Rows → Except ErrorResponse Answer)
        (held : Projector.ReadModel Definition Rows) (answer : Answer) (position : Nat),
        final.reads read = some
          (waitingRead (Projector.who projector) wait Projector.ReadModel.checkpoint query,
            .served held (answer, position)) →
        (∀ asked, wait = some asked → asked.after ≤ position) ∧
        position ≤ final.state.log.length ∧ held.checkpoint = position ∧
        (projections final.state.definition).Projected blank
          ((projections final.state.definition).selected final.state.log 0 position) held.rows ∧
        ∃ keys, query keys held = .ok answer) ∧
    (∀ {Record Value Cell Keys Answer : Type} {layout : Folds.Layout Value Cell}
      (tables : Folds.Tables Record layout)
      (turns : List (Library.Turn (Folds.FoldAction Record Cell) Keys (Folds.Store layout)
        ErrorResponse (Answer × Nat)))
      (final : Serving (Folds.FoldShared Record layout) Unit (Folds.Store layout) ErrorResponse Keys
        (Answer × Nat)),
      run (Folds.tableReading.serve (Folds.FoldShared.step tables) Folds.FoldAction.ends)
        { state := Folds.start [] (.blank layout) } turns = some final →
      ∀ (read : Nat) (wait : Option Wait)
        (query : Keys → Folds.Store layout → Except ErrorResponse Answer)
        (held : Folds.Store layout) (answer : Answer) (position : Nat),
        final.reads read = some
          (waitingRead "the derived tables" wait Folds.Store.checkpoint query,
            .served held (answer, position)) →
        (∀ asked, wait = some asked → asked.after ≤ position) ∧
        position ≤ final.state.log.length ∧ held.checkpoint = position ∧
        Folds.scratch tables final.state.log position = .ok held ∧
        ∃ keys, query keys held = .ok answer) := by
  constructor
  · intro Record Keys Rows Definition Answer _ projections blank definition autoRebuild projector
      turns final ran read wait query held answer position served
    exact Projector.served_of_interleaving ran served
  · intro Record Value Cell Keys Answer layout tables turns final ran read wait query held answer
      position served
    exact Folds.table_served_of_interleaving ran served

/-! ## A swap under an open read -/

namespace Swapped

/-- A projector that counts the events that are `true`. -/
def counting (_ : Unit) : Projector.Projection Bool Unit Nat where
  selects := id
  apply _ rows _ := .ok (rows + 1)

def second : Wait := ⟨2, readWaitDefault⟩

def counted : Library.Request Unit (Projector.ReadModel Unit Nat) ErrorResponse (Nat × Nat) :=
  waitingRead (Projector.who "Count") (some second) Projector.ReadModel.checkpoint
    fun _ model => .ok model.rows

def proceed (upto : Nat) : Library.Turn (Projector.Action Bool Unit Unit) Unit
    (Projector.ReadModel Unit Nat) ErrorResponse (Nat × Nat) :=
  .step (.proceed (fun _ => ()) upto)

/-- The read waits while the first event is projected and the second passed by, and
has the model open when a rebuild swaps another in. -/
def turns : List (Library.Turn (Projector.Action Bool Unit Unit) Unit
    (Projector.ReadModel Unit Nat) ErrorResponse (Nat × Nat)) :=
  [proceed 0, proceed 0, .step (.append true), .step (.append false), .ask 0 counted, .move 0 .check,
    proceed 1, proceed 1, .move 0 .look, proceed 2, proceed 2, .move 0 .look, .move 0 .open,
    .step .requestReplay, proceed 2, proceed 2, proceed 2, proceed 2, proceed 2, proceed 2, proceed 2,
    proceed 2, .move 0 .snapshot, .move 0 (.answer ())]

def placedBy : Library.Request Unit (Folds.Store Folds.Closings.orders) ErrorResponse (Nat × Nat) :=
  waitingRead "the derived tables" (some second) Folds.Store.checkpoint
    fun _ store => .ok (store.cells Folds.Closings.placed ["ada"])

def follow (upto : Nat) : Library.Turn (Folds.FoldAction Folds.Closings.Event Nat) Unit
    (Folds.Store Folds.Closings.orders) ErrorResponse (Nat × Nat) :=
  .step (.follow Folds.flushDue upto)

/-- A read that a deploy's backfill turns away, and one that waits for the next batch. -/
def foldTurns : List (Library.Turn (Folds.FoldAction Folds.Closings.Event Nat) Unit
    (Folds.Store Folds.Closings.orders) ErrorResponse (Nat × Nat)) :=
  [.step (.append (.placed "ada")), follow 0, follow 0, follow 0, follow 1, follow 1,
    .step (.restart [Folds.Closings.placed] fun _ _ => 7), .ask 1 placedBy, .move 1 .check, follow 1,
    follow 1, follow 1, .ask 0 placedBy, .move 0 .check, .step (.append .closed), follow 2,
    .move 0 .look, follow 2, .move 0 .look, .move 0 .open, .move 0 .snapshot, .move 0 (.answer ())]

end Swapped

open Swapped in
/-- Both reads are answered at the second position, with the one event that counts. -/
theorem read_your_writes_of_swapped :
    (∃ final held, run ((Projector.reading "Count").serve (Projector.step counting 0)
          Projector.Action.ends) { state := Projector.spawn 0 [] Directory.empty () true } turns =
        some final ∧ final.reads 0 = some (counted, .served held (1, 2)) ∧
      second.after ≤ 2 ∧ held.checkpoint = 2 ∧
        (counting ()).Projected 0 ((counting ()).selected final.state.log 0 2) held.rows) ∧
    ∃ final held, run (Folds.tableReading.serve (Folds.FoldShared.step Folds.Closings.tables)
          Folds.FoldAction.ends) { state := Folds.start [] (.blank Folds.Closings.orders) } foldTurns =
        some final ∧ final.reads 0 = some (placedBy, .served held (1, 2)) ∧
      second.after ≤ 2 ∧ Folds.scratch Folds.Closings.tables final.state.log 2 = .ok held := by
  constructor
  · have answered : (run ((Projector.reading "Count").serve (Projector.step counting 0)
          Projector.Action.ends) { state := Projector.spawn 0 [] Directory.empty () true } turns).bind
        (·.reads 0) = some (counted, .served ⟨some (), 2, 1⟩ (1, 2)) := rfl
    obtain ⟨final, ran, served⟩ := Option.bind_eq_some_iff.mp answered
    obtain ⟨waited, -, reached, projected, -⟩ :=
      read_your_writes.1 counting 0 () true "Count" turns final ran 0 (some second) _ _ _ _ served
    exact ⟨final, _, ran, served, waited second rfl, reached, projected⟩
  · have answered : ∃ held, (run (Folds.tableReading.serve (Folds.FoldShared.step
          Folds.Closings.tables) Folds.FoldAction.ends)
            { state := Folds.start [] (.blank Folds.Closings.orders) } foldTurns).bind (·.reads 0) =
        some (placedBy, .served held (1, 2)) := ⟨_, rfl⟩
    obtain ⟨held, answered⟩ := answered
    obtain ⟨final, ran, served⟩ := Option.bind_eq_some_iff.mp answered
    obtain ⟨waited, -, -, scratch, -⟩ :=
      read_your_writes.2 Folds.Closings.tables foldTurns final ran 0 (some second) _ _ _ _ served
    exact ⟨final, held, ran, served, waited second rfl, scratch⟩

end Hekla.Reads
