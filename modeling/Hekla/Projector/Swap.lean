import Hekla.Library.WriteAhead
import Hekla.Library.Runs

/-!
# The swap of a rebuilt read model

A rebuild makes its model in a sibling file, goes back to the rollback mode there, and
renames the file over the read model's.  The log of the old database then stands beside
the new one until it is removed.  The old log is there when a reader still had the old
database open as the writer closed it.

The process can end between any two of the steps below.  What the next one sees is what
opening the read model's name, and turning the write-ahead mode on, shows.
-/

namespace Hekla.Projector

open Hekla.Library

universe u v

variable {π : Type u} {δ : Type v} [DecidableEq π]

/-- How far a rebuild has come: what it does next. -/
inductive SwapStage where
  | clearingMain
  | clearingWal
  | clearingShm
  | opening
  | building
  | stamping
  | sealing
  | closingFresh
  | closing
  | swapping
  | removingWal
  | removingShm
  | reopening
  | reopened
  deriving DecidableEq

/-- The rebuilt file is behind the read model's name. -/
def SwapStage.swapped : SwapStage → Bool
  | .removingWal | .removingShm | .reopening | .reopened => true
  | _ => false

/-- The writer has closed the database that was live when the rebuild began. -/
def SwapStage.closed : SwapStage → Bool
  | .swapping | .removingWal | .removingShm | .reopening | .reopened => true
  | _ => false

/-- The files of the read model and of its sibling.  `readers` have open the database
that was live when the rebuild began, and `written` is what the rebuild has committed. -/
structure Swap (π : Type u) (δ : Type v) where
  live : DatabaseFiles π δ
  rebuild : DatabaseFiles π δ
  readers : Nat
  stage : SwapStage := .clearingMain
  written : List (π × δ) := []

inductive SwapEvent (π : Type u) (δ : Type v) where
  /-- The rebuild's next step. -/
  | proceed
  /-- A transaction of the rebuild: its schema, a batch, or the definition. -/
  | commit (frames : List (π × δ))
  /-- Frames of the rebuild's log go into its main file. -/
  | checkpoint
  | openReader
  | closeReader

namespace Swap

variable (swap : Swap π δ)

/-- The last connection to the old database closes.  It leaves no log behind, under the
name its log had. -/
def closeOld : Swap π δ :=
  { swap with live :=
      if swap.stage.swapped then { swap.live with wal := none, shm := false }
      else swap.live.closeLast }

/-- `rebuild`, step by step. -/
def proceed (blank : π → δ) : Option (Swap π δ) :=
  match swap.stage with
  | .clearingMain => some { swap with
      rebuild := { swap.rebuild with main := none }
      stage := .clearingWal }
  | .clearingWal => some { swap with
      rebuild := { swap.rebuild with wal := none }
      stage := .clearingShm }
  | .clearingShm => some { swap with
      rebuild := { swap.rebuild with shm := false }
      stage := .opening }
  | .opening => some { swap with
      rebuild := swap.rebuild.openWriteAhead blank
      stage := .building }
  | .building => some { swap with stage := .stamping }
  -- The definition is committed on its own.
  | .stamping => none
  | .sealing => some { swap with rebuild := swap.rebuild.rollbackMode, stage := .closingFresh }
  -- In the rollback mode there is nothing to leave behind.
  | .closingFresh => some { swap with stage := .closing }
  | .closing =>
      some { (if swap.readers = 0 then swap.closeOld else swap) with stage := .swapping }
  | .swapping =>
      match swap.rebuild.main with
      | none => none
      | some main => some { swap with
          live := { swap.live with main := some main }
          rebuild := { swap.rebuild with main := none }
          stage := .removingWal }
  | .removingWal => some { swap with
      live := { swap.live with wal := none }
      stage := .removingShm }
  | .removingShm => some { swap with
      live := { swap.live with shm := false }
      stage := .reopening }
  | .reopening => some { swap with
      live := swap.live.openWriteAhead blank
      stage := .reopened }
  | .reopened => none

def step (blank : π → δ) : SwapEvent π δ → Option (Swap π δ)
  | .proceed => swap.proceed blank
  | .commit frames =>
      let committed (stage : SwapStage) : Option (Swap π δ) :=
        some { swap with
          rebuild := swap.rebuild.commit frames
          stage
          written := swap.written ++ frames }
      match swap.stage with
      | .building => committed .building
      | .stamping => committed .sealing
      | _ => none
  | .checkpoint =>
      match swap.stage with
      | .building | .stamping => some { swap with rebuild := swap.rebuild.checkpoint }
      | _ => none
  | .openReader =>
      match swap.stage with
      | .reopened => none
      -- A reader of the rebuilt file, in the rollback mode, leaves nothing behind.
      | stage => if stage.swapped then some swap else some { swap with readers := swap.readers + 1 }
  | .closeReader =>
      match swap.stage with
      | .reopened => none
      | stage =>
          if swap.readers = 0 then none
          else if swap.readers = 1 ∧ stage.closed then some { swap.closeOld with readers := 0 }
          else some { swap with readers := swap.readers - 1 }

/-- What the next process sees of the read model. -/
def seen (blank : π → δ) : Option (π → δ) := (swap.live.openWriteAhead blank).content

/-- The next process sees the old model whole, or the rebuilt one. -/
def Whole (blank old : π → δ) : Prop :=
  ∃ pages, swap.seen blank = some pages ∧
    (pages = old ∨ swap.stage.swapped = true ∧ pages = overlay blank swap.written)

/-- No frames of the old database stand beside the rebuilt one. -/
def Clean : Prop := swap.stage = .removingWal → swap.live.frames = []

/-! ## What holds at each step -/

/-- What the files hold at each step. -/
def Fits (blank old : π → δ) : Prop :=
  match swap.stage with
  | .clearingMain => swap.live.Holds old ∧ swap.written = []
  | .clearingWal => swap.live.Holds old ∧ swap.written = [] ∧ swap.rebuild.main = none
  | .clearingShm | .opening => swap.live.Holds old ∧ swap.written = [] ∧
      swap.rebuild.main = none ∧ swap.rebuild.wal = none
  | .building | .stamping | .sealing => swap.live.Holds old ∧
      swap.rebuild.Holds (overlay blank swap.written)
  | .closingFresh | .closing | .swapping => swap.live.Holds old ∧
      swap.rebuild.main = some ⟨overlay blank swap.written, .rollback⟩
  | .removingWal => swap.live.main = some ⟨overlay blank swap.written, .rollback⟩
  | .removingShm | .reopening => swap.live.main = some ⟨overlay blank swap.written, .rollback⟩ ∧
      swap.live.wal = none
  | .reopened => swap.live.Holds (overlay blank swap.written)

variable {swap} {next : Swap π δ} {blank old : π → δ}

/-- Nothing but the log of the old database stands in the way. -/
theorem Fits.whole (fits : swap.Fits blank old) (clean : swap.Clean) : swap.Whole blank old := by
  have before (holds : swap.live.Holds old) : swap.Whole blank old :=
    ⟨old, (holds.openWriteAhead blank).content, .inl rfl⟩
  have after (swapped : swap.stage.swapped = true)
      (main : swap.live.main = some ⟨overlay blank swap.written, .rollback⟩)
      (bare : swap.live.frames = []) : swap.Whole blank old := by
    refine ⟨_, (DatabaseFiles.holds_openWriteAhead main blank).content, .inr ⟨swapped, ?_⟩⟩
    rw [bare, overlay_nil]
  unfold Fits at fits
  cases stage : swap.stage with
  | clearingMain | clearingWal | clearingShm | opening | building | stamping | sealing
  | closingFresh | closing | swapping =>
      rw [stage] at fits
      exact before fits.1
  | removingWal =>
      rw [stage] at fits
      exact after (by rw [stage]; rfl) fits (clean stage)
  | removingShm | reopening =>
      rw [stage] at fits
      refine after (by rw [stage]; rfl) fits.1 ?_
      unfold DatabaseFiles.frames
      rw [fits.2]
      rfl
  | reopened =>
      rw [stage] at fits
      exact ⟨_, (fits.openWriteAhead blank).content, .inr ⟨by rw [stage]; rfl, rfl⟩⟩

/-- Closing the old database keeps what the next process sees of the old model. -/
theorem Fits.closeOld (fits : swap.Fits blank old) (unopened : swap.stage ≠ .reopened) :
    swap.closeOld.Fits blank old := by
  unfold Swap.closeOld
  unfold Fits at fits ⊢
  cases stage : swap.stage with
  | clearingMain | clearingWal | clearingShm | opening | building | stamping | sealing
  | closingFresh | closing | swapping =>
      rw [stage] at fits
      exact ⟨fits.1.closeLast, fits.2⟩
  | removingWal =>
      rw [stage] at fits
      exact fits
  | removingShm | reopening =>
      rw [stage] at fits
      exact ⟨fits.1, rfl⟩
  | reopened => exact absurd stage unopened

/-- The number of readers says nothing of the files. -/
theorem Fits.readers (fits : swap.Fits blank old) (readers : Nat) :
    ({ swap with readers } : Swap π δ).Fits blank old := fits

theorem Fits.proceed (fits : swap.Fits blank old) (taken : swap.proceed blank = some next) :
    next.Fits blank old := by
  unfold Swap.proceed at taken
  cases stage : swap.stage with
  | clearingMain =>
      unfold Fits at fits
      rw [stage] at taken fits
      cases taken
      exact ⟨fits.1, fits.2, rfl⟩
  | clearingWal =>
      unfold Fits at fits
      rw [stage] at taken fits
      cases taken
      exact ⟨fits.1, fits.2.1, fits.2.2, rfl⟩
  | clearingShm =>
      unfold Fits at fits
      rw [stage] at taken fits
      cases taken
      exact fits
  | opening =>
      unfold Fits at fits
      rw [stage] at taken fits
      obtain ⟨live, unwritten, unmade, unlogged⟩ := fits
      cases taken
      refine ⟨live, ?_⟩
      rw [unwritten, overlay_nil]
      exact DatabaseFiles.holds_openWriteAhead_of_none unmade unlogged blank
  | building =>
      unfold Fits at fits
      rw [stage] at taken fits
      cases taken
      exact fits
  | stamping =>
      rw [stage] at taken
      cases taken
  | sealing =>
      unfold Fits at fits
      rw [stage] at taken fits
      cases taken
      exact ⟨fits.1, fits.2.rollbackMode⟩
  | closingFresh =>
      unfold Fits at fits
      rw [stage] at taken fits
      cases taken
      exact fits
  | closing =>
      have closed := fits.closeOld (by rw [stage]; exact nofun)
      unfold Fits at fits closed
      unfold Swap.closeOld at closed
      rw [stage] at taken fits
      dsimp only at taken closed
      rw [stage] at closed
      cases taken
      split
      · unfold Swap.closeOld
        rw [stage]
        exact closed
      · exact fits
  | swapping =>
      unfold Fits at fits
      rw [stage] at taken fits
      dsimp only at taken
      rw [fits.2] at taken
      cases taken
      exact rfl
  | removingWal =>
      unfold Fits at fits
      rw [stage] at taken fits
      cases taken
      exact ⟨fits, rfl⟩
  | removingShm =>
      unfold Fits at fits
      rw [stage] at taken fits
      cases taken
      exact fits
  | reopening =>
      unfold Fits at fits
      rw [stage] at taken fits
      obtain ⟨main, bare⟩ := fits
      cases taken
      have holds := DatabaseFiles.holds_openWriteAhead main blank
      unfold DatabaseFiles.frames at holds
      rw [bare] at holds
      exact holds
  | reopened =>
      rw [stage] at taken
      cases taken

/-- Every step keeps what is known of the files. -/
theorem Fits.step (fits : swap.Fits blank old) {event : SwapEvent π δ}
    (taken : swap.step blank event = some next) : next.Fits blank old := by
  unfold Swap.step at taken
  cases event with
  | proceed => exact fits.proceed taken
  | commit frames =>
      cases stage : swap.stage with
      | building | stamping =>
          unfold Fits at fits
          rw [stage] at taken fits
          cases taken
          refine ⟨fits.1, ?_⟩
          rw [overlay_append]
          exact fits.2.commit frames
      | _ =>
          rw [stage] at taken
          cases taken
  | checkpoint =>
      cases stage : swap.stage with
      | building | stamping =>
          unfold Fits at fits
          rw [stage] at taken fits
          cases taken
          exact ⟨fits.1, fits.2.checkpoint⟩
      | _ =>
          rw [stage] at taken
          cases taken
  | openReader =>
      dsimp only at taken
      split at taken
      · cases taken
      · split at taken
        · cases taken
          exact fits
        · cases taken
          exact fits.readers _
  | closeReader =>
      dsimp only at taken
      split at taken
      · cases taken
      · next unopened =>
          split at taken
          · cases taken
          · split at taken
            · cases taken
              exact (fits.closeOld unopened).readers 0
            · cases taken
              exact fits.readers _

/-! ## Every crash -/

/-- Wherever a rebuild ends, of whatever an earlier one left and whoever reads, the next
process sees the old model whole or the rebuilt one, unless frames of the old database
stand beside the rebuilt file.  Those it sees over the rebuilt pages. -/
theorem whole_of_clean {first : Swap π δ} {events : List (SwapEvent π δ)}
    (begins : first.stage = .clearingMain) (unwritten : first.written = [])
    (holds : first.live.Holds old)
    (ran : run (fun swap => swap.step blank) first events = some swap) :
    (swap.Clean → swap.Whole blank old) ∧
      (¬ swap.Clean →
        swap.seen blank = some (overlay (overlay blank swap.written) swap.live.frames)) := by
  have initial : first.Fits blank old := by
    unfold Fits
    rw [begins]
    exact ⟨holds, unwritten⟩
  have fits : swap.Fits blank old :=
    run_invariant (fun swap => swap.Fits blank old)
      (fun _ _ _ before taken => before.step taken) initial ran
  refine ⟨fits.whole, ?_⟩
  intro dirty
  unfold Clean at dirty
  rw [Classical.not_imp] at dirty
  unfold Fits at fits
  rw [dirty.1] at fits
  exact (DatabaseFiles.holds_openWriteAhead fits blank).content

end Swap

/-! ## Three pages -/

namespace Sheets

/-- A model of one page of rows, with its checkpoint and its definition. -/
inductive Sheet where
  | rows
  | checkpoint
  | definition
  deriving DecidableEq

/-- The old model: its last batch is in the log. -/
def live : DatabaseFiles Sheet Nat where
  main := some { pages := fun _ => 1, mode := .writeAhead }
  wal := some [(.rows, 7), (.checkpoint, 7)]
  shm := true

/-- What is left of an earlier rebuild. -/
def leftover : DatabaseFiles Sheet Nat where
  main := some { pages := fun _ => 4, mode := .writeAhead }
  wal := some [(.definition, 5)]

def beginning (readers : Nat) : Swap Sheet Nat where
  live := live
  rebuild := leftover
  readers := readers

/-- A rebuild up to the rename. -/
def renamed : List (SwapEvent Sheet Nat) :=
  [.proceed, .proceed, .proceed, .proceed, .commit [(.rows, 9), (.checkpoint, 8)], .proceed,
    .commit [(.definition, 2)], .proceed, .proceed, .proceed, .proceed]

end Sheets

open Sheets Swap in
theorem whole_of_renamed : ∃ swap,
    run (fun swap => swap.step fun _ => 0) (beginning 0) renamed = some swap ∧
      swap.stage = .removingWal ∧
      swap.Whole (fun _ => 0) (overlay (fun _ => 1) live.frames) := by
  have ended : (run (fun swap => swap.step fun _ => 0) (beginning 0) renamed).map (fun swap =>
      (swap.stage, swap.live.frames)) = some (.removingWal, []) := by decide
  obtain ⟨swap, ran, same⟩ := Option.map_eq_some_iff.mp ended
  rw [Prod.mk.injEq] at same
  have whole := whole_of_clean rfl rfl ⟨_, rfl, rfl, rfl⟩ ran
  exact ⟨swap, ran, same.1, whole.1 fun _ => same.2⟩

open Sheets Swap in
/-- A reader has the old database open as the writer closes it, and the process ends after
the rename: the next one sees rows and a checkpoint of the old model under the new
definition. -/
theorem mixed_of_renamed : ¬ ∀ (events : List (SwapEvent Sheet Nat)) swap,
    run (fun swap => swap.step fun _ => 0) (beginning 1) events = some swap →
      swap.Whole (fun _ => 0) (overlay (fun _ => 1) live.frames) := by
  intro always
  have ended : (run (fun swap => swap.step fun _ => 0) (beginning 1) renamed).map (fun swap =>
      ((swap.seen fun _ => 0).map fun pages => (pages .checkpoint, pages .definition),
        overlay (fun _ => 0) swap.written .checkpoint)) = some (some (7, 2), 8) := by decide
  obtain ⟨swap, ran, same⟩ := Option.map_eq_some_iff.mp ended
  rw [Prod.mk.injEq] at same
  obtain ⟨pages, found, mixed⟩ := Option.map_eq_some_iff.mp same.1
  obtain ⟨other, shown, whole⟩ := always renamed swap ran
  cases found.symm.trans shown
  rw [Prod.mk.injEq] at mixed
  rcases whole with rfl | ⟨-, rfl⟩
  · exact absurd mixed.2 (by decide)
  · exact absurd (mixed.1.symm.trans same.2) (by decide)

end Hekla.Projector
