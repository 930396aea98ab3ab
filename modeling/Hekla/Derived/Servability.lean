import Hekla.Derived.Reconciliation
import Hekla.Folds.Serving

/-!
# When the derived store serves

A store that starts empty has to come as far as the log was before it serves.  Where it
has to come to is held in memory, and each process works it out from the checkpoint it
finds: a checkpoint at zero is a store that starts empty, and any other one that goes on
from where it left off.

A process opens the store, applies its program, and starts the thread, which brings what
is behind up to the checkpoint and follows the log.  It can end at any moment, and the
next may run another program, or find no file or one of another format.
-/

namespace Hekla.Derived

open Library Folds

/-! ## The passes, as the catalog and the checkpoint see them -/

/-- `FoldStore::behind`: every column that has not caught up with a checkpoint. -/
def behind (recorded : Catalog) (checkpoint : Nat) : List (String × String) :=
  (recorded.entries.filter fun entry => decide (entry.2.builtTo < checkpoint)).map Sigma.fst

/-- Record that columns have been folded to a position. -/
def markAll (keys : List (String × String)) (head : Nat) (disk : Disk) : Disk :=
  keys.foldl (fun disk key => markBuilt key head disk) disk

/-- `fold_runtime::apply_batch`, but for the cells: a column that was caught up advances
with the checkpoint. -/
def advanceBatch (tables : List TableDef) (head : Nat) (disk : Disk) : Disk :=
  let was := disk.checkpoint.getD 0
  let caughtUp := ((columnsOf tables).map columnKey).filter fun key =>
    (disk.recorded.get key).any fun row => decide (was ≤ row.builtTo)
  { markAll caughtUp head disk with checkpoint := some head }

/-- `fold_runtime::backfill`, but for the cells: the columns of the program that are
behind are built to the checkpoint. -/
def advanceBehind (tables : List TableDef) (disk : Disk) : Disk :=
  let head := disk.checkpoint.getD 0
  let rebuilt := (behind disk.recorded head).filter fun key =>
    ((columnsOf tables).map columnKey).contains key
  markAll rebuilt head disk

/-! ## Processes -/

/-- What a process shares of the store, and how far its thread has come. -/
structure Shared where
  head : Nat
  behind : Nat
  fillingTo : Nat
  thread : FoldThread

/-- Whether every column is folded far enough to serve: none behind, and not still
filling from an empty start. -/
def Shared.servable (shared : Shared) : Bool :=
  shared.behind == 0 && decide (shared.fillingTo ≤ shared.head)

/-- How far a process has come with the store.  A program with no tables opens none. -/
inductive Process (naming : Naming) where
  | closed
  | opened (program : Deployable naming)
  | applied (program : Deployable naming)
  | running (program : Deployable naming) (shared : Shared)

/-- The length of the log, the file, and the process that holds it.  `began` is what the
length was when the store was last created or emptied. -/
structure Deployment (naming : Naming) where
  length : Nat
  disk : Disk
  process : Process naming := .closed
  began : Nat := 0

inductive Happening (naming : Naming) where
  | grow
  /-- The file is removed, or was left in another format. -/
  | replace (disk : Disk)
  | open (program : Deployable naming) (interrupted : Option Nat)
  | apply (interrupted : Bool)
  | start
  /-- The thread's next step.  A poll ends somewhere, with records or without; a pass may
  fail on them. -/
  | follow (upto : Nat) (matched failed : Bool)
  | crash

variable {naming : Naming}

/-- Whether opening the file creates the store, or empties it. -/
def Disk.blankOnOpen (disk : Disk) : Bool :=
  decide (disk.format ≠ formatVersion) || disk.checkpoint.isNone

/-- `fold_runtime::start`, past the open and the apply. -/
def startShared (length : Nat) (disk : Disk) : Shared :=
  let checkpoint := disk.checkpoint.getD 0
  { head := checkpoint
    behind := (behind disk.recorded checkpoint).length
    fillingTo := if checkpoint = 0 then length else 0
    thread := .backfilling }

/-- `fold_runtime::follow`, step by step. -/
def Deployment.follow (site : Deployment naming) (program : Deployable naming) (shared : Shared) (upto : Nat)
    (matched failed : Bool) : Option (Deployment naming) :=
  let next (disk : Disk) (shared : Shared) : Option (Deployment naming) :=
    some { site with disk, process := .running program shared }
  match shared.thread with
  | .backfilling =>
      if failed then next site.disk { shared with thread := .stopped }
      else next (advanceBehind program.tables site.disk) { shared with thread := .counting }
  | .counting =>
      next site.disk { shared with
        behind := (behind site.disk.recorded (site.disk.checkpoint.getD 0)).length
        thread := .subscribing }
  | .subscribing =>
      next site.disk { shared with thread := .polling (site.disk.checkpoint.getD 0) }
  | .polling position =>
      if failed then next site.disk { shared with thread := .stopped }
      else if position ≤ upto ∧ upto ≤ site.length ∧ (matched = false → upto = site.length) then
        if matched = false ∧ upto ≤ shared.head then
          next site.disk { shared with thread := .polling upto }
        else next (advanceBatch program.tables upto site.disk)
          { shared with thread := .publishing upto }
      else none
  | .publishing head => next site.disk { shared with head, thread := .polling head }
  | .stopped => none

def happen (site : Deployment naming) : Happening naming → Option (Deployment naming)
  | .grow => some { site with length := site.length + 1 }
  | .replace disk =>
      match site.process with
      | .closed => if disk.format = formatVersion then none else some { site with disk }
      | _ => none
  | .open program interrupted =>
      match site.process with
      | .closed =>
          if program.tables.isEmpty then none
          else
            let opened := openStore program.tables interrupted site.disk
            some { site with
              disk := opened.2
              process := match opened.1 with
                | .ok _ => .opened program
                | .error _ => .closed
              began := if site.disk.blankOnOpen then site.length else site.began }
      | _ => none
  | .apply interrupted =>
      match site.process with
      | .opened program =>
          let ended := apply program interrupted site.disk
          some { site with
            disk := ended.2
            process := match ended.1 with
              | .ok _ => .applied program
              | .error _ => .closed }
      | _ => none
  | .start =>
      match site.process with
      | .applied program =>
          some { site with process := .running program (startShared site.length site.disk) }
      | _ => none
  | .follow upto matched failed =>
      match site.process with
      | .running program shared => site.follow program shared upto matched failed
      | _ => none
  | .crash => some { site with process := .closed }

/-- Whether the process answers that the store can be read. -/
def Deployment.servable (site : Deployment naming) : Bool :=
  match site.process with
  | .running _ shared => shared.servable
  | _ => false

/-- The checkpoint of the file. -/
def Deployment.checkpoint (site : Deployment naming) : Nat := site.disk.checkpoint.getD 0

/-- No column is behind the checkpoint. -/
def Deployment.CaughtUp (site : Deployment naming) : Prop :=
  ∀ key row, site.disk.recorded.get key = some row → site.checkpoint ≤ row.builtTo

/-- The store has come as far as the log was when it was created or emptied. -/
def Deployment.Filled (site : Deployment naming) : Prop := site.began ≤ site.checkpoint

/-- A thread is started on a store that has not begun to fill, or has done so. -/
def Starts (site : Deployment naming) : Happening naming → Prop
  | .start => site.checkpoint = 0 ∨ site.Filled
  | _ => True

instance (site : Deployment naming) : ∀ event : Happening naming, Decidable (Starts site event)
  | .start => inferInstanceAs (Decidable (_ ∨ site.began ≤ _))
  | .grow | .replace _ | .open _ _ | .apply _ | .follow _ _ _ | .crash => isTrue trivial

/-! ## What a pass does to the catalog -/

section Passes

variable {disk : Disk} {keys : List (String × String)} {head : Nat}

theorem recorded_markBuilt (key other : String × String) :
    (markBuilt key head disk).recorded.get other =
      if other = key then (disk.recorded.get key).map fun row => { row with builtTo := head }
      else disk.recorded.get other := by
  unfold markBuilt Disk.recorded
  cases disk.catalog with
  | none => simp
  | some catalog =>
      dsimp only [Option.map_some, Option.getD_some]
      cases held : catalog.get key with
      | none =>
          by_cases same : other = key
          · subst same
            simp [held]
          · simp [same]
      | some row => simp

theorem recorded_markAll (other : String × String) :
    (markAll keys head disk).recorded.get other =
      if other ∈ keys then (disk.recorded.get other).map fun row => { row with builtTo := head }
      else disk.recorded.get other := by
  induction keys generalizing disk with
  | nil => simp [markAll]
  | cons key rest ih =>
      rw [markAll, List.foldl_cons, ← markAll, ih, recorded_markBuilt]
      by_cases here : other = key
      · subst here
        cases disk.recorded.get other <;> simp
      · simp [here]

@[simp]
theorem checkpoint_markAll : (markAll keys head disk).checkpoint = disk.checkpoint := by
  induction keys generalizing disk with
  | nil => rfl
  | cons key rest ih => exact ih

theorem behind_eq_nil {recorded : Catalog} {checkpoint : Nat} :
    (behind recorded checkpoint).length = 0 ↔
      ∀ key row, recorded.get key = some row → checkpoint ≤ row.builtTo := by
  rw [List.length_eq_zero_iff, behind, List.map_eq_nil_iff, List.filter_eq_nil_iff]
  constructor
  · intro none key row held
    have late := none _ ((Table.get_eq_some_iff recorded key row).mp held)
    simpa using late
  · intro caught entry member
    have reached := caught entry.1 entry.2 ((Table.get_eq_some_iff recorded _ _).mpr member)
    simpa using reached

end Passes

/-- Every row of the catalog is of a column of the program. -/
def Cataloged (disk : Disk) (program : Deployable naming) : Prop :=
  ∀ key row, disk.recorded.get key = some row → key ∈ (columnsOf program.tables).map columnKey

theorem Cataloged.markAll {disk : Disk} {program : Deployable naming}
    (cataloged : Cataloged disk program) (keys : List (String × String)) (head : Nat) :
    Cataloged (Derived.markAll keys head disk) program := by
  intro key row held
  rw [recorded_markAll] at held
  split at held
  · obtain ⟨before, found, -⟩ := Option.map_eq_some_iff.mp held
    exact cataloged key before found
  · exact cataloged key row held

/-- What the changes leave recorded, the program names. -/
theorem named_of_changes {tables : List TableDef} {current : Catalog} {before after : Tx}
    (passed : (reconcile before.catalog current).foldlM (act tables current) before = .ok after)
    {key : String × String} {row : Recorded} (held : after.catalog.get key = some row) :
    current.get key ≠ none := by
  intro gone
  have left : after.catalog.get key = _ := congrArg Prod.snd (changes_gone passed gone)
  rw [held] at left
  split at left
  · cases left
  · next absent =>
      have before : before.catalog.get key = some row := left.symm
      rw [before] at absent
      exact absent rfl

/-- An apply that commits leaves the columns of its program, and no others. -/
theorem cataloged_of_apply {program : Deployable naming} {interrupted : Bool} {disk : Disk}
    {changes : List Change} (done : (apply program interrupted disk).1 = .ok changes) :
    Cataloged (apply program interrupted disk).2 program := by
  unfold apply at done ⊢
  cases recorded : disk.catalog with
  | none =>
      rw [recorded] at done
      cases done
  | some catalog =>
      cases ended : applied program.digest program.tables ⟨disk.schema, catalog⟩ with
      | error error =>
          simp only [recorded, ended] at done
          cases done
      | ok result =>
          cases interrupted with
          | true =>
              simp only [recorded, ended, if_true] at done
              cases done
          | false =>
              obtain ⟨current, implied, -⟩ := bind_ok.mp ended
              obtain ⟨changed, passed, -, same⟩ := applied_ok implied ended
              simp only [ended, Bool.false_eq_true, if_false]
              intro key row held
              have held : changed.catalog.get key = some row := by rwa [← same]
              obtain ⟨identity, named⟩ :=
                Option.ne_none_iff_exists'.mp (named_of_changes passed held)
              obtain ⟨column, member, rfl, -⟩ := held_of_identified implied named
              exact List.mem_map_of_mem member

/-! ## What holds between the steps -/

/-- What a running process knows of the store. -/
structure Fits (site : Deployment naming) (program : Deployable naming) (shared : Shared) : Prop where
  cataloged : Cataloged site.disk program
  published : shared.head ≤ site.checkpoint
  filling : site.began ≤ shared.fillingTo ∨ site.Filled
  counted : shared.behind = 0 → site.CaughtUp
  follows : ∀ position, shared.thread = .polling position ∨ shared.thread = .publishing position →
    position = site.checkpoint

structure Kept (site : Deployment naming) : Prop where
  began : site.began ≤ site.length
  applied : ∀ program, site.process = .applied program → Cataloged site.disk program
  running : ∀ program shared, site.process = .running program shared → Fits site program shared

/-- Whenever the process serves, no column is behind and the store has filled. -/
def Deployment.Whole (site : Deployment naming) : Prop :=
  site.servable = true → site.CaughtUp ∧ site.Filled

section Steps

variable {site next : Deployment naming} {program : Deployable naming} {shared : Shared}

theorem Kept.caughtUp (kept : Kept site) (serves : site.servable = true) : site.CaughtUp := by
  unfold Deployment.servable at serves
  cases process : site.process with
  | running program shared =>
      rw [process] at serves
      have none : (shared.behind == 0) = true := ((Bool.and_eq_true _ _).mp serves).1
      exact (kept.running program shared process).counted (beq_iff_eq.mp none)
  | closed | opened | applied =>
      rw [process] at serves
      cases serves

theorem Kept.filled (kept : Kept site) (serves : site.servable = true) : site.Filled := by
  unfold Deployment.servable at serves
  cases process : site.process with
  | running program shared =>
      rw [process] at serves
      have reached : shared.fillingTo ≤ shared.head :=
        of_decide_eq_true ((Bool.and_eq_true _ _).mp serves).2
      have fits := kept.running program shared process
      rcases fits.filling with filling | filled
      · exact Nat.le_trans filling (Nat.le_trans reached fits.published)
      · exact filled
  | closed | opened | applied =>
      rw [process] at serves
      cases serves

theorem Kept.whole (kept : Kept site) : site.Whole := fun serves =>
  ⟨kept.caughtUp serves, kept.filled serves⟩

/-- A site whose process does not run, and has not applied a program. -/
theorem Kept.idle (began : site.began ≤ site.length)
    (applied : ∀ program, site.process ≠ .applied program)
    (running : ∀ program shared, site.process ≠ .running program shared) : Kept site :=
  ⟨began, fun program same => absurd same (applied program),
    fun program shared same => absurd same (running program shared)⟩

theorem Kept.of_running (began : site.began ≤ site.length)
    (process : site.process = .running program shared) (fits : Fits site program shared) :
    Kept site where
  began := began
  applied other same := by cases process.symm.trans same
  running other also same := by
    cases process.symm.trans same
    exact fits

/-- A backfill moves no checkpoint, and nothing where nothing is behind. -/
theorem advanceBehind_of_caughtUp {tables : List TableDef} (caughtUp : site.CaughtUp) :
    advanceBehind tables site.disk = site.disk := by
  have none : behind site.disk.recorded (site.disk.checkpoint.getD 0) = [] :=
    List.length_eq_zero_iff.mp (behind_eq_nil.mpr caughtUp)
  unfold advanceBehind
  dsimp only
  rw [none]
  rfl

theorem checkpoint_advanceBehind (tables : List TableDef) (disk : Disk) :
    (advanceBehind tables disk).checkpoint = disk.checkpoint := checkpoint_markAll

/-- A batch leaves every column at its head, where none was behind. -/
theorem builtTo_advanceBatch {disk : Disk} {head : Nat} (cataloged : Cataloged disk program)
    (caughtUp : ∀ key row, disk.recorded.get key = some row → disk.checkpoint.getD 0 ≤ row.builtTo)
    {key : String × String} {row : Recorded}
    (held : (advanceBatch program.tables head disk).recorded.get key = some row) :
    row.builtTo = head := by
  have held : (markAll (((columnsOf program.tables).map columnKey).filter fun key =>
      (disk.recorded.get key).any fun row => decide (disk.checkpoint.getD 0 ≤ row.builtTo))
      head disk).recorded.get key = some row := held
  rw [recorded_markAll] at held
  split at held
  · obtain ⟨before, -, rfl⟩ := Option.map_eq_some_iff.mp held
    rfl
  · next apart =>
      refine absurd (List.mem_filter.mpr ⟨cataloged key row held, ?_⟩) apart
      rw [held]
      exact decide_eq_true (caughtUp key row held)

/-- Every step of the thread. -/
theorem Kept.follow (kept : Kept site) (running : site.process = .running program shared)
    {upto : Nat} {matched failed : Bool}
    (taken : site.follow program shared upto matched failed = some next) : Kept next := by
  have fits := kept.running program shared running
  unfold Deployment.follow at taken
  cases thread : shared.thread with
  | backfilling =>
      rw [thread] at taken
      dsimp only at taken
      cases failed with
      | true =>
          cases taken
          exact .of_running kept.began rfl ⟨fits.cataloged, fits.published, fits.filling, fits.counted,
            by rintro position (same | same) <;> cases same⟩
      | false =>
          have still := checkpoint_advanceBehind program.tables site.disk
          cases taken
          refine .of_running kept.began rfl ⟨fits.cataloged.markAll _ _, ?_, ?_, ?_, ?_⟩
          · unfold Deployment.checkpoint
            rw [still]
            exact fits.published
          · unfold Deployment.Filled Deployment.checkpoint
            rw [still]
            exact fits.filling
          · intro none
            have caughtUp := fits.counted none
            unfold Deployment.CaughtUp Deployment.checkpoint
            rw [advanceBehind_of_caughtUp caughtUp]
            exact caughtUp
          · rintro position (same | same) <;> cases same
  | counting =>
      rw [thread] at taken
      cases taken
      exact .of_running kept.began rfl ⟨fits.cataloged, fits.published, fits.filling,
        behind_eq_nil.mp, by rintro position (same | same) <;> cases same⟩
  | subscribing =>
      rw [thread] at taken
      cases taken
      refine .of_running kept.began rfl ⟨fits.cataloged, fits.published, fits.filling, fits.counted, ?_⟩
      rintro position (same | same)
      · cases same
        rfl
      · cases same
  | polling position =>
      have here := fits.follows position (.inl thread)
      rw [thread] at taken
      dsimp only at taken
      split at taken
      · cases taken
        exact .of_running kept.began rfl ⟨fits.cataloged, fits.published, fits.filling, fits.counted,
          by rintro position (same | same) <;> cases same⟩
      · split at taken
        · next within =>
            split at taken
            · next quiet =>
                cases taken
                refine .of_running kept.began rfl
                  ⟨fits.cataloged, fits.published, fits.filling, fits.counted, ?_⟩
                rintro other (same | same)
                · cases same
                  exact Nat.le_antisymm (Nat.le_trans quiet.2 fits.published) (here ▸ within.1)
                · cases same
            · cases taken
              have onward : site.checkpoint ≤ upto := here ▸ within.1
              refine .of_running kept.began rfl ⟨fits.cataloged.markAll _ _,
                Nat.le_trans fits.published onward, ?_, ?_, ?_⟩
              · exact fits.filling.imp_right fun filled => Nat.le_trans filled onward
              · intro none key row held
                have built := builtTo_advanceBatch fits.cataloged (fits.counted none) held
                exact Nat.le_of_eq built.symm
              · rintro other (same | same)
                · cases same
                · cases same
                  rfl
        · cases taken
  | publishing head =>
      have here := fits.follows head (.inr thread)
      rw [thread] at taken
      cases taken
      refine .of_running kept.began rfl
        ⟨fits.cataloged, Nat.le_of_eq here, fits.filling, fits.counted, ?_⟩
      rintro other (same | same)
      · cases same
        exact here
      · cases same
  | stopped =>
      rw [thread] at taken
      cases taken

/-- A thread knows of a store what it reads of it at its start. -/
theorem fits_start (began : site.began ≤ site.length) (cataloged : Cataloged site.disk program)
    (starts : site.checkpoint = 0 ∨ site.Filled) :
    Fits site program (startShared site.length site.disk) where
  cataloged := cataloged
  published := Nat.le_refl _
  filling := by
    rcases starts with empty | filled
    · left
      have target : (startShared site.length site.disk).fillingTo = site.length := if_pos empty
      rwa [target]
    · exact .inr filled
  counted := behind_eq_nil.mp
  follows := by rintro position (same | same) <;> cases same

/-- Every step but a start on a store that is filling keeps what is known. -/
theorem Kept.happen (kept : Kept site) {event : Happening naming} (starts : Starts site event)
    (taken : happen site event = some next) : Kept next := by
  cases event with
  | grow =>
      cases taken
      refine ⟨Nat.le_succ_of_le kept.began, kept.applied, ?_⟩
      intro program shared running
      have fits := kept.running program shared running
      exact ⟨fits.cataloged, fits.published, fits.filling, fits.counted, fits.follows⟩
  | replace disk =>
      unfold Derived.happen at taken
      cases process : site.process with
      | closed =>
          rw [process] at taken
          dsimp only at taken
          split at taken
          · cases taken
          · cases taken
            exact .idle kept.began nofun nofun
      | opened | applied | running =>
          rw [process] at taken
          cases taken
  | «open» program interrupted =>
      unfold Derived.happen at taken
      cases process : site.process with
      | closed =>
          rw [process] at taken
          dsimp only at taken
          split at taken
          · cases taken
          · cases taken
            refine .idle ?_ ?_ ?_
            · dsimp only
              split
              · exact Nat.le_refl _
              · exact kept.began
            · intro other
              dsimp only
              split <;> exact nofun
            · intro other shared
              dsimp only
              split <;> exact nofun
      | opened | applied | running =>
          rw [process] at taken
          cases taken
  | apply interrupted =>
      unfold Derived.happen at taken
      cases process : site.process with
      | opened program =>
          rw [process] at taken
          cases taken
          cases ended : (Derived.apply program interrupted site.disk).1 with
          | error error =>
              exact .idle kept.began nofun nofun
          | ok changes =>
              refine ⟨kept.began, ?_, nofun⟩
              rintro other ⟨⟩
              exact cataloged_of_apply ended
      | closed | applied | running =>
          rw [process] at taken
          cases taken
  | start =>
      unfold Derived.happen at taken
      cases process : site.process with
      | applied program =>
          rw [process] at taken
          cases taken
          have fits := fits_start kept.began (kept.applied program process) starts
          exact .of_running kept.began rfl
            ⟨fits.cataloged, fits.published, fits.filling, fits.counted, fits.follows⟩
      | closed | opened | running =>
          rw [process] at taken
          cases taken
  | follow upto matched failed =>
      unfold Derived.happen at taken
      cases process : site.process with
      | running program shared =>
          rw [process] at taken
          exact kept.follow process taken
      | closed | opened | applied =>
          rw [process] at taken
          cases taken
  | crash =>
      cases taken
      exact .idle kept.began nofun nofun

/-- A thread started on a store that is filling takes it for one that goes on from where
it left off. -/
theorem not_whole_of_start (breaks : ¬ Starts site .start)
    (taken : happen site .start = some next) (serves : next.servable = true) : ¬ next.Whole := by
  intro whole
  have filled := (whole serves).2
  unfold happen at taken
  cases process : site.process with
  | applied program =>
      rw [process] at taken
      cases taken
      exact breaks (.inr filled)
  | closed | opened | running =>
      rw [process] at taken
      cases taken

end Steps

/-! ## Every run -/

/-- Over any boots from any file, whatever each finds and wherever it ends, none of which
starts a thread on a store that is filling: where the store serves, no column is behind
and it has filled.  A start that serves at once leaves that so exactly when it is not on
a store that is filling. -/
theorem servable_whole {first site : Deployment naming} {events : List (Happening naming)}
    (closed : first.process = .closed) (began : first.began ≤ first.length)
    (guarded : Guarded happen Starts first events) (ran : run happen first events = some site) :
    site.Whole ∧
      ∀ next, happen site .start = some next → next.servable = true →
        (next.Whole ↔ Starts site .start) := by
  have initial : Kept first := by
    refine .idle began ?_ ?_
    · rw [closed]
      exact nofun
    · rw [closed]
      exact nofun
  have kept : Kept site :=
    run_invariant_of_guarded Kept (fun _ _ _ before starts taken => before.happen starts taken)
      initial guarded ran
  refine ⟨kept.whole, ?_⟩
  intro next taken serves
  constructor
  · intro whole
    by_contra breaks
    exact not_whole_of_start breaks taken serves whole
  · intro starts
    exact (kept.happen starts taken).whole

/-! ## A first fill that is cut short -/

namespace Cancelled

/-- A log, and no file yet. -/
def unfilled : Deployment Cancelled.naming := { length := 10000, disk := blank.disk }

/-- A process that opens the store, applies the program and starts its thread. -/
def boot : List (Happening Cancelled.naming) := [.open (program "0") none, .apply false, .start]

/-- The thread commits and publishes a batch that ends at a position. -/
def fill (upto : Nat) : List (Happening Cancelled.naming) :=
  [.follow 0 false false, .follow 0 false false, .follow 0 false false, .follow upto true false,
    .follow 0 false false]

end Cancelled

open Cancelled in
theorem whole_of_fill : ∃ site, run happen unfilled (boot ++ fill 10000) = some site ∧
    site.servable = true ∧ site.Whole := by
  have reached : (run happen unfilled (boot ++ fill 10000)).map Deployment.servable = some true := by
    decide
  obtain ⟨site, ran, serves⟩ := Option.map_eq_some_iff.mp reached
  exact ⟨site, ran, serves, (servable_whole rfl (by decide) (by decide) ran).1⟩

open Cancelled in
/-- The process ends after the first of several batches, and the next serves at once. -/
theorem serves_while_filling : ¬ ∀ (events : List (Happening Cancelled.naming)) site,
    run happen unfilled events = some site → site.Whole := by
  intro always
  have reached : (run happen unfilled (boot ++ fill 1000 ++ [.crash] ++ boot)).map
      (fun site => (site.servable, decide (site.began ≤ site.checkpoint))) =
      some (true, false) := by decide
  obtain ⟨site, ran, same⟩ := Option.map_eq_some_iff.mp reached
  rw [Prod.mk.injEq, decide_eq_false_iff_not] at same
  exact same.2 (always _ site ran same.1).2

end Hekla.Derived
