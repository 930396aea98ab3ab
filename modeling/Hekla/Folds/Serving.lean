import Hekla.Folds.Follow
import Hekla.Reads.Waiting

/-!
# Reads beside the thread of the derived tables

The thread first backfills the columns a deploy left behind, and then follows the
log: it commits a batch with its checkpoint, and publishes the head.  A read is
turned away while a column is behind, or while a store that began empty has not
come as far as the log was.  Every step below is one with no read between, and any
of them may fail and end the thread, or be the process's last.
-/

namespace Hekla.Folds

open Hekla.Library Hekla.Reads

variable {Record Value Cell : Type} {layout : Layout Value Cell}

/-! ## The thread -/

/-- How far the thread has come. -/
inductive FoldThread where
  | backfilling
  | counting
  | subscribing
  | polling (position : Nat)
  | publishing (head : Nat)
  | stopped
  deriving DecidableEq

/-- The log, the store, and what a running process shares of it. -/
structure FoldShared (Record : Type) (layout : Layout Value Cell) where
  log : List Record
  store : Store layout
  head : Nat
  behind : Nat
  fillingTo : Nat
  thread : FoldThread

/-- What a deploy leaves of a store: some columns are behind, and hold anything in
the rows there are. -/
def Store.leaveBehind (store : Store layout) (columns : List Column) (cells : Column → Key → Cell) :
    Store layout where
  keys := store.keys
  cells column key :=
    if column ∈ columns ∧ column ∈ layout.columns ∧ key ∈ store.keys column.held then
      cells column key
    else store.cells column key
  absent column key absent := by
    rw [if_neg fun inside => absent inside.2.2]
    exact store.absent column key absent
  checkpoint := store.checkpoint
  builtTo column :=
    if column ∈ columns ∧ column ∈ layout.columns then some 0 else store.builtTo column

/-- Start the thread on a store whose schema is what the program says. -/
def start (log : List Record) (store : Store layout) : FoldShared Record layout where
  log
  store
  head := store.checkpoint
  behind := store.behind.length
  fillingTo := if store.checkpoint = 0 then log.length else 0
  thread := .backfilling

namespace FoldShared

variable (shared : FoldShared Record layout)

/-- Whether every column is folded far enough to serve. -/
def servable : Bool := shared.behind == 0 && decide (shared.fillingTo ≤ shared.head)

/-- Commit what a pass over the records leaves, or stop. -/
def settle (result : Except Fault (Store layout)) (thread : FoldThread) : FoldShared Record layout :=
  match result with
  | .error _ => { shared with thread := .stopped }
  | .ok store => { shared with store, thread }

/-- The thread's next step, when it does not fail for another reason than the
records.  `upto` is where a poll ends. -/
def follow (tables : Tables Record layout) (due : Pending Cell → Bool) (upto : Nat) :
    Option (FoldShared Record layout) :=
  match shared.thread with
  | .backfilling => some (shared.settle (backfill due tables shared.log shared.store) .counting)
  | .counting => some { shared with behind := shared.store.behind.length, thread := .subscribing }
  | .subscribing => some { shared with thread := .polling shared.store.checkpoint }
  | .polling position =>
      let records := batch tables shared.log position upto
      if position ≤ upto ∧ upto ≤ shared.log.length ∧
          (records.isEmpty = true → upto = shared.log.length) then
        -- Nothing matched, so only the position has to move.
        if records.isEmpty ∧ upto ≤ shared.head then some { shared with thread := .polling upto }
        else some (shared.settle (applyBatch due tables shared.store records upto)
          (.publishing upto))
      else none
  | .publishing head => some { shared with head, thread := .polling head }
  | .stopped => none

end FoldShared

inductive FoldAction (Record Cell : Type) where
  | append (record : Record)
  | follow (due : Pending Cell → Bool) (upto : Nat)
  | fault
  | restart (columns : List Column) (cells : Column → Key → Cell)

def FoldShared.step (tables : Tables Record layout) (shared : FoldShared Record layout) :
    FoldAction Record Cell → Option (FoldShared Record layout)
  | .append record => some { shared with log := shared.log ++ [record] }
  | .follow due upto => shared.follow tables due upto
  | .fault => some { shared with thread := .stopped }
  | .restart columns cells => some (start shared.log (shared.store.leaveBehind columns cells))

/-- A restart ends the process, and its reads with it. -/
def FoldAction.ends : FoldAction Record Cell → Bool
  | .restart _ _ => true
  | _ => false

/-! ## What is read of it -/

/-- Why the store cannot be read now. -/
def tableUnready (shared : FoldShared Record layout) : Option ErrorResponse :=
  if shared.servable then none
  else some ⟨503, ⟨"rebuilding",
    if 0 < shared.behind then
      s!"{shared.behind} derived column(s) are being folded from the log; every table is served " ++
        "once they catch up"
    else
      s!"the derived tables are being folded from the start of the log, at position {shared.head}; " ++
        "every table is served once they catch up"⟩, true⟩

/-- The store as its readers see it. -/
def tableReading : Publication (FoldShared Record layout) Unit (Store layout) ErrorResponse where
  gate := tableUnready
  published := FoldShared.head
  named _ := some ()
  content shared _ := some shared.store
  version := Store.checkpoint
  broken := readFailed

/-! ## What holds between the steps -/

variable {tables : Tables Record layout} {shared next : FoldShared Record layout}

/-- What may be served: the store folded from scratch to its own checkpoint. -/
def FoldShared.Good (tables : Tables Record layout) (shared : FoldShared Record layout)
    (store : Store layout) : Prop :=
  Folded tables ⟨shared.log, store⟩

/-- What the thread knows of the store at each of its steps. -/
def FoldShared.Fits (tables : Tables Record layout) (shared : FoldShared Record layout) : Prop :=
  match shared.thread with
  | .backfilling | .stopped => True
  | .counting | .subscribing => shared.Good tables shared.store
  | .polling position | .publishing position =>
      shared.Good tables shared.store ∧ position = shared.store.checkpoint

/-- The store is the one folded from scratch, but for columns recorded as behind;
the head is not ahead of it; and once no column is counted as behind, none is. -/
structure FoldShared.Sound (tables : Tables Record layout) (shared : FoldShared Record layout) :
    Prop where
  clean : ∃ folded columns, Folded tables ⟨shared.log, folded⟩ ∧
    PutBehind columns folded shared.store
  published : shared.head ≤ shared.store.checkpoint
  counted : shared.behind = 0 → shared.Good tables shared.store
  fits : shared.Fits tables

theorem PutBehind.refl (store : Store layout) : PutBehind [] store store where
  within := nofun
  keys := rfl
  cells _ _ := rfl
  checkpoint := rfl
  builtTo _ := rfl

/-- More columns can be left behind. -/
theorem PutBehind.leaveBehind {store spoiled : Store layout} {columns : List Column}
    (put : PutBehind columns store spoiled) (more : List Column) (cells : Column → Key → Cell) :
    PutBehind (columns ++ more.filter (· ∈ layout.columns)) store
      (spoiled.leaveBehind more cells) where
  within column member := by
    rcases List.mem_append.mp member with before | added
    · exact put.within column before
    · exact of_decide_eq_true (List.mem_filter.mp added).2
  keys := put.keys
  cells column apart := by
    rw [List.mem_append, not_or] at apart
    rw [← put.cells column apart.1]
    funext key
    refine if_neg fun inside => apart.2 ?_
    exact List.mem_filter.mpr ⟨inside.1, decide_eq_true inside.2.1⟩
  checkpoint := put.checkpoint
  builtTo column := by
    change (if column ∈ more ∧ column ∈ layout.columns then some 0 else spoiled.builtTo column) = _
    rw [put.builtTo]
    simp only [List.mem_append, List.mem_filter, decide_eq_true_eq]
    by_cases before : column ∈ columns
    · simp [before]
    · simp [before]

/-- A store with no column behind is the one folded from scratch. -/
theorem good_of_none_behind {log : List Record} {folded spoiled : Store layout}
    {columns : List Column} (clean : Folded tables ⟨log, folded⟩)
    (put : PutBehind columns folded spoiled) (none : spoiled.behind.length = 0) : spoiled = folded := by
  have filled : backfill flushDue tables log spoiled = .ok folded :=
    backfill_restores flushDue clean.scratch put
  unfold backfill at filled
  dsimp only at filled
  rw [List.length_eq_zero_iff.mp none] at filled
  exact Except.ok.inj filled

theorem FoldShared.Sound.start {log : List Record} {folded store : Store layout}
    {columns : List Column} (clean : Folded tables ⟨log, folded⟩)
    (put : PutBehind columns folded store) : (Folds.start log store).Sound tables where
  clean := ⟨folded, columns, clean, put⟩
  published := Nat.le_refl _
  counted none := by
    have same : store = folded := good_of_none_behind clean put none
    change Folded tables ⟨log, store⟩
    rwa [same]
  fits := trivial

theorem Folded.grown {log : List Record} {store : Store layout} (folded : Folded tables ⟨log, store⟩)
    (records : List Record) : Folded tables ⟨log ++ records, store⟩ := by
  constructor
  · rw [List.length_append]
    exact Nat.le_add_right_of_le folded.reached
  · have same : (log ++ records).take store.checkpoint = log.take store.checkpoint :=
      List.take_append_of_le_length folded.reached
    unfold Folds.scratch
    rw [same]
    exact folded.scratch

/-! ## Every step -/

/-- A step to a sound state that takes nothing back. -/
structure FoldShared.Onward (tables : Tables Record layout) (shared next : FoldShared Record layout) :
    Prop where
  sound : next.Sound tables
  log : ∃ records, next.log = shared.log ++ records
  grows : shared.Good tables shared.store → next.Good tables next.store ∧
    shared.store.checkpoint ≤ next.store.checkpoint

namespace FoldShared

theorem Onward.keeps (onward : Onward tables shared next) :
    Keeps tableReading (Good tables) (fun _ _ => True) shared next where
  held := by
    intro store good
    obtain ⟨records, grown⟩ := onward.log
    change Folded tables ⟨next.log, store⟩
    rw [grown]
    exact Folded.grown good records
  named := by
    rintro least ⟨_, store, ⟨⟩, ⟨⟩, good, reached⟩
    obtain ⟨still, grew⟩ := onward.grows good
    exact ⟨(), next.store, rfl, rfl, still, Nat.le_trans reached grew⟩
  opened := by
    rintro _ store - ⟨⟩ good
    obtain ⟨still, grew⟩ := onward.grows good
    exact ⟨trivial, next.store, rfl, still, grew⟩

theorem Sound.honest (sound : shared.Sound tables) :
    Honest tableReading (Good tables) (fun _ _ => True) shared where
  gate passed := by
    have servable : shared.servable = true := by
      by_contra refused
      rw [show tableReading.gate shared = tableUnready shared from rfl, tableUnready,
        if_neg refused] at passed
      cases passed
    have none : shared.behind = 0 := by
      have both := Bool.and_eq_true_iff.mp servable
      exact eq_of_beq both.1
    exact ⟨(), shared.store, rfl, rfl, sound.counted none, Nat.zero_le _⟩
  published := by
    rintro _ store - ⟨⟩
    exact sound.published
  visible _ _ := trivial

/-- A step that moves the thread and what is published, and leaves the store. -/
theorem Sound.quiet (sound : shared.Sound tables) {head behind fillingTo : Nat} {thread : FoldThread}
    (published : head ≤ shared.store.checkpoint)
    (counted : behind = 0 → shared.Good tables shared.store)
    (fits : Fits tables { shared with head, behind, fillingTo, thread }) :
    Onward tables shared { shared with head, behind, fillingTo, thread } where
  sound := ⟨sound.clean, published, counted, fits⟩
  log := ⟨[], (List.append_nil _).symm⟩
  grows good := ⟨good, Nat.le_refl _⟩

/-- A commit of a store folded from scratch. -/
theorem Sound.commit (sound : shared.Sound tables) {store : Store layout} {thread : FoldThread}
    (good : shared.Good tables store) (grew : shared.store.checkpoint ≤ store.checkpoint)
    (fits : Fits tables { shared with store, thread }) :
    Onward tables shared { shared with store, thread } where
  sound := ⟨⟨store, [], good, .refl store⟩, Nat.le_trans sound.published grew, fun _ => good, fits⟩
  log := ⟨[], (List.append_nil _).symm⟩
  grows _ := ⟨good, grew⟩

theorem Sound.follow (sound : shared.Sound tables) {due : Pending Cell → Bool} {upto : Nat}
    (taken : shared.follow tables due upto = some next) : Onward tables shared next := by
  have fits := sound.fits
  unfold Fits at fits
  unfold FoldShared.follow at taken
  cases thread : shared.thread with
  | backfilling =>
      rw [thread] at taken
      obtain ⟨folded, columns, clean, put⟩ := sound.clean
      rw [show backfill due tables shared.log shared.store = .ok folded from
        backfill_restores due clean.scratch put] at taken
      cases taken
      exact sound.commit clean put.checkpoint.le clean
  | counting =>
      rw [thread] at taken fits
      cases taken
      exact sound.quiet sound.published (fun _ => fits) fits
  | subscribing =>
      rw [thread] at taken fits
      cases taken
      exact sound.quiet sound.published sound.counted ⟨fits, rfl⟩
  | polling position =>
      rw [thread] at taken fits
      obtain ⟨good, rfl⟩ := fits
      dsimp only at taken
      split at taken
      · next polled =>
          obtain ⟨order, inside, caught⟩ := polled
          split at taken
          · next idle =>
              cases taken
              have same : upto = shared.store.checkpoint :=
                Nat.le_antisymm (Nat.le_trans idle.2 sound.published) order
              exact sound.quiet sound.published sound.counted ⟨good, same⟩
          · cases applied : applyBatch due tables shared.store
              (batch tables shared.log shared.store.checkpoint upto) upto with
            | error fault =>
                rw [applied] at taken
                cases taken
                exact sound.quiet sound.published sound.counted trivial
            | ok store =>
                rw [applied] at taken
                cases taken
                have scratch := (applyBatch_iff due good.scratch order).mp applied
                have reached := checkpoint_of_scratch scratch
                have still : shared.Good tables store := by
                  constructor
                  · exact reached ▸ inside
                  · change Folds.scratch tables shared.log store.checkpoint = .ok store
                    rwa [reached]
                exact sound.commit still (reached ▸ order) ⟨still, reached.symm⟩
      · cases taken
  | publishing head =>
      rw [thread] at taken fits
      obtain ⟨good, rfl⟩ := fits
      cases taken
      exact sound.quiet (Nat.le_refl _) sound.counted ⟨good, rfl⟩
  | stopped =>
      rw [thread] at taken
      cases taken

theorem Sound.append (sound : shared.Sound tables) (record : Record) :
    Onward tables shared { shared with log := shared.log ++ [record] } where
  sound := by
    obtain ⟨folded, columns, clean, put⟩ := sound.clean
    refine ⟨⟨folded, columns, Folded.grown clean [record], put⟩, sound.published,
      fun none => Folded.grown (sound.counted none) [record], ?_⟩
    have fits := sound.fits
    unfold Fits at fits ⊢
    cases thread : shared.thread with
    | backfilling | stopped => trivial
    | counting | subscribing =>
        rw [thread] at fits
        exact Folded.grown fits [record]
    | polling position | publishing position =>
        rw [thread] at fits
        exact ⟨Folded.grown fits.1 [record], fits.2⟩
  log := ⟨[record], rfl⟩
  grows good := ⟨Folded.grown good [record], Nat.le_refl _⟩

/-- Every step keeps what is published behind what is stored, and every step but a
restart takes nothing back. -/
theorem Sound.step (sound : shared.Sound tables) {action : FoldAction Record Cell}
    (taken : shared.step tables action = some next) :
    next.Sound tables ∧ (action.ends = false →
      Keeps tableReading (Good tables) (fun _ _ => True) shared next) := by
  cases action with
  | append record =>
      cases taken
      have onward := sound.append record
      exact ⟨onward.sound, fun _ => onward.keeps⟩
  | follow due upto =>
      have onward := sound.follow taken
      exact ⟨onward.sound, fun _ => onward.keeps⟩
  | fault =>
      cases taken
      have onward : Onward tables shared { shared with thread := .stopped } :=
        sound.quiet sound.published sound.counted trivial
      exact ⟨onward.sound, fun _ => onward.keeps⟩
  | restart columns cells =>
      cases taken
      obtain ⟨folded, behind, clean, put⟩ := sound.clean
      exact ⟨.start clean (put.leaveBehind columns cells), nofun⟩

end FoldShared

/-! ## Every interleaving with reads -/

/-- From an empty store on, whatever the log, the thread and the deploys do between
the moves of a read: the position it reports is the one it waited for or a later
one, within the log, and what it was made of is the store folded from scratch up to
that. -/
theorem table_served_of_interleaving {Keys Answer : Type}
    {turns : List (Turn (FoldAction Record Cell) Keys (Store layout) ErrorResponse (Answer × Nat))}
    {final : Library.Serving (FoldShared Record layout) Unit (Store layout) ErrorResponse Keys
      (Answer × Nat)}
    (ran : run (tableReading.serve (FoldShared.step tables) FoldAction.ends)
      { state := start [] (.blank layout) } turns = some final)
    {read : Nat} {wait : Option Wait} {query : Keys → Store layout → Except ErrorResponse Answer}
    {held : Store layout} {answer : Answer} {position : Nat}
    (served : final.reads read = some
      (waitingRead "the derived tables" wait Store.checkpoint query,
        .served held (answer, position))) :
    (∀ asked, wait = some asked → asked.after ≤ position) ∧ position ≤ final.state.log.length ∧
      held.checkpoint = position ∧ scratch tables final.state.log position = .ok held ∧
      ∃ keys, query keys held = .ok answer := by
  have initial : (start [] (.blank layout) : FoldShared Record layout).Sound tables :=
    .start folded_blank (.refl _)
  have honest (shared : FoldShared Record layout) (sound : shared.Sound tables) :
      Honest tableReading (FoldShared.Good tables) (fun _ _ => True) shared :=
    sound.honest
  have preserved (shared : FoldShared Record layout) (action : FoldAction Record Cell)
      (next : FoldShared Record layout) (sound : shared.Sound tables)
      (taken : shared.step tables action = some next) :
      next.Sound tables ∧ (action.ends = false →
        Keeps tableReading (FoldShared.Good tables) (fun _ _ => True) shared next) :=
    sound.step taken
  obtain ⟨-, ⟨good, waited⟩, keys, answered⟩ :=
    served_of_run (fun shared => shared.Sound tables) honest preserved initial ran served
  obtain ⟨made, rfl⟩ := answer_waitingRead.mp answered
  refine ⟨?_, good.reached, rfl, good.scratch, keys, made⟩
  rintro asked rfl
  exact waited

end Hekla.Folds
