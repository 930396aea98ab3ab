import Hekla.Folds.Replay
import Hekla.Library.Runs

/-!
# Incremental equals from scratch

A batch of records goes through one writer, and commits with the checkpoint.  A
backfill puts the columns that are behind it back to their seed, and replays the
log into them.  However the log is cut into batches, whenever the writers flush,
and whatever is cut short on the way, the store is the one folded from scratch;
and from it any columns put behind are restored.
-/

namespace Hekla.Folds

open Library

variable {Record Value Cell : Type} {layout : Layout Value Cell}

/-! ## One batch, one backfill -/

namespace Store

/-- The store at a position, with every column of the layout built to it. -/
def builtAt (store : Store layout) (head : Nat) : Store layout :=
  { store with
    checkpoint := head
    builtTo := fun column => if column ∈ layout.columns then some head else none }

/-- The store before any record. -/
def blank (layout : Layout Value Cell) : Store layout where
  keys _ := ∅
  cells column _ := layout.default column
  absent _ _ _ := rfl
  checkpoint := 0
  builtTo column := if column ∈ layout.columns then some 0 else none

variable (store : Store layout)

/-- Every column of the layout that has not caught up with the checkpoint. -/
def behind : List Column :=
  layout.columns.filter fun column => (store.builtTo column).any (· < store.checkpoint)

/-- Every column of the layout that has. -/
def caughtUp : List Column :=
  layout.columns.filter fun column => (store.builtTo column).any (store.checkpoint ≤ ·)

def resetAll (columns : List Column) : Store layout :=
  columns.foldl resetColumn store

def markAll (columns : List Column) (head : Nat) : Store layout :=
  columns.foldl (fun store column => store.markBuilt column head) store

end Store

/-- Apply one batch of records, then move the checkpoint, in one transaction.
Only a column that was already caught up may advance. -/
def applyBatch (due : Pending Cell → Bool) (tables : Tables Record layout) (store : Store layout)
    (records : List Record) (head : Nat) : Except Fault (Store layout) := do
  let caughtUp := store.caughtUp
  let writer ← applyAll (Writer.sink due) layout.seed tables.arms records { store }
  .ok { writer.flush.store.markAll caughtUp head with checkpoint := head }

/-- Bring every column that is behind the checkpoint up to it. -/
def backfill (due : Pending Cell → Bool) (tables : Tables Record layout) (log : List Record)
    (store : Store layout) : Except Fault (Store layout) :=
  let head := store.checkpoint
  let behind := store.behind
  if behind.isEmpty then .ok store
  else do
    let writer ← applyAll (Writer.sink due) layout.seed (tables.only behind)
      ((log.take head).filter tables.query)
      { store := store.resetAll behind, replay := some { only := behind } }
    .ok (writer.flush.store.markAll behind head)

/-- Each record of the log up to a head applied once, in order, to the empty store. -/
def scratch (tables : Tables Record layout) (log : List Record) (head : Nat) :
    Except Fault (Store layout) := do
  let store ← applyAll Store.direct layout.seed tables.arms (log.take head) (.blank layout)
  .ok (store.builtAt head)

/-! ## Runs -/

/-- The log, and the derived tables that follow it. -/
structure Running (Record : Type) (layout : Layout Value Cell) where
  log : List Record
  store : Store layout

/-- What the log and the thread of the tables do.  A transaction that is not
committed is one the process ended in. -/
inductive Action (Record Cell : Type) where
  | append (record : Record)
  | follow (due : Pending Cell → Bool) (head : Nat) (committed : Bool)
  | backfill (due : Pending Cell → Bool) (committed : Bool)

/-- The subscription from one position up to another. -/
def batch (tables : Tables Record layout) (log : List Record) (start head : Nat) : List Record :=
  ((log.take head).drop start).filter tables.query

/-- A transaction that fails or is cut short leaves the store as it was. -/
def Running.settle (state : Running Record layout) (committed : Bool)
    (result : Except Fault (Store layout)) : Running Record layout :=
  match result with
  | .ok next => if committed then { state with store := next } else state
  | .error _ => state

def step (tables : Tables Record layout) (state : Running Record layout) :
    Action Record Cell → Option (Running Record layout)
  | .append record => some { state with log := state.log ++ [record] }
  | .follow due head committed =>
      if state.store.checkpoint ≤ head ∧ head ≤ state.log.length then
        some (state.settle committed (applyBatch due tables state.store
          (batch tables state.log state.store.checkpoint head) head))
      else none
  | .backfill due committed =>
      some (state.settle committed (backfill due tables state.log state.store))

/-- The columns are behind, whatever their cells hold; all else is as in the store. -/
structure PutBehind (columns : List Column) (store spoiled : Store layout) : Prop where
  within : ∀ column ∈ columns, column ∈ layout.columns
  keys : spoiled.keys = store.keys
  cells : ∀ column, column ∉ columns → spoiled.cells column = store.cells column
  checkpoint : spoiled.checkpoint = store.checkpoint
  builtTo : ∀ column, spoiled.builtTo column =
    if column ∈ columns then some 0 else store.builtTo column

/-! ## Marks -/

namespace Store

variable {store : Store layout} {columns : List Column} {head : Nat}

@[simp]
theorem keys_markAll : (store.markAll columns head).keys = store.keys := by
  induction columns generalizing store with
  | nil => rfl
  | cons column rest ih => exact ih

@[simp]
theorem cells_markAll : (store.markAll columns head).cells = store.cells := by
  induction columns generalizing store with
  | nil => rfl
  | cons column rest ih => exact ih

@[simp]
theorem checkpoint_markAll : (store.markAll columns head).checkpoint = store.checkpoint := by
  induction columns generalizing store with
  | nil => rfl
  | cons column rest ih => exact ih

theorem builtTo_markAll (column : Column) : (store.markAll columns head).builtTo column =
    if column ∈ columns then (store.builtTo column).map fun _ => head
    else store.builtTo column := by
  induction columns generalizing store with
  | nil => simp [markAll]
  | cons first rest ih =>
      rw [markAll, List.foldl_cons, ← markAll, ih]
      dsimp only [markBuilt]
      by_cases here : column = first
      · cases recorded : store.builtTo column <;> simp [here]
      · simp [here]

@[simp]
theorem keys_resetAll : (store.resetAll columns).keys = store.keys := by
  induction columns generalizing store with
  | nil => rfl
  | cons column rest ih => exact ih

@[simp]
theorem checkpoint_resetAll : (store.resetAll columns).checkpoint = store.checkpoint := by
  induction columns generalizing store with
  | nil => rfl
  | cons column rest ih => exact ih

@[simp]
theorem builtTo_resetAll : (store.resetAll columns).builtTo = store.builtTo := by
  induction columns generalizing store with
  | nil => rfl
  | cons column rest ih => exact ih

theorem cells_resetAll (column : Column) (key : Key) : (store.resetAll columns).cells column key =
    if column ∈ columns then layout.default column else store.cells column key := by
  induction columns generalizing store with
  | nil => simp [resetAll]
  | cons first rest ih =>
      rw [resetAll, List.foldl_cons, ← resetAll, ih]
      dsimp only [resetColumn]
      by_cases here : column = first
      · simp [here]
      · simp [here]

/-- Two stores that hold the same rows and the same cells. -/
structure Alike (one other : Store layout) : Prop where
  keys : one.keys = other.keys
  cells : one.cells = other.cells

theorem Alike.putCell {one other : Store layout} (alike : Alike one other) (column : Column)
    (key : Key) (cell : Cell) : Alike (one.putCell column key cell) (other.putCell column key cell) := by
  constructor
  · funext table
    ext place
    rw [mem_putCell, mem_putCell, alike.keys]
  · funext held place
    rw [cells_putCell, cells_putCell, alike.cells]

/-- What writing straight through does depends on the rows and cells alone, and
moves no mark. -/
theorem Alike.follows (first second : Column → Option Nat) (columns : Column → Bool)
    (sources : String → Prop) :
    Follows (direct : Sink (Store layout) Value) direct layout.seed
      (fun one other => Alike one other ∧ one.builtTo = first ∧ other.builtTo = second)
      columns sources where
  read := by
    intro one other column key value same _ read
    rw [read_direct] at read ⊢
    unfold readCell at read ⊢
    rw [← same.1.cells]
    exact read
  keys := by
    intro one other source pinned keys same _ listed
    obtain ⟨done, main, listed⟩ := bind_ok.mp listed
    obtain ⟨parts, made, listed⟩ := bind_ok.mp listed
    refine bind_ok.mpr ⟨done, main, bind_ok.mpr ⟨parts, made, ?_⟩⟩
    unfold keysPinned at listed ⊢
    rw [← same.1.keys]
    exact listed
  set := by
    rintro one next other column key value ⟨alike, rfl, rfl⟩ _ set
    obtain ⟨done, passed, set⟩ := bind_ok.mp set
    obtain ⟨cell, encoded, set⟩ := bind_ok.mp set
    cases set
    exact ⟨other.putCell column key cell, bind_ok.mpr ⟨done, passed, bind_ok.mpr ⟨cell, encoded, rfl⟩⟩,
      alike.putCell column key cell, builtTo_putCell, builtTo_putCell⟩

end Store

/-! ## The records no arm is for -/

section Unqueried

variable {σ : Type} {sink : Sink σ Value} {tables : Tables Record layout}

theorem Arm.apply_misses {arm : Arm Record Value} {record : Record}
    (misses : arm.reach.misses record = true) (state : σ) :
    arm.apply sink layout.seed record state = .ok state := by
  unfold Arm.apply
  cases reach : arm.reach with
  | pinned key =>
      rw [reach, Reach.misses, Option.isNone_iff_eq_none] at misses
      dsimp only
      rw [misses]
  | ranged parts =>
      rw [reach, Reach.misses, Option.isNone_iff_eq_none] at misses
      dsimp only
      rw [misses]

theorem applyRecord_unqueried {record : Record} (unqueried : tables.query record = false)
    (state : σ) : applyRecord sink layout.seed tables.arms state record = .ok state := by
  have missed : ∀ arm ∈ tables.arms, arm.reach.misses record = true :=
    tables.queried record unqueried
  unfold applyRecord
  generalize tables.arms = arms at missed ⊢
  induction arms with
  | nil => rfl
  | cons arm rest ih =>
      obtain ⟨missedArm, missedRest⟩ := List.forall_mem_cons.mp missed
      exact foldlM_cons_ok.mpr ⟨state, Arm.apply_misses missedArm state, ih missedRest⟩

/-- Only the records of the subscription do anything. -/
theorem applyAll_query (records : List Record) (state : σ) :
    applyAll sink layout.seed tables.arms (records.filter tables.query) state =
      applyAll sink layout.seed tables.arms records state := by
  induction records generalizing state with
  | nil => rfl
  | cons record rest ih =>
      cases queried : tables.query record with
      | false =>
          rw [List.filter_cons_of_neg (by simp [queried]), ih]
          unfold applyAll
          rw [List.foldlM_cons, applyRecord_unqueried queried]
          rfl
      | true =>
          rw [List.filter_cons_of_pos queried]
          unfold applyAll at ih ⊢
          rw [List.foldlM_cons, List.foldlM_cons]
          exact bind_congr fun next => ih next

theorem applyAll_append_ok {arms : List (Arm Record Value)} {first second : List Record}
    {state final : σ} :
    applyAll sink layout.seed arms (first ++ second) state = .ok final ↔
      ∃ middle, applyAll sink layout.seed arms first state = .ok middle ∧
        applyAll sink layout.seed arms second middle = .ok final := by
  unfold applyAll
  rw [List.foldlM_append]
  exact bind_ok

end Unqueried

/-! ## A batch goes on from scratch -/

section Batch

variable {tables : Tables Record layout} {log : List Record} {store : Store layout}

theorem scratch_ok {head : Nat} : scratch tables log head = .ok store ↔
    ∃ base, applyAll Store.direct layout.seed tables.arms (log.take head) (.blank layout) =
      .ok base ∧ store = base.builtAt head := by
  unfold scratch
  rw [bind_ok]
  constructor
  · rintro ⟨base, applied, done⟩
    cases done
    exact ⟨base, applied, rfl⟩
  · rintro ⟨base, applied, rfl⟩
    exact ⟨base, applied, rfl⟩

/-- What has been folded from scratch, with the keys each column was written at. -/
theorem traced_of_scratch {records : List Record} {base : Store layout}
    (applied : applyAll Store.direct layout.seed tables.arms records (.blank layout) = .ok base) :
    ∃ traced : Traced layout, applyAll Traced.sink layout.seed tables.arms records
        ⟨.blank layout, fun _ => ∅⟩ = .ok traced ∧ traced.store = base ∧ traced.Accounts := by
  refine (Traced.follows _ fun _ => True).applyAll_of_all (fun _ _ _ => trivial) ⟨rfl, ?_⟩ applied
  constructor
  · intro table key member
    exact absurd member (OrderedSet.not_mem_empty key)
  · intro table key
    simp [Store.blank]

/-- A store folded from scratch is at its head, and so is every column. -/
theorem caughtUp_of_scratch (folded : scratch tables log store.checkpoint = .ok store) :
    store.caughtUp = layout.columns ∧ ∀ column, store.builtTo column =
      if column ∈ layout.columns then some store.checkpoint else none := by
  obtain ⟨base, -, same⟩ := scratch_ok.mp folded
  have built (column : Column) : store.builtTo column =
      if column ∈ layout.columns then some store.checkpoint else none := by
    conv_lhs => rw [same]
    rfl
  refine ⟨List.filter_eq_self.mpr fun column member => ?_, built⟩
  rw [built, if_pos member]
  simp

/-- What a batch commits, when its rows and cells are those from scratch. -/
theorem commit_eq (folded : scratch tables log store.checkpoint = .ok store) {head : Nat}
    {last final : Store layout} (alike : Store.Alike last final)
    (marks : last.builtTo = store.builtTo) :
    ({ last.markAll store.caughtUp head with checkpoint := head } : Store layout) =
      final.builtAt head := by
  obtain ⟨caughtUp, built⟩ := caughtUp_of_scratch folded
  apply Store.ext
  · exact Store.keys_markAll.trans alike.keys
  · exact Store.cells_markAll.trans alike.cells
  · rfl
  · funext column
    refine (Store.builtTo_markAll column).trans ?_
    rw [marks, built, caughtUp]
    unfold Store.builtAt
    dsimp only
    split <;> rfl

/-- From the store at a checkpoint, a batch commits exactly the store at its
head, and fails exactly when folding from scratch does. -/
theorem applyBatch_iff (due : Pending Cell → Bool)
    (folded : scratch tables log store.checkpoint = .ok store) {head : Nat}
    (order : store.checkpoint ≤ head) {next : Store layout} :
    applyBatch due tables store (batch tables log store.checkpoint head) head = .ok next ↔
      scratch tables log head = .ok next := by
  obtain ⟨base, applied, same⟩ := scratch_ok.mp folded
  obtain ⟨traced, -, rfl, accounts⟩ := traced_of_scratch applied
  have alike : Store.Alike store traced.store := by
    rw [same]
    exact ⟨rfl, rfl⟩
  have started : Buffers ({ store } : Writer layout) store := by
    refine ⟨rfl, rfl, Writer.ensured_of_fresh store none, ?_⟩
    rw [same]
    exact accounts.sized
  have onward {final : Store layout} : applyAll Store.direct layout.seed tables.arms
        (log.take head) (.blank layout) = .ok final ↔
      applyAll Store.direct layout.seed tables.arms ((log.take head).drop store.checkpoint)
        traced.store = .ok final := by
    have cut := List.take_append_drop store.checkpoint (log.take head)
    rw [List.take_take, Nat.min_eq_left order] at cut
    conv_lhs => rw [← cut, applyAll_append_ok]
    constructor
    · rintro ⟨middle, first, ends⟩
      cases applied.symm.trans first
      exact ends
    · intro ends
      exact ⟨traced.store, applied, ends⟩
  unfold batch
  rw [scratch_ok]
  constructor
  · intro committed
    obtain ⟨writer, wrote, committed⟩ := bind_ok.mp committed
    cases committed
    rw [applyAll_query] at wrote
    obtain ⟨last, straight, buffers⟩ :=
      (Buffers.follows due).applyAll_of_all tables.keyed started wrote
    obtain ⟨final, ends, there, marks, -⟩ := (Store.Alike.follows store.builtTo
      traced.store.builtTo _ fun _ => True).applyAll_of_all (fun _ _ _ => trivial)
      ⟨alike, rfl, rfl⟩ straight
    refine ⟨final, onward.mpr ends, ?_⟩
    have flushed : writer.flush.store = last := buffers.flushed
    rw [flushed]
    exact commit_eq folded there marks
  · rintro ⟨final, passed, rfl⟩
    obtain ⟨last, straight, there, -, marks⟩ := (Store.Alike.follows traced.store.builtTo
      store.builtTo _ fun _ => True).applyAll_of_all (fun _ _ _ => trivial)
      ⟨⟨alike.keys.symm, alike.cells.symm⟩, rfl, rfl⟩ (onward.mp passed)
    obtain ⟨writer, wrote, buffers⟩ :=
      (Buffers.followed due).applyAll_of_all tables.keyed started straight
    refine bind_ok.mpr ⟨writer, (applyAll_query _ _).trans wrote, congrArg Except.ok ?_⟩
    have flushed : writer.flush.store = last := buffers.flushed
    rw [flushed]
    exact commit_eq folded ⟨there.keys.symm, there.cells.symm⟩ marks

/-- A batch moves no column that is behind. -/
theorem builtTo_applyBatch {due : Pending Cell → Bool} {records : List Record} {head : Nat}
    {next : Store layout} (applied : applyBatch due tables store records head = .ok next)
    {column : Column} (behind : column ∈ store.behind) :
    next.builtTo column = store.builtTo column := by
  obtain ⟨writer, wrote, committed⟩ := bind_ok.mp applied
  cases committed
  obtain ⟨same, _, rfl, -, -, marks⟩ := (Writer.follows_marks due store.builtTo _
    fun _ => True).applyAll_of_all (fun _ _ _ => trivial) ⟨rfl, rfl, Writer.ensured_of_fresh store none, rfl⟩ wrote
  have flushed : writer.flush.store.builtTo = store.builtTo := marks
  refine (Store.builtTo_markAll column).trans ?_
  rw [flushed, if_neg]
  intro caughtUp
  obtain ⟨-, late⟩ := List.mem_filter.mp behind
  obtain ⟨-, soon⟩ := List.mem_filter.mp caughtUp
  obtain ⟨at₁, built, late⟩ := (Option.any_eq_true _ _).mp late
  obtain ⟨at₂, builtToo, soon⟩ := (Option.any_eq_true _ _).mp soon
  cases built.symm.trans builtToo
  exact absurd (of_decide_eq_true late) (Nat.not_lt.mpr (of_decide_eq_true soon))

end Batch

/-! ## A backfill goes back to it -/

section Backfill

variable {tables : Tables Record layout} {log : List Record} {store : Store layout}

/-- A replay starts with the rebuilt columns at their seed and nothing minted. -/
theorem Replays.start (tables : Tables Record layout) (store : Store layout)
    (folds : List Column) :
    Replays tables folds (store.resetAll folds) ⟨.blank layout, fun _ => ∅⟩
      { store := store.resetAll folds, replay := some { only := folds } } where
  beside := by
    refine ⟨_, rfl, rfl, ?_, fun _ _ => rfl⟩
    intro column _ _ key value read
    have seed : (Store.blank layout).readCell column key = .ok (layout.seed column) :=
      layout.untouched column
    exact Except.ok.inj (seed.symm.trans read)
  rebuilt := by
    intro column member
    funext key
    exact (Store.cells_resetAll column key).trans (if_pos member)
  kept _ _ := rfl
  rows _ _ member := member
  bound _ _ member := .inl member
  covers _ _ key member := absurd member (OrderedSet.not_mem_empty key)
  accounts := by
    constructor
    · intro table key member
      exact absurd member (OrderedSet.not_mem_empty key)
    · intro table key
      simp [Store.blank]
  ensured := Writer.ensured_of_fresh _ _
  marks := ⟨rfl, rfl⟩

/-- A backfill replays the columns that are behind from where a fold from scratch starts. -/
theorem backfill_ok (due : Pending Cell → Bool) (late : store.behind.isEmpty = false)
    {traced : Traced layout} (traces : applyAll Traced.sink layout.seed tables.arms
      (log.take store.checkpoint) ⟨.blank layout, fun _ => ∅⟩ = .ok traced) :
    ∃ writer, Replays tables store.behind (store.resetAll store.behind) traced writer ∧
      backfill due tables log store =
        .ok (writer.flushed.markAll store.behind store.checkpoint) := by
  rw [← applyAll_query] at traces
  obtain ⟨writer, wrote, replays⟩ :=
    (Replays.start tables store store.behind).applyAll due traces
  refine ⟨writer, replays, ?_⟩
  unfold backfill
  dsimp only
  rw [late]
  exact bind_ok.mpr ⟨writer, wrote, rfl⟩

/-- The columns put behind are the ones that are, unless nothing has been folded. -/
theorem behind_of_putBehind (folded : scratch tables log store.checkpoint = .ok store)
    {columns : List Column} {spoiled : Store layout} (put : PutBehind columns store spoiled)
    (column : Column) : column ∈ spoiled.behind ↔ column ∈ columns ∧ 0 < store.checkpoint := by
  obtain ⟨-, built⟩ := caughtUp_of_scratch folded
  unfold Store.behind
  rw [List.mem_filter, put.checkpoint, put.builtTo, built]
  by_cases member : column ∈ columns
  · simp [member, put.within column member]
  · by_cases inside : column ∈ layout.columns
    · simp [member, inside]
    · simp [member, inside]

/-- A store no record has been folded into has no rows. -/
theorem keys_of_scratch_zero (folded : scratch tables log store.checkpoint = .ok store)
    (none : store.checkpoint = 0) (table : Held) : store.keys table = ∅ := by
  obtain ⟨base, applied, same⟩ := scratch_ok.mp folded
  rw [none, List.take_zero] at applied
  cases applied
  rw [same]
  rfl

theorem backfill_restores (due : Pending Cell → Bool)
    (folded : scratch tables log store.checkpoint = .ok store) {columns : List Column}
    {spoiled : Store layout} (put : PutBehind columns store spoiled) :
    backfill due tables log spoiled = .ok store := by
  have late := behind_of_putBehind folded put
  obtain ⟨-, built⟩ := caughtUp_of_scratch folded
  cases empty : spoiled.behind.isEmpty with
  | true =>
      have none (column : Column) : column ∉ spoiled.behind := by
        rw [List.isEmpty_iff.mp empty]
        exact List.not_mem_nil
      unfold backfill
      rw [if_pos empty]
      refine congrArg Except.ok (Store.ext put.keys ?_ put.checkpoint ?_)
      · funext column key
        by_cases member : column ∈ columns
        · have unfolded : store.checkpoint = 0 :=
            Nat.eq_zero_of_not_pos fun some => none column ((late column).mpr ⟨member, some⟩)
          have absent : key ∉ store.keys column.held := by
            rw [keys_of_scratch_zero folded unfolded]
            exact OrderedSet.not_mem_empty key
          rw [store.absent column key absent, spoiled.absent column key (put.keys ▸ absent)]
        · rw [put.cells column member]
      · funext column
        rw [put.builtTo]
        split
        · next member =>
            have unfolded : store.checkpoint = 0 :=
              Nat.eq_zero_of_not_pos fun some => none column ((late column).mpr ⟨member, some⟩)
            rw [built, if_pos (put.within column member), unfolded]
        · rfl
  | false =>
      obtain ⟨first, member⟩ := List.exists_mem_of_ne_nil _ (by simpa using empty)
      have some : 0 < store.checkpoint := ((late first).mp member).2
      obtain ⟨base, applied, same⟩ := scratch_ok.mp folded
      obtain ⟨traced, traces, rfl, -⟩ := traced_of_scratch applied
      rw [← put.checkpoint] at traces
      obtain ⟨writer, replays, done⟩ := backfill_ok due empty traces
      rw [done]
      have alike : Store.Alike store traced.store := by
        rw [same]
        exact ⟨rfl, rfl⟩
      refine congrArg Except.ok (Store.ext ?_ ?_ ?_ ?_)
      · rw [Store.keys_markAll]
        funext table
        ext key
        have started : (spoiled.resetAll spoiled.behind).keys = store.keys :=
          Store.keys_resetAll.trans put.keys
        constructor
        · intro there
          rcases replays.bound table key there with there | there
          · rwa [started] at there
          · rwa [alike.keys]
        · intro there
          exact replays.rows table key (by rwa [started])
      · rw [Store.cells_markAll]
        funext column
        by_cases member : column ∈ spoiled.behind
        · rw [replays.rebuilt column member, alike.cells]
        · have apart : column ∉ columns := fun inside => member ((late column).mpr ⟨inside, some⟩)
          rw [replays.kept column member, ← put.cells column apart]
          funext key
          rw [Store.cells_resetAll, if_neg member]
      · rw [Store.checkpoint_markAll, replays.marks.1, Store.checkpoint_resetAll, put.checkpoint]
      · funext column
        rw [Store.builtTo_markAll, replays.marks.2, Store.builtTo_resetAll, put.builtTo]
        by_cases member : column ∈ columns
        · rw [if_pos ((late column).mpr ⟨member, some⟩), if_pos member, built,
            if_pos (put.within column member), put.checkpoint]
          rfl
        · rw [if_neg fun inside => member ((late column).mp inside).1, if_neg member]

end Backfill

/-! ## Every run -/

section Run

variable {tables : Tables Record layout}

/-- The store is the one folded from scratch to its own checkpoint. -/
structure Folded (tables : Tables Record layout) (state : Running Record layout) : Prop where
  reached : state.store.checkpoint ≤ state.log.length
  scratch : scratch tables state.log state.store.checkpoint = .ok state.store

theorem checkpoint_of_scratch {log : List Record} {head : Nat} {store : Store layout}
    (folded : scratch tables log head = .ok store) : store.checkpoint = head := by
  obtain ⟨base, -, rfl⟩ := scratch_ok.mp folded
  rfl

theorem folded_blank : Folded tables ⟨[], .blank layout⟩ := by
  constructor
  · exact Nat.le_refl 0
  · exact scratch_ok.mpr ⟨.blank layout, rfl, rfl⟩

theorem Folded.append {state : Running Record layout} (folded : Folded tables state)
    (record : Record) : Folded tables { state with log := state.log ++ [record] } := by
  constructor
  · rw [List.length_append]
    exact Nat.le_add_right_of_le folded.reached
  · have same : (state.log ++ [record]).take state.store.checkpoint =
        state.log.take state.store.checkpoint := List.take_append_of_le_length folded.reached
    unfold Folds.scratch
    rw [same]
    exact folded.scratch

/-- A transaction that commits at a head what is folded from scratch to it. -/
theorem Folded.settle {state : Running Record layout} (folded : Folded tables state)
    {result : Except Fault (Store layout)} {committed : Bool}
    (commits : ∀ next, result = .ok next → next.checkpoint ≤ state.log.length ∧
      Folds.scratch tables state.log next.checkpoint = .ok next) :
    Folded tables (state.settle committed result) := by
  cases result with
  | error fault => exact folded
  | ok next =>
      cases committed with
      | false => exact folded
      | true =>
          obtain ⟨reached, scratch⟩ := commits next rfl
          exact ⟨reached, scratch⟩

theorem Folded.step {state next : Running Record layout} {action : Action Record Cell}
    (folded : Folded tables state) (stepped : Folds.step tables state action = some next) :
    Folded tables next := by
  cases action with
  | append record =>
      cases stepped
      exact folded.append record
  | follow due head committed =>
      simp only [Folds.step] at stepped
      split at stepped
      · next within =>
          cases stepped
          refine folded.settle fun next applied => ?_
          have scratch := (applyBatch_iff due folded.scratch within.1).mp applied
          have reached := checkpoint_of_scratch scratch
          rw [reached]
          exact ⟨within.2, scratch⟩
      · cases stepped
  | backfill due committed =>
      cases stepped
      refine folded.settle fun next filled => ?_
      have still : PutBehind [] state.store state.store :=
        ⟨nofun, rfl, fun _ _ => rfl, rfl, fun _ => rfl⟩
      cases (backfill_restores due folded.scratch still).symm.trans filled
      exact ⟨folded.reached, folded.scratch⟩

/-- In every run the store is the one folded from scratch to its checkpoint, and
a batch onward succeeds exactly when that does.  Any columns put behind are
restored by a backfill, with all else as it was; and no batch advances a column
that is behind. -/
theorem incremental_eq_scratch {actions : List (Action Record Cell)}
    {state : Running Record layout}
    (ran : run (step tables) ⟨[], .blank layout⟩ actions = some state) :
    scratch tables state.log state.store.checkpoint = .ok state.store ∧
    (∀ due head next, state.store.checkpoint ≤ head →
      (applyBatch due tables state.store
          (batch tables state.log state.store.checkpoint head) head = .ok next ↔
        scratch tables state.log head = .ok next)) ∧
    (∀ due columns spoiled, PutBehind columns state.store spoiled →
      backfill due tables state.log spoiled = .ok state.store) ∧
    ∀ due (store : Store layout) records head next column,
      applyBatch due tables store records head = .ok next → column ∈ store.behind →
        next.builtTo column = store.builtTo column := by
  have folded : Folded tables state :=
    run_invariant (Folded tables) (fun _ _ _ folded stepped => folded.step stepped)
      folded_blank ran
  refine ⟨folded.scratch, ?_, ?_, ?_⟩
  · intro due head next order
    exact applyBatch_iff due folded.scratch order
  · intro due columns spoiled put
    exact backfill_restores due folded.scratch put
  · intro due store records head next column applied behind
    exact builtTo_applyBatch applied behind

end Run

/-! ## Orders a customer had placed at the last closing -/

namespace Closings

inductive Event where
  | placed (customer : String)
  | closed

def placed : Column := ⟨"orders", "placed", false⟩

def closing : Column := ⟨"orders", "closing", false⟩

def orders : Layout Nat Nat where
  columns := [placed, closing]
  arity _ := 1
  seed _ := 0
  default _ := 0
  encode _ value := .ok value
  decode _ cell := .ok (some cell)
  written := by
    rintro _ value _ ⟨⟩
    rfl
  untouched _ := rfl

def placedArm : Arm Event Nat where
  column := placed
  reach := .pinned fun
    | .placed customer => some [customer]
    | .closed => none
  update _ _ was := .result (was + 1)

/-- A closing ranges over every customer, and looks up what each has placed. -/
def closingArm : Arm Event Nat where
  column := closing
  reach := .ranged fun
    | .placed _ => none
    | .closed => some []
  update _ key _ := .lookup placed key .result

def tables : Tables Event orders where
  arms := [placedArm, closingArm]
  query _ := true
  closure folds := if closing ∈ folds then placed :: folds else folds
  queried := nofun
  keyed _ _ _ := Nat.one_ne_zero
  rebuilt := by
    intro folds column member
    split
    · exact List.mem_cons_of_mem _ member
    · exact member
  reads := by
    rintro folds arm member inside column ⟨record, key, value, reads⟩
    simp only [List.mem_cons, List.not_mem_nil, or_false] at member
    rcases member with rfl | rfl
    · cases reads
    · have rebuilt : closing ∈ folds := by
        split at inside
        · assumption
        · exact inside
      rw [if_pos rebuilt]
      rcases reads with rfl | ⟨later, reads⟩
      · exact List.mem_cons_self
      · cases reads
  mints := by
    intro folds arm member ranges inside other memberOther pinned _
    simp only [List.mem_cons, List.not_mem_nil, or_false] at member memberOther
    rcases member with rfl | rfl
    · cases ranges
    · have rebuilt : closing ∈ folds := by
        split at inside
        · assumption
        · exact inside
      rcases memberOther with rfl | rfl
      · rw [if_pos rebuilt]
        exact List.mem_cons_self
      · cases pinned

/-- Two batches, the first of them cut short once. -/
def history : List (Action Event Nat) :=
  [.append (.placed "ada"), .append .closed, .follow flushDue 1 false, .follow flushDue 1 true,
    .append (.placed "ada"), .follow flushDue 3 true]

end Closings

open Closings in
theorem incremental_eq_scratch_of_closing :
    ∃ state, run (step tables) ⟨[], .blank orders⟩ history = some state ∧
      scratch tables state.log state.store.checkpoint = .ok state.store ∧
      (∀ due head next, state.store.checkpoint ≤ head →
        (applyBatch due tables state.store
            (batch tables state.log state.store.checkpoint head) head = .ok next ↔
          scratch tables state.log head = .ok next)) ∧
      (∀ due columns spoiled, PutBehind columns state.store spoiled →
        backfill due tables state.log spoiled = .ok state.store) ∧
      ∀ due (store : Store orders) records head next column,
        applyBatch due tables store records head = .ok next → column ∈ store.behind →
          next.builtTo column = store.builtTo column := by
  have ended : (run (step tables) ⟨[], .blank orders⟩ history).any (fun state =>
      decide (state.store.checkpoint = 3 ∧ state.store.cells placed ["ada"] = 2 ∧
        state.store.cells closing ["ada"] = 1)) = true := by decide
  obtain ⟨state, ran, -⟩ := (Option.any_eq_true _ _).mp ended
  exact ⟨state, ran, incremental_eq_scratch ran⟩

end Hekla.Folds
