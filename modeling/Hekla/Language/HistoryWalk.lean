import Mathlib.Algebra.Order.BigOperators.Group.List
import Hekla.Language.HistoryPages

/-!
# Following a history

A reader follows the mark of each page to the next while the log grows.  It is
dealt the entries that were there when it began, each once, newest first; and the
changes that they tell of one fold are all of its changes, each starting from what
the one before it ended with.
-/

namespace Hekla.Language.History

open Hekla.Library Hekla.Host Hekla.Reads

variable {spelling : Spelling} {language : Heklang}

/-- One record that changed something: of each fold, what it was and what it became. -/
structure Entry where
  position : Nat
  eventType : String
  instant : Int64
  changed : List (String × Json × Json)

def Entry.json (spelling : Spelling) (entry : Entry) : Json :=
  .obj [("position", .int entry.position),
    ("event", .obj [("type", .str entry.eventType),
      ("at", (spelling.rfc3339 entry.instant).elim .null .str)]),
    ("changed", .obj (entry.changed.map fun change =>
      (change.1, .obj [("before", change.2.1), ("after", change.2.2)])))]

/-- What an entry tells of one fold. -/
def Entry.changeOf (fold : String) (entry : Entry) : List (Nat × Json × Json) :=
  (entry.changed.filter fun change => change.1 = fold).map fun change => (entry.position, change.2)

section Entries

variable (source : Source language) (table : String)
  (columns : List (HistoryColumn spelling language))

/-- What a step tells a reader. -/
def told (step : Step language) : String × Json × Json :=
  match columns[step.column]? with
  | none => ("", .null, .null)
  | some column =>
      (column.fold, shown source table column.toFoldColumn step.before,
        shown source table column.toFoldColumn step.after)

def entryOf (block : List (Step language)) : Entry where
  position := (block.head?.map Step.position).getD 0
  eventType := (block.head?.map Step.eventType).getD ""
  instant := (block.head?.map Step.instant).getD 0
  changed := block.map (told source table columns)

end Entries

namespace Recorded

variable {source : Source language} {table : String} {parts : List (String × Reads.FieldMeta)}
  {key : FoldKey} {columns : List (HistoryColumn spelling language)}
  (recorded : Recorded source table parts key columns)

/-- The steps of a window, newest first, those of one record together. -/
def groups (window : Window) (head : Nat) : List (List (Step language)) :=
  blocks Step.position ((recorded.sorted head).filter window.admits)

def entries (window : Window) (head : Nat) : List Entry :=
  (recorded.groups window head).map (entryOf source table columns)

section Rendering

variable {recorded} {window : Window} {head : Nat} {block : List (Step language)}
  {step : Step language}

theorem mem_steps_of_mem_groups (member : block ∈ recorded.groups window head)
    (held : step ∈ block) : step ∈ recorded.steps head ∧ window.admits step = true := by
  have among : step ∈ (recorded.groups window head).flatten :=
    List.mem_flatten.mpr ⟨block, member, held⟩
  unfold groups at among
  rw [flatten_blocks] at among
  obtain ⟨listed, admitted⟩ := List.mem_filter.mp among
  exact ⟨recorded.mem_sorted.mp listed, admitted⟩

/-- The column of a step, and the step as that column has it. -/
theorem column_of_mem_steps (member : step ∈ recorded.steps head) :
    ∃ column, columns[step.column]? = some column ∧ column ∈ columns ∧
      Stepped source table column.toFoldColumn step.column (recorded.below column head) step ∧
      step ∈ recorded.stepsOf head (column, step.column) := by
  obtain ⟨column, listed, held⟩ := List.mem_flatMap.mp member
  have stepped := recorded.stepped listed step held
  obtain ⟨known, found⟩ := known_of_zipIdx listed
  have placed : step.column = column.2 := stepped.placed
  rw [placed]
  exact ⟨column.1, found, known, placed ▸ stepped, held⟩

/-- A column goes by the name of its fold. -/
theorem index_of_fold {one other : Nat} {column column' : HistoryColumn spelling language}
    (recorded : Recorded source table parts key columns) (found : columns[one]? = some column)
    (found' : columns[other]? = some column') (same : column.fold = column'.fold) : one = other := by
  have named : (columns.map HistoryColumn.fold)[one]? = (columns.map HistoryColumn.fold)[other]? := by
    rw [List.getElem?_map, List.getElem?_map, found, found']
    exact congrArg some same
  have within : one < (columns.map HistoryColumn.fold).length := by
    rw [List.length_map]
    exact (List.getElem?_eq_some_iff.mp found).1
  exact List.getElem?_inj within recorded.folds |>.mp named

theorem told_of_column {column : HistoryColumn spelling language}
    (found : columns[step.column]? = some column) :
    told source table columns step =
      (column.fold, shown source table column.toFoldColumn step.before,
        shown source table column.toFoldColumn step.after) := by
  unfold told
  rw [found]

/-- No entry tells of a fold twice. -/
theorem told_nodup (member : block ∈ recorded.groups window head) :
    (block.map fun step => (told source table columns step).1).Nodup := by
  have falls := blocks_fall ((recorded.sorted_falling head).filter window.admits)
  have together := falls.together block member
  have places : (block.map Step.place).Nodup := by
    have sorted : ((recorded.sorted head).map Step.place).Nodup :=
      ((ordered_perm newer Step.place _).map Step.place).nodup_iff.mpr (recorded.places_nodup head)
    have among : block.Sublist (recorded.sorted head) := by
      have whole : (recorded.groups window head).flatten.Sublist (recorded.sorted head) := by
        unfold groups
        rw [flatten_blocks]
        exact List.filter_sublist
      exact (List.sublist_flatten_of_mem member).trans whole
    exact sorted.sublist (among.map Step.place)
  rw [List.nodup_iff_pairwise_ne, List.pairwise_map] at places ⊢
  refine places.imp_of_mem ?_
  intro one other held held' apart same
  obtain ⟨column, found, -, -, -⟩ := column_of_mem_steps (mem_steps_of_mem_groups member held).1
  obtain ⟨column', found', -, -, -⟩ := column_of_mem_steps (mem_steps_of_mem_groups member held').1
  rw [told_of_column found, told_of_column found'] at same
  exact apart (Prod.ext (together one held other held') (recorded.index_of_fold found found' same))

theorem insertMember_new {name : String} {value : Json} {members : List (String × Json)}
    (absent : name ∉ members.map Prod.fst) :
    insertMember name value (.obj members) = .obj (members ++ [(name, value)]) := by
  unfold insertMember
  have kept : members.filter (fun member => member.1 != name) = members := by
    rw [List.filter_eq_self]
    intro member held
    exact bne_iff_ne.mpr fun same => absent (same ▸ List.mem_map_of_mem held)
  dsimp only
  rw [kept]

/-- What a record changed, column after column. -/
theorem changed_ok {steps : List (Step language)} {members : List (String × Json)}
    (known : ∀ step ∈ steps, step ∈ recorded.steps head)
    (distinct : (members.map Prod.fst ++
      steps.map fun step => (told source table columns step).1).Nodup) :
    steps.foldlM (changedBy source table columns) (.obj members) =
      .ok (.obj (members ++ (steps.map (told source table columns)).map fun change =>
        (change.1, .obj [("before", change.2.1), ("after", change.2.2)]))) := by
  induction steps generalizing members with
  | nil =>
      rw [List.map_nil, List.map_nil, List.append_nil]
      rfl
  | cons step rest ih =>
      obtain ⟨column, found, -, stepped, -⟩ := column_of_mem_steps (known step List.mem_cons_self)
      have names : told source table columns step =
          (column.fold, shown source table column.toFoldColumn step.before,
            shown source table column.toFoldColumn step.after) := told_of_column found
      rw [List.map_cons, names] at distinct
      have absent : column.fold ∉ members.map Prod.fst := fun there =>
        (List.nodup_append.mp distinct).2.2 _ there _ List.mem_cons_self rfl
      have first : changedBy source table columns (.obj members) step =
          .ok (.obj (members ++ [(column.fold, .obj
            [("before", shown source table column.toFoldColumn step.before),
              ("after", shown source table column.toFoldColumn step.after)])])) := by
        unfold changedBy
        rw [found]
        dsimp only
        rw [stepped.before, stepped.after]
        exact congrArg Except.ok (insertMember_new absent)
      refine bind_ok.mpr ⟨_, first, ?_⟩
      rw [ih (fun other listed => known other (List.mem_cons_of_mem _ listed)), List.map_cons, names,
        List.map_cons, List.append_assoc]
      · rfl
      · rw [List.map_append, List.append_assoc]
        exact distinct

/-- A record is rendered as its entry is. -/
theorem itemOf_ok (member : block ∈ recorded.groups window head) :
    itemOf source table columns block = .ok ((entryOf source table columns block).json spelling) := by
  have distinct := told_nodup member
  have known : ∀ step ∈ block, step ∈ recorded.steps head := fun step held =>
    (mem_steps_of_mem_groups member held).1
  cases block with
  | nil =>
      have falls := blocks_fall ((recorded.sorted_falling head).filter window.admits)
      exact absurd member falls.filled
  | cons first rest =>
      have whole : (first :: rest).foldlM (changedBy source table columns) (.obj []) =
          .ok (.obj ([] ++ ((first :: rest).map (told source table columns)).map fun change =>
            (change.1, .obj [("before", change.2.1), ("after", change.2.2)]))) :=
        changed_ok known distinct
      unfold itemOf
      exact bind_ok.mpr ⟨_, whole, rfl⟩

theorem position_lt (member : step ∈ recorded.steps head) : step.position < 2 ^ 64 := by
  obtain ⟨column, -, known, stepped, -⟩ := column_of_mem_steps member
  obtain ⟨visit, visited, same⟩ := List.mem_map.mp stepped.visited
  have bounded := recorded.bounded column known visit (List.mem_of_mem_filter visited)
  omega

theorem position_json {entry : Entry} (bounded : entry.position < 2 ^ 64) :
    ((entry.json spelling).get "position").bind asU64 = some entry.position := by
  have found : (entry.json spelling).get "position" = some (.int entry.position) := rfl
  rw [found, Option.bind_some]
  unfold asU64
  dsimp only
  rw [if_pos ⟨Int.natCast_nonneg _, by exact_mod_cast bounded⟩, Int.toNat_natCast]

theorem entry_position_lt {entry : Entry} (member : entry ∈ recorded.entries window head) :
    entry.position < 2 ^ 64 := by
  obtain ⟨block, listed, rfl⟩ := List.mem_map.mp member
  cases block with
  | nil =>
      have falls := blocks_fall ((recorded.sorted_falling head).filter window.admits)
      exact absurd listed falls.filled
  | cons first rest =>
      exact position_lt (mem_steps_of_mem_groups listed List.mem_cons_self).1

/-- A read to a head answers with the page that opens the entries of its window. -/
theorem read_ok (sound : source.Sound) (few : recorded.size head ≤ maxFolded) (window : Window) :
    read source table parts columns key window head =
      .ok ⟨opening Entry.position (Entry.json spelling) window.limit
        (recorded.entries window head), head⟩ := by
  have items : ((recorded.groups window head).take window.limit).mapM
      (itemOf source table columns) =
        .ok (((recorded.groups window head).take window.limit).map fun block =>
          (entryOf source table columns block).json spelling) :=
    mapM_ok fun block listed => itemOf_ok (List.mem_of_mem_take listed)
  unfold read
  refine bind_ok.mpr ⟨_, recorded.folded_ok sound few, ?_⟩
  refine bind_ok.mpr ⟨_, mapError_ok.mpr items, ?_⟩
  refine congrArg (fun page => Except.ok (HistoryPage.mk page head)) ?_
  unfold opening entries
  rw [List.length_map, ← List.map_take, List.map_map]
  refine congrArg (Page.mk _) ?_
  change (if window.limit < (recorded.groups window head).length then _ else none) = _
  split
  · rw [List.getLast?_map, List.getLast?_map]
    cases last : ((recorded.groups window head).take window.limit).getLast? with
    | none => rfl
    | some block =>
        have listed := List.mem_of_mem_take (List.mem_of_getLast? last)
        rw [Option.map_some, Option.map_some, Option.map_some, Option.bind_some]
        exact position_json (entry_position_lt (List.mem_map_of_mem listed))
  · rfl

end Rendering

/-! ## A reader -/

/-- What a reader asks of a page: how many entries it may hold, of a log that has grown by
then, though not beyond what a read folds. -/
structure Ask (recorded : Recorded source table parts key columns) (head : Nat) where
  limit : Nat
  grown : Nat
  positive : 0 < limit
  few : recorded.size (head + grown) ≤ maxFolded

/-- The page a reader is answered with, the first at a head, and any other later. -/
def page (recorded : Recorded source table parts key columns) (since : Option Nat) (head : Nat)
    (mark : Option Nat) (ask : Ask recorded head) : Except Unread (Page Json Nat) :=
  (read source table parts columns key ⟨mark, since, ask.limit⟩
    (if mark.isSome then head + ask.grown else head)).map HistoryPage.page

/-- All there is to deal to a reader who begins at a head. -/
def since (recorded : Recorded source table parts key columns) (since : Option Nat) (head : Nat) :
    List Entry :=
  recorded.entries { since } head

section Walking

variable {recorded} {head later : Nat}

theorem size_grown (grown : head ≤ later) : recorded.size head ≤ recorded.size later := by
  unfold size
  refine List.sum_le_sum fun column member => ?_
  obtain ⟨more, split, -⟩ := recorded.below_grown member grown
  rw [split, List.length_append]
  exact Nat.le_add_right _ _

/-- What comes below a position of the history is there whenever it is read. -/
theorem groups_below (grown : head ≤ later) {since : Option Nat} {limit : Nat}
    {done rest : List (List (Step language))}
    (split : recorded.groups { since } head = done ++ rest) {last : List (Step language)}
    (ended : done.getLast? = some last) {one : Step language} (member : one ∈ last) :
    recorded.groups ⟨some one.position, since, limit⟩ later = rest := by
  have falling := (recorded.sorted_falling head).filter (Window.admits { since })
  have listed : last ∈ recorded.groups { since } head :=
    split ▸ List.mem_append_left _ (List.mem_of_getLast? ended)
  have below : one.position ≤ head := by
    obtain ⟨column, found, known, -, held⟩ :=
      column_of_mem_steps (mem_steps_of_mem_groups listed member).1
    exact recorded.position_le (List.mem_zipIdx_iff_getElem?.mpr found) held
  have narrowed : (recorded.sorted later).filter (Window.admits ⟨some one.position, since, limit⟩) =
      ((recorded.sorted head).filter (Window.admits { since })).filter
        fun step => step.position < one.position := by
    rw [← recorded.sorted_grown grown, List.filter_filter, List.filter_filter]
    refine List.filter_congr fun step _ => ?_
    unfold Window.admits
    by_cases under : step.position < one.position
    · have within : step.position ≤ head := by omega
      simp [under, within]
    · simp [under]
  unfold groups
  rw [narrowed]
  exact blocks_below falling split ended member

theorem entries_resume (sound : source.Sound) (since : Option Nat) (head : Nat) :
    Resumes Entry.position (fun _ => Entry.json spelling) Ask.limit (recorded.page since head)
      (recorded.since since head) := by
  intro done rest ask split more
  cases last : done.getLast? with
  | none =>
      have few := (size_grown (Nat.le_add_right head ask.grown)).trans ask.few
      rw [List.getLast?_eq_none_iff.mp last, List.nil_append] at split
      unfold page
      rw [Option.map_none, if_neg (by rintro ⟨⟩), read_ok sound few, ← split]
      rfl
  | some entry =>
      obtain ⟨doneBlocks, restBlocks, blocks, rfl, rfl⟩ := List.map_eq_append_iff.mp split
      rw [List.getLast?_map, Option.map_eq_some_iff] at last
      obtain ⟨block, ended, rfl⟩ := last
      have listed : block ∈ recorded.groups { since } head :=
        blocks ▸ List.mem_append_left _ (List.mem_of_getLast? ended)
      cases block with
      | nil =>
          have falls := blocks_fall ((recorded.sorted_falling head).filter (Window.admits { since }))
          exact absurd listed falls.filled
      | cons first others =>
          have below : recorded.groups ⟨some first.position, since, ask.limit⟩ (head + ask.grown) =
              restBlocks :=
            groups_below (Nat.le_add_right head ask.grown) blocks ended List.mem_cons_self
          unfold page
          rw [Option.map_some, Option.isSome_some, if_pos rfl, read_ok sound ask.few]
          unfold entries
          change Except.ok (opening Entry.position _ ask.limit ((recorded.groups
            ⟨some first.position, since, ask.limit⟩ (head + ask.grown)).map _)) = _
          rw [below]

/-- What the entries of a window tell of one fold are its steps there. -/
theorem changes_of_entries {window : Window} {column : HistoryColumn spelling language × Nat}
    (member : column ∈ columns.zipIdx) :
    (recorded.entries window head).flatMap (Entry.changeOf column.1.fold) =
      (((recorded.sorted head).filter fun step => step.column = column.2).filter window.admits).map
        fun step => (step.position, shown source table column.1.toFoldColumn step.before,
          shown source table column.1.toFoldColumn step.after) := by
  have falls := blocks_fall ((recorded.sorted_falling head).filter window.admits)
  have found := (known_of_zipIdx member).2
  have told_ : ∀ block ∈ recorded.groups window head,
      (entryOf source table columns block).changeOf column.1.fold =
        (block.filter fun step => step.column = column.2).map fun step =>
          (step.position, shown source table column.1.toFoldColumn step.before,
            shown source table column.1.toFoldColumn step.after) := by
    intro block listed
    have mine : ∀ step ∈ block,
        decide ((told source table columns step).1 = column.1.fold) = decide (step.column = column.2) := by
      intro step held
      obtain ⟨other, found', -, -, -⟩ := column_of_mem_steps (mem_steps_of_mem_groups listed held).1
      rw [told_of_column found', decide_eq_decide]
      refine ⟨fun same => recorded.index_of_fold found' found same, fun same => ?_⟩
      rw [same, found] at found'
      rw [Option.some.inj found']
    have place : ∀ step ∈ block, (entryOf source table columns block).position = step.position := by
      intro step held
      cases block with
      | nil => cases held
      | cons first rest => exact falls.together _ listed first List.mem_cons_self step held
    unfold Entry.changeOf
    change ((block.map (told source table columns)).filter _).map _ = _
    rw [List.filter_map, List.map_map]
    rw [List.filter_congr (q := fun step => decide (step.column = column.2)) mine]
    refine List.map_congr_left fun step held => ?_
    obtain ⟨held, mine_⟩ := List.mem_filter.mp held
    rw [← of_decide_eq_true mine_] at found
    rw [Function.comp_apply, told_of_column found, place step held]
  have whole : (recorded.groups window head).flatten = (recorded.sorted head).filter window.admits :=
    flatten_blocks
  unfold entries
  rw [List.flatMap_map, List.flatMap_congr told_, ← List.map_flatMap, ← List.filter_flatMap,
    List.flatMap_id', whole, List.filter_filter, List.filter_filter]
  refine congrArg _ (List.filter_congr fun step _ => Bool.and_comm _ _)

/-- What the entries since a position tell of one fold are all its changes since then. -/
theorem changes_since (sound : source.Sound) (since : Option Nat)
    {column : HistoryColumn spelling language} (known : column ∈ columns) :
    (recorded.since since head).flatMap (Entry.changeOf column.fold) =
      ((recorded.changed column head).filter fun change => since.all (· ≤ change.1)).reverse := by
  obtain ⟨index, found⟩ := List.getElem?_of_mem known
  have member : (column, index) ∈ columns.zipIdx := List.mem_zipIdx_iff_getElem?.mpr found
  have still := (alike_equivalence sound table column.toFoldColumn).refl column.seed
  have collected := stepsFrom_changes sound index still (recorded.below column head)
  unfold Recorded.since changed
  rw [changes_of_entries member, recorded.sorted_column head member, ← collected, List.filter_map,
    List.filter_reverse, List.map_reverse]
  rfl

theorem entries_falling (window : Window) :
    ((recorded.entries window head).map Entry.position).Pairwise (· > ·) := by
  have falls := blocks_fall ((recorded.sorted_falling head).filter window.admits)
  unfold entries
  rw [List.map_map, List.pairwise_map]
  refine falls.falling.imp_of_mem ?_
  intro block next member member' less
  cases block with
  | nil => exact absurd member falls.filled
  | cons first rest =>
      cases next with
      | nil => exact absurd member' falls.filled
      | cons other more => exact less first List.mem_cons_self other List.mem_cons_self

theorem entries_changed (window : Window) :
    ∀ entry ∈ recorded.entries window head, entry.changed ≠ [] := by
  have falls := blocks_fall ((recorded.sorted_falling head).filter window.admits)
  intro entry member
  obtain ⟨block, listed, rfl⟩ := List.mem_map.mp member
  intro none_
  exact falls.filled (List.map_eq_nil_iff.mp none_ ▸ listed)

end Walking

end Recorded

/-- A reader who follows the pages of a history, while the log grows, is dealt each record
that changed something once, newest first; and the changes told of a fold are all of its
changes, in one chain from its seed to what its column serves. -/
theorem histories_dealt {source : Source language} {table : String}
    {parts : List (String × Reads.FieldMeta)} {key : FoldKey}
    {columns : List (HistoryColumn spelling language)} (sound : source.Sound)
    (recorded : Recorded source table parts key columns) (since : Option Nat) (head : Nat)
    (asks : List (recorded.Ask head)) :
    Dealt Entry.position (fun _ => Entry.json spelling) Recorded.Ask.limit asks
      (recorded.since since head) (walk (recorded.page since head) none asks) ∧
    ((recorded.since since head).map Entry.position).Pairwise (· > ·) ∧
    (∀ entry ∈ recorded.since since head, entry.changed ≠ []) ∧
    ∀ column ∈ columns,
      (recorded.since since head).flatMap (Entry.changeOf column.fold) =
        ((recorded.changed column head).filter fun change => since.all (· ≤ change.1)).reverse ∧
      Linked (shown source table column.toFoldColumn column.seed) (recorded.changed column head)
        (shown source table column.toFoldColumn (latest column.seed
          ((recorded.below column head).map fun visit => (visit.1 + 1, visit.2)))) := by
  refine ⟨walk_dealt (Recorded.entries_resume sound since head) fun ask _ => ask.positive, Recorded.entries_falling _,
    Recorded.entries_changed _, fun column known => ?_⟩
  have same : ∀ one other, Alike source table column.toFoldColumn one other →
      shown source table column.toFoldColumn one = shown source table column.toFoldColumn other :=
    fun _ _ alike => shown_of_alike sound alike
  exact ⟨Recorded.changes_since sound since known, linked_changes same _ _⟩

/-! ## A task and its standing -/

deriving instance DecidableEq for Value

/-- A language of words. -/
def words : Heklang where
  Plain := String
  Ty := Unit
  json := .str
  fromJson
    | .str word, _ => .ok (.plain word)
    | _, _ => .error "a word is a text"
  fromSealed word _ := .ok (.plain word)

instance : DecidableEq words.Plain := inferInstanceAs (DecidableEq String)

def wordScalars : Scalars words where
  int number := toString number.toInt
  flag held := if held then "yes" else "no"
  uuid word := word
  timestamp micros := toString micros.toInt
  str word := word

def taskStanding : HistoryColumn fortyTwo words where
  name := "standing"
  field := { kind := .text none }
  ty := ()
  seed := .plain "free"
  fits := .plain _ rfl (.text none "free")
  reads := rfl
  documented := by rintro ⟨⟩
  unsealed := fun personal => absurd rfl personal
  absent := by rintro ⟨⟩
  fold := "Standing"
  args := ["task"]

/-- A task that is taken, renamed while it is, and freed again. -/
def taskVisits : Visits words := [(0, .plain "taken"), (2, .plain "taken"), (3, .plain "free")]

def taskLog : Source words where
  log position := ⟨["board", if position = 3 then "freed" else "taken"], 0⟩
  visits _ _ := .ok taskVisits
  same one other := decide (one = other)
  scalars := wordScalars
  keystore := none

theorem taskLog_sound : taskLog.Sound where
  equivalent := ⟨fun _ => decide_eq_true rfl, fun same => decide_eq_true (of_decide_eq_true same).symm,
    fun one other => decide_eq_true ((of_decide_eq_true one).trans (of_decide_eq_true other))⟩
  stored one other same _ _ _ := by rw [of_decide_eq_true (p := one = other) same]

def taskRecorded : Recorded taskLog "board" [("task", { kind := .text none })] ["mop"] [taskStanding] where
  visits _ := taskVisits
  folds := List.nodup_singleton _
  visited column member := by
    obtain rfl := List.mem_singleton.mp member
    exact ⟨[("task", .plain "mop")], rfl, rfl⟩
  rising _ _ := by decide
  bounded _ _ := by decide
  seeds column member := by
    obtain rfl := List.mem_singleton.mp member
    exact rfl
  shows column member visit visited := by
    obtain rfl := List.mem_singleton.mp member
    rcases visited with _ | ⟨_, _ | ⟨_, _ | ⟨_, ⟨⟩⟩⟩⟩ <;> rfl

/-- One entry a page, while the task is freed. -/
def taskAsks : List (taskRecorded.Ask 3) := [⟨1, 0, by decide, by decide⟩, ⟨1, 1, by decide, by decide⟩]

/-- The history of a task that is taken is that it was free. -/
theorem task_history_dealt :
    Dealt Entry.position (fun _ => Entry.json fortyTwo) Recorded.Ask.limit taskAsks
      (taskRecorded.since none 3) (walk (taskRecorded.page none 3) none taskAsks) ∧
    (taskRecorded.since none 3).flatMap (Entry.changeOf "Standing") =
      [(1, .str "free", .str "taken")] := by
  obtain ⟨dealt, -, -, told⟩ := histories_dealt taskLog_sound taskRecorded none 3 taskAsks
  exact ⟨dealt, (told taskStanding List.mem_cons_self).1.trans (by decide)⟩

end Hekla.Language.History
