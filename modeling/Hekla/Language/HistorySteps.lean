import Hekla.Language.History

/-!
# The changes of a column

What a read collects of a column are the changes of the fold's value, as its column
serves it.  A loop that holds on to the last value that it counted finds a change
exactly where a value is no longer alike to the one just before it; and what it has
found stays found as the log grows.
-/

namespace Hekla.Language.History

open Hekla.Library Hekla.Host Hekla.Reads
open Hekla.Derived (FieldKind)
open Hekla.Reads.Tables (rendered)

variable {spelling : Spelling} {language : Heklang} (source : Source language) (table : String)

/-- A value as a reader is shown it. -/
def shown (column : FoldColumn spelling language) (value : Value language.Plain) : Json :=
  (render table column value source.keystore).toOption.getD .null

/-- Whether a column does not change from a value to another: a sealed one is compared as it
is served. -/
def Alike (column : FoldColumn spelling language) (value held : Value language.Plain) : Prop :=
  if column.field.sealedUnder.isSome then shown source table column value = shown source table column held
  else source.same value held = true

instance (column : FoldColumn spelling language) : DecidableRel (Alike source table column) :=
  fun value held => by
    unfold Alike
    exact inferInstance

/-- Values that the language has for the same: they are stored alike, whatever column they
are stored in. -/
structure Source.Sound : Prop where
  equivalent : Equivalence fun one other => source.same one other = true
  stored : ∀ one other, source.same one other = true → ∀ (spelling : Spelling) (table : String)
    (column : FoldColumn spelling language), cellOf table column one = cellOf table column other

variable {source table} {column : FoldColumn spelling language} {one other : Value language.Plain}

/-- A value that a reader is shown. -/
def Shows (source : Source language) (table : String) (column : FoldColumn spelling language)
    (value : Value language.Plain) : Prop :=
  render table column value source.keystore = .ok (shown source table column value)

theorem shows_of_ok {value : Value language.Plain} {json : Json}
    (rendered : render table column value source.keystore = .ok json) : Shows source table column value := by
  unfold Shows shown
  rw [rendered]
  rfl

theorem shown_of_same (sound : source.Sound) (same : source.same one other = true) :
    shown source table column one = shown source table column other := by
  unfold shown render
  rw [sound.stored one other same]

theorem alike_of_same (sound : source.Sound) (same : source.same one other = true) :
    Alike source table column one other := by
  unfold Alike
  split
  · exact shown_of_same sound same
  · exact same

theorem shown_of_alike (sound : source.Sound) (alike : Alike source table column one other) :
    shown source table column one = shown source table column other := by
  unfold Alike at alike
  split at alike
  · exact alike
  · exact shown_of_same sound alike

theorem alike_equivalence (sound : source.Sound) (table : String) (column : FoldColumn spelling language) :
    Equivalence (Alike source table column) := by
  unfold Alike
  split
  · exact ⟨fun _ => rfl, Eq.symm, Eq.trans⟩
  · exact sound.equivalent

/-! ## The loop -/

variable (source table)

/-- What the loop holds on to after a record. -/
def next (held value : Value language.Plain) : Value language.Plain :=
  if source.same value held then held else value

def heldAfter (held : Value language.Plain) (visits : Visits language) : Value language.Plain :=
  visits.foldl (fun held visit => next source held visit.2) held

/-- What a read collects of a column that holds a value. -/
def stepsFrom (column : FoldColumn spelling language) (index : Nat) (held : Value language.Plain) :
    Visits language → List (Step language)
  | [] => []
  | (position, value) :: rest =>
      if Alike source table column value held then stepsFrom column index (next source held value) rest
      else ⟨position + 1, eventType (source.log position).path, (source.log position).instant, index, held,
        value⟩ :: stepsFrom column index (next source held value) rest

variable {source table}

theorem stepsFrom_append (index : Nat) (held : Value language.Plain) (visits later : Visits language) :
    stepsFrom source table column index held (visits ++ later) =
      stepsFrom source table column index held visits ++
        stepsFrom source table column index (heldAfter source held visits) later := by
  induction visits generalizing held with
  | nil => rfl
  | cons visit rest ih =>
      obtain ⟨position, value⟩ := visit
      rw [List.cons_append, stepsFrom, stepsFrom, ih]
      split
      · rfl
      · rfl

theorem stepsFrom_positions (index : Nat) (held : Value language.Plain) (visits : Visits language) :
    ((stepsFrom source table column index held visits).map Step.position).Sublist
      (visits.map fun visit => visit.1 + 1) := by
  induction visits generalizing held with
  | nil => exact .slnil
  | cons visit rest ih =>
      obtain ⟨position, value⟩ := visit
      rw [stepsFrom, List.map_cons]
      split
      · exact (ih _).cons _
      · exact (ih _).cons_cons _

/-- A step of a column, as the log and the column have it. -/
structure Stepped (source : Source language) (table : String) (column : FoldColumn spelling language)
    (index : Nat) (visits : Visits language) (step : Step language) : Prop where
  placed : step.column = index
  visited : step.position ∈ visits.map fun visit => visit.1 + 1
  named : step.eventType = eventType (source.log (step.position - 1)).path
  dated : step.instant = (source.log (step.position - 1)).instant
  before : Shows source table column step.before
  after : Shows source table column step.after

theorem Stepped.cons {index : Nat} {visit : Nat × Value language.Plain} {rest : Visits language}
    {step : Step language} (stepped : Stepped source table column index rest step) :
    Stepped source table column index (visit :: rest) step :=
  { stepped with visited := List.mem_cons_of_mem _ stepped.visited }

theorem shows_next {held value : Value language.Plain} (shows : Shows source table column held)
    (shows' : Shows source table column value) : Shows source table column (next source held value) := by
  unfold next
  split
  · exact shows
  · exact shows'

theorem mem_stepsFrom {index : Nat} {held : Value language.Plain} {visits : Visits language}
    (holds : Shows source table column held) (shows : ∀ visit ∈ visits, Shows source table column visit.2) :
    ∀ step ∈ stepsFrom source table column index held visits,
      Stepped source table column index visits step := by
  induction visits generalizing held with
  | nil =>
      intro step member
      cases member
  | cons visit rest ih =>
      obtain ⟨position, value⟩ := visit
      have first := shows _ List.mem_cons_self
      have further := ih (shows_next holds first) fun visit member => shows visit (List.mem_cons_of_mem _ member)
      rw [stepsFrom]
      intro step member
      split at member
      · exact (further step member).cons
      · rcases List.mem_cons.mp member with rfl | later
        · exact ⟨rfl, List.mem_cons_self, rfl, rfl, holds, first⟩
        · exact (further step later).cons

/-- The loop finds the changes of the value, though what it holds may be an older value
that is alike to it. -/
theorem stepsFrom_changes (sound : source.Sound) (index : Nat) {held before : Value language.Plain}
    (still : Alike source table column held before) (visits : Visits language) :
    (stepsFrom source table column index held visits).map (fun step =>
        (step.position, shown source table column step.before, shown source table column step.after)) =
      changes (Alike source table column) (shown source table column) before
        (visits.map fun visit => (visit.1 + 1, visit.2)) := by
  have equivalence := alike_equivalence sound table column
  induction visits generalizing held before with
  | nil => rfl
  | cons visit rest ih =>
      obtain ⟨position, value⟩ := visit
      have onward : Alike source table column (next source held value) value := by
        unfold next
        split
        · next same => exact equivalence.symm (alike_of_same sound same)
        · exact equivalence.refl value
      rw [stepsFrom, List.map_cons, changes]
      by_cases unmoved : Alike source table column value held
      · rw [if_pos unmoved, if_pos (equivalence.trans unmoved still)]
        exact ih onward
      · have moved : ¬ Alike source table column value before := fun alike =>
          unmoved (equivalence.trans alike (equivalence.symm still))
        rw [if_neg unmoved, if_neg moved, List.map_cons, ih onward, shown_of_alike sound still]

/-! ## What a read collects -/

variable {history : HistoryColumn spelling language} {index : Nat} {state : Visiting language}

theorem unmoved_ok {held value : Value language.Plain} (holds : Shows source table column held)
    (shows : Shows source table column value) :
    unmoved source table column held value =
      .ok (shown source table column value == shown source table column held) := by
  unfold unmoved
  rw [holds, shows]
  rfl

/-- One record adds the step that it makes, if it makes one. -/
theorem visitRecord_ok (sound : source.Sound) {position : Nat} {value : Value language.Plain}
    (few : state.folded + 1 ≤ maxFolded) (holds : Shows source table history.toFoldColumn state.held)
    (shows : Shows source table history.toFoldColumn value) :
    visitRecord source table history index state (position, value) =
      .ok ⟨state.folded + 1, next source state.held value,
        state.steps ++ stepsFrom source table history.toFoldColumn index state.held [(position, value)]⟩ := by
  have equivalence := alike_equivalence sound table history.toFoldColumn
  unfold visitRecord next
  dsimp only
  rw [if_neg (Nat.not_lt.mpr few), stepsFrom]
  by_cases same : source.same value state.held = true
  · rw [if_pos same, if_pos same, if_pos (alike_of_same sound same), stepsFrom, List.append_nil]
  · rw [if_neg same, if_neg same]
    by_cases personal : history.field.sealedUnder.isSome = true
    · rw [if_pos personal, unmoved_ok holds shows]
      have compared : Alike source table history.toFoldColumn value state.held ↔
          shown source table history.toFoldColumn value = shown source table history.toFoldColumn state.held := by
        unfold Alike
        rw [if_pos personal]
      by_cases alike : shown source table history.toFoldColumn value =
          shown source table history.toFoldColumn state.held
      · rw [if_pos (compared.mpr alike), beq_iff_eq.mpr alike, stepsFrom, List.append_nil]
      · rw [if_neg (fun alike' => alike (compared.mp alike')), beq_eq_false_iff_ne.mpr alike, stepsFrom]
        rfl
    · rw [if_neg personal]
      have moved_ : ¬ Alike source table history.toFoldColumn value state.held := by
        unfold Alike
        rw [if_neg personal]
        exact same
      rw [if_neg moved_, stepsFrom]
      rfl

/-- The records of a column, as long as they are not too many. -/
theorem visits_ok (sound : source.Sound) {visits : Visits language}
    (few : state.folded + visits.length ≤ maxFolded)
    (holds : Shows source table history.toFoldColumn state.held)
    (shows : ∀ visit ∈ visits, Shows source table history.toFoldColumn visit.2) :
    visits.foldlM (visitRecord source table history index) state =
      .ok ⟨state.folded + visits.length, heldAfter source state.held visits,
        state.steps ++ stepsFrom source table history.toFoldColumn index state.held visits⟩ := by
  induction visits generalizing state with
  | nil =>
      rw [stepsFrom, List.append_nil]
      rfl
  | cons visit rest ih =>
      obtain ⟨position, value⟩ := visit
      rw [List.length_cons] at few ⊢
      have first := shows _ List.mem_cons_self
      have split : stepsFrom source table history.toFoldColumn index state.held ((position, value) :: rest) =
          stepsFrom source table history.toFoldColumn index state.held [(position, value)] ++
            stepsFrom source table history.toFoldColumn index (next source state.held value) rest :=
        stepsFrom_append index state.held [(position, value)] rest
      refine bind_ok.mpr ⟨_, visitRecord_ok sound (by omega) holds first, ?_⟩
      rw [ih (by dsimp only; omega) (shows_next holds first)
        fun visit member => shows visit (List.mem_cons_of_mem _ member), split, List.append_assoc, Nat.add_assoc,
        Nat.add_comm 1]
      rfl

/-- Too many records are refused. -/
theorem visits_tooLong (sound : source.Sound) {visits : Visits language} (under : state.folded ≤ maxFolded)
    (many : maxFolded < state.folded + visits.length)
    (holds : Shows source table history.toFoldColumn state.held)
    (shows : ∀ visit ∈ visits, Shows source table history.toFoldColumn visit.2) :
    visits.foldlM (visitRecord source table history index) state = .error .tooLong := by
  induction visits generalizing state with
  | nil => exact absurd many (Nat.not_lt.mpr under)
  | cons visit rest ih =>
      obtain ⟨position, value⟩ := visit
      rw [List.length_cons] at many
      rw [List.foldlM_cons]
      by_cases few : state.folded + 1 ≤ maxFolded
      · have first := shows _ List.mem_cons_self
        rw [visitRecord_ok sound few holds first]
        exact ih few (by dsimp only; omega) (shows_next holds first)
          fun visit member => shows visit (List.mem_cons_of_mem _ member)
      · have refused : visitRecord source table history index state (position, value) = .error .tooLong :=
          if_pos (Nat.not_le.mp few)
        rw [refused]
        rfl

end Hekla.Language.History
