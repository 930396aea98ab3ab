import Mathlib.Data.List.Infix

/-!
# Replacing words in a text

Each occurrence of a word is replaced, from the left and apart from the one before it, and
then each of the next word in what that leaves.  The words occur in the text as it was:
those occurrences are taken that overlap none taken before them.  As long as nothing that
was written completes another word, the taken occurrences are what is replaced, and the
letters that lie in none of them are what is left.
-/

namespace Hekla.Library.Replacement

variable {α β γ : Type}

/-! ## One word -/

/-- A word stands at the front of some cells, each of which reads as a letter or not. -/
def Stands (read : β → Option α) (word : List α) (cells : List β) : Prop :=
  word.map some <+: cells.map read

instance [DecidableEq α] (read : β → Option α) (word : List α) (cells : List β) :
    Decidable (Stands read word cells) :=
  inferInstanceAs (Decidable (word.map some <+: cells.map read))

section Replaced

variable [DecidableEq α]

/-- Pass over some cells, and replace a word in the rest. -/
def replaceFrom (read : β → Option α) (word : List α) (written : List β) : Nat → List β → List β
  | _, [] => []
  | skip + 1, _ :: rest => replaceFrom read word written skip rest
  | 0, cell :: rest =>
      if Stands read word (cell :: rest) then
        written ++ replaceFrom read word written (word.length - 1) rest
      else cell :: replaceFrom read word written 0 rest

/-- Replace a word, wherever it stands in a text. -/
def replace (word written text : List α) : List α := replaceFrom some word written 0 text

end Replaced

section Word

variable {read : β → Option α} {word : List α} {written : List β}

theorem stands_nil (cells : List β) : Stands read [] cells := List.nil_prefix

theorem not_stands_end {letter : α} {rest : List α} : ¬Stands read (letter :: rest) ([] : List β) := by
  intro stands
  exact absurd (List.prefix_nil.mp stands) (List.cons_ne_nil _ _)

theorem stands_cons {letter : α} {rest : List α} {cell : β} {cells : List β} :
    Stands read (letter :: rest) (cell :: cells) ↔ read cell = some letter ∧ Stands read rest cells := by
  unfold Stands
  rw [List.map_cons, List.map_cons, List.cons_prefix_cons, eq_comm]

variable [DecidableEq α]

/-- A word that stands nowhere is not replaced. -/
theorem replaceFrom_of_none {cells : List β}
    (none_ : ∀ suffix, suffix <:+ cells → suffix ≠ [] → ¬Stands read word suffix) :
    replaceFrom read word written 0 cells = cells := by
  induction cells with
  | nil => rfl
  | cons cell rest ih =>
      unfold replaceFrom
      rw [if_neg (none_ _ (List.suffix_refl _) (List.cons_ne_nil _ _)), ih]
      intro suffix behind
      exact none_ suffix (behind.trans (List.suffix_cons _ _))

/-- What replaces a word depends on where it stands alone. -/
theorem replaceFrom_congr {read' : β → Option α} {cells : List β} (skip : Nat)
    (same : ∀ suffix, suffix <:+ cells → (Stands read word suffix ↔ Stands read' word suffix)) :
    replaceFrom read word written skip cells = replaceFrom read' word written skip cells := by
  induction cells generalizing skip with
  | nil => cases skip <;> rfl
  | cons cell rest ih =>
      have later (skip : Nat) := ih skip fun suffix behind =>
        same suffix (behind.trans (List.suffix_cons _ _))
      cases skip with
      | succ skip => exact later skip
      | zero =>
          unfold replaceFrom
          rw [later, later]
          exact if_congr (same _ (List.suffix_refl _)) rfl rfl

/-- Cells that read alike are replaced alike. -/
theorem map_replaceFrom {read' : γ → Option α} (f : β → γ) (same : ∀ cell, read' (f cell) = read cell)
    (skip : Nat) (cells : List β) :
    (replaceFrom read word written skip cells).map f =
      replaceFrom read' word (written.map f) skip (cells.map f) := by
  have alike (cells : List β) : Stands read' word (cells.map f) ↔ Stands read word cells := by
    have alike : read' ∘ f = read := funext same
    unfold Stands
    rw [List.map_map, alike]
  induction cells generalizing skip with
  | nil => cases skip <;> rfl
  | cons cell rest ih =>
      cases skip with
      | succ skip => exact ih skip
      | zero =>
          have here := alike (cell :: rest)
          rw [List.map_cons] at here ⊢
          unfold replaceFrom
          by_cases stands : Stands read word (cell :: rest)
          · rw [if_pos stands, if_pos (here.mpr stands), List.map_append, ih]
          · rw [if_neg stands, if_neg (mt here.mp stands), List.map_cons, ih]

/-- No word begins in a cell that does not read. -/
theorem replaceFrom_unread (some_ : word ≠ []) {front : List β}
    (unread : ∀ cell ∈ front, read cell = none) (cells : List β) :
    replaceFrom read word written 0 (front ++ cells) = front ++ replaceFrom read word written 0 cells := by
  obtain ⟨letter, rest, rfl⟩ := List.exists_cons_of_ne_nil some_
  induction front with
  | nil => rfl
  | cons cell front ih =>
      have blank : ¬Stands read (letter :: rest) (cell :: (front ++ cells)) := by
        rw [stands_cons, unread cell List.mem_cons_self]
        exact fun stands => nomatch stands.1
      rw [List.cons_append, replaceFrom, if_neg blank,
        ih fun cell member => unread cell (List.mem_cons_of_mem _ member), List.cons_append]

end Word

theorem stands_some {word text : List α} : Stands some word text ↔ word <+: text := by
  unfold Stands
  exact List.prefix_map_iff_of_injective fun _ _ same => Option.some.inj same

section Text

variable [DecidableEq α]

/-- A word that a text does not hold is not replaced in it. -/
theorem replace_of_absent {word text : List α} (written : List α) (absent : ¬word <:+: text) :
    replace word written text = text := by
  refine replaceFrom_of_none fun suffix behind _ stands => absent ?_
  exact (stands_some.mp stands).isInfix.trans behind.isInfix

end Text

/-! ## Occurrences -/

/-- Where a word stands in a text. -/
structure Occurrence where
  start : Nat
  stop : Nat
  deriving DecidableEq

namespace Occurrence

def holds (occurrence : Occurrence) (position : Nat) : Bool :=
  decide (occurrence.start ≤ position) && decide (position < occurrence.stop)

def meets (occurrence other : Occurrence) : Bool :=
  decide (occurrence.start < other.stop) && decide (other.start < occurrence.stop)

theorem holds_iff {occurrence : Occurrence} {position : Nat} :
    occurrence.holds position = true ↔ occurrence.start ≤ position ∧ position < occurrence.stop := by
  simp [holds]

theorem meets_iff {occurrence other : Occurrence} :
    occurrence.meets other = true ↔
      occurrence.start < other.stop ∧ other.start < occurrence.stop := by
  simp [meets]

end Occurrence

section Chosen

variable [DecidableEq α]

/-- The occurrences of a word in a text, whose first letter is at some position. -/
def occurrences (word : List α) : Nat → List α → List Occurrence
  | _, [] => []
  | position, letter :: rest =>
      if word <+: letter :: rest then
        ⟨position, position + word.length⟩ :: occurrences word (position + 1) rest
      else occurrences word (position + 1) rest

/-- Take an occurrence that overlaps none taken before it. -/
def take (taken : List Occurrence) (occurrence : Occurrence) : List Occurrence :=
  if taken.any occurrence.meets then taken else taken ++ [occurrence]

/-- The occurrences of words that are taken, word by word and each from the left. -/
def chosen (words : List (List α)) (text : List α) : List Occurrence :=
  words.foldl (fun taken word => (occurrences word 0 text).foldl take taken) []

theorem mem_occurrences {word text : List α} {position : Nat} {occurrence : Occurrence}
    (member : occurrence ∈ occurrences word position text) :
    position ≤ occurrence.start ∧ occurrence.stop = occurrence.start + word.length := by
  induction text generalizing position with
  | nil => cases member
  | cons letter rest ih =>
      unfold occurrences at member
      have later (member : occurrence ∈ occurrences word (position + 1) rest) :
          position ≤ occurrence.start ∧ occurrence.stop = occurrence.start + word.length :=
        (ih member).imp_left (Nat.le_of_succ_le)
      split at member
      · rcases List.mem_cons.mp member with rfl | member
        · exact ⟨Nat.le_refl _, rfl⟩
        · exact later member
      · exact later member

/-- Of some occurrences those that are taken come behind the ones taken before. -/
theorem foldl_take (taken some_ : List Occurrence) :
    ∃ more, some_.foldl take taken = taken ++ more ∧ ∀ occurrence ∈ more, occurrence ∈ some_ := by
  induction some_ generalizing taken with
  | nil => exact ⟨[], (List.append_nil _).symm, fun _ member => nomatch member⟩
  | cons first rest ih =>
      rw [List.foldl_cons]
      unfold take
      split
      · obtain ⟨more, same, among⟩ := ih taken
        exact ⟨more, same, fun occurrence member => List.mem_cons_of_mem _ (among _ member)⟩
      · obtain ⟨more, same, among⟩ := ih (taken ++ [first])
        refine ⟨first :: more, ?_, ?_⟩
        · rw [← List.append_cons] at same
          exact same
        · intro occurrence member
          rcases List.mem_cons.mp member with rfl | member
          · exact List.mem_cons_self
          · exact List.mem_cons_of_mem _ (among _ member)

theorem mem_foldl_chosen {words : List (List α)} {text : List α} {taken : List Occurrence}
    {occurrence : Occurrence}
    (member : occurrence ∈
      words.foldl (fun taken word => (occurrences word 0 text).foldl take taken) taken) :
    occurrence ∈ taken ∨ ∃ word ∈ words, occurrence ∈ occurrences word 0 text := by
  induction words generalizing taken with
  | nil => exact .inl member
  | cons word rest ih =>
      rw [List.foldl_cons] at member
      rcases ih member with member | ⟨other, listed, member⟩
      · obtain ⟨more, same, among⟩ := foldl_take taken (occurrences word 0 text)
        rw [same] at member
        rcases List.mem_append.mp member with member | member
        · exact .inl member
        · exact .inr ⟨word, List.mem_cons_self, among _ member⟩
      · exact .inr ⟨other, List.mem_cons_of_mem _ listed, member⟩

/-- What is taken is an occurrence of one of the words. -/
theorem mem_chosen {words : List (List α)} {text : List α} {occurrence : Occurrence}
    (member : occurrence ∈ chosen words text) :
    ∃ word ∈ words, occurrence ∈ occurrences word 0 text :=
  (mem_foldl_chosen member).resolve_left fun none_ => nomatch none_

end Chosen

/-! ## A text without the occurrences that are taken -/

/-- A text with the letters blanked out that some occurrences hold. -/
def mask (taken : List Occurrence) : Nat → List α → List (Option α)
  | _, [] => []
  | position, letter :: rest =>
      (if taken.any (·.holds position) then none else some letter) :: mask taken (position + 1) rest

/-- The positions that are not blank. -/
def standing : Nat → List (Option α) → List Nat
  | _, [] => []
  | position, none :: rest => standing (position + 1) rest
  | position, some _ :: rest => position :: standing (position + 1) rest

theorem standing_mask (taken : List Occurrence) (position : Nat) (text : List α) :
    standing position (mask taken position text) =
      (List.range' position text.length).filter fun position => !taken.any (·.holds position) := by
  induction text generalizing position with
  | nil => rfl
  | cons letter rest ih =>
      unfold mask
      rw [List.length_cons, List.range'_succ]
      cases held : taken.any (·.holds position) with
      | true =>
          rw [List.filter_cons_of_neg (by simp [held]), ← ih]
          rfl
      | false =>
          rw [List.filter_cons_of_pos (by simp [held]), ← ih]
          rfl

theorem standing_blank (length : Nat) (position : Nat) (rest : List (Option α)) :
    standing position (List.replicate length none ++ rest) = standing (position + length) rest := by
  induction length generalizing position with
  | zero => rfl
  | succ length ih =>
      rw [List.replicate_succ, List.cons_append]
      have next := ih (position + 1)
      rw [Nat.add_assoc, Nat.add_comm 1] at next
      exact next

/-- A word stands in what is left of a text where it occurs and nothing taken holds a
letter of it. -/
theorem stands_mask {taken : List Occurrence} {word text : List α} {position : Nat} :
    Stands id word (mask taken position text) ↔
      word <+: text ∧ ∀ place < word.length, taken.any (·.holds (position + place)) = false := by
  induction word generalizing text position with
  | nil => exact ⟨fun _ => ⟨List.nil_prefix, fun _ short => absurd short (Nat.not_lt_zero _)⟩,
      fun _ => stands_nil _⟩
  | cons letter word ih =>
      cases text with
      | nil => exact ⟨fun stands => absurd stands not_stands_end,
          fun stands => absurd (List.prefix_nil.mp stands.1) (List.cons_ne_nil _ _)⟩
      | cons first rest =>
          unfold mask
          rw [stands_cons, ih, List.cons_prefix_cons]
          have here : id (if taken.any (·.holds position) then none else some first) = some letter ↔
              taken.any (·.holds position) = false ∧ letter = first := by
            cases taken.any (·.holds position) with
            | true => simp
            | false => simp [eq_comm]
          rw [here]
          constructor
          · rintro ⟨⟨free, same⟩, front, others⟩
            refine ⟨⟨same, front⟩, ?_⟩
            intro place short
            cases place with
            | zero => exact free
            | succ place =>
                rw [Nat.add_comm place, ← Nat.add_assoc]
                exact others place (Nat.lt_of_succ_lt_succ short)
          · rintro ⟨⟨same, front⟩, others⟩
            refine ⟨⟨others 0 (Nat.succ_pos _), same⟩, front, ?_⟩
            intro place short
            rw [Nat.add_assoc, Nat.add_comm 1]
            exact others (place + 1) (Nat.succ_lt_succ short)

/-- An occurrence meets another where the other holds one of its letters. -/
theorem not_meets_iff {taken : List Occurrence}
    (proper : ∀ occurrence ∈ taken, occurrence.start < occurrence.stop) {position length : Nat}
    (long : 0 < length) :
    taken.any (Occurrence.meets ⟨position, position + length⟩) = false ↔
      ∀ place < length, taken.any (·.holds (position + place)) = false := by
  simp only [List.any_eq_false, Occurrence.meets_iff, Occurrence.holds_iff]
  constructor
  · intro apart place short occurrence member held
    exact apart occurrence member ⟨by omega, by omega⟩
  · intro apart occurrence member meets
    have nonempty := proper occurrence member
    rcases Nat.le_total occurrence.start position with before | after
    · exact apart 0 long occurrence member ⟨before, meets.1⟩
    · have place : position + (occurrence.start - position) = occurrence.start := by omega
      refine apart (occurrence.start - position) (by omega) occurrence member ?_
      rw [place]
      exact ⟨Nat.le_refl _, nonempty⟩

/-- An occurrence that is taken is blank. -/
theorem mask_taken {taken : List Occurrence} {text : List α} {position length : Nat}
    (held : ∀ place < length, taken.any (·.holds (position + place)) = true)
    (long : length ≤ text.length) :
    mask taken position text =
      List.replicate length none ++ (mask taken position text).drop length := by
  induction length generalizing text position with
  | zero => rfl
  | succ length ih =>
      cases text with
      | nil => exact absurd long (Nat.not_succ_le_zero _)
      | cons letter rest =>
          unfold mask
          have here := held 0 (Nat.succ_pos _)
          rw [Nat.add_zero] at here
          have later : ∀ place < length, taken.any (·.holds (position + 1 + place)) = true := by
            intro place short
            rw [Nat.add_assoc, Nat.add_comm 1]
            exact held (place + 1) (Nat.succ_lt_succ short)
          rw [if_pos here, List.replicate_succ, List.cons_append, List.drop_succ_cons,
            ← ih later (Nat.le_of_succ_le_succ long)]

section Scan

variable [DecidableEq α]

/-- An occurrence at the front that overlaps a taken one is not taken. -/
theorem foldl_take_met {word rest : List α} {letter : α} {position : Nat} {taken : List Occurrence}
    (met : word <+: letter :: rest →
      taken.any (Occurrence.meets ⟨position, position + word.length⟩) = true) :
    (occurrences word position (letter :: rest)).foldl take taken =
      (occurrences word (position + 1) rest).foldl take taken := by
  rw [occurrences]
  split
  · next front => rw [List.foldl_cons, take, if_pos (met front)]
  · rfl

/-- One that overlaps none is. -/
theorem foldl_take_free {word rest : List α} {letter : α} {position : Nat} {taken : List Occurrence}
    (front : word <+: letter :: rest)
    (free : taken.any (Occurrence.meets ⟨position, position + word.length⟩) = false) :
    (occurrences word position (letter :: rest)).foldl take taken =
      (occurrences word (position + 1) rest).foldl take
        (taken ++ [⟨position, position + word.length⟩]) := by
  rw [occurrences, if_pos front, List.foldl_cons, take, free, if_neg Bool.false_ne_true]

/-- The occurrences past a position, and those that end at it, do not hold it. -/
theorem any_holds_foldl {word rest : List α} {position : Nat} {taken scanned : List Occurrence}
    (behind : ∀ occurrence ∈ scanned, occurrence.stop ≤ position) :
    ((occurrences word (position + 1) rest).foldl take (taken ++ scanned)).any (·.holds position) =
      taken.any (·.holds position) := by
  obtain ⟨more, same, among⟩ := foldl_take (taken ++ scanned) (occurrences word (position + 1) rest)
  have old : scanned.any (·.holds position) = false := by
    rw [List.any_eq_false]
    intro occurrence member held
    exact absurd (Occurrence.holds_iff.mp held).2 (Nat.not_lt.mpr (behind occurrence member))
  have new : more.any (·.holds position) = false := by
    rw [List.any_eq_false]
    intro occurrence member held
    exact absurd (mem_occurrences (among occurrence member)).1
      (Nat.not_le.mpr (Nat.lt_succ_of_le (Occurrence.holds_iff.mp held).1))
  rw [same, List.any_append, List.any_append, old, new, Bool.or_false, Bool.or_false]

omit [DecidableEq α] in
/-- An occurrence that was taken is blank, whatever is taken after it. -/
theorem mask_foldl_take {word text : List α} {position : Nat} {taken some_ : List Occurrence}
    (member : ⟨position, position + word.length⟩ ∈ taken) (front : word <+: text) :
    mask (some_.foldl take taken) position text =
      List.replicate word.length none ++ (mask (some_.foldl take taken) position text).drop word.length := by
  obtain ⟨more, same, _⟩ := foldl_take taken some_
  refine mask_taken ?_ front.length_le
  intro place short
  rw [same]
  refine List.any_eq_true.mpr ⟨⟨position, position + word.length⟩, List.mem_append_left _ member, ?_⟩
  exact Occurrence.holds_iff.mpr ⟨Nat.le_add_right _ _, Nat.add_lt_add_left short _⟩

/-- To blank out a word, each occurrence from the left, is to take its occurrences. -/
theorem replaceFrom_mask {word : List α} (some_ : word ≠ []) {taken : List Occurrence}
    (proper : ∀ occurrence ∈ taken, occurrence.start < occurrence.stop) (text : List α)
    (position skip : Nat) (scanned : List Occurrence)
    (behind : ∀ occurrence ∈ scanned, occurrence.stop ≤ position + skip)
    (within : 0 < skip → ∃ occurrence ∈ scanned,
      occurrence.start ≤ position ∧ occurrence.stop = position + skip) :
    replaceFrom id word (List.replicate word.length none) skip (mask taken position text) =
      (mask ((occurrences word position text).foldl take (taken ++ scanned)) position text).drop
        skip := by
  have long := List.length_pos_iff.mpr some_
  induction text generalizing position skip scanned with
  | nil => cases skip <;> rfl
  | cons letter rest ih =>
      cases skip with
      | succ skip =>
          -- The word standing here, if it does, overlaps the one that is passed over.
          obtain ⟨passing, listed, before, ends⟩ := within (Nat.succ_pos _)
          have met : (taken ++ scanned).any
              (Occurrence.meets ⟨position, position + word.length⟩) = true := by
            refine List.any_eq_true.mpr ⟨passing, List.mem_append_right _ listed, ?_⟩
            exact Occurrence.meets_iff.mpr ⟨by dsimp only; omega, by dsimp only; omega⟩
          have next : position + 1 + skip = position + (skip + 1) := by omega
          rw [foldl_take_met fun _ => met]
          refine ih (position + 1) skip scanned ?_ ?_
          · rw [next]
            exact behind
          · intro _
            exact ⟨passing, listed, Nat.le_succ_of_le before, next ▸ ends⟩
      | zero =>
          rw [Nat.add_zero] at behind
          have clear : scanned.any (Occurrence.meets ⟨position, position + word.length⟩) = false := by
            rw [List.any_eq_false]
            intro occurrence member meets
            exact absurd (Occurrence.meets_iff.mp meets).1 (Nat.not_lt.mpr (behind occurrence member))
          have both : (taken ++ scanned).any (Occurrence.meets ⟨position, position + word.length⟩) =
              taken.any (Occurrence.meets ⟨position, position + word.length⟩) := by
            rw [List.any_append, clear, Bool.or_false]
          by_cases stands : Stands id word (mask taken position (letter :: rest))
          · obtain ⟨front, unheld⟩ := stands_mask.mp stands
            have free := both.trans ((not_meets_iff proper long).mpr unheld)
            have ends : position + 1 + (word.length - 1) = position + word.length := by omega
            have later := ih (position + 1) (word.length - 1)
              (scanned ++ [⟨position, position + word.length⟩]) (by
                rw [ends]
                intro occurrence member
                rcases List.mem_append.mp member with member | member
                · exact Nat.le_trans (behind occurrence member) (Nat.le_add_right _ _)
                · rw [List.mem_singleton.mp member]) (by
                intro _
                exact ⟨_, List.mem_append_right _ List.mem_cons_self, Nat.le_succ _, ends.symm⟩)
            rw [← List.append_assoc] at later
            have step : replaceFrom id word (List.replicate word.length none) 0
                (mask taken position (letter :: rest)) =
                List.replicate word.length none ++
                  replaceFrom id word (List.replicate word.length none) (word.length - 1)
                    (mask taken (position + 1) rest) := if_pos stands
            rw [step, later, foldl_take_free front free, List.drop_zero,
              mask_foldl_take (List.mem_append_right _ List.mem_cons_self) front]
            obtain ⟨length, size⟩ := Nat.exists_eq_add_of_lt long
            rw [size, Nat.zero_add]
            rfl
          · have met : word <+: letter :: rest → (taken ++ scanned).any
                (Occurrence.meets ⟨position, position + word.length⟩) = true := by
              intro front
              refine both.trans ((Bool.not_eq_false _).mp fun apart => stands ?_)
              exact stands_mask.mpr ⟨front, (not_meets_iff proper long).mp apart⟩
            have step : replaceFrom id word (List.replicate word.length none) 0
                (mask taken position (letter :: rest)) =
                (if taken.any (·.holds position) then none else some letter) ::
                  replaceFrom id word (List.replicate word.length none) 0
                    (mask taken (position + 1) rest) := if_neg stands
            have later := ih (position + 1) 0 scanned
              (fun occurrence member => Nat.le_succ_of_le (behind occurrence member))
              fun none_ => absurd none_ (Nat.lt_irrefl 0)
            rw [step, later, foldl_take_met met, List.drop_zero, List.drop_zero]
            conv_rhs => rw [mask, any_holds_foldl behind]

/-- Occurrences of a word that has letters hold some. -/
theorem proper_foldl_take {word : List α} (some_ : word ≠ []) (text : List α)
    {taken : List Occurrence} (proper : ∀ occurrence ∈ taken, occurrence.start < occurrence.stop) :
    ∀ occurrence ∈ (occurrences word 0 text).foldl take taken, occurrence.start < occurrence.stop := by
  obtain ⟨more, same, among⟩ := foldl_take taken (occurrences word 0 text)
  rw [same]
  intro occurrence member
  rcases List.mem_append.mp member with member | member
  · exact proper occurrence member
  · rw [(mem_occurrences (among occurrence member)).2]
    exact Nat.lt_add_of_pos_right (List.length_pos_iff.mpr some_)

end Scan

/-! ## A text that is rewritten -/

/-- A letter, and the position it has in the text at first if it is one of its letters. -/
abbrev Cell (α : Type) := α × Option Nat

def Cell.letter (cell : Cell α) : Option α := some cell.1

/-- The letter of a cell that is of the text as it was. -/
def Cell.original (cell : Cell α) : Option α := cell.2.map fun _ => cell.1

/-- The letters of a text, each with its position. -/
def cells : Nat → List α → List (Cell α)
  | _, [] => []
  | position, letter :: rest => (letter, some position) :: cells (position + 1) rest

theorem map_cells (position : Nat) (text : List α) : (cells position text).map Prod.fst = text := by
  induction text generalizing position with
  | nil => rfl
  | cons letter rest ih => exact congrArg (letter :: ·) (ih (position + 1))

/-- Letters that are written for others. -/
def put (written : List α) : List (Cell α) := written.map fun letter => (letter, none)

/-- A rewritten text: letters that were left where they were, and words that are shown in the
place of the ones that are blank. -/
inductive Written (shown : List (List α)) : Nat → List (Option α) → List (Cell α) → Prop where
  | nil {position : Nat} : Written shown position [] []
  | kept {position : Nat} {letter : α} {blanked : List (Option α)} {rest : List (Cell α)} :
      Written shown (position + 1) blanked rest →
        Written shown position (some letter :: blanked) ((letter, some position) :: rest)
  | replaced {position length : Nat} {written : List α} {blanked : List (Option α)}
      {rest : List (Cell α)} :
      0 < length → written ∈ shown → written ≠ [] → Written shown (position + length) blanked rest →
        Written shown position (List.replicate length none ++ blanked) (put written ++ rest)

theorem written_cells (shown : List (List α)) (position : Nat) (text : List α) :
    Written shown position (mask [] position text) (cells position text) := by
  induction text generalizing position with
  | nil => exact .nil
  | cons letter rest ih => exact .kept (ih (position + 1))

/-- What is written has no place in the text as it was. -/
theorem origins_put (written : List α) : (put written).filterMap Prod.snd = [] := by
  unfold put
  rw [List.filterMap_map, List.filterMap_eq_nil_iff]
  exact fun _ _ => rfl

theorem original_put {written : List α} {cell : Cell α} (member : cell ∈ put written) :
    cell.original = none := by
  obtain ⟨letter, _, rfl⟩ := List.mem_map.mp member
  rfl

/-- A word that stands in letters of the text as it was is read there. -/
theorem letter_of_original {word : List α} {text : List (Cell α)}
    (stands : Stands Cell.original word text) : Stands Cell.letter word text := by
  induction word generalizing text with
  | nil => exact stands_nil _
  | cons letter word ih =>
      cases text with
      | nil => exact absurd stands not_stands_end
      | cons cell text =>
          obtain ⟨here, rest⟩ := stands_cons.mp stands
          obtain ⟨_, _, same⟩ := Option.map_eq_some_iff.mp here
          exact stands_cons.mpr ⟨congrArg some same, ih rest⟩

/-- The letters that are left are those that are not blank, in order. -/
theorem Written.origins {shown : List (List α)} {position : Nat} {blanked : List (Option α)}
    {rewritten : List (Cell α)} (written : Written shown position blanked rewritten) :
    rewritten.filterMap Prod.snd = standing position blanked := by
  induction written with
  | nil => rfl
  | @kept position letter blanked rest _ ih => exact congrArg (position :: ·) ih
  | replaced _ _ _ _ ih =>
      rw [List.filterMap_append, origins_put, standing_blank, List.nil_append, ih]

/-- A word stands in letters that were left where it stands in what is not blank. -/
theorem Written.stands {shown : List (List α)} {position : Nat} {blanked : List (Option α)}
    {rewritten : List (Cell α)} (written : Written shown position blanked rewritten) (word : List α) :
    Stands Cell.original word rewritten ↔ Stands id word blanked := by
  induction word generalizing position blanked rewritten with
  | nil => exact iff_of_true (stands_nil _) (stands_nil _)
  | cons letter word ih =>
      cases written with
      | nil => exact iff_of_false not_stands_end not_stands_end
      | kept behind =>
          rw [stands_cons, stands_cons, ih behind]
          rfl
      | replaced long _ some_ behind =>
          obtain ⟨length, rfl⟩ := Nat.exists_eq_add_of_lt long
          obtain ⟨first, others, rfl⟩ := List.exists_cons_of_ne_nil some_
          rw [Nat.zero_add, List.replicate_succ, List.cons_append, put, List.map_cons,
            List.cons_append, stands_cons, stands_cons]
          exact iff_of_false (fun stands => nomatch stands.1) fun stands => nomatch stands.1

/-- Where a word is read in a text that is rewritten, it stands in letters of the text as it
was. -/
def Unjoined (word : List α) (text : List (Cell α)) : Prop :=
  ∀ suffix ∈ text.tails, Stands Cell.letter word suffix → Stands Cell.original word suffix

instance [DecidableEq α] (word : List α) (text : List (Cell α)) : Decidable (Unjoined word text) :=
  inferInstanceAs (Decidable (∀ suffix ∈ text.tails, _ → _))

/-! ### Words that are framed

Nothing completes a word that has neither the letter each of the others that are written
begins with nor the one it ends with.
-/

section Framed

variable {shown : List (List α)} {opening closing : α} {word : List α}

/-- A word that does not have the opening letter is read in letters that were left, when it is
read from one of them on. -/
theorem Written.original_of_letter
    (framed : ∀ written ∈ shown, ∃ inner, written = opening :: (inner ++ [closing]))
    {position : Nat} {blanked : List (Option α)} {rewritten : List (Cell α)}
    (written : Written shown position blanked rewritten) (plain : opening ∉ word)
    (stands : Stands Cell.letter word rewritten) : Stands Cell.original word rewritten := by
  induction word generalizing position blanked rewritten with
  | nil => exact stands_nil _
  | cons letter word ih =>
      cases written with
      | nil => exact stands
      | kept behind =>
          obtain ⟨here, rest⟩ := stands_cons.mp stands
          exact stands_cons.mpr ⟨here, ih behind (mt (List.mem_cons_of_mem _) plain) rest⟩
      | replaced _ member _ _ =>
          obtain ⟨inner, rfl⟩ := framed _ member
          have here := (stands_cons.mp stands).1
          cases Option.some.inj here
          exact absurd List.mem_cons_self plain

/-- A word that does not have the closing letter ends before it. -/
theorem prefix_of_letter {inner : List α} {rest : List (Cell α)} (plain : closing ∉ word)
    (stands : Stands Cell.letter word (put (inner ++ [closing]) ++ rest)) :
    word <+: inner ++ [closing] := by
  induction inner generalizing word with
  | nil =>
      cases word with
      | nil => exact List.nil_prefix
      | cons letter word =>
          cases Option.some.inj (stands_cons.mp stands).1
          exact absurd List.mem_cons_self plain
  | cons first inner ih =>
      cases word with
      | nil => exact List.nil_prefix
      | cons letter word =>
          obtain ⟨here, behind⟩ := stands_cons.mp stands
          cases Option.some.inj here
          exact List.cons_prefix_cons.mpr ⟨rfl, ih (mt (List.mem_cons_of_mem _) plain) behind⟩

theorem Written.unjoined
    (framed : ∀ written ∈ shown, ∃ inner, written = opening :: (inner ++ [closing]))
    (absent : ∀ written ∈ shown, ¬word <:+: written) (opens : opening ∉ word)
    (closes : closing ∉ word) {position : Nat} {blanked : List (Option α)}
    {rewritten : List (Cell α)} (written : Written shown position blanked rewritten) :
    Unjoined word rewritten := by
  intro suffix member stands
  have behind := (List.mem_tails _ _).mp member
  clear member
  induction written with
  | nil =>
      rw [List.suffix_nil.mp behind] at stands ⊢
      exact stands
  | kept rest ih =>
      rcases List.suffix_cons_iff.mp behind with rfl | behind
      · exact (Written.kept rest).original_of_letter framed opens stands
      · exact ih behind
  | @replaced _ _ shows _ rest _ listed _ _ ih =>
      obtain ⟨front, same⟩ := behind
      rcases List.append_eq_append_iff.mp same with ⟨tail, cut, rfl⟩ | ⟨tail, _, rest_eq⟩
      · obtain ⟨inner, rfl⟩ := framed shows listed
        obtain ⟨first, last, parts, _, rfl⟩ := List.map_eq_append_iff.mp cut
        rcases List.eq_nil_or_concat last with rfl | ⟨init, final, rfl⟩
        · exact ih (List.suffix_refl _)
        · rw [List.concat_eq_append] at parts stands
          have ends := parts
          rw [← List.cons_append, ← List.append_assoc] at ends
          obtain ⟨_, same⟩ := List.append_inj' ends rfl
          cases same
          have inside := (prefix_of_letter closes stands).isInfix
          have front : init ++ [closing] <:+: opening :: (inner ++ [closing]) := ⟨first, [], by
            rw [List.append_nil, parts]⟩
          exact absurd (inside.trans front) (absent _ listed)
      · exact ih ⟨tail, rest_eq.symm⟩

end Framed

section Rewriting

variable [DecidableEq α]

/-- To replace a word in the letters that were left is to blank it out. -/
theorem Written.replaceFrom {shown : List (List α)} {position : Nat} {blanked : List (Option α)}
    {rewritten : List (Cell α)} (written : Written shown position blanked rewritten)
    {word other : List α} (some_ : word ≠ []) (listed : other ∈ shown) (visible : other ≠ [])
    (skipped : List α) (passed : Stands id skipped blanked) :
    Written shown (position + skipped.length)
      (replaceFrom id word (List.replicate word.length none) skipped.length blanked)
      (replaceFrom Cell.original word (put other) skipped.length rewritten) := by
  induction written generalizing skipped with
  | nil => cases skipped <;> exact .nil
  | @kept position letter blanked rest behind ih =>
      cases skipped with
      | cons first skipped =>
          have next : position + 1 + skipped.length = position + (skipped.length + 1) := by omega
          have later := ih skipped (stands_cons.mp passed).2
          rw [next] at later
          exact later
      | nil =>
          have here : Stands Cell.original word ((letter, some position) :: rest) ↔
              Stands id word (some letter :: blanked) := (Written.kept behind).stands word
          by_cases stands : Stands id word (some letter :: blanked)
          · obtain ⟨first, others, rfl⟩ := List.exists_cons_of_ne_nil some_
            have next : position + 1 + others.length = position + (first :: others).length := by
              rw [List.length_cons]
              omega
            have later := ih others (stands_cons.mp stands).2
            rw [next] at later
            rw [List.length_nil, Replacement.replaceFrom, Replacement.replaceFrom, if_pos stands,
              if_pos (here.mpr stands)]
            exact .replaced (Nat.succ_pos _) listed visible later
          · rw [List.length_nil, Replacement.replaceFrom, Replacement.replaceFrom, if_neg stands,
              if_neg (mt here.mp stands)]
            exact .kept (ih [] (stands_nil _))
  | @replaced position length written blanked rest long member nonempty behind ih =>
      cases skipped with
      | cons first skipped =>
          obtain ⟨length, rfl⟩ := Nat.exists_eq_add_of_lt long
          rw [Nat.zero_add, List.replicate_succ, List.cons_append, stands_cons] at passed
          exact nomatch passed.1
      | nil =>
          have unread : ∀ cell ∈ put written, Cell.original cell = none := fun _ => original_put
          have blank : ∀ cell ∈ List.replicate length (none : Option α), id cell = none :=
            fun _ => List.eq_of_mem_replicate
          rw [List.length_nil, replaceFrom_unread some_ unread, replaceFrom_unread some_ blank]
          exact .replaced long member nonempty (ih [] (stands_nil _))

/-! ## Words replaced one after another -/

/-- Replace words, each in what the one before it left. -/
def rewrite (read : Cell α → Option α) (words : List (List α × List α)) (text : List (Cell α)) :
    List (Cell α) :=
  words.foldl (fun out word => replaceFrom read word.1 (put word.2) 0 out) text

/-- No word is completed by what is written for those before it. -/
def AllUnjoined (words : List (List α × List α)) (text : List (Cell α)) : Prop :=
  ∀ before word after, words = before ++ word :: after →
    Unjoined word.1 (rewrite Cell.original before text)

/-- Words that nothing completes are replaced where they stand in the text as it was. -/
theorem rewrite_of_unjoined {words : List (List α × List α)} {text : List (Cell α)}
    (unjoined : AllUnjoined words text) :
    rewrite Cell.letter words text = rewrite Cell.original words text := by
  induction words generalizing text with
  | nil => rfl
  | cons word rest ih =>
      have here : replaceFrom Cell.letter word.1 (put word.2) 0 text =
          replaceFrom Cell.original word.1 (put word.2) 0 text := by
        refine replaceFrom_congr 0 fun suffix behind => ⟨?_, letter_of_original⟩
        exact unjoined [] word rest rfl suffix ((List.mem_tails _ _).mpr behind)
      unfold rewrite
      rw [List.foldl_cons, List.foldl_cons, here]
      refine ih ?_
      intro before other after same
      exact unjoined (word :: before) other after (by rw [same, List.cons_append])

/-- What is read of a rewritten text is what the same words make of its letters. -/
theorem map_replace {word written : List α} (text : List (Cell α)) :
    (replaceFrom Cell.letter word (put written) 0 text).map Prod.fst =
      replace word written (text.map Prod.fst) := by
  have same : (put written).map Prod.fst = written := by
    unfold put
    rw [List.map_map]
    exact List.map_id written
  have read (cell : Cell α) : some cell.1 = Cell.letter cell := rfl
  have mapped := @map_replaceFrom _ _ _ Cell.letter word (put written) _ some Prod.fst read 0 text
  rwa [same] at mapped

/-- Words replaced in letters of the text as it was, one after another, leave the letters
that lie in none of the occurrences that are taken. -/
theorem written_rewrite {shown : List (List α)} {words : List (List α × List α)}
    (proper : ∀ word ∈ words, word.1 ≠ [] ∧ word.2 ≠ []) (listed : ∀ word ∈ words, word.2 ∈ shown)
    (text : List α) {taken : List Occurrence}
    (held : ∀ occurrence ∈ taken, occurrence.start < occurrence.stop) {out : List (Cell α)}
    (written : Written shown 0 (mask taken 0 text) out) :
    Written shown 0 (mask ((words.map Prod.fst).foldl
      (fun taken word => (occurrences word 0 text).foldl take taken) taken) 0 text)
      (rewrite Cell.original words out) := by
  induction words generalizing taken out with
  | nil => exact written
  | cons word rest ih =>
      obtain ⟨some_, visible⟩ := proper word List.mem_cons_self
      have step := written.replaceFrom some_ (listed word List.mem_cons_self) visible []
        (stands_nil _)
      have blanked := replaceFrom_mask some_ held text 0 0 [] (fun _ member => nomatch member)
        fun none_ => absurd none_ (Nat.lt_irrefl 0)
      rw [List.append_nil, List.drop_zero] at blanked
      rw [List.length_nil, blanked] at step
      exact ih (fun other member => proper other (List.mem_cons_of_mem _ member))
        (fun other member => listed other (List.mem_cons_of_mem _ member))
        (proper_foldl_take some_ text held) step

/-- Framed words complete no word that has neither letter of the frame. -/
theorem allUnjoined_of_framed {words : List (List α × List α)}
    (proper : ∀ word ∈ words, word.1 ≠ [] ∧ word.2 ≠ []) {opening closing : α}
    (framed : ∀ word ∈ words, ∃ inner, word.2 = opening :: (inner ++ [closing]))
    (plain : ∀ word ∈ words, opening ∉ word.1 ∧ closing ∉ word.1)
    (absent : ∀ word ∈ words, ∀ other ∈ words, ¬word.1 <:+: other.2) (text : List α) :
    AllUnjoined words (cells 0 text) := by
  rintro before word after rfl
  have listed : word ∈ before ++ word :: after := by simp
  have none_ : ∀ occurrence ∈ ([] : List Occurrence), occurrence.start < occurrence.stop :=
    fun _ member => nomatch member
  have earlier (other : List α × List α) (member : other ∈ before) :
      other ∈ before ++ word :: after := List.mem_append_left _ member
  have written := written_rewrite (fun other member => proper other (earlier other member))
    (fun _ => List.mem_map_of_mem) text none_ (written_cells (before.map Prod.snd) 0 text)
  refine written.unjoined ?_ ?_ (plain word listed).1 (plain word listed).2
  · intro shown member
    obtain ⟨other, among, rfl⟩ := List.mem_map.mp member
    exact framed other (earlier other among)
  · intro shown member
    obtain ⟨other, among, rfl⟩ := List.mem_map.mp member
    exact absent word listed other (earlier other among)

/-- The letters that are left of a rewritten text, by their positions in it as it was. -/
def left (words : List (List α × List α)) (text : List α) : List Nat :=
  (rewrite Cell.letter words (cells 0 text)).filterMap Prod.snd

/-- The letters that are left lie in none of the occurrences that are taken. -/
theorem left_eq {words : List (List α × List α)}
    (proper : ∀ word ∈ words, word.1 ≠ [] ∧ word.2 ≠ []) {text : List α}
    (unjoined : AllUnjoined words (cells 0 text)) :
    left words text = (List.range text.length).filter fun position =>
      !(chosen (words.map Prod.fst) text).any (·.holds position) := by
  have none_ : ∀ occurrence ∈ ([] : List Occurrence), occurrence.start < occurrence.stop :=
    fun _ member => nomatch member
  have written := written_rewrite proper (fun _ => List.mem_map_of_mem) text none_
    (written_cells (words.map Prod.snd) 0 text)
  unfold left
  rw [rewrite_of_unjoined unjoined, written.origins, standing_mask, List.range_eq_range']
  rfl

/-- A position lies in an occurrence of one of the words. -/
def covers (words : List (List α)) (text : List α) (position : Nat) : Bool :=
  words.any fun word => (occurrences word 0 text).any (·.holds position)

/-- Every occurrence lies inside the ones that are taken. -/
def Within (words : List (List α)) (text : List α) : Prop :=
  ∀ word ∈ words, ∀ occurrence ∈ occurrences word 0 text, ∀ position,
    occurrence.holds position = true → (chosen words text).any (·.holds position) = true

theorem covers_of_chosen {words : List (List α)} {text : List α} {position : Nat}
    (held : (chosen words text).any (·.holds position) = true) : covers words text position = true := by
  obtain ⟨occurrence, member, holds⟩ := List.any_eq_true.mp held
  obtain ⟨word, listed, found⟩ := mem_chosen member
  exact List.any_eq_true.mpr ⟨word, listed, List.any_eq_true.mpr ⟨occurrence, found, holds⟩⟩

/-- An occurrence lies in the text. -/
theorem stop_le {word text : List α} {position : Nat} {occurrence : Occurrence}
    (member : occurrence ∈ occurrences word position text) :
    occurrence.stop ≤ position + text.length := by
  induction text generalizing position with
  | nil => cases member
  | cons letter rest ih =>
      have later (member : occurrence ∈ occurrences word (position + 1) rest) :
          occurrence.stop ≤ position + (letter :: rest).length := by
        have within := ih member
        rw [List.length_cons]
        omega
      unfold occurrences at member
      split at member
      · next front =>
          rcases List.mem_cons.mp member with rfl | member
          · exact Nat.add_le_add_left front.length_le _
          · exact later member
      · exact later member

/-- What is left is what lies in no occurrence exactly when every occurrence lies inside
those that are taken. -/
theorem left_iff {words : List (List α × List α)}
    (proper : ∀ word ∈ words, word.1 ≠ [] ∧ word.2 ≠ []) {text : List α}
    (unjoined : AllUnjoined words (cells 0 text)) :
    left words text = ((List.range text.length).filter fun position =>
        !covers (words.map Prod.fst) text position) ↔
      Within (words.map Prod.fst) text := by
  rw [left_eq proper unjoined]
  constructor
  · intro same word listed occurrence found position holds
    by_contra missed
    have covered : covers (words.map Prod.fst) text position = true :=
      List.any_eq_true.mpr ⟨word, listed, List.any_eq_true.mpr ⟨occurrence, found, holds⟩⟩
    have short : position < text.length := by
      have ends := stop_le found
      have inside := (Occurrence.holds_iff.mp holds).2
      omega
    have kept : position ∈ (List.range text.length).filter fun position =>
        !(chosen (words.map Prod.fst) text).any (·.holds position) :=
      List.mem_filter.mpr ⟨List.mem_range.mpr short, by simpa using missed⟩
    rw [same] at kept
    have uncovered := (List.mem_filter.mp kept).2
    rw [covered] at uncovered
    cases uncovered
  · intro within
    refine List.filter_congr fun position _ => ?_
    cases covered : covers (words.map Prod.fst) text position with
    | false =>
        cases held : (chosen (words.map Prod.fst) text).any (·.holds position) with
        | false => rfl
        | true => cases (covers_of_chosen held).symm.trans covered
    | true =>
        obtain ⟨word, listed, found⟩ := List.any_eq_true.mp covered
        obtain ⟨occurrence, member, holds⟩ := List.any_eq_true.mp found
        rw [within word listed occurrence member position holds]

end Rewriting

end Hekla.Library.Replacement
