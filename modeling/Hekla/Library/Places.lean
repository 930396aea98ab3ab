import Hekla.Library.Replacement
import Mathlib.Data.List.Chain
import Mathlib.Data.List.Nodup
import Mathlib.Data.List.ReduceOption
import Mathlib.Data.List.Sort

/-!
# The places a rewriting takes

Each word is replaced at places of the text as it stands when its turn comes.  A place in
letters of the text as it was is an occurrence there; another one reads across the edge of
what was written for a word before it.  The letters that are left are those that no place
holds, and every occurrence is met by a place.  So what is left is what lies in no occurrence
exactly when an occurrence that a place cuts goes with other places, and no place that reads
across an edge holds a letter of none.
-/

namespace Hekla.Library.Replacement

variable {α : Type}

theorem origins_cells (position : Nat) (text : List α) :
    (cells position text).filterMap Prod.snd = List.range' position text.length := by
  induction text generalizing position with
  | nil => rfl
  | cons letter rest ih =>
      rw [List.length_cons, List.range'_succ, ← ih]
      rfl

theorem reduceOption_marks (out : List (Cell α)) :
    (out.map Prod.snd).reduceOption = out.filterMap Prod.snd := by
  unfold List.reduceOption
  rw [List.filterMap_map]
  rfl

section Places

variable [DecidableEq α]

/-- The places a word is replaced at, each with the positions its cells have in the text. -/
def placesFrom (word : List α) : Nat → List (Cell α) → List (List (Option Nat))
  | _, [] => []
  | skip + 1, _ :: rest => placesFrom word skip rest
  | 0, cell :: rest =>
      if Stands Cell.letter word (cell :: rest) then
        ((cell :: rest).take word.length).map Prod.snd :: placesFrom word (word.length - 1) rest
      else placesFrom word 0 rest

/-- The places words are replaced at, each in what the one before it left. -/
def places : List (List α × List α) → List (Cell α) → List (List (Option Nat))
  | [], _ => []
  | word :: rest, out =>
      placesFrom word.1 0 out ++ places rest (replaceFrom Cell.letter word.1 (put word.2) 0 out)

/-! ## What the places hold and what is left -/

/-- The letters of a text are left, or a place holds them. -/
theorem placesFrom_perm {word : List α} (some_ : word ≠ []) (written : List α) (skip : Nat)
    (out : List (Cell α)) :
    ((replaceFrom Cell.letter word (put written) skip out).filterMap Prod.snd ++
      (placesFrom word skip out).flatMap List.reduceOption).Perm
        ((out.drop skip).filterMap Prod.snd) := by
  obtain ⟨letter, others, rfl⟩ := List.exists_cons_of_ne_nil some_
  induction out generalizing skip with
  | nil => cases skip <;> exact .refl _
  | cons cell rest ih =>
      cases skip with
      | succ skip => exact ih skip
      | zero =>
          unfold replaceFrom placesFrom
          by_cases stands : Stands Cell.letter (letter :: others) (cell :: rest)
          · have cut : (cell :: rest).filterMap Prod.snd =
                ((cell :: rest).take (letter :: others).length).filterMap Prod.snd ++
                  (rest.drop others.length).filterMap Prod.snd := by
              rw [← List.filterMap_append]
              exact congrArg _ (List.take_append_drop (others.length + 1) (cell :: rest)).symm
            rw [if_pos stands, if_pos stands, List.filterMap_append, origins_put, List.nil_append,
              List.flatMap_cons, reduceOption_marks, List.drop_zero, cut]
            exact (List.perm_append_comm_assoc _ _ _).trans ((ih others.length).append_left _)
          · rw [if_neg stands, if_neg stands, List.drop_zero]
            have later := ih 0
            rw [List.drop_zero] at later
            obtain ⟨first, mark⟩ := cell
            cases mark with
            | none => exact later
            | some position => exact later.cons position

/-- What is left comes in the order of the text. -/
theorem replaceFrom_sublist {word : List α} (some_ : word ≠ []) (written : List α) (skip : Nat)
    (out : List (Cell α)) :
    ((replaceFrom Cell.letter word (put written) skip out).filterMap Prod.snd).Sublist
      ((out.drop skip).filterMap Prod.snd) := by
  obtain ⟨letter, others, rfl⟩ := List.exists_cons_of_ne_nil some_
  induction out generalizing skip with
  | nil => cases skip <;> exact .refl _
  | cons cell rest ih =>
      cases skip with
      | succ skip => exact ih skip
      | zero =>
          unfold replaceFrom
          by_cases stands : Stands Cell.letter (letter :: others) (cell :: rest)
          · rw [if_pos stands, List.filterMap_append, origins_put, List.nil_append]
            refine (ih others.length).trans (List.Sublist.filterMap _ ?_)
            exact (List.drop_sublist _ _).trans (List.sublist_cons_self _ _)
          · rw [if_neg stands, List.drop_zero]
            have later := (ih 0)
            rw [List.drop_zero] at later
            obtain ⟨first, mark⟩ := cell
            cases mark with
            | none => exact later
            | some position => exact later.cons_cons position

theorem places_perm {words : List (List α × List α)} (proper : ∀ word ∈ words, word.1 ≠ [])
    (out : List (Cell α)) :
    ((rewrite Cell.letter words out).filterMap Prod.snd ++
      (places words out).flatMap List.reduceOption).Perm (out.filterMap Prod.snd) := by
  induction words generalizing out with
  | nil =>
      rw [places, List.flatMap_nil, List.append_nil]
      exact .refl _
  | cons word rest ih =>
      have here := placesFrom_perm (proper word List.mem_cons_self) word.2 0 out
      have later := ih (fun other member => proper other (List.mem_cons_of_mem _ member))
        (replaceFrom Cell.letter word.1 (put word.2) 0 out)
      rw [places, List.flatMap_append]
      rw [List.drop_zero] at here
      refine ((List.perm_append_comm_assoc _ _ _).trans ?_).trans
        (List.perm_append_comm.trans here)
      exact later.append_left _

theorem rewrite_sublist {words : List (List α × List α)} (proper : ∀ word ∈ words, word.1 ≠ [])
    (out : List (Cell α)) :
    ((rewrite Cell.letter words out).filterMap Prod.snd).Sublist (out.filterMap Prod.snd) := by
  induction words generalizing out with
  | nil => exact .refl _
  | cons word rest ih =>
      have here := replaceFrom_sublist (proper word List.mem_cons_self) word.2 0 out
      rw [List.drop_zero] at here
      exact (ih (fun other member => proper other (List.mem_cons_of_mem _ member)) _).trans here

theorem left_sublist {words : List (List α × List α)} (proper : ∀ word ∈ words, word.1 ≠ [])
    (text : List α) : (left words text).Sublist (List.range text.length) := by
  have sub := rewrite_sublist proper (cells 0 text)
  rw [origins_cells, ← List.range_eq_range'] at sub
  exact sub

omit [DecidableEq α] in
/-- Parts of the numbers up to some length are the same where they have the same members. -/
theorem eq_of_sublist_range {length : Nat} {first second : List Nat}
    (one : first.Sublist (List.range length)) (other : second.Sublist (List.range length))
    (same : ∀ position < length, (position ∈ first ↔ position ∈ second)) : first = second := by
  have perm : first.Perm second := by
    refine (List.perm_ext_iff_of_nodup (List.nodup_range.sublist one)
      (List.nodup_range.sublist other)).mpr fun position => ⟨fun member => ?_, fun member => ?_⟩
    · exact (same position (List.mem_range.mp (one.subset member))).mp member
    · exact (same position (List.mem_range.mp (other.subset member))).mpr member
  exact perm.eq_of_pairwise (fun a b _ _ lower upper => absurd lower (Nat.lt_asymm upper))
    (List.pairwise_lt_range.sublist one) (List.pairwise_lt_range.sublist other)

theorem lt_of_places {words : List (List α × List α)} (proper : ∀ word ∈ words, word.1 ≠ [])
    {text : List α} {place : List (Option Nat)} (taken : place ∈ places words (cells 0 text))
    {position : Nat} (member : some position ∈ place) : position < text.length := by
  have perm := places_perm proper (cells 0 text)
  rw [origins_cells] at perm
  have held : position ∈ (places words (cells 0 text)).flatMap List.reduceOption :=
    List.mem_flatMap.mpr ⟨place, taken, List.reduceOption_mem_iff.mpr member⟩
  have listed := List.mem_range'_1.mp (perm.mem_iff.mp (List.mem_append_right _ held))
  omega

/-- A letter of the text is left exactly when no place holds it. -/
theorem mem_left_iff {words : List (List α × List α)} (proper : ∀ word ∈ words, word.1 ≠ [])
    {text : List α} {position : Nat} (short : position < text.length) :
    position ∈ left words text ↔ ∀ place ∈ places words (cells 0 text), some position ∉ place := by
  have perm := places_perm proper (cells 0 text)
  rw [origins_cells] at perm
  have apart := List.disjoint_of_nodup_append (perm.nodup_iff.mpr List.nodup_range')
  have listed : position ∈ List.range' 0 text.length :=
    List.mem_range'_1.mpr ⟨Nat.zero_le _, by omega⟩
  have somewhere := perm.mem_iff.mpr listed
  rw [List.mem_append] at somewhere
  have held : position ∈ (places words (cells 0 text)).flatMap List.reduceOption ↔
      ∃ place ∈ places words (cells 0 text), some position ∈ place := by
    simp only [List.mem_flatMap, List.reduceOption_mem_iff]
  constructor
  · intro kept place taken member
    exact apart kept (held.mpr ⟨place, taken, member⟩)
  · intro free
    refine somewhere.resolve_right fun taken => ?_
    obtain ⟨place, listed, member⟩ := held.mp taken
    exact free place listed member

/-! ## A place in letters of the text -/

omit [DecidableEq α] in
/-- A word stands in its letters. -/
theorem map_take_of_stands {word : List α} {out : List (Cell α)}
    (stands : Stands Cell.letter word out) : (out.take word.length).map Prod.fst = word := by
  induction word generalizing out with
  | nil => rfl
  | cons letter word ih =>
      cases out with
      | nil => exact absurd stands not_stands_end
      | cons cell out =>
          obtain ⟨here, behind⟩ := stands_cons.mp stands
          rw [List.length_cons, List.take_succ_cons, List.map_cons, ih behind, Option.some.inj here]

/-- A word that stands at a place of a text is one of its occurrences. -/
theorem mem_occurrences_of_front {word : List α} (some_ : word ≠ []) {text : List α}
    {position start : Nat} (front : word <+: text.drop start) :
    ⟨position + start, position + start + word.length⟩ ∈ occurrences word position text := by
  induction text generalizing position start with
  | nil =>
      rw [List.drop_nil] at front
      exact absurd (List.prefix_nil.mp front) some_
  | cons letter rest ih =>
      unfold occurrences
      cases start with
      | zero =>
          rw [List.drop_zero] at front
          rw [if_pos front]
          exact List.mem_cons_self
      | succ start =>
          have later := @ih (position + 1) start front
          have same : position + 1 + start = position + (start + 1) := by omega
          rw [same] at later
          split
          · exact List.mem_cons_of_mem _ later
          · exact later

/-- Two letters of the text next to each other were so in the text as it was. -/
def Follows (first second : Cell α) : Prop :=
  ∀ position next, first.2 = some position → second.2 = some next → next = position + 1

/-- A text that is rewritten: its letters are where they were, and something is written
wherever one is missing. -/
structure Faithful (text : List α) (out : List (Cell α)) : Prop where
  letters : ∀ cell ∈ out, ∀ position, cell.2 = some position → text[position]? = some cell.1
  chained : out.IsChain Follows

omit [DecidableEq α] in
theorem letters_cells (before text : List α) :
    ∀ cell ∈ cells before.length text, ∀ position, cell.2 = some position →
      (before ++ text)[position]? = some cell.1 := by
  induction text generalizing before with
  | nil =>
      intro cell member
      cases member
  | cons letter rest ih =>
      intro cell member position mark
      rcases List.mem_cons.mp member with rfl | later
      · cases mark
        simp
      · have behind := ih (before ++ [letter]) cell (by simpa using later) position mark
        simpa using behind

omit [DecidableEq α] in
theorem chained_cells (position : Nat) (text : List α) :
    (cells position text).IsChain Follows := by
  induction text generalizing position with
  | nil => exact .nil
  | cons letter rest ih =>
      refine (ih (position + 1)).cons ?_
      intro next first
      cases rest with
      | nil => cases first
      | cons other rest =>
          cases Option.some.inj first
          rintro here there ⟨⟩ ⟨⟩
          rfl

omit [DecidableEq α] in
theorem faithful_cells (text : List α) : Faithful text (cells 0 text) :=
  ⟨letters_cells [] text, chained_cells 0 text⟩

/-- What stands in a rewritten text stood in it before, or was written. -/
theorem mem_replaceFrom {word written : List α} {skip : Nat} {out : List (Cell α)} {cell : Cell α}
    (member : cell ∈ replaceFrom Cell.letter word (put written) skip out) :
    cell ∈ out ∨ cell.2 = none := by
  induction out generalizing skip with
  | nil => cases skip <;> cases member
  | cons first rest ih =>
      have later (skip : Nat)
          (member : cell ∈ replaceFrom Cell.letter word (put written) skip rest) :
          cell ∈ first :: rest ∨ cell.2 = none := (ih member).imp_left (List.mem_cons_of_mem _)
      cases skip with
      | succ skip => exact later skip member
      | zero =>
          unfold replaceFrom at member
          split at member
          · rcases List.mem_append.mp member with shown | member
            · obtain ⟨letter, -, rfl⟩ := List.mem_map.mp shown
              exact .inr rfl
            · exact later _ member
          · rcases List.mem_cons.mp member with rfl | member
            · exact .inl List.mem_cons_self
            · exact later _ member

theorem head_replaceFrom {word written : List α} (visible : written ≠ []) {out : List (Cell α)}
    {cell : Cell α} (first : cell ∈ (replaceFrom Cell.letter word (put written) 0 out).head?) :
    cell ∈ out.head? ∨ cell.2 = none := by
  obtain ⟨letter, others, rfl⟩ := List.exists_cons_of_ne_nil visible
  cases out with
  | nil => cases first
  | cons front rest =>
      unfold replaceFrom at first
      split at first
      · cases Option.some.inj first
        exact .inr rfl
      · exact .inl first

omit [DecidableEq α] in
theorem chained_put (written : List α) : (put written).IsChain Follows := by
  induction written with
  | nil => exact .nil
  | cons letter rest ih =>
      refine List.IsChain.cons ih ?_
      rintro next - here there ⟨⟩

theorem chained_replaceFrom {word written : List α} (visible : written ≠ []) {skip : Nat}
    {out : List (Cell α)} (chained : out.IsChain Follows) :
    (replaceFrom Cell.letter word (put written) skip out).IsChain Follows := by
  induction out generalizing skip with
  | nil => cases skip <;> exact .nil
  | cons cell rest ih =>
      have later (skip : Nat) := @ih skip chained.tail
      cases skip with
      | succ skip => exact later skip
      | zero =>
          unfold replaceFrom
          split
          · refine (chained_put written).append (later _) ?_
            intro last shown next first here there mark
            obtain ⟨letter, -, rfl⟩ := List.mem_map.mp (List.mem_of_mem_getLast? shown)
            cases mark
          · refine (later 0).cons ?_
            intro next first
            rcases head_replaceFrom visible first with old | written
            · exact chained.rel_head? old
            · intro here there _ mark
              rw [written] at mark
              cases mark

theorem Faithful.replaceFrom {text : List α} {out : List (Cell α)} (faithful : Faithful text out)
    {word written : List α} (visible : written ≠ []) :
    Faithful text (replaceFrom Cell.letter word (put written) 0 out) where
  letters cell member position mark := by
    rcases mem_replaceFrom member with old | written
    · exact faithful.letters cell old position mark
    · rw [written] at mark
      cases mark
  chained := chained_replaceFrom visible faithful.chained

omit [DecidableEq α] in
/-- A block of letters of the text is a part of it. -/
theorem Faithful.block {text : List α} {first : Cell α} {rest : List (Cell α)}
    (faithful : Faithful text (first :: rest)) {start : Nat} (mark : first.2 = some start)
    (marked : ∀ cell ∈ rest, cell.2 ≠ none) :
    (first :: rest).map Prod.snd = (List.range' start (rest.length + 1)).map some ∧
      (first :: rest).map Prod.fst <+: text.drop start := by
  have here := faithful.letters first List.mem_cons_self start mark
  obtain ⟨inside, letter⟩ := List.getElem?_eq_some_iff.mp here
  rw [List.drop_eq_getElem_cons inside, letter]
  induction rest generalizing first start with
  | nil =>
      refine ⟨?_, ?_⟩
      · simp [mark]
      · exact List.cons_prefix_cons.mpr ⟨rfl, List.nil_prefix⟩
  | cons second rest ih =>
      have tail : Faithful text (second :: rest) :=
        ⟨fun cell member => faithful.letters cell (List.mem_cons_of_mem _ member),
          faithful.chained.tail⟩
      obtain ⟨next, follows⟩ := Option.ne_none_iff_exists'.mp (marked second List.mem_cons_self)
      have at_next := faithful.chained.rel_head? rfl start next mark follows
      subst at_next
      have there := tail.letters second List.mem_cons_self (start + 1) follows
      obtain ⟨inside', letter'⟩ := List.getElem?_eq_some_iff.mp there
      obtain ⟨marks, front⟩ := ih tail follows
        (fun cell member => marked cell (List.mem_cons_of_mem _ member)) there inside' letter'
      refine ⟨?_, ?_⟩
      · rw [List.map_cons, marks, mark, List.length_cons, List.range'_succ (s := start)]
        rfl
      · rw [List.map_cons, List.drop_eq_getElem_cons inside', letter']
        exact List.cons_prefix_cons.mpr ⟨rfl, front⟩

theorem mem_placesFrom {word : List α} {skip : Nat} {out : List (Cell α)}
    {place : List (Option Nat)} (member : place ∈ placesFrom word skip out) :
    ∃ suffix, suffix <:+ out ∧ Stands Cell.letter word suffix ∧
      place = (suffix.take word.length).map Prod.snd := by
  induction out generalizing skip with
  | nil => cases skip <;> cases member
  | cons cell rest ih =>
      have later (skip : Nat) (member : place ∈ placesFrom word skip rest) :
          ∃ suffix, suffix <:+ cell :: rest ∧ Stands Cell.letter word suffix ∧
            place = (suffix.take word.length).map Prod.snd := by
        obtain ⟨suffix, behind, found⟩ := ih member
        exact ⟨suffix, behind.trans (List.suffix_cons _ _), found⟩
      cases skip with
      | succ skip => exact later skip member
      | zero =>
          unfold placesFrom at member
          split at member
          · next stands =>
              rcases List.mem_cons.mp member with rfl | member
              · exact ⟨cell :: rest, List.suffix_refl _, stands, rfl⟩
              · exact later _ member
          · exact later _ member

/-- A place that reads across no edge is an occurrence in the text as it was. -/
theorem Faithful.occurrence {text : List α} {out : List (Cell α)} (faithful : Faithful text out)
    {word : List α} (some_ : word ≠ []) {place : List (Option Nat)}
    (taken : place ∈ placesFrom word 0 out) (unjoined : none ∉ place) {position : Nat}
    (member : some position ∈ place) :
    ∃ occurrence ∈ occurrences word 0 text, occurrence.holds position = true := by
  obtain ⟨suffix, behind, stands, rfl⟩ := mem_placesFrom taken
  have letters := map_take_of_stands stands
  have front : suffix.take word.length <:+: out :=
    (List.take_prefix _ _).isInfix.trans behind.isInfix
  cases block : suffix.take word.length with
  | nil =>
      rw [block] at member
      cases member
  | cons first rest =>
      rw [block] at letters member unjoined front
      have part : Faithful text (first :: rest) :=
        ⟨fun cell inside => faithful.letters cell (front.subset inside), faithful.chained.infix front⟩
      have marked (cell : Cell α) (inside : cell ∈ first :: rest) : cell.2 ≠ none :=
        fun blank => unjoined (List.mem_map.mpr ⟨cell, inside, blank⟩)
      obtain ⟨start, mark⟩ := Option.ne_none_iff_exists'.mp (marked first List.mem_cons_self)
      obtain ⟨marks, reads⟩ := part.block mark fun cell inside =>
        marked cell (List.mem_cons_of_mem _ inside)
      have long : word.length = rest.length + 1 := by
        rw [← letters, List.length_map, List.length_cons]
      rw [letters] at reads
      have found := @mem_occurrences_of_front α _ word some_ text 0 start reads
      rw [Nat.zero_add] at found
      refine ⟨_, found, ?_⟩
      rw [marks, List.mem_map] at member
      obtain ⟨other, within, same⟩ := member
      cases same
      obtain ⟨lower, upper⟩ := List.mem_range'_1.mp within
      exact Occurrence.holds_iff.mpr ⟨lower, by dsimp only; omega⟩

/-- So is one of any of the words. -/
theorem Faithful.covers {words : List (List α × List α)}
    (proper : ∀ word ∈ words, word.1 ≠ [] ∧ word.2 ≠ []) {text : List α} {out : List (Cell α)}
    (faithful : Faithful text out) {place : List (Option Nat)} (taken : place ∈ places words out)
    (unjoined : none ∉ place) {position : Nat} (member : some position ∈ place) :
    covers (words.map Prod.fst) text position = true := by
  induction words generalizing out with
  | nil => cases taken
  | cons word rest ih =>
      obtain ⟨some_, visible⟩ := proper word List.mem_cons_self
      unfold Replacement.covers
      rw [List.map_cons, List.any_cons, Bool.or_eq_true]
      rcases List.mem_append.mp taken with here | later
      · left
        obtain ⟨occurrence, found, holds⟩ := faithful.occurrence some_ here unjoined member
        exact List.any_eq_true.mpr ⟨occurrence, found, holds⟩
      · right
        exact ih (fun other listed => proper other (List.mem_cons_of_mem _ listed))
          (faithful.replaceFrom visible) later

/-! ## Every occurrence is met by a place -/

omit [DecidableEq α] in
theorem mem_take_append {before rest : List (Cell α)} {cell : Cell α} {count : Nat}
    (long : before.length < count) : cell ∈ (before ++ cell :: rest).take count := by
  have there : ((before ++ cell :: rest).take count)[before.length]? = some cell := by
    rw [List.getElem?_take_of_lt long]
    simp
  exact List.mem_of_getElem? there

/-- A word is replaced over the first of some cells, where it does not end before them. -/
theorem held_of_long {word : List α} {before rest : List (Cell α)} {first cell : Cell α}
    (stands : Stands Cell.letter word (first :: (before ++ cell :: rest)))
    (long : before.length + 1 < word.length) :
    ∃ place ∈ placesFrom word 0 (first :: (before ++ cell :: rest)), cell.2 ∈ place := by
  unfold placesFrom
  rw [if_pos stands]
  refine ⟨_, List.mem_cons_self, List.mem_map_of_mem ?_⟩
  have within := @mem_take_append α (first :: before) rest cell word.length long
  exact within

/-- Cells that no place meets stand together in what is left. -/
theorem infix_replaceFrom {word : List α} (some_ : word ≠ []) (written : List α)
    {block before after : List (Cell α)} {skip : Nat} (passed : skip ≤ before.length)
    (free : ∀ place ∈ placesFrom word skip (before ++ (block ++ after)), ∀ cell ∈ block,
      cell.2 ∉ place) :
    block <:+: replaceFrom Cell.letter word (put written) skip (before ++ (block ++ after)) := by
  induction before generalizing skip with
  | nil =>
      obtain rfl := Nat.le_zero.mp passed
      refine List.IsPrefix.isInfix ?_
      rw [List.nil_append] at free ⊢
      induction block with
      | nil => exact List.nil_prefix
      | cons cell rest ih =>
          have stands : ¬Stands Cell.letter word (cell :: (rest ++ after)) := by
            intro stands
            refine free _ (by rw [List.cons_append, placesFrom, if_pos stands]; exact List.mem_cons_self)
              cell List.mem_cons_self (List.mem_map_of_mem ?_)
            exact @mem_take_append α [] (rest ++ after) cell word.length (List.length_pos_iff.mpr some_)
          rw [List.cons_append, placesFrom, if_neg stands] at free
          rw [List.cons_append, replaceFrom, if_neg stands]
          refine List.cons_prefix_cons.mpr ⟨rfl, ih fun place taken other inside => ?_⟩
          exact free place taken other (List.mem_cons_of_mem _ inside)
  | cons first before ih =>
      cases skip with
      | succ skip => exact ih (Nat.le_of_succ_le_succ passed) free
      | zero =>
          cases block with
          | nil => exact List.nil_infix
          | cons cell rest =>
              rw [List.cons_append] at free ⊢
              by_cases stands : Stands Cell.letter word (first :: (before ++ (cell :: rest ++ after)))
              · have short : word.length - 1 ≤ before.length := by
                  by_contra long
                  obtain ⟨place, taken, held⟩ := @held_of_long α _ word before (rest ++ after) first cell
                    stands (by omega)
                  exact free place taken cell List.mem_cons_self held
                rw [placesFrom, if_pos stands] at free
                rw [replaceFrom, if_pos stands]
                have later := ih short fun place taken => free place (List.mem_cons_of_mem _ taken)
                exact later.trans (List.suffix_append _ _).isInfix
              · rw [placesFrom, if_neg stands] at free
                rw [replaceFrom, if_neg stands]
                exact (ih (Nat.zero_le _) free).trans (List.suffix_cons _ _).isInfix

/-- Of cells in which a word stands, some are at a place of it. -/
theorem met_of_stands {word : List α} {block before after : List (Cell α)} {skip : Nat}
    (some_ : word ≠ []) (reads : block.map Prod.fst = word) (passed : skip ≤ before.length) :
    ∃ place ∈ placesFrom word skip (before ++ (block ++ after)), ∃ cell ∈ block, cell.2 ∈ place := by
  have nonempty : block ≠ [] := by
    rintro rfl
    exact some_ reads.symm
  obtain ⟨cell, rest, rfl⟩ := List.exists_cons_of_ne_nil nonempty
  suffices first : ∃ place ∈ placesFrom word skip (before ++ (cell :: rest ++ after)), cell.2 ∈ place by
    obtain ⟨place, taken, held⟩ := first
    exact ⟨place, taken, cell, List.mem_cons_self, held⟩
  induction before generalizing skip with
  | nil =>
      obtain rfl := Nat.le_zero.mp passed
      have stands : Stands Cell.letter word (cell :: (rest ++ after)) := by
        refine ⟨after.map Cell.letter, ?_⟩
        rw [← reads, ← List.cons_append, List.map_append, List.map_map]
        rfl
      rw [List.nil_append, List.cons_append, placesFrom, if_pos stands]
      refine ⟨_, List.mem_cons_self, List.mem_map_of_mem ?_⟩
      exact @mem_take_append α [] (rest ++ after) cell word.length (List.length_pos_iff.mpr some_)
  | cons first before ih =>
      cases skip with
      | succ skip => exact ih (Nat.le_of_succ_le_succ passed)
      | zero =>
          rw [List.cons_append]
          by_cases stands : Stands Cell.letter word (first :: (before ++ (cell :: rest ++ after)))
          · by_cases long : before.length + 1 < word.length
            · exact held_of_long stands long
            · rw [placesFrom, if_pos stands]
              obtain ⟨place, taken, held⟩ := @ih (word.length - 1) (by omega)
              exact ⟨place, List.mem_cons_of_mem _ taken, held⟩
          · rw [placesFrom, if_neg stands]
            exact ih (Nat.zero_le _)

/-- Whatever is replaced before a word, a place meets the cells it stood in. -/
theorem met {words : List (List α × List α)} (proper : ∀ word ∈ words, word.1 ≠ [])
    {word : List α × List α} (member : word ∈ words) {block out : List (Cell α)}
    (inside : block <:+: out) (reads : block.map Prod.fst = word.1) :
    ∃ place ∈ places words out, ∃ cell ∈ block, cell.2 ∈ place := by
  induction words generalizing out with
  | nil => cases member
  | cons first rest ih =>
      obtain ⟨before, after, rfl⟩ := inside
      rw [List.append_assoc, places]
      by_cases here : ∃ place ∈ placesFrom first.1 0 (before ++ (block ++ after)),
          ∃ cell ∈ block, cell.2 ∈ place
      · obtain ⟨place, taken, held⟩ := here
        exact ⟨place, List.mem_append_left _ taken, held⟩
      · have free : ∀ place ∈ placesFrom first.1 0 (before ++ (block ++ after)), ∀ cell ∈ block,
            cell.2 ∉ place := fun place taken cell within held => here ⟨place, taken, cell, within, held⟩
        have some_ := proper first List.mem_cons_self
        rcases List.mem_cons.mp member with rfl | later
        · exact absurd (met_of_stands some_ reads (Nat.zero_le _)) here
        · have kept := infix_replaceFrom some_ first.2 (Nat.zero_le _) free
          obtain ⟨place, taken, held⟩ := ih
            (fun other listed => proper other (List.mem_cons_of_mem _ listed)) later kept
          exact ⟨place, List.mem_append_right _ taken, held⟩

omit [DecidableEq α] in
theorem cells_append (position : Nat) (text rest : List α) :
    cells position (text ++ rest) = cells position text ++ cells (position + text.length) rest := by
  induction text generalizing position with
  | nil => rfl
  | cons letter text ih =>
      have later := ih (position + 1)
      rw [Nat.add_right_comm] at later
      exact congrArg (_ :: ·) later

omit [DecidableEq α] in
theorem mem_cells {position : Nat} {text : List α} {cell : Cell α} (member : cell ∈ cells position text) :
    ∃ mark, cell.2 = some mark ∧ position ≤ mark ∧ mark < position + text.length := by
  induction text generalizing position with
  | nil => cases member
  | cons letter rest ih =>
      rcases List.mem_cons.mp member with rfl | later
      · exact ⟨position, rfl, le_refl _, by simp⟩
      · obtain ⟨mark, same, lower, upper⟩ := ih later
        refine ⟨mark, same, by omega, ?_⟩
        rw [List.length_cons]
        omega

/-- The cells of an occurrence. -/
theorem block_of_occurrence {word text : List α} {position : Nat} {occurrence : Occurrence}
    (member : occurrence ∈ occurrences word position text) :
    ∃ block, block <:+: cells position text ∧ block.map Prod.fst = word ∧
      ∀ cell ∈ block, ∃ mark, cell.2 = some mark ∧ occurrence.holds mark = true := by
  induction text generalizing position with
  | nil => cases member
  | cons letter rest ih =>
      have later (member : occurrence ∈ occurrences word (position + 1) rest) :
          ∃ block, block <:+: cells position (letter :: rest) ∧ block.map Prod.fst = word ∧
            ∀ cell ∈ block, ∃ mark, cell.2 = some mark ∧ occurrence.holds mark = true := by
        obtain ⟨block, inside, further⟩ := ih member
        exact ⟨block, inside.trans (List.suffix_cons _ _).isInfix, further⟩
      unfold occurrences at member
      split at member
      · next front =>
          rcases List.mem_cons.mp member with rfl | member
          · obtain ⟨behind, same⟩ := front
            refine ⟨cells position word, ?_, map_cells position word, fun cell inside => ?_⟩
            · rw [← same, cells_append]
              exact (List.prefix_append _ _).isInfix
            · obtain ⟨mark, marked, within⟩ := mem_cells inside
              exact ⟨mark, marked, Occurrence.holds_iff.mpr within⟩
          · exact later member
      · exact later member

/-! ## What is left is what lies in no occurrence -/

/-- The positions of an occurrence. -/
def Occurrence.span (occurrence : Occurrence) : List Nat :=
  List.range' occurrence.start (occurrence.stop - occurrence.start)

theorem Occurrence.mem_span {occurrence : Occurrence} {position : Nat} :
    position ∈ occurrence.span ↔ occurrence.holds position = true := by
  rw [Occurrence.span, List.mem_range'_1, holds_iff]
  omega

/-- A place cuts an occurrence: it holds a part of it alone. -/
def Cuts (place : List (Option Nat)) (occurrence : Occurrence) : Prop :=
  (∃ position ∈ occurrence.span, some position ∈ place) ∧
    ∃ position ∈ occurrence.span, some position ∉ place

instance (place : List (Option Nat)) (occurrence : Occurrence) : Decidable (Cuts place occurrence) :=
  inferInstanceAs (Decidable (_ ∧ _))

/-- An occurrence that a place cuts goes with other places all the same, and a place that reads
across the edge of what was written for a word before holds letters of occurrences alone. -/
structure Clean (words : List (List α × List α)) (text : List α) : Prop where
  cut : ∀ place ∈ places words (cells 0 text), ∀ word ∈ words,
    ∀ occurrence ∈ occurrences word.1 0 text, Cuts place occurrence →
      ∀ position ∈ occurrence.span, ∃ other ∈ places words (cells 0 text), some position ∈ other
  joined : ∀ place ∈ places words (cells 0 text), none ∈ place →
    ∀ position ∈ place.reduceOption, covers (words.map Prod.fst) text position = true

instance (words : List (List α × List α)) (text : List α) : Decidable (Clean words text) :=
  decidable_of_iff
    ((∀ place ∈ places words (cells 0 text), ∀ word ∈ words,
        ∀ occurrence ∈ occurrences word.1 0 text, Cuts place occurrence →
          ∀ position ∈ occurrence.span, ∃ other ∈ places words (cells 0 text), some position ∈ other) ∧
      ∀ place ∈ places words (cells 0 text), none ∈ place →
        ∀ position ∈ place.reduceOption, covers (words.map Prod.fst) text position = true)
    ⟨fun both => ⟨both.1, both.2⟩, fun clean => ⟨clean.cut, clean.joined⟩⟩

theorem covers_iff {words : List (List α × List α)} {text : List α} {position : Nat} :
    covers (words.map Prod.fst) text position = true ↔
      ∃ word ∈ words, ∃ occurrence ∈ occurrences word.1 0 text, position ∈ occurrence.span := by
  unfold covers
  simp only [List.any_map, List.any_eq_true, Function.comp_apply, Occurrence.mem_span]

/-- Every occurrence goes with the places, where those that are cut do. -/
theorem Clean.within {words : List (List α × List α)} {text : List α} (clean : Clean words text)
    (proper : ∀ word ∈ words, word.1 ≠ []) {position : Nat}
    (covered : covers (words.map Prod.fst) text position = true) :
    ∃ place ∈ places words (cells 0 text), some position ∈ place := by
  obtain ⟨word, member, occurrence, found, holds⟩ := covers_iff.mp covered
  obtain ⟨block, inside, reads, marked⟩ := block_of_occurrence found
  obtain ⟨place, taken, cell, within, held⟩ := met proper member inside reads
  obtain ⟨mark, same, holdsMark⟩ := marked cell within
  by_cases whole : some position ∈ place
  · exact ⟨place, taken, whole⟩
  · refine clean.cut place taken word member occurrence found ?_ position holds
    exact ⟨⟨mark, Occurrence.mem_span.mpr holdsMark, same ▸ held⟩, position, holds, whole⟩

theorem lt_of_covers {words : List (List α)} {text : List α} {position : Nat}
    (covered : covers words text position = true) : position < text.length := by
  obtain ⟨word, _, found⟩ := List.any_eq_true.mp covered
  obtain ⟨occurrence, member, holds⟩ := List.any_eq_true.mp found
  have ends := stop_le member
  have inside := (Occurrence.holds_iff.mp holds).2
  omega

/-- The letters that are left lie in no occurrence exactly when the places are clean. -/
theorem left_iff_clean {words : List (List α × List α)}
    (proper : ∀ word ∈ words, word.1 ≠ [] ∧ word.2 ≠ []) (text : List α) :
    left words text = ((List.range text.length).filter fun position =>
        !covers (words.map Prod.fst) text position) ↔ Clean words text := by
  have some_ (word : List α × List α) (member : word ∈ words) := (proper word member).1
  have kept {position : Nat} (short : position < text.length) := mem_left_iff some_ short
  constructor
  · intro same
    refine ⟨fun _ _ word member occurrence found _ position holds => ?_,
      fun place taken _ position member => ?_⟩
    · have covered := covers_iff.mpr ⟨word, member, occurrence, found, holds⟩
      by_contra free
      have survives : position ∈ left words text :=
        (kept (lt_of_covers covered)).mpr fun place taken held => free ⟨place, taken, held⟩
      rw [same] at survives
      have missed := (List.mem_filter.mp survives).2
      rw [covered] at missed
      cases missed
    · have holds := List.reduceOption_mem_iff.mp member
      have short := lt_of_places some_ taken holds
      by_contra uncovered
      have survives : position ∈ left words text := by
        rw [same]
        exact List.mem_filter.mpr ⟨List.mem_range.mpr short, by simpa using uncovered⟩
      exact (kept short).mp survives place taken holds
  · intro clean
    refine eq_of_sublist_range (left_sublist some_ text) List.filter_sublist fun position short => ?_
    rw [kept short, List.mem_filter, List.mem_range]
    constructor
    · intro free
      refine ⟨short, ?_⟩
      cases covered : covers (words.map Prod.fst) text position with
      | false => rfl
      | true =>
          obtain ⟨place, taken, member⟩ := clean.within some_ covered
          exact absurd member (free place taken)
    · rintro ⟨_, uncovered⟩ place taken member
      have covered : covers (words.map Prod.fst) text position = true := by
        by_cases joined : none ∈ place
        · exact clean.joined place taken joined position (List.reduceOption_mem_iff.mpr member)
        · exact (faithful_cells text).covers proper taken joined member
      rw [covered] at uncovered
      cases uncovered

end Places

end Hekla.Library.Replacement
