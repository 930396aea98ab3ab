import Mathlib.Data.List.Lex
import Mathlib.Data.String.Basic

/-!
# Ordered sets

A finite set kept as its elements in strictly increasing order, so that two sets
of the same elements are the same and are read off in the same order.  In a set
of lists under the lexicographic order the lists that start with a given one
stand side by side, which is what lets a search for them seek to the first and
stop at the last.
-/

namespace Hekla.Library

universe u

/-- A finite set, in increasing order. -/
structure OrderedSet (α : Type u) [LinearOrder α] where
  items : List α
  ordered : items.Pairwise (· < ·)

namespace OrderedSet

variable {α : Type u} [LinearOrder α]

instance : Membership α (OrderedSet α) := ⟨fun set item => item ∈ set.items⟩

instance (item : α) (set : OrderedSet α) : Decidable (item ∈ set) :=
  inferInstanceAs (Decidable (item ∈ set.items))

theorem mem_iff {item : α} {set : OrderedSet α} : item ∈ set ↔ item ∈ set.items := Iff.rfl

/-- Two ordered sets with the same elements are the same. -/
@[ext]
theorem ext {first second : OrderedSet α} (same : ∀ item, item ∈ first ↔ item ∈ second) :
    first = second := by
  obtain ⟨items, ordered⟩ := first
  obtain ⟨others, orderedOthers⟩ := second
  have listed : items = others := by
    replace same : ∀ item, item ∈ items ↔ item ∈ others := same
    induction items generalizing others with
    | nil =>
        cases others with
        | nil => rfl
        | cons other rest => exact absurd ((same other).mpr List.mem_cons_self) (by simp)
    | cons item rest ih =>
        cases others with
        | nil => exact absurd ((same item).mp List.mem_cons_self) (by simp)
        | cons other restOthers =>
            obtain ⟨below, orderedRest⟩ := List.pairwise_cons.mp ordered
            obtain ⟨belowOthers, orderedRestOthers⟩ := List.pairwise_cons.mp orderedOthers
            have head : item = other := by
              rcases List.mem_cons.mp ((same item).mp List.mem_cons_self) with here | later
              · exact here
              · rcases List.mem_cons.mp ((same other).mpr List.mem_cons_self) with here | laterOther
                · exact here.symm
                · exact absurd (belowOthers item later) (below other laterOther).not_gt
            subst head
            refine congrArg (item :: ·) (ih orderedRest restOthers orderedRestOthers ?_)
            intro next
            constructor
            · intro member
              rcases List.mem_cons.mp ((same next).mp (List.mem_cons_of_mem _ member)) with
                rfl | later
              · exact absurd (below next member) (lt_irrefl next)
              · exact later
            · intro member
              rcases List.mem_cons.mp ((same next).mpr (List.mem_cons_of_mem _ member)) with
                rfl | later
              · exact absurd (belowOthers next member) (lt_irrefl next)
              · exact later
  subst listed
  rfl

instance : EmptyCollection (OrderedSet α) := ⟨⟨[], List.Pairwise.nil⟩⟩

@[simp]
theorem not_mem_empty (item : α) : item ∉ (∅ : OrderedSet α) := List.not_mem_nil

/-- Put an item in its place, unless it is there already. -/
def place (item : α) : List α → List α
  | [] => [item]
  | first :: rest =>
      if item < first then item :: first :: rest
      else if item = first then first :: rest
      else first :: place item rest

theorem mem_place (item other : α) (items : List α) :
    other ∈ place item items ↔ other = item ∨ other ∈ items := by
  induction items with
  | nil => simp [place]
  | cons first rest ih =>
      unfold place
      split
      · simp
      · split
        · next same => simp [same]
        · simp only [List.mem_cons, ih]
          tauto

theorem ordered_place (item : α) {items : List α} (ordered : items.Pairwise (· < ·)) :
    (place item items).Pairwise (· < ·) := by
  induction items with
  | nil => simp [place]
  | cons first rest ih =>
      obtain ⟨below, orderedRest⟩ := List.pairwise_cons.mp ordered
      unfold place
      split
      · next before =>
          refine List.pairwise_cons.mpr ⟨?_, ordered⟩
          intro next member
          rcases List.mem_cons.mp member with rfl | later
          · exact before
          · exact before.trans (below next later)
      · next notBefore =>
          split
          · exact ordered
          · next differ =>
              refine List.pairwise_cons.mpr ⟨?_, ih orderedRest⟩
              intro next member
              rcases (mem_place item next rest).mp member with rfl | later
              · exact lt_of_le_of_ne (not_lt.mp notBefore) (Ne.symm differ)
              · exact below next later

def insert (set : OrderedSet α) (item : α) : OrderedSet α :=
  ⟨place item set.items, ordered_place item set.ordered⟩

@[simp]
theorem mem_insert {set : OrderedSet α} {item other : α} :
    other ∈ set.insert item ↔ other = item ∨ other ∈ set := mem_place item other set.items

theorem insert_of_mem {set : OrderedSet α} {item : α} (member : item ∈ set) :
    set.insert item = set := by
  ext other
  rw [mem_insert]
  exact ⟨fun either => either.elim (fun same => same ▸ member) id, .inr⟩

def filter (set : OrderedSet α) (test : α → Bool) : OrderedSet α :=
  ⟨set.items.filter test, set.ordered.filter test⟩

@[simp]
theorem mem_filter {set : OrderedSet α} {test : α → Bool} {item : α} :
    item ∈ set.filter test ↔ item ∈ set ∧ test item = true := List.mem_filter

def ofList (items : List α) : OrderedSet α := items.foldr (fun item set => set.insert item) ∅

@[simp]
theorem mem_ofList {items : List α} {item : α} : item ∈ ofList items ↔ item ∈ items := by
  induction items with
  | nil => simp [ofList]
  | cons first rest ih =>
      change item ∈ (ofList rest).insert first ↔ _
      rw [mem_insert, ih, List.mem_cons]

/-- The items of the first set and of the second. -/
def union (first second : OrderedSet α) : OrderedSet α :=
  first.items.foldr (fun item set => set.insert item) second

@[simp]
theorem mem_union {first second : OrderedSet α} {item : α} :
    item ∈ first.union second ↔ item ∈ first ∨ item ∈ second := by
  have folded (items : List α) :
      item ∈ items.foldr (fun item set => set.insert item) second ↔ item ∈ items ∨ item ∈ second := by
    induction items with
    | nil => simp
    | cons first rest ih => simp [ih, or_assoc]
  exact folded first.items

/-- From the first item that is not below the bound, as long as the test is passed. -/
def seek (set : OrderedSet α) (bound : α) (test : α → Bool) : List α :=
  (set.items.dropWhile fun item => decide (item < bound)).takeWhile test

end OrderedSet

/-! ## Lists that start alike -/

section Prefixes

variable {α : Type u} [LinearOrder α]

theorem le_of_isPrefix {stem row : List α} (starts : stem <+: row) : stem ≤ row := by
  induction stem generalizing row with
  | nil => exact not_lt.mp (List.not_lt_nil row)
  | cons first rest ih =>
      obtain ⟨tail, rfl⟩ := starts
      exact List.cons_le_cons first (ih ⟨tail, rfl⟩)

/-- What lies between a list and one that starts with it starts with it. -/
theorem isPrefix_of_between {stem row later : List α} (above : stem ≤ row) (below : row ≤ later)
    (starts : stem <+: later) : stem <+: row := by
  induction stem generalizing row later with
  | nil => exact List.nil_prefix
  | cons first rest ih =>
      obtain ⟨tail, rfl⟩ := starts
      cases row with
      | nil => exact absurd (List.nil_lt_cons first rest) (not_lt.mpr above)
      | cons head others =>
          have le_head : ¬ head < first := fun lower =>
            absurd (List.cons_lt_cons_iff.mpr (.inl lower)) (not_lt.mpr above)
          have head_le : ¬ first < head := fun higher =>
            absurd (List.cons_lt_cons_iff.mpr (.inl higher)) (not_lt.mpr below)
          have same : head = first := le_antisymm (not_lt.mp head_le) (not_lt.mp le_head)
          subst same
          have aboveRest : rest ≤ others := not_lt.mp fun lower =>
            absurd (List.cons_lt_cons_iff.mpr (.inr ⟨rfl, lower⟩)) (not_lt.mpr above)
          have belowRest : others ≤ rest ++ tail := not_lt.mp fun higher =>
            absurd (List.cons_lt_cons_iff.mpr (.inr ⟨rfl, higher⟩)) (not_lt.mpr below)
          exact (List.prefix_cons_inj head).mpr (ih aboveRest belowRest ⟨tail, rfl⟩)

/-- Seeking to a list and reading on while rows start with it finds all that do. -/
theorem OrderedSet.seek_isPrefix (set : OrderedSet (List α)) (stem : List α) :
    set.seek stem (fun row => stem.isPrefixOf row) =
      set.items.filter fun row => stem.isPrefixOf row := by
  have read (rows : List (List α)) (ordered : rows.Pairwise (· < ·))
      (above : ∀ row ∈ rows, stem ≤ row) :
      rows.takeWhile (fun row => stem.isPrefixOf row) =
        rows.filter fun row => stem.isPrefixOf row := by
    induction rows with
    | nil => rfl
    | cons row rest ih =>
        obtain ⟨below, orderedRest⟩ := List.pairwise_cons.mp ordered
        obtain ⟨aboveRow, aboveRest⟩ := List.forall_mem_cons.mp above
        by_cases starts : stem.isPrefixOf row = true
        · rw [List.takeWhile_cons_of_pos starts, List.filter_cons_of_pos starts,
            ih orderedRest aboveRest]
        · rw [List.takeWhile_cons_of_neg starts, List.filter_cons_of_neg starts, eq_comm,
            List.filter_eq_nil_iff]
          intro later member startsLater
          exact starts (List.isPrefixOf_iff_prefix.mpr (isPrefix_of_between aboveRow
            (below later member).le (List.isPrefixOf_iff_prefix.mp startsLater)))
  have sought (rows : List (List α)) (ordered : rows.Pairwise (· < ·)) :
      (rows.dropWhile fun row => decide (row < stem)).takeWhile (fun row => stem.isPrefixOf row) =
        rows.filter fun row => stem.isPrefixOf row := by
    induction rows with
    | nil => rfl
    | cons row rest ih =>
        obtain ⟨below, orderedRest⟩ := List.pairwise_cons.mp ordered
        by_cases lower : row < stem
        · have misses : ¬ stem.isPrefixOf row = true := fun starts =>
            absurd (le_of_isPrefix (List.isPrefixOf_iff_prefix.mp starts)) (not_le.mpr lower)
          rw [List.dropWhile_cons_of_pos (by simpa using lower), List.filter_cons_of_neg misses,
            ih orderedRest]
        · rw [List.dropWhile_cons_of_neg (by simpa using lower)]
          refine read (row :: rest) ordered ?_
          intro other member
          rcases List.mem_cons.mp member with rfl | later
          · exact not_lt.mp lower
          · exact (not_lt.mp lower).trans (below other later).le
  unfold seek
  convert sought set.items set.ordered

end Prefixes

end Hekla.Library
