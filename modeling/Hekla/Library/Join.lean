import Mathlib.Order.Compare
import Mathlib.Data.List.Sort

/-!
# Merging two keyed lists

Two lists of entries, each in strictly ascending order of keys, are walked side
by side.  The walk comes upon every key of either list once, in order, with what
the two lists have under it.
-/

namespace Hekla.Library

universe u v

variable {κ : Type u} {β : Type v}

/-- What two lists have under a key that one of them has. -/
inductive Sides (β : Type v) where
  | both (left right : β)
  | onlyLeft (left : β)
  | onlyRight (right : β)

/-- The sides of what is found under a key. -/
def Sides.of : Option β → Option β → Option (Sides β)
  | some left, some right => some (.both left right)
  | some left, none => some (.onlyLeft left)
  | none, some right => some (.onlyRight right)
  | none, none => none

section Join

variable [LinearOrder κ]

/-- The keys go up strictly. -/
def Ascending (entries : List (κ × β)) : Prop :=
  entries.Pairwise fun first second => first.1 < second.1

/-- Walk both lists, taking the lower of the two first keys. -/
def join : List (κ × β) → List (κ × β) → List (κ × Sides β)
  | [], right => right.map fun entry => (entry.1, .onlyRight entry.2)
  | entry :: left, [] => (entry :: left).map fun entry => (entry.1, .onlyLeft entry.2)
  | first :: left, second :: right =>
      match compare first.1 second.1 with
      | .eq => (first.1, .both first.2 second.2) :: join left right
      | .lt => (first.1, .onlyLeft first.2) :: join left (second :: right)
      | .gt => (second.1, .onlyRight second.2) :: join (first :: left) right
termination_by left right => left.length + right.length

omit [LinearOrder κ] in
theorem lookup_eq_none_of_ne [DecidableEq κ] {entries : List (κ × β)} {key : κ}
    (absent : ∀ entry ∈ entries, entry.1 ≠ key) : entries.lookup key = none := by
  refine List.lookup_eq_none_iff.mpr fun entry member => ?_
  exact bne_iff_ne.mpr (absent entry member).symm

omit [LinearOrder κ] in
theorem lookup_map [DecidableEq κ] {γ : Type*} (entries : List (κ × β)) (form : β → γ) (key : κ) :
    (entries.map fun entry => (entry.1, form entry.2)).lookup key =
      (entries.lookup key).map form := by
  induction entries with
  | nil => rfl
  | cons entry rest ih =>
      rw [List.map_cons, List.lookup_cons, List.lookup_cons, ih]
      split
      · rfl
      · rfl

/-- Where no key comes twice, a list holds what is looked up in it. -/
theorem mem_iff_lookup {entries : List (κ × β)} (ascending : Ascending entries) (key : κ)
    (value : β) : (key, value) ∈ entries ↔ entries.lookup key = some value := by
  induction entries with
  | nil => exact ⟨nofun, nofun⟩
  | cons entry rest ih =>
      obtain ⟨below, ascendingRest⟩ := List.pairwise_cons.mp ascending
      rw [List.mem_cons, List.lookup_cons, ih ascendingRest]
      by_cases here : key = entry.1
      · subst here
        have absent : rest.lookup entry.1 = none :=
          lookup_eq_none_of_ne fun other member => (below other member).ne'
        rw [absent]
        simp [Prod.ext_iff, eq_comm]
      · have apart : (key, value) ≠ entry := fun same => here (congrArg Prod.fst same)
        have unlike : (key == entry.1) = false := beq_false_of_ne here
        rw [unlike]
        simp [apart]

theorem join_keys {left right : List (κ × β)} {entry : κ × Sides β}
    (member : entry ∈ join left right) :
    entry.1 ∈ left.map Prod.fst ∨ entry.1 ∈ right.map Prod.fst := by
  induction left, right using join.induct with
  | case1 right =>
      rw [join, List.mem_map] at member
      obtain ⟨other, there, rfl⟩ := member
      exact .inr (List.mem_map_of_mem there)
  | case2 first left =>
      rw [join, List.mem_map] at member
      obtain ⟨other, there, rfl⟩ := member
      exact .inl (List.mem_map_of_mem there)
  | case3 first left second right order ih =>
      rw [join, order, List.mem_cons] at member
      rcases member with rfl | member
      · exact .inl List.mem_cons_self
      · exact (ih member).imp (List.mem_cons_of_mem _) (List.mem_cons_of_mem _)
  | case4 first left second right order ih =>
      rw [join, order, List.mem_cons] at member
      rcases member with rfl | member
      · exact .inl List.mem_cons_self
      · exact (ih member).imp_left (List.mem_cons_of_mem _)
  | case5 first left second right order ih =>
      rw [join, order, List.mem_cons] at member
      rcases member with rfl | member
      · exact .inr List.mem_cons_self
      · exact (ih member).imp_right (List.mem_cons_of_mem _)

/-- A key below the first of a list is below all of it. -/
theorem Ascending.below {entry : κ × β} {rest : List (κ × β)}
    (ascending : Ascending (entry :: rest)) {key : κ} (lower : key < entry.1) :
    ∀ other ∈ (entry :: rest).map Prod.fst, key < other := by
  intro other member
  obtain ⟨held, there, rfl⟩ := List.mem_map.mp member
  rcases List.mem_cons.mp there with rfl | later
  · exact lower
  · exact lower.trans ((List.pairwise_cons.mp ascending).1 held later)

theorem Ascending.rest {entry : κ × β} {rest : List (κ × β)}
    (ascending : Ascending (entry :: rest)) : Ascending rest :=
  (List.pairwise_cons.mp ascending).2

theorem Ascending.after {entry : κ × β} {rest : List (κ × β)}
    (ascending : Ascending (entry :: rest)) : ∀ other ∈ rest.map Prod.fst, entry.1 < other := by
  intro other member
  obtain ⟨held, there, rfl⟩ := List.mem_map.mp member
  exact (List.pairwise_cons.mp ascending).1 held there

theorem Ascending.lookup_below {entries : List (κ × β)} {key : κ}
    (lower : ∀ other ∈ entries.map Prod.fst, key < other) : entries.lookup key = none :=
  lookup_eq_none_of_ne fun entry member => (lower entry.1 (List.mem_map_of_mem member)).ne'

/-- The walk goes up strictly, so it comes upon no key twice. -/
theorem join_ascending {left right : List (κ × β)} (leftward : Ascending left)
    (rightward : Ascending right) : Ascending (join left right) := by
  induction left, right using join.induct with
  | case1 right =>
      rw [join]
      exact List.pairwise_map.mpr rightward
  | case2 first left =>
      rw [join]
      exact List.pairwise_map.mpr leftward
  | case3 first left second right order ih =>
      rw [join, order]
      refine List.pairwise_cons.mpr ⟨fun entry member => ?_, ih leftward.rest rightward.rest⟩
      have same := compare_eq_iff_eq.mp order
      rcases join_keys member with there | there
      · exact leftward.after _ there
      · exact same ▸ rightward.after _ there
  | case4 first left second right order ih =>
      rw [join, order]
      refine List.pairwise_cons.mpr ⟨fun entry member => ?_, ih leftward.rest rightward⟩
      rcases join_keys member with there | there
      · exact leftward.after _ there
      · exact rightward.below (compare_lt_iff_lt.mp order) _ there
  | case5 first left second right order ih =>
      rw [join, order]
      refine List.pairwise_cons.mpr ⟨fun entry member => ?_, ih leftward rightward.rest⟩
      rcases join_keys member with there | there
      · exact leftward.below (compare_gt_iff_gt.mp order) _ there
      · exact rightward.after _ there

/-- Under every key the walk finds what the two lists have there. -/
theorem lookup_join {left right : List (κ × β)} (leftward : Ascending left)
    (rightward : Ascending right) (key : κ) :
    (join left right).lookup key = Sides.of (left.lookup key) (right.lookup key) := by
  induction left, right using join.induct with
  | case1 right =>
      rw [join, lookup_map]
      cases right.lookup key with
      | none => rfl
      | some value => rfl
  | case2 first left =>
      rw [join, lookup_map]
      cases (first :: left).lookup key with
      | none => rfl
      | some value => rfl
  | case3 first left second right order ih =>
      have same := compare_eq_iff_eq.mp order
      rw [join, order]
      dsimp only
      rw [List.lookup_cons, List.lookup_cons, List.lookup_cons, ih leftward.rest rightward.rest,
        ← same]
      split
      · rfl
      · rfl
  | case4 first left second right order ih =>
      have lower := compare_lt_iff_lt.mp order
      rw [join, order]
      dsimp only
      have opened : (first :: left).lookup key =
          match key == first.1 with
          | true => some first.2
          | false => left.lookup key := List.lookup_cons
      rw [List.lookup_cons, opened, ih leftward.rest rightward]
      cases here : key == first.1 with
      | true =>
          have absent : (second :: right).lookup key = none :=
            Ascending.lookup_below (eq_of_beq here ▸ rightward.below lower)
          rw [absent]
          rfl
      | false => rfl
  | case5 first left second right order ih =>
      have lower := compare_gt_iff_gt.mp order
      rw [join, order]
      dsimp only
      have opened : (second :: right).lookup key =
          match key == second.1 with
          | true => some second.2
          | false => right.lookup key := List.lookup_cons
      rw [List.lookup_cons, opened, ih leftward rightward.rest]
      cases here : key == second.1 with
      | true =>
          have absent : (first :: left).lookup key = none :=
            Ascending.lookup_below (eq_of_beq here ▸ leftward.below lower)
          rw [absent]
          rfl
      | false => rfl

end Join

end Hekla.Library
