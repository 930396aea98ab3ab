import Mathlib.Data.List.SplitBy
import Hekla.Library.Keyset

/-!
# Changes of a value

A value that is set again and again changes where it is no longer alike to what it
was.  Its changes are chained: each starts from what the one before it ended with.
Changes of several values that stand together are the entries of one history.
-/

namespace Hekla.Library

universe u v w

section Changes

variable {π : Type u} {ν : Type v} {κ : Type w} (alike : ν → ν → Prop) [DecidableRel alike]
  (shown : ν → κ)

/-- The changes of a value: where it changed, from what, and into what. -/
def changes (before : ν) : List (π × ν) → List (π × κ × κ)
  | [] => []
  | (place, value) :: rest =>
      if alike value before then changes value rest
      else (place, shown before, shown value) :: changes value rest

/-- What a value is after it was set. -/
def latest (before : ν) (sets : List (π × ν)) : ν := (sets.getLast?.map Prod.snd).getD before

omit [DecidableRel alike] in
theorem latest_cons (before : ν) (place : π) (value : ν) (rest : List (π × ν)) :
    latest before ((place, value) :: rest) = latest value rest := by
  unfold latest
  cases rest with
  | nil => rfl
  | cons next more =>
      rw [List.getLast?_cons_cons, List.getLast?_cons]
      rfl

/-- Changes that lead from one thing to another. -/
def Linked (first : κ) : List (π × κ × κ) → κ → Prop
  | [], last => first = last
  | (_, before, after) :: rest, last => before = first ∧ Linked after rest last

variable {alike shown}

theorem changes_append (before : ν) (sets later : List (π × ν)) :
    changes alike shown before (sets ++ later) =
      changes alike shown before sets ++ changes alike shown (latest before sets) later := by
  induction sets generalizing before with
  | nil => rfl
  | cons set rest ih =>
      obtain ⟨place, value⟩ := set
      rw [List.cons_append, changes, changes, latest_cons, ih]
      split
      · rfl
      · rfl

/-- A value changes only where it is set. -/
theorem changes_places (before : ν) (sets : List (π × ν)) :
    ((changes alike shown before sets).map Prod.fst).Sublist (sets.map Prod.fst) := by
  induction sets generalizing before with
  | nil => exact .slnil
  | cons set rest ih =>
      obtain ⟨place, value⟩ := set
      rw [changes, List.map_cons]
      split
      · exact (ih value).cons place
      · exact (ih value).cons_cons place

/-- The changes of a value lead from what it was to what it is. -/
theorem linked_changes (same : ∀ one other, alike one other → shown one = shown other) (before : ν)
    (sets : List (π × ν)) :
    Linked (shown before) (changes alike shown before sets) (shown (latest before sets)) := by
  induction sets generalizing before with
  | nil => exact rfl
  | cons set rest ih =>
      obtain ⟨place, value⟩ := set
      rw [changes, latest_cons]
      split
      · next still =>
          rw [← same value before still]
          exact ih value
      · exact ⟨rfl, ih value⟩

end Changes

/-! ## Entries -/

section Blocks

variable {α : Type u} (place : α → Nat)

/-- What stands together at one place after another. -/
def blocks (items : List α) : List (List α) := items.splitBy fun one other => place one == place other

variable {place} {items : List α}

/-- Blocks of what stands together, at falling places. -/
structure Fall (place : α → Nat) (cut : List (List α)) : Prop where
  filled : [] ∉ cut
  together : ∀ block ∈ cut, ∀ one ∈ block, ∀ other ∈ block, place one = place other
  falling : cut.Pairwise fun block next => ∀ one ∈ block, ∀ other ∈ next, place other < place one

theorem flatten_blocks : (blocks place items).flatten = items := List.flatten_splitBy _ _

theorem together_of_chain {block : List α} (chain : block.IsChain fun one other => place one = place other) :
    ∀ one ∈ block, ∀ other ∈ block, place one = place other := by
  have transitive : IsTrans α fun one other => place one = place other := ⟨fun _ _ _ => Eq.trans⟩
  have symmetric : Std.Symm fun one other : α => place one = place other := ⟨fun _ _ => Eq.symm⟩
  have pairs := List.isChain_iff_pairwise.mp chain
  intro one first other second
  exact List.Pairwise.forall_of_forall (R := fun one other => place one = place other) (fun _ _ => rfl) pairs
    first second

/-- Blocks that never rise, each apart from the next, fall. -/
theorem falling_of_apart {cut : List (List α)}
    (together : ∀ block ∈ cut, ∀ one ∈ block, ∀ other ∈ block, place one = place other)
    (sorted : cut.Pairwise fun block next => ∀ one ∈ block, ∀ other ∈ next, place other ≤ place one)
    (apart : cut.IsChain fun block next => ∃ some_ more, place (block.getLast some_) ≠ place (next.head more)) :
    cut.Pairwise fun block next => ∀ one ∈ block, ∀ other ∈ next, place other < place one := by
  induction cut with
  | nil => exact .nil
  | cons block rest ih =>
      rw [List.pairwise_cons] at sorted
      have falling := ih (fun block member => together block (List.mem_cons_of_mem _ member)) sorted.2 apart.tail
      refine List.pairwise_cons.mpr ⟨?_, falling⟩
      cases rest with
      | nil =>
          intro later listed
          cases listed
      | cons next more =>
          obtain ⟨⟨some_, more_, differ⟩, -⟩ := List.isChain_cons_cons.mp apart
          have first {one : α} (member : one ∈ block) : place (next.head more_) < place one := by
            have below := sorted.1 next List.mem_cons_self one member _ (List.head_mem more_)
            have same := together block List.mem_cons_self one member _ (List.getLast_mem some_)
            exact lt_of_le_of_ne below fun equal => differ (same.symm.trans equal.symm)
          intro later listed one member other member'
          rcases List.mem_cons.mp listed with rfl | listed
          · have same := together later (List.mem_cons_of_mem _ List.mem_cons_self) other member' _
              (List.head_mem more_)
            exact same ▸ first member
          · exact ((List.pairwise_cons.mp falling).1 later listed _ (List.head_mem more_) other member').trans
              (first member)

/-- What stands at places that never rise is cut into blocks. -/
theorem blocks_fall (sorted : items.Pairwise fun one other => place other ≤ place one) :
    Fall place (blocks place items) := by
  have together : ∀ block ∈ blocks place items, ∀ one ∈ block, ∀ other ∈ block, place one = place other := by
    intro block member
    exact together_of_chain ((List.isChain_of_mem_splitBy member).imp fun _ _ same => by simpa using same)
  refine ⟨List.nil_notMem_splitBy _ _, together, falling_of_apart together ?_ ?_⟩
  · have whole : (blocks place items).flatten = items := flatten_blocks
    rw [← whole, List.pairwise_flatten] at sorted
    exact sorted.2
  · refine (List.isChain_getLast_head_splitBy (fun one other => place one == place other) items).imp ?_
    rintro block next ⟨some_, more, differ⟩
    exact ⟨some_, more, by simpa using differ⟩

/-- There is one way to cut a list into blocks. -/
theorem Fall.eq_blocks {cut : List (List α)} (fall : Fall place cut) : blocks place cut.flatten = cut := by
  refine List.splitBy_flatten fall.filled ?_ ?_
  · intro block member
    have pairs : block.Pairwise fun one other => (place one == place other) = true := by
      refine List.Pairwise.imp_of_mem ?_ (List.pairwise_of_forall (R := fun _ _ => True) fun _ _ => trivial)
      intro one other first second _
      exact beq_iff_eq.mpr (fall.together block member one first other second)
    exact pairs.isChain
  · refine List.Pairwise.isChain (fall.falling.imp_of_mem ?_)
    intro block next member member' below
    have some_ : block ≠ [] := fun empty => fall.filled (empty ▸ member)
    have more : next ≠ [] := fun empty => fall.filled (empty ▸ member')
    refine ⟨some_, more, ?_⟩
    have less := below _ (List.getLast_mem some_) _ (List.head_mem more)
    exact beq_eq_false_iff_ne.mpr less.ne'

/-- What comes after a block is what stands below it. -/
theorem blocks_below (sorted : items.Pairwise fun one other => place other ≤ place one)
    {done rest : List (List α)} (split : blocks place items = done ++ rest) {last : List α}
    (ended : done.getLast? = some last) {one : α} (member : one ∈ last) :
    blocks place (items.filter fun item => place item < place one) = rest := by
  have fall := blocks_fall sorted
  rw [split] at fall
  obtain ⟨earlier, rfl⟩ := List.getLast?_eq_some_iff.mp ended
  have falling := fall.falling
  rw [List.pairwise_append] at falling
  obtain ⟨upper, later, below⟩ := falling
  have above {block : List α} (known : block ∈ earlier ++ [last]) {item : α} (held : item ∈ block) :
      place one ≤ place item := by
    rcases List.mem_append.mp known with front | here
    · exact (((List.pairwise_append.mp upper).2.2 block front last (List.mem_singleton_self _)) item held one
        member).le
    · obtain rfl := List.mem_singleton.mp here
      exact (fall.together block (List.mem_append_left _ known) one member item held).le
  have kept : items.filter (fun item => place item < place one) = rest.flatten := by
    have none_ : (earlier ++ [last]).flatten.filter (fun item => place item < place one) = [] := by
      rw [List.filter_eq_nil_iff]
      intro item held less
      obtain ⟨block, known, held⟩ := List.mem_flatten.mp held
      exact absurd (above known held) (Nat.not_le.mpr (of_decide_eq_true less))
    have all : rest.flatten.filter (fun item => place item < place one) = rest.flatten := by
      rw [List.filter_eq_self]
      intro item held
      obtain ⟨block, known, held⟩ := List.mem_flatten.mp held
      exact decide_eq_true (below last (List.mem_append_right _ (List.mem_singleton_self _)) block known one
        member item held)
    have whole : (blocks place items).flatten = items := flatten_blocks
    conv_lhs => rw [← whole, split]
    rw [List.flatten_append, List.filter_append, none_, all, List.nil_append]
  rw [kept]
  refine Fall.eq_blocks ⟨fun empty => fall.filled (List.mem_append_right _ empty), ?_, later⟩
  intro block known
  exact fall.together block (List.mem_append_right _ known)

end Blocks

end Hekla.Library
