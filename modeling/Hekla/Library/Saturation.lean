import Mathlib.Data.List.Basic
import Mathlib.Logic.Relation

/-!
# Saturation along references

A set is grown by what refers to it, in rounds over a list of nodes, until a round adds
nothing.  It then holds exactly what a chain of references leads into the set that
there was at first; and as a round that goes on adds a node, there are no more rounds
than nodes, however the references run in circles.
-/

namespace Hekla.Library

universe u

variable {α : Type u} [DecidableEq α]

/-- A node, and what it refers to. -/
abbrev Referrer (α : Type u) := α × List α

/-- One node refers to another. -/
def Refers (nodes : List (Referrer α)) (one other : α) : Prop := ∃ node ∈ nodes, node.1 = one ∧ other ∈ node.2

/-- A chain of references, which may have no link. -/
def Reaches (nodes : List (Referrer α)) : α → α → Prop := Relation.ReflTransGen (Refers nodes)

/-- A node is added where it is new and refers to something that is there. -/
def visit (state : List α × Bool) (node : Referrer α) : List α × Bool :=
  if state.1.contains node.1 || !node.2.any state.1.contains then state else (node.1 :: state.1, true)

/-- A pass over the nodes, and whether it added any. -/
def round (nodes : List (Referrer α)) (reached : List α) : List α × Bool := nodes.foldl visit (reached, false)

/-- Rounds until one adds nothing. -/
def saturate (nodes : List (Referrer α)) : Nat → List α → Option (List α)
  | 0, _ => none
  | rounds + 1, reached =>
      match round nodes reached with
      | (grown, true) => saturate nodes rounds grown
      | (same, false) => some same

/-- The nodes that are not there yet. -/
def missing (nodes : List (Referrer α)) (reached : List α) : Nat :=
  (nodes.filter fun node => !reached.contains node.1).length

variable {nodes : List (Referrer α)}

/-! ## A round -/

omit [DecidableEq α] in
theorem Reaches.refl (nodes : List (Referrer α)) (node : α) : Reaches nodes node node := Relation.ReflTransGen.refl

/-- What one node adds is itself, and it leads where the set does. -/
theorem visit_cases (state : List α × Bool) (node : Referrer α) :
    (visit state node = state ∧ (node.1 ∈ state.1 ∨ ∀ other ∈ node.2, other ∉ state.1)) ∨
      (visit state node = (node.1 :: state.1, true) ∧ node.1 ∉ state.1 ∧ ∃ other ∈ node.2, other ∈ state.1) := by
  unfold visit
  by_cases known : node.1 ∈ state.1
  · exact .inl ⟨if_pos (by simp [known]), .inl known⟩
  · by_cases leads : ∃ other ∈ node.2, other ∈ state.1
    · refine .inr ⟨if_neg ?_, known, leads⟩
      simpa [known] using leads
    · refine .inl ⟨if_pos ?_, .inr fun other member held => leads ⟨other, member, held⟩⟩
      simp only [Bool.or_eq_true, Bool.not_eq_true', List.any_eq_false, List.contains_iff_mem]
      exact .inr fun other member held => leads ⟨other, member, held⟩

/-- A pass keeps what there is. -/
theorem subset_visits (some_ : List (Referrer α)) (state : List α × Bool) : state.1 ⊆ (some_.foldl visit state).1 := by
  induction some_ generalizing state with
  | nil => exact List.Subset.refl _
  | cons node rest ih =>
      refine List.Subset.trans ?_ (ih (visit state node))
      rcases visit_cases state node with ⟨same, -⟩ | ⟨added, -, -⟩
      · rw [same]
        exact List.Subset.refl _
      · rw [added]
        exact List.subset_cons_self _ _

/-- All that a pass adds leads where the set did. -/
theorem reaches_visits {some_ : List (Referrer α)} (known : some_ ⊆ nodes) {state : List α × Bool} {goal : α → Prop}
    (leads : ∀ one ∈ state.1, ∃ other, goal other ∧ Reaches nodes one other) :
    ∀ one ∈ (some_.foldl visit state).1, ∃ other, goal other ∧ Reaches nodes one other := by
  induction some_ generalizing state with
  | nil => exact leads
  | cons node rest ih =>
      refine ih (fun other member => known (List.mem_cons_of_mem _ member)) ?_
      rcases visit_cases state node with ⟨same, -⟩ | ⟨added, -, next, member, held⟩
      · rw [same]
        exact leads
      · rw [added]
        intro one held'
        rcases List.mem_cons.mp held' with rfl | before
        · obtain ⟨other, goal, reaches⟩ := leads next held
          exact ⟨other, goal, .head ⟨node, known List.mem_cons_self, rfl, member⟩ reaches⟩
        · exact leads one before

/-- A pass that adds nothing leaves no node that refers to something there. -/
theorem closed_of_visits {some_ : List (Referrer α)} {state : List α × Bool}
    (still : (some_.foldl visit state).2 = false) :
    some_.foldl visit state = state ∧ ∀ node ∈ some_, ∀ other ∈ node.2, other ∈ state.1 → node.1 ∈ state.1 := by
  induction some_ generalizing state with
  | nil => exact ⟨rfl, nofun⟩
  | cons node rest ih =>
      rw [List.foldl_cons] at still ⊢
      have once {other : List α × Bool} (grew : other.2 = true) (more : List (Referrer α)) :
          (more.foldl visit other).2 = true := by
        induction more generalizing other with
        | nil => exact grew
        | cons next more ih =>
            refine ih ?_
            rcases visit_cases other next with ⟨same, -⟩ | ⟨added, -, -⟩
            · rw [same]
              exact grew
            · rw [added]
      rcases visit_cases state node with ⟨same, apart⟩ | ⟨added, -, -⟩
      · rw [same] at still ⊢
        obtain ⟨kept, closed⟩ := ih still
        refine ⟨kept, ?_⟩
        intro other member
        rcases List.mem_cons.mp member with rfl | later
        · intro next held there
          exact apart.elim id fun none_ => absurd there (none_ next held)
        · exact closed other later
      · have grew := once (congrArg Prod.snd added) rest
        rw [still] at grew
        cases grew

theorem missing_cons_lt {node : Referrer α} (known : node ∈ nodes) {reached : List α} (absent : node.1 ∉ reached) :
    missing nodes (node.1 :: reached) < missing nodes reached := by
  have split : (nodes.filter fun other => !(node.1 :: reached).contains other.1) =
      (nodes.filter fun other => !reached.contains other.1).filter fun other => other.1 != node.1 := by
    rw [List.filter_filter]
    refine List.filter_congr fun other _ => ?_
    rw [List.contains_cons, Bool.not_or]
    rfl
  unfold missing
  rw [split, List.length_filter_lt_length_iff_exists]
  exact ⟨node, List.mem_filter.mpr ⟨known, by simpa using absent⟩, by simp⟩

/-- A pass that adds something leaves fewer nodes to add. -/
theorem missing_visits {some_ : List (Referrer α)} (known : some_ ⊆ nodes) (state : List α × Bool) :
    missing nodes (some_.foldl visit state).1 ≤ missing nodes state.1 ∧
      (state.2 = false → (some_.foldl visit state).2 = true →
        missing nodes (some_.foldl visit state).1 < missing nodes state.1) := by
  induction some_ generalizing state with
  | nil =>
      refine ⟨Nat.le_refl _, fun still grew => ?_⟩
      rw [List.foldl_nil, still] at grew
      cases grew
  | cons node rest ih =>
      have further := ih (fun other member => known (List.mem_cons_of_mem _ member)) (visit state node)
      rw [List.foldl_cons]
      rcases visit_cases state node with ⟨same, -⟩ | ⟨added, absent, -⟩
      · rw [same] at further ⊢
        exact further
      · have fewer := missing_cons_lt (known List.mem_cons_self) absent
        rw [added] at further ⊢
        exact ⟨Nat.le_trans further.1 (Nat.le_of_lt fewer), fun _ _ => Nat.lt_of_le_of_lt further.1 fewer⟩

/-! ## Rounds -/

/-- There are rounds enough for as many nodes as are missing. -/
theorem saturate_of_enough {rounds : Nat} {reached : List α} (enough : missing nodes reached < rounds) :
    ∃ all, saturate nodes rounds reached = some all := by
  induction rounds generalizing reached with
  | zero => cases enough
  | succ rounds ih =>
      rw [saturate]
      cases passed : round nodes reached with
      | mk grown grew =>
          cases grew with
          | false => exact ⟨grown, rfl⟩
          | true =>
              have fewer := (missing_visits (List.Subset.refl nodes) (reached, false)).2 rfl (congrArg Prod.snd passed)
              change missing nodes (round nodes reached).1 < _ at fewer
              rw [passed] at fewer
              exact ih (Nat.lt_of_lt_of_le fewer (Nat.le_of_lt_succ enough))

/-- What rounds end with is closed, holds what there was, and leads into it. -/
theorem saturate_spec {rounds : Nat} {reached all : List α} {goal : α → Prop}
    (ended : saturate nodes rounds reached = some all)
    (leads : ∀ one ∈ reached, ∃ other, goal other ∧ Reaches nodes one other) :
    reached ⊆ all ∧ (∀ one ∈ all, ∃ other, goal other ∧ Reaches nodes one other) ∧
      ∀ one other, Refers nodes one other → other ∈ all → one ∈ all := by
  induction rounds generalizing reached with
  | zero => cases ended
  | succ rounds ih =>
      rw [saturate] at ended
      cases passed : round nodes reached with
      | mk grown grew =>
          rw [passed] at ended
          cases grew with
          | false =>
              obtain rfl := Option.some.inj ended
              have still := closed_of_visits (congrArg Prod.snd passed)
              have same : reached = grown := congrArg Prod.fst (still.1.symm.trans passed)
              subst same
              refine ⟨List.Subset.refl _, leads, ?_⟩
              rintro one other ⟨node, member, rfl, held⟩ there
              exact still.2 node member other held there
          | true =>
              have kept : reached ⊆ (round nodes reached).1 := subset_visits nodes (reached, false)
              have led : ∀ one ∈ (round nodes reached).1, ∃ other, goal other ∧ Reaches nodes one other :=
                reaches_visits (List.Subset.refl nodes) leads
              rw [passed] at kept led
              obtain ⟨subset, spec⟩ := ih ended led
              exact ⟨List.Subset.trans kept subset, spec⟩

/-- Saturation ends with exactly what reaches the set that there was at first. -/
theorem mem_saturate {rounds : Nat} {start all : List α} (ended : saturate nodes rounds start = some all) (one : α) :
    one ∈ all ↔ ∃ other ∈ start, Reaches nodes one other := by
  obtain ⟨subset, leads, closed⟩ := saturate_spec ended
    fun one member => ⟨one, member, .refl nodes one⟩
  constructor
  · exact leads one
  · rintro ⟨other, member, reaches⟩
    induction reaches using Relation.ReflTransGen.head_induction_on with
    | refl => exact subset member
    | head link _ ih => exact closed _ _ link ih

end Hekla.Library
