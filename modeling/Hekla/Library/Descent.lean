import Mathlib.Logic.Relation

/-!
# Walks that enter nothing twice

A walk down a graph that turns back at every node it is inside of ends, and comes to no fewer
nodes: what a node leads to again is led to already.
-/

namespace Hekla.Library

universe u

variable {α : Type u}

/-- Steps down from a node to another, none of them at one already entered. -/
inductive Descends (next : α → List α) (entered : List α) : α → α → Prop where
  | here {node : α} : node ∉ entered → Descends next entered node node
  | down {node child target : α} : node ∉ entered → child ∈ next node →
      Descends next entered child target → Descends next entered node target

namespace Descends

variable {next : α → List α} {entered : List α} {node other target : α}

theorem fresh (descends : Descends next entered node target) : node ∉ entered := by
  cases descends with
  | here fresh => exact fresh
  | down fresh _ _ => exact fresh

/-- Steps that may pass a node either do not, or begin again at the last time they do. -/
theorem again [DecidableEq α] (descends : Descends next entered other target)
    (apart : target ≠ node) :
    Descends next (node :: entered) other target ∨
      ∃ child ∈ next node, Descends next (node :: entered) child target := by
  induction descends with
  | @here other fresh => exact .inl (.here (List.not_mem_cons_of_ne_of_not_mem apart fresh))
  | @down other child target fresh listed _ ih =>
      rcases ih apart with within | later
      · by_cases here : other = node
        · exact .inr ⟨child, here ▸ listed, within⟩
        · exact .inl (.down (List.not_mem_cons_of_ne_of_not_mem here fresh) listed within)
      · exact .inr later

theorem weaken {more : List α} (descends : Descends next more node target)
    (fewer : entered ⊆ more) : Descends next entered node target := by
  induction descends with
  | here fresh => exact .here fun inside => fresh (fewer inside)
  | down fresh listed _ ih => exact .down (fun inside => fresh (fewer inside)) listed ih

/-- From a node that is not entered a walk comes to it, and to what its children come to
without it. -/
theorem iff_of_fresh [DecidableEq α] (fresh : node ∉ entered) :
    Descends next entered node target ↔
      target = node ∨ ∃ child ∈ next node, Descends next (node :: entered) child target := by
  constructor
  · intro descends
    by_cases same : target = node
    · exact .inl same
    · rcases @again _ _ _ node _ _ _ descends same with within | below
      · exact absurd List.mem_cons_self within.fresh
      · exact .inr below
  · rintro (rfl | ⟨child, listed, below⟩)
    · exact .here fresh
    · exact .down fresh listed (below.weaken (List.subset_cons_self _ _))

/-- Where nothing is entered, a walk comes to whatever can be reached. -/
theorem nil_iff : Descends next [] node target ↔
    Relation.ReflTransGen (fun one other => other ∈ next one) node target := by
  constructor
  · intro descends
    induction descends with
    | here _ => exact .refl
    | down _ listed _ ih => exact .head listed ih
  · intro reached
    induction reached using Relation.ReflTransGen.head_induction_on with
    | refl => exact .here List.not_mem_nil
    | head listed _ ih => exact .down List.not_mem_nil listed ih

end Descends

end Hekla.Library
