import Hekla.Library.Forest

/-!
# Pruning a forest

A node is an orphan when the node it hangs from is not there.  A forest is
pruned by taking nodes away that hang, directly or through other nodes, from
one that is not there; a round of pruning leaves no node that was an orphan
when the round began.  As every round takes the upper end of every broken
chain, the longest of them bounds the rounds.
-/

namespace Hekla.Library.Forest

universe u v

variable {ι : Type u} {γ : Type v}

/-- The node hangs from one that is not there. -/
def Orphan (forest : Forest ι γ) (lower : ι) : Prop :=
  ∃ upper, Hangs forest lower upper ∧ forest upper = none

/-- A chain of so many nodes, each hanging from the next, ends in an orphan. -/
inductive Broken (forest : Forest ι γ) : Nat → ι → Prop where
  | top {lower : ι} (orphan : Orphan forest lower) : Broken forest 1 lower
  | link {lower upper : ι} {length : Nat} (hangs : Hangs forest lower upper)
      (broken : Broken forest length upper) : Broken forest (length + 1) lower

/-- What is left of a forest after broken nodes were taken away. -/
structure Pruned (forest next : Forest ι γ) : Prop where
  kept : ∀ lower node, next lower = some node → forest lower = some node
  broken : ∀ lower, next lower = none →
    forest lower = none ∨ ∃ length, Broken forest length lower

variable {forest next last : Forest ι γ} {lower : ι} {length : Nat}

theorem Broken.pos (broken : Broken forest length lower) : 0 < length := by
  cases broken with
  | top => exact Nat.one_pos
  | link => exact Nat.succ_pos _

/-- Where a chain is broken there is an orphan. -/
theorem Broken.has_orphan (broken : Broken forest length lower) : ∃ other, Orphan forest other := by
  induction broken with
  | top orphan => exact ⟨_, orphan⟩
  | link _ _ ih => exact ih

theorem Pruned.refl (forest : Forest ι γ) : Pruned forest forest :=
  ⟨fun _ _ found => found, fun _ gone => .inl gone⟩

theorem Pruned.hangs (pruned : Pruned forest next) {upper : ι} (hangs : Hangs next lower upper) :
    Hangs forest lower upper := by
  obtain ⟨node, gen, found, above⟩ := hangs
  exact ⟨node, gen, pruned.kept lower node found, above⟩

/-- A chain that is broken now was broken before, and no shorter. -/
theorem Pruned.lengthens (pruned : Pruned forest next) (broken : Broken next length lower) :
    ∃ longer, length ≤ longer ∧ Broken forest longer lower := by
  induction broken with
  | @top lower orphan =>
      obtain ⟨upper, hangs, gone⟩ := orphan
      rcases pruned.broken upper gone with never | ⟨above, broken⟩
      · exact ⟨1, Nat.le_refl 1, .top ⟨upper, pruned.hangs hangs, never⟩⟩
      · exact ⟨above + 1, Nat.succ_pos above, .link (pruned.hangs hangs) broken⟩
  | link hangs _ ih =>
      obtain ⟨longer, atLeast, broken⟩ := ih
      exact ⟨longer + 1, Nat.succ_le_succ atLeast, .link (pruned.hangs hangs) broken⟩

theorem Pruned.trans (first : Pruned forest next) (second : Pruned next last) :
    Pruned forest last := by
  refine ⟨fun lower node found => first.kept lower node (second.kept lower node found), ?_⟩
  intro lower gone
  rcases second.broken lower gone with goneBefore | ⟨length, broken⟩
  · exact first.broken lower goneBefore
  · obtain ⟨longer, -, brokenBefore⟩ := first.lengthens broken
    exact .inr ⟨longer, brokenBefore⟩

/-- A round that leaves no orphan of before shortens every broken chain. -/
theorem Pruned.shortens (pruned : Pruned forest next)
    (swept : ∀ lower, Orphan forest lower → next lower = none)
    (broken : Broken next length lower) :
    ∃ longer, length < longer ∧ Broken forest longer lower := by
  induction broken with
  | @top lower orphan =>
      obtain ⟨upper, hangs, gone⟩ := orphan
      rcases pruned.broken upper gone with never | ⟨above, broken⟩
      · have taken : next lower = none := swept lower ⟨upper, pruned.hangs hangs, never⟩
        obtain ⟨node, gen, found, -⟩ := hangs
        rw [taken] at found
        cases found
      · exact ⟨above + 1, Nat.succ_lt_succ broken.pos, .link (pruned.hangs hangs) broken⟩
  | link hangs _ ih =>
      obtain ⟨longer, more, broken⟩ := ih
      exact ⟨longer + 1, Nat.succ_lt_succ more, .link (pruned.hangs hangs) broken⟩

/-- A bound on the broken chains goes down by one with every round. -/
theorem Pruned.bound {depth : Nat} (pruned : Pruned forest next)
    (swept : ∀ lower, Orphan forest lower → next lower = none)
    (bounded : ∀ length lower, Broken forest length lower → length ≤ depth + 1)
    (length : Nat) (lower : ι) (broken : Broken next length lower) : length ≤ depth := by
  obtain ⟨longer, more, brokenBefore⟩ := pruned.shortens swept broken
  exact Nat.le_of_lt_succ (Nat.lt_of_lt_of_le more (bounded longer lower brokenBefore))

/-- Where no chain is broken there is nothing to take away. -/
theorem Pruned.eq_of_unbroken (pruned : Pruned forest next)
    (unbroken : ∀ length lower, ¬Broken forest length lower) : next = forest := by
  funext lower
  cases found : next lower with
  | some node => exact (pruned.kept lower node found).symm
  | none =>
      rcases pruned.broken lower found with never | ⟨length, broken⟩
      · exact never.symm
      · exact absurd broken (unbroken length lower)

end Hekla.Library.Forest
