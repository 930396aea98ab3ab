import Mathlib.Logic.Relation

/-!
# Chains of generations

Nodes hang from other nodes, each under one generation of the node above.  A
node is intact when every link above it names the generation that stands there
now.  A generation is dead when whatever node still has it hangs from a dead
generation.

Some nodes may be held: somebody has what it takes to make a root of them
again, whatever has become of the nodes above.  Intact and dead are taken up to
those.
-/

namespace Hekla.Library

universe u v

structure Node (ι : Type u) (γ : Type v) where
  gen : γ
  above : Option (ι × γ) := none

abbrev Forest (ι : Type u) (γ : Type v) := ι → Option (Node ι γ)

namespace Forest

variable {ι : Type u} {γ : Type v}

/-- The link of one node points at another, whatever generation stands there. -/
def Hangs (forest : Forest ι γ) (lower upper : ι) : Prop :=
  ∃ node gen, forest lower = some node ∧ node.above = some (upper, gen)

/-- The second is the first, or above it. -/
abbrev Reaches (forest : Forest ι γ) : ι → ι → Prop := Relation.ReflTransGen (Hangs forest)

/-- No more links than this above a node. -/
def Within (forest : Forest ι γ) : Nat → ι → Prop
  | 0, _ => False
  | levels + 1, lower => ∀ upper, Hangs forest lower upper → Within forest levels upper

/-- So many links above a node there is one that hangs from nothing. -/
inductive RootedIn (forest : Forest ι γ) : Nat → ι → Prop where
  | root {lower : ι} {node : Node ι γ} (found : forest lower = some node)
      (top : node.above = none) : RootedIn forest 0 lower
  | child {lower upper : ι} {node : Node ι γ} {gen : γ} {links : Nat}
      (found : forest lower = some node) (hung : node.above = some (upper, gen))
      (rooted : RootedIn forest links upper) : RootedIn forest (links + 1) lower

/-- No link above a node names another generation than the one that stands there. -/
def LinksCurrent (forest : Forest ι γ) (lower : ι) : Prop :=
  ∀ other node upper gen there, Reaches forest lower other → forest other = some node →
    node.above = some (upper, gen) → forest upper = some there → there.gen = gen

def Stands (forest : Forest ι γ) (at_node : ι) (gen : γ) : Prop :=
  ∃ node, forest at_node = some node ∧ node.gen = gen

/-- A generation no other node has. -/
def Bound (forest : Forest ι γ) (gen : γ) (home : ι) : Prop :=
  ∀ other, Stands forest other gen → other = home

/-- A set of nodes that are there, each held or linked within the set. -/
def Standing (forest : Forest ι γ) (held good : ι → Prop) : Prop :=
  ∀ lower, good lower → ∃ node, forest lower = some node ∧
    (held lower ∨ ∀ upper gen, node.above = some (upper, gen) → good upper ∧ Stands forest upper gen)

def IntactBut (forest : Forest ι γ) (held : ι → Prop) (lower : ι) : Prop :=
  ∃ good, Standing forest held good ∧ good lower

abbrev Intact (forest : Forest ι γ) : ι → Prop := IntactBut forest fun _ => False

inductive Dead (forest : Forest ι γ) (held : ι → Prop) : γ → Prop where
  | intro (gen : γ)
      (loose : ∀ lower node, forest lower = some node → node.gen = gen →
        ¬held lower ∧ node.above ≠ none)
      (above : ∀ lower node upper linked, forest lower = some node → node.gen = gen →
        node.above = some (upper, linked) → Dead forest held linked) :
      Dead forest held gen

variable {forest next : Forest ι γ} {held held' : ι → Prop} {lower : ι} {gen : γ}

/-! ## Intact nodes -/

/-- The intact nodes are the largest standing set. -/
theorem IntactBut.standing : Standing forest held (IntactBut forest held) := by
  rintro lower ⟨good, standing, member⟩
  obtain ⟨node, found, links⟩ := standing lower member
  refine ⟨node, found, links.imp_right fun linked upper gen above => ?_⟩
  obtain ⟨goodUpper, stands⟩ := linked upper gen above
  exact ⟨⟨good, standing, goodUpper⟩, stands⟩

/-- A node that is there, and held or linked to an intact one, is intact. -/
theorem IntactBut.of_links {node : Node ι γ} (found : forest lower = some node)
    (links : held lower ∨ ∀ upper gen, node.above = some (upper, gen) →
      IntactBut forest held upper ∧ Stands forest upper gen) : IntactBut forest held lower := by
  refine ⟨fun other => other = lower ∨ IntactBut forest held other, ?_, .inl rfl⟩
  rintro other (rfl | intact)
  · refine ⟨node, found, links.imp_right fun linked upper gen above => ?_⟩
    obtain ⟨intact, stands⟩ := linked upper gen above
    exact ⟨.inr intact, stands⟩
  · obtain ⟨node, found, links⟩ := IntactBut.standing other intact
    refine ⟨node, found, links.imp_right fun linked upper gen above => ?_⟩
    obtain ⟨intact, stands⟩ := linked upper gen above
    exact ⟨.inr intact, stands⟩

theorem Intact.but (intact : Intact forest lower) : IntactBut forest held lower := by
  refine ⟨Intact forest, ?_, intact⟩
  intro other intact
  obtain ⟨node, found, held | links⟩ := IntactBut.standing other intact
  · cases held
  · exact ⟨node, found, .inr links⟩

theorem IntactBut.found (intact : IntactBut forest held lower) :
    ∃ node, forest lower = some node := by
  obtain ⟨node, found, -⟩ := IntactBut.standing lower intact
  exact ⟨node, found⟩

/-- A change that keeps the generations a node rests on, and each link that is
not held, keeps the node intact. -/
theorem IntactBut.carry (intact : IntactBut forest held lower)
    (kept : ∀ other node, IntactBut forest held other → Reaches forest lower other →
      forest other = some node → ∃ node', next other = some node' ∧ node'.gen = node.gen ∧
        (held' other ∨ node'.above = none ∨ ¬held other ∧ node'.above = node.above)) :
    IntactBut next held' lower := by
  refine ⟨fun other => IntactBut forest held other ∧ Reaches forest lower other, ?_, intact, .refl⟩
  rintro other ⟨intact, reached⟩
  obtain ⟨node, found, links⟩ := IntactBut.standing other intact
  obtain ⟨node', found', -, holding | root | ⟨loose, same⟩⟩ := kept other node intact reached found
  · exact ⟨node', found', .inl holding⟩
  · refine ⟨node', found', .inr fun upper gen above => ?_⟩
    rw [root] at above
    cases above
  · refine ⟨node', found', .inr fun upper gen above => ?_⟩
    rw [same] at above
    obtain ⟨intactUpper, upperNode, upperFound, rfl⟩ := links.resolve_left loose upper gen above
    have onwards : Reaches forest lower upper := reached.tail ⟨node, _, found, above⟩
    obtain ⟨upperNode', upperFound', gen, -⟩ := kept upper upperNode intactUpper onwards upperFound
    exact ⟨⟨intactUpper, onwards⟩, upperNode', upperFound', gen⟩

/-- What happens to a node that is not intact leaves the intact ones intact. -/
theorem IntactBut.away {touched : ι} (intact : IntactBut forest held lower)
    (broken : ¬IntactBut forest held touched)
    (others : ∀ other, other ≠ touched → next other = forest other)
    (holds : ∀ other, other ≠ touched → held other → held' other) :
    IntactBut next held' lower := by
  refine intact.carry fun other node intact _ found => ?_
  have apart : other ≠ touched := by
    rintro rfl
    exact broken intact
  refine ⟨node, (others other apart).trans found, rfl, ?_⟩
  by_cases holding : held other
  · exact .inl (holds other apart holding)
  · exact .inr (.inr ⟨holding, rfl⟩)

/-- A node need not be held once it is intact by its links. -/
theorem IntactBut.release (intact : IntactBut forest held lower)
    (freed : ∀ other, held other → held' other ∨ Intact forest other) :
    IntactBut forest held' lower := by
  refine ⟨fun other => IntactBut forest held other ∨ Intact forest other, ?_, .inl intact⟩
  have linked (other : ι) (intact : Intact forest other) :
      ∃ node, forest other = some node ∧ (held' other ∨ ∀ upper gen,
        node.above = some (upper, gen) →
          (IntactBut forest held upper ∨ Intact forest upper) ∧ Stands forest upper gen) := by
    obtain ⟨node, found, never | links⟩ := IntactBut.standing other intact
    · cases never
    · refine ⟨node, found, .inr fun upper gen above => ?_⟩
      obtain ⟨intact, stands⟩ := links upper gen above
      exact ⟨.inr intact, stands⟩
  rintro other (intact | intact)
  · obtain ⟨node, found, holding | links⟩ := IntactBut.standing other intact
    · rcases freed other holding with still | intact
      · exact ⟨node, found, .inl still⟩
      · exact linked other intact
    · refine ⟨node, found, .inr fun upper gen above => ?_⟩
      obtain ⟨intact, stands⟩ := links upper gen above
      exact ⟨.inl intact, stands⟩
  · exact linked other intact

/-- Hanging a node from an intact one, under its standing generation, leaves
every intact node intact. -/
theorem Intact.rehang {moved parent : ι} {parentGen : γ} {node : Node ι γ}
    (others : ∀ other, other ≠ moved → next other = forest other)
    (found : forest moved = some node)
    (hung : next moved = some ⟨node.gen, some (parent, parentGen)⟩)
    (intactParent : Intact forest parent) (stands : Stands forest parent parentGen)
    (intact : Intact forest lower) : Intact next lower := by
  have carried (upper : ι) (gen : γ) (stands : Stands forest upper gen) :
      Stands next upper gen := by
    obtain ⟨upperNode, upperFound, rfl⟩ := stands
    by_cases same : upper = moved
    · subst same
      rw [found] at upperFound
      cases upperFound
      exact ⟨_, hung, rfl⟩
    · exact ⟨upperNode, (others upper same).trans upperFound, rfl⟩
  refine ⟨Intact forest, ?_, intact⟩
  intro other intact
  by_cases same : other = moved
  · subst same
    refine ⟨_, hung, .inr ?_⟩
    rintro upper gen ⟨⟩
    exact ⟨intactParent, carried _ _ stands⟩
  · obtain ⟨otherNode, otherFound, never | links⟩ := IntactBut.standing other intact
    · cases never
    · refine ⟨otherNode, (others other same).trans otherFound, .inr fun upper gen above => ?_⟩
      obtain ⟨intactUpper, stands⟩ := links upper gen above
      exact ⟨intactUpper, carried upper gen stands⟩

/-- A node planted under a generation nothing was linked to makes no other
node intact. -/
theorem IntactBut.of_planted {planted : ι} {node : Node ι γ}
    (others : ∀ other, other ≠ planted → next other = forest other)
    (new : next planted = some node)
    (fresh : ∀ other otherNode upper, forest other = some otherNode →
      otherNode.above ≠ some (upper, node.gen))
    (holds : ∀ other, other ≠ planted → held' other → held other)
    (apart : lower ≠ planted) (intact : IntactBut next held' lower) :
    IntactBut forest held lower := by
  refine ⟨fun other => IntactBut next held' other ∧ other ≠ planted, ?_, intact, apart⟩
  rintro other ⟨intact, apart⟩
  obtain ⟨otherNode, found, links⟩ := IntactBut.standing other intact
  have before := (others other apart).symm.trans found
  refine ⟨otherNode, before, links.imp (holds other apart) fun linked upper gen above => ?_⟩
  obtain ⟨intactUpper, upperNode, upperFound, rfl⟩ := linked upper gen above
  have elsewhere : upper ≠ planted := by
    rintro rfl
    rw [new] at upperFound
    cases upperFound
    exact fresh other otherNode upper before above
  exact ⟨⟨intactUpper, elsewhere⟩, upperNode, (others upper elsewhere).symm.trans upperFound, rfl⟩

/-! ## Roots -/

theorem RootedIn.found {links : Nat} (rooted : RootedIn forest links lower) :
    ∃ node, forest lower = some node := by
  cases rooted with
  | root found _ => exact ⟨_, found⟩
  | child found _ _ => exact ⟨_, found⟩

theorem RootedIn.unique {links others : Nat} (rooted : RootedIn forest links lower)
    (other : RootedIn forest others lower) : links = others := by
  induction rooted generalizing others with
  | root found top =>
      cases other with
      | root => rfl
      | child found' hung _ =>
          rw [found] at found'
          cases found'
          cases top.symm.trans hung
  | child found hung rooted ih =>
      cases other with
      | root found' top =>
          rw [found] at found'
          cases found'
          cases top.symm.trans hung
      | child found' hung' rooted' =>
          rw [found] at found'
          cases found'
          cases hung.symm.trans hung'
          exact congrArg (· + 1) (ih rooted')

theorem RootedIn.within {links : Nat} (rooted : RootedIn forest links lower) :
    Within forest (links + 1) lower := by
  induction rooted with
  | root found top =>
      rintro upper ⟨node, gen, found', hung⟩
      rw [found] at found'
      cases found'
      cases top.symm.trans hung
  | child found hung rooted ih =>
      rintro upper ⟨node, gen, found', hung'⟩
      rw [found] at found'
      cases found'
      cases hung.symm.trans hung'
      exact ih

theorem Within.mono {levels more : Nat} (within : Within forest levels lower)
    (fewer : levels ≤ more) : Within forest more lower := by
  induction levels generalizing lower more with
  | zero => exact within.elim
  | succ levels ih =>
      cases more with
      | zero => exact absurd fewer (Nat.not_succ_le_zero levels)
      | succ more =>
          intro upper hangs
          exact ih (within upper hangs) (Nat.le_of_succ_le_succ fewer)

/-- What is above a rooted node is rooted. -/
theorem RootedIn.upper {links : Nat} {upper : ι} {gen : γ} {node : Node ι γ}
    (rooted : RootedIn forest links lower) (found : forest lower = some node)
    (hung : node.above = some (upper, gen)) : ∃ fewer, RootedIn forest fewer upper := by
  cases rooted with
  | root found' top =>
      rw [found] at found'
      cases found'
      cases top.symm.trans hung
  | child found' hung' rooted =>
      rw [found] at found'
      cases found'
      cases hung.symm.trans hung'
      exact ⟨_, rooted⟩

/-- A rooted node whose links are current is intact. -/
theorem RootedIn.intact {links : Nat} (rooted : RootedIn forest links lower)
    (current : LinksCurrent forest lower) : Intact forest lower := by
  refine ⟨fun other => Reaches forest lower other ∧ ∃ links, RootedIn forest links other, ?_,
    .refl, links, rooted⟩
  rintro other ⟨reached, links, rooted⟩
  obtain ⟨node, found⟩ := rooted.found
  refine ⟨node, found, .inr fun upper gen above => ?_⟩
  obtain ⟨fewer, upperRooted⟩ := rooted.upper found above
  obtain ⟨there, upperFound⟩ := upperRooted.found
  exact ⟨⟨reached.tail ⟨node, gen, found, above⟩, fewer, upperRooted⟩, there, upperFound,
    current other node upper gen there reached found above upperFound⟩

theorem Intact.current (intact : Intact forest lower) : LinksCurrent forest lower := by
  intro other node upper gen there reached found above upperFound
  have intactOther : Intact forest other := by
    clear found above upperFound
    induction reached with
    | refl => exact intact
    | tail _ hangs ih =>
        obtain ⟨node, gen, found, above⟩ := hangs
        obtain ⟨node', found', never | links⟩ := IntactBut.standing _ ih
        · cases never
        · rw [found] at found'
          cases found'
          exact (links _ _ above).1
  obtain ⟨node', found', never | links⟩ := IntactBut.standing other intactOther
  · cases never
  · rw [found] at found'
    cases found'
    obtain ⟨-, standing, standingFound, same⟩ := links upper gen above
    rw [upperFound] at standingFound
    cases standingFound
    exact same

/-! ## Dead generations -/

theorem Intact.not_dead (intact : Intact forest lower) (stands : Stands forest lower gen) :
    ¬Dead forest held gen := by
  intro dead
  induction dead generalizing lower with
  | intro gen loose above ih =>
      obtain ⟨node, found, rfl⟩ := stands
      obtain ⟨node', found', never | links⟩ := IntactBut.standing lower intact
      · cases never
      · rw [found] at found'
        cases found'
        cases hung : node.above with
        | none => exact (loose lower node found rfl).2 hung
        | some link =>
            obtain ⟨intactUpper, stands⟩ := links link.1 link.2 hung
            exact ih lower node link.1 link.2 found rfl hung intactUpper stands

/-- A generation that stands at its home and is not dead stands on an intact chain. -/
theorem Intact.of_not_dead
    (own : ∀ other node, forest other = some node → Bound forest node.gen other)
    (homes : ∀ other node upper gen, forest other = some node →
      node.above = some (upper, gen) → Bound forest gen upper)
    (stands : Stands forest lower gen) (alive : ¬Dead forest (fun _ => False) gen) :
    Intact forest lower := by
  refine ⟨fun other => ∃ gen, Stands forest other gen ∧ ¬Dead forest (fun _ => False) gen, ?_,
    gen, stands, alive⟩
  rintro other ⟨gen, ⟨node, found, rfl⟩, alive⟩
  refine ⟨node, found, .inr fun upper linked above => ?_⟩
  have only (another : ι) (otherNode : Node ι γ) (there : forest another = some otherNode)
      (same : otherNode.gen = node.gen) : otherNode = node := by
    obtain rfl := own other node found another ⟨otherNode, there, same⟩
    exact Option.some.inj (there.symm.trans found)
  have aliveLink : ¬Dead forest (fun _ => False) linked := by
    intro dead
    refine alive (.intro node.gen ?_ ?_)
    · intro another otherNode there same
      obtain rfl := only another otherNode there same
      exact ⟨fun never => never, fun top => nomatch top.symm.trans above⟩
    · intro another otherNode another_upper another_linked there same linkedTo
      obtain rfl := only another otherNode there same
      cases above.symm.trans linkedTo
      exact dead
  have standing : Stands forest upper linked := by
    refine Classical.byContradiction fun absent => ?_
    have nowhere (another : ι) (otherNode : Node ι γ) (there : forest another = some otherNode)
        (same : otherNode.gen = linked) : False := by
      obtain rfl := homes other node upper linked found above another ⟨otherNode, there, same⟩
      exact absent ⟨otherNode, there, same⟩
    exact aliveLink (.intro linked (fun _ _ there same => (nowhere _ _ there same).elim)
      fun _ _ _ _ there same _ => (nowhere _ _ there same).elim)
  exact ⟨⟨linked, standing, aliveLink⟩, standing⟩

/-- What is dead with more held is dead with less. -/
theorem Dead.mono (dead : Dead forest held gen) (fewer : ∀ other, held' other → held other) :
    Dead forest held' gen := by
  induction dead with
  | intro gen loose above ih =>
      refine .intro gen (fun other node found same => ?_) ih
      exact (loose other node found same).imp_left fun free holding => free (fewer other holding)

/-- A change that leaves the nodes with dead generations as they are, and adds
new ones under new generations only, keeps the dead dead. -/
theorem Dead.carry {old : γ → Prop}
    (links : ∀ other node upper gen, forest other = some node →
      node.above = some (upper, gen) → old gen)
    (kept : ∀ other node', next other = some node' → old node'.gen →
      Dead forest held node'.gen → ∃ node, forest other = some node ∧ node.gen = node'.gen ∧
        node.above = node'.above ∧ (held' other → held other))
    (dead : Dead forest held gen) (known : old gen) : Dead next held' gen := by
  induction dead with
  | intro gen loose above ih =>
      have dead : Dead forest held gen := .intro gen loose above
      refine .intro gen ?_ ?_
      · rintro other node' found' rfl
        obtain ⟨node, found, same, hung, holds⟩ := kept other node' found' known dead
        obtain ⟨free, linked⟩ := loose other node found same
        exact ⟨fun holding => free (holds holding), hung ▸ linked⟩
      · rintro other node' upper linked found' rfl linkedTo
        obtain ⟨node, found, same, hung, -⟩ := kept other node' found' known dead
        have link := hung.trans linkedTo
        exact ih other node upper linked found same link (links other node upper linked found link)

/-- Pruning a node kills every generation bound to a node below it. -/
theorem Dead.of_pruned {pruned : ι} (gone : next pruned = none)
    (others : ∀ other, other ≠ pruned → next other = forest other)
    (homes : ∀ other node upper gen, forest other = some node →
      node.above = some (upper, gen) → Bound forest gen upper)
    (free : ∀ other, held other → ¬Relation.TransGen (Hangs forest) other pruned)
    (reached : Reaches forest lower pruned) (bound : Bound forest gen lower) :
    Dead next held gen := by
  have before (other : ι) (node : Node ι γ) (found : next other = some node) :
      forest other = some node := by
    refine (others other ?_).symm.trans found
    rintro rfl
    rw [gone] at found
    cases found
  induction reached using Relation.ReflTransGen.head_induction_on generalizing gen with
  | refl =>
      have nowhere (other : ι) (node : Node ι γ) (found : next other = some node)
          (same : node.gen = gen) : False := by
        obtain rfl := bound other ⟨node, before other node found, same⟩
        rw [gone] at found
        cases found
      exact .intro gen (fun other node found same => (nowhere other node found same).elim)
        fun other node _ _ found same _ => (nowhere other node found same).elim
  | @head lower upper hangs reached ih =>
      obtain ⟨node, linked, found, hung⟩ := hangs
      have only (other : ι) (otherNode : Node ι γ) (otherFound : next other = some otherNode)
          (same : otherNode.gen = gen) : other = lower ∧ otherNode = node := by
        have was := before other otherNode otherFound
        obtain rfl := bound other ⟨otherNode, was, same⟩
        exact ⟨rfl, Option.some.inj (was.symm.trans found)⟩
      refine .intro gen ?_ ?_
      · intro other otherNode otherFound same
        obtain ⟨rfl, rfl⟩ := only other otherNode otherFound same
        refine ⟨fun holding => free other holding (.head' ⟨_, _, found, hung⟩ reached), ?_⟩
        rw [hung]
        exact nofun
      · intro other otherNode otherUpper otherLinked otherFound same above
        obtain ⟨rfl, rfl⟩ := only other otherNode otherFound same
        rw [hung] at above
        cases above
        exact ih (homes _ _ _ _ found hung)

/-- A generation stays at home when nothing but its home can have kept it. -/
theorem Bound.carry {home : ι} (bound : Bound forest gen home)
    (kept : ∀ other, Stands next other gen → Stands forest other gen) : Bound next gen home :=
  fun other stands => bound other (kept other stands)

end Forest

end Hekla.Library
