import Hekla.Library.Passes
import Hekla.Library.Saturation

/-!
# The effects that a deploy could move

A declaration has an entry in the digest, with what is written inside it and the names of
what it refers to.  A plan follows the references from the effects to what has changed,
and replays the effects that lead there.
-/

namespace Hekla.Plan

open Hekla.Library

/-- What a declaration is. -/
inductive Kind where
  | event
  | record
  | enum
  | subject
  | function
  | fold
  | command
  | projector
  | effect
  deriving DecidableEq

/-- One declaration, as the digest names it. -/
abbrev Decl := Kind × String

/-- A form of the digest. -/
inductive Sexp where
  | atom (name : String)
  | str (text : String)
  | list (items : List Sexp)

namespace Sexp

def head : Sexp → Option String
  | .list (.atom name :: _) => some name
  | _ => none

def rest : Sexp → List Sexp
  | .list (_ :: items) => items
  | _ => []

/-- The atoms among some forms. -/
def atoms (items : List Sexp) : List String :=
  items.filterMap fun item =>
    match item with
    | .atom name => some name
    | _ => none

end Sexp

structure Entry where
  kind : Kind
  name : String
  form : Sexp

/-! ## References -/

/-- The declarations that one form names by itself. -/
def named (form : Sexp) : List Decl :=
  match form.head, form.rest.head? with
  | some "fn", some (.atom name) => [(.function, name)]
  | some "Record", some (.atom name) => [(.record, name)]
  | some "new", some (.atom name) => [(.record, name)]
  | some "Enum", some (.atom name) => [(.enum, name)]
  | some "variant", some (.atom name) => [(.enum, name)]
  | some "slice", some (.atom path) => [(.event, path)]
  | some "events", _ => (Sexp.atoms form.rest).map fun path => (.event, path)
  | _, _ => []

mutual

/-- The declarations one form names, it or anything inside it. -/
def referencesOf : Sexp → List Decl
  | .atom name => named (.atom name)
  | .str text => named (.str text)
  | .list items => named (.list items) ++ referencesIn items

def referencesIn : List Sexp → List Decl
  | [] => []
  | item :: items => referencesOf item ++ referencesIn items

end

/-- Every declaration that reaches a changed one, the changed ones included. -/
def declarationsReaching (entries : List Entry) (changed : List Decl) : Option (List Decl) :=
  if changed.isEmpty then some changed
  else
    saturate (entries.map fun entry => ((entry.kind, entry.name), referencesOf entry.form)) (entries.length + 1)
      changed

/-- An effect that is loaded has its form in the digest. -/
def formed (entries : List Entry) (name : String) : Except String String :=
  if entries.any fun entry => entry.kind == .effect && entry.name == name then .ok name
  else .error (s!"effect `{name}` is loaded but has no entry in the project's digest, so " ++
    "there is no form to decide whether this deploy would move it")

/-- The effects that are loaded and that a change could move, by their names. -/
def affectedEffects (effects : List String) (entries : List Entry) (changed : List Decl) :
    Option (Except String (List String)) :=
  (declarationsReaching entries changed).map fun tainted =>
    (effects.mapM (formed entries)).map fun names => names.filter fun name => tainted.contains (.effect, name)

/-! ## What a declaration refers to -/

/-- A form inside another, or itself. -/
inductive Within (form : Sexp) : Sexp → Prop where
  | here : Within form form
  | inside {items : List Sexp} {item : Sexp} (member : item ∈ items) (within : Within form item) :
      Within form (.list items)

/-- How the digest spells a reference, with the head of a fold that is looked up. -/
inductive Spells (lookup : String) : Sexp → Decl → Prop where
  | call (name : String) (args : List Sexp) : Spells lookup (.list (.atom "fn" :: .atom name :: args)) (.function, name)
  | recordType (name : String) (more : List Sexp) :
      Spells lookup (.list (.atom "Record" :: .atom name :: more)) (.record, name)
  | recordValue (name : String) (fields : List Sexp) :
      Spells lookup (.list (.atom "new" :: .atom name :: fields)) (.record, name)
  | enumType (name : String) (more : List Sexp) :
      Spells lookup (.list (.atom "Enum" :: .atom name :: more)) (.enum, name)
  | enumValue (name : String) (case : List Sexp) :
      Spells lookup (.list (.atom "variant" :: .atom name :: case)) (.enum, name)
  | slice (path : String) (arms : List Sexp) : Spells lookup (.list (.atom "slice" :: .atom path :: arms)) (.event, path)
  | selected (path : String) (paths : List Sexp) (member : .atom path ∈ paths) :
      Spells lookup (.list (.atom "events" :: paths)) (.event, path)
  | lookedUp (name : String) (args : List Sexp) : Spells lookup (.list (.atom lookup :: .atom name :: args)) (.fold, name)

/-- A declaration refers to another: it is spelled somewhere in its form. -/
def RefersTo (lookup : String) (entries : List Entry) (one other : Decl) : Prop :=
  ∃ entry ∈ entries, (entry.kind, entry.name) = one ∧ ∃ part, Within part entry.form ∧ Spells lookup part other

/-- A chain of references leads to a declaration that changed. -/
def LeadsTo (lookup : String) (entries : List Entry) (changed : List Decl) (one : Decl) : Prop :=
  ∃ other ∈ changed, Relation.ReflTransGen (RefersTo lookup entries) one other

/-- A chain of references none of which is a lookup. -/
def LeadsWithoutLookups (lookup : String) (entries : List Entry) (changed : List Decl) (one : Decl) : Prop :=
  ∃ other ∈ changed,
    Relation.ReflTransGen (fun one other => RefersTo lookup entries one other ∧ other.1 ≠ .fold) one other

variable {lookup : String} {entries : List Entry} {changed : List Decl}

/-! ## What is read of a form -/

theorem mem_atoms {items : List Sexp} {name : String} : name ∈ Sexp.atoms items ↔ .atom name ∈ items := by
  unfold Sexp.atoms
  rw [List.mem_filterMap]
  constructor
  · rintro ⟨item, member, found⟩
    cases item with
    | atom other =>
        cases found
        exact member
    | str => cases found
    | list => cases found
  · exact fun member => ⟨.atom name, member, rfl⟩

theorem headed {form : Sexp} {name : String} (head : form.head = some name) :
    form = .list (.atom name :: form.rest) := by
  unfold Sexp.head at head
  split at head
  · cases head
    rfl
  · cases head

theorem headed_atom {form : Sexp} {name other : String} (head : form.head = some name)
    (next : form.rest.head? = some (.atom other)) : ∃ more, form = .list (.atom name :: .atom other :: more) := by
  obtain ⟨more, rest⟩ := List.head?_eq_some_iff.mp next
  exact ⟨more, by rw [← rest]; exact headed head⟩

/-- A form names by itself what it spells, but no fold. -/
theorem mem_named {form : Sexp} {decl : Decl} :
    decl ∈ named form ↔ Spells lookup form decl ∧ decl.1 ≠ .fold := by
  constructor
  · intro member
    unfold named at member
    split at member
    case h_7 head =>
      obtain ⟨path, held, rfl⟩ := List.mem_map.mp member
      rw [headed head]
      exact ⟨.selected path _ (mem_atoms.mp held), nofun⟩
    case h_8 => cases member
    all_goals
      next name head next =>
      obtain ⟨more, rfl⟩ := headed_atom head next
      obtain rfl := List.mem_singleton.mp member
      exact ⟨by constructor, nofun⟩
  · rintro ⟨spells, notFold⟩
    cases spells with
    | call name args => exact List.mem_singleton_self _
    | recordType name more => exact List.mem_singleton_self _
    | recordValue name fields => exact List.mem_singleton_self _
    | enumType name more => exact List.mem_singleton_self _
    | enumValue name case => exact List.mem_singleton_self _
    | slice path arms => exact List.mem_singleton_self _
    | selected path paths member => exact List.mem_map.mpr ⟨path, mem_atoms.mpr member, rfl⟩
    | lookedUp => exact absurd rfl notFold

mutual

/-- A form is read for what is spelled anywhere inside it. -/
theorem mem_referencesOf {decl : Decl} :
    ∀ form, decl ∈ referencesOf form ↔ ∃ part, Within part form ∧ decl ∈ named part
  | .atom name => by
      constructor
      · exact fun member => ⟨_, .here, member⟩
      · rintro ⟨part, within, member⟩
        cases within
        exact member
  | .str text => by
      constructor
      · exact fun member => ⟨_, .here, member⟩
      · rintro ⟨part, within, member⟩
        cases within
        exact member
  | .list items => by
      rw [referencesOf, List.mem_append, mem_referencesIn items]
      constructor
      · rintro (member | ⟨item, held, part, within, member⟩)
        · exact ⟨_, .here, member⟩
        · exact ⟨part, .inside held within, member⟩
      · rintro ⟨part, within, member⟩
        cases within with
        | here => exact .inl member
        | inside held within => exact .inr ⟨_, held, part, within, member⟩

theorem mem_referencesIn {decl : Decl} :
    ∀ items, decl ∈ referencesIn items ↔ ∃ item ∈ items, ∃ part, Within part item ∧ decl ∈ named part
  | [] => by simp [referencesIn]
  | item :: items => by
      rw [referencesIn, List.mem_append, mem_referencesOf item, mem_referencesIn items, List.exists_mem_cons_iff]

end

/-! ## Chains of references -/

theorem refers_iff {one other : Decl} :
    Refers (entries.map fun entry => ((entry.kind, entry.name), referencesOf entry.form)) one other ↔
      RefersTo lookup entries one other ∧ other.1 ≠ .fold := by
  constructor
  · rintro ⟨node, mapped, same, held⟩
    obtain ⟨entry, member, rfl⟩ := List.mem_map.mp mapped
    obtain ⟨part, within, held⟩ := (mem_referencesOf entry.form).mp held
    obtain ⟨spells, notFold⟩ := mem_named.mp held
    exact ⟨⟨entry, member, same, part, within, spells⟩, notFold⟩
  · rintro ⟨⟨entry, member, same, part, within, spells⟩, notFold⟩
    exact ⟨_, List.mem_map_of_mem member, same,
      (mem_referencesOf entry.form).mpr ⟨part, within, mem_named.mpr ⟨spells, notFold⟩⟩⟩

/-- The search ends, with what leads to a change without a lookup. -/
theorem declarationsReaching_spec (lookup : String) (entries : List Entry) (changed : List Decl) :
    ∃ reached, declarationsReaching entries changed = some reached ∧
      ∀ decl, decl ∈ reached ↔ LeadsWithoutLookups lookup entries changed decl := by
  unfold declarationsReaching
  by_cases none_ : changed.isEmpty = true
  · refine ⟨changed, if_pos none_, fun decl => ?_⟩
    rw [List.isEmpty_iff] at none_
    subst none_
    exact ⟨nofun, fun ⟨_, member, _⟩ => nomatch member⟩
  · rw [if_neg none_]
    have fewer : missing (entries.map fun entry => ((entry.kind, entry.name), referencesOf entry.form)) changed ≤
        entries.length := by
      unfold missing
      exact Nat.le_trans (List.length_filter_le _ _) (Nat.le_of_eq (List.length_map _))
    obtain ⟨reached, ended⟩ := saturate_of_enough (Nat.lt_succ_of_le fewer)
    refine ⟨reached, ended, fun decl => ?_⟩
    rw [mem_saturate ended]
    have same : Reaches (entries.map fun entry => ((entry.kind, entry.name), referencesOf entry.form)) =
        Relation.ReflTransGen fun one other => RefersTo lookup entries one other ∧ other.1 ≠ .fold := by
      unfold Reaches
      congr 1
      funext one other
      exact propext refers_iff
    rw [same]
    rfl

theorem LeadsWithoutLookups.leadsTo {decl : Decl} (leads : LeadsWithoutLookups lookup entries changed decl) :
    LeadsTo lookup entries changed decl := by
  obtain ⟨other, member, chain⟩ := leads
  exact ⟨other, member, chain.lift id fun _ _ link => link.1⟩

/-- A fold that leads to a change is looked up only by what leads to one anyway. -/
def LookupsShadowed (lookup : String) (entries : List Entry) (changed : List Decl) : Prop :=
  ∀ one fold, RefersTo lookup entries one (.fold, fold) → LeadsWithoutLookups lookup entries changed (.fold, fold) →
    LeadsWithoutLookups lookup entries changed one

theorem leadsWithoutLookups_of_shadowed (shadowed : LookupsShadowed lookup entries changed) {decl : Decl}
    (leads : LeadsTo lookup entries changed decl) : LeadsWithoutLookups lookup entries changed decl := by
  obtain ⟨other, member, chain⟩ := leads
  induction chain using Relation.ReflTransGen.head_induction_on with
  | refl => exact ⟨other, member, .refl⟩
  | @head one next link _ ih =>
      obtain ⟨kind, name⟩ := next
      by_cases looked : kind = .fold
      · subst looked
        exact shadowed one name link ih
      · obtain ⟨goal, changed, further⟩ := ih
        exact ⟨goal, changed, .head ⟨link, looked⟩ further⟩

theorem mapM_formed {effects names : List String} (read : effects.mapM (formed entries) = .ok names) :
    names = effects := by
  induction effects generalizing names with
  | nil => exact (Except.ok.inj read).symm
  | cons name rest ih =>
      rw [List.mapM_cons] at read
      obtain ⟨first, formed_, read⟩ := bind_ok.mp read
      obtain ⟨others, more, read⟩ := bind_ok.mp read
      obtain rfl := Except.ok.inj read
      unfold formed at formed_
      split at formed_
      · rw [ih more, ← Except.ok.inj formed_]
      · cases formed_

/-- Every declaration that a chain of references leads to a change from is found, and only
those are. -/
def Exact (lookup : String) (entries : List Entry) (changed : List Decl) : Prop :=
  ∃ reached, declarationsReaching entries changed = some reached ∧
    ∀ decl, decl ∈ reached ↔ LeadsTo lookup entries changed decl

/-- What leads to a change is found exactly where no chain of references has to go through a fold
that is looked up; and then no effect that is left out leads to a change. -/
theorem reaching_exact_iff (lookup : String) (entries : List Entry) (changed : List Decl) (effects : List String) :
    (Exact lookup entries changed ↔ LookupsShadowed lookup entries changed) ∧
      ∃ answer, affectedEffects effects entries changed = some answer ∧
        ∀ affected, answer = .ok affected → LookupsShadowed lookup entries changed →
          ∀ effect ∈ effects, effect ∉ affected → ¬ LeadsTo lookup entries changed (.effect, effect) := by
  obtain ⟨reached, ended, spec⟩ := declarationsReaching_spec lookup entries changed
  refine ⟨⟨?_, ?_⟩, ?_⟩
  · rintro ⟨other, again, exact_⟩ one fold looked leads
    rw [ended] at again
    obtain rfl := Option.some.inj again
    obtain ⟨goal, member, chain⟩ := leads.leadsTo
    rw [← spec, exact_]
    exact ⟨goal, member, .head looked chain⟩
  · intro shadowed
    refine ⟨reached, ended, fun decl => ?_⟩
    rw [spec]
    exact ⟨LeadsWithoutLookups.leadsTo, leadsWithoutLookups_of_shadowed shadowed⟩
  · unfold affectedEffects
    rw [ended]
    refine ⟨_, rfl, ?_⟩
    intro affected answered shadowed effect loaded left leads
    cases read : effects.mapM (formed entries) with
    | error why =>
        rw [read] at answered
        cases answered
    | ok names =>
        rw [read] at answered
        obtain rfl := Except.ok.inj answered
        obtain rfl := mapM_formed read
        refine left (List.mem_filter.mpr ⟨loaded, ?_⟩)
        rw [List.contains_iff_mem, spec]
        exact leadsWithoutLookups_of_shadowed shadowed leads

/-! ## An effect that looks a fold up -/

/-- An effect that bills the total of an account, which a fold keeps. -/
def billing : List Entry := [
  ⟨.effect, "Bill", .list [.atom "effect", .list [.atom "events", .atom "month.closed"],
    .list [.atom "fold", .atom "Total", .list [.atom "local", .atom "0"]]]⟩,
  ⟨.fold, "Total", .list [.atom "slice", .atom "charge.made"]⟩]

/-- A fold that changes leaves out the effects that look it up. -/
theorem lookup_not_followed : ¬ ∀ (lookup : String) (entries : List Entry) (changed : List Decl),
    Exact lookup entries changed := by
  intro claimed
  obtain ⟨reached, ended, exact_⟩ := claimed "fold" billing [(.fold, "Total")]
  have found : declarationsReaching billing [(.fold, "Total")] = some [(.fold, "Total")] := by decide
  rw [found] at ended
  obtain rfl := Option.some.inj ended
  have leads : LeadsTo "fold" billing [(.fold, "Total")] (.effect, "Bill") := by
    refine ⟨_, List.mem_singleton_self _, .single ⟨_, List.mem_cons_self, rfl, ?_⟩⟩
    exact ⟨_, .inside (.tail _ (.tail _ (.head _))) .here, .lookedUp "Total" _⟩
  exact absurd ((exact_ _).mpr leads) (by decide)

end Hekla.Plan
