import Hekla.Host.Schema
import Hekla.Keys.Store

/-!
# The declared hierarchy of subjects

A subject may be declared under another.  The chain a sealed field's key is filed under is
its subject and every ancestor of that, each with the field that carries its id; where an
event does not say which field that is, the chain stops short and the project is refused.
-/

namespace Hekla.Adopt

open Hekla.Library Host Keys

/-- A subject's ancestors, nearest first, so many at most. -/
def ancestorsIn (parents : Table String String) : Nat → String → List String
  | 0, _ => []
  | steps + 1, name =>
      match parents.get name with
      | none => []
      | some parent => parent :: ancestorsIn parents steps parent

/-- Each subject's parent.  The language refuses a cycle, so no walk is longer than there are
parents. -/
structure Subjects where
  parents : Table String String
  ends : ∀ name, ∀ last ∈ (name :: ancestorsIn parents parents.entries.length name).getLast?,
    parents.get last = none

namespace Subjects

/-- Every subject that declares a parent, sorted. -/
def parented (subjects : Subjects) : List String := subjects.parents.keys.insertionSort (· ≤ ·)

def ancestors (subjects : Subjects) (name : String) : List String :=
  ancestorsIn subjects.parents subjects.parents.entries.length name

end Subjects

/-- The ancestors with the field of their id, up to one that no field, or more than one,
would identify. -/
def sealAncestors (carriers : String → List String) : List String → List (String × String)
  | [] => []
  | ancestor :: rest =>
      match carriers ancestor with
      | [field] => (ancestor, field) :: sealAncestors carriers rest
      | _ => []

def sealChain (carriers : String → List String) (subjects : Subjects) (subject idField : String) : Seal :=
  ⟨subject, idField, sealAncestors carriers (subjects.ancestors subject)⟩

/-- `check_ancestry`: the first ancestor a chain could not resolve. -/
def missingAncestor (subjects : Subjects) (filed : Seal) : Option String :=
  let wanted := subjects.ancestors filed.subject
  if filed.chain.length = wanted.length + 1 then none
  else wanted.find? fun ancestor => ancestor ∉ filed.ancestors.map Prod.fst

/-- A project that loads: every chain is made from the hierarchy and the fields of its event,
and none is refused. -/
structure Deployed where
  subjects : Subjects
  events : EventDefs
  carriers : String → String → List String
  filed : ∀ type declared name field chain, events.get type = some declared →
    (name, field) ∈ declared.fields → field.sealedUnder = some chain →
      chain = sealChain (carriers type) subjects chain.subject chain.idField ∧
        missingAncestor subjects chain = none

/-! ## Ancestors -/

theorem ancestorsIn_ended {parents : Table String String} {steps : Nat} {name : String}
    (ends : ∀ last ∈ (name :: ancestorsIn parents steps name).getLast?, parents.get last = none)
    (more : Nat) : ancestorsIn parents (steps + more) name = ancestorsIn parents steps name := by
  induction steps generalizing name with
  | zero =>
      have unparented : parents.get name = none := ends name rfl
      cases more with
      | zero => rfl
      | succ more => simp [ancestorsIn, unparented]
  | succ steps ih =>
      rw [Nat.add_right_comm]
      cases found : parents.get name with
      | none => simp [ancestorsIn, found]
      | some parent =>
          simp only [ancestorsIn, found] at ends ⊢
          rw [ih]
          intro last member
          exact ends last (by rwa [List.getLast?_cons_cons])

namespace Subjects

variable {subjects : Subjects} {name parent : String}

theorem mem_parented : name ∈ subjects.parented ↔ ∃ parent, subjects.parents.get name = some parent := by
  unfold parented
  rw [List.mem_insertionSort, Table.mem_keys_iff]

theorem ancestors_of_none (top : subjects.parents.get name = none) : subjects.ancestors name = [] := by
  unfold ancestors
  cases subjects.parents.entries.length <;> simp [ancestorsIn, top]

theorem ancestors_of_some (under : subjects.parents.get name = some parent) :
    subjects.ancestors name = parent :: subjects.ancestors parent := by
  unfold ancestors
  have ends := subjects.ends name
  cases size : subjects.parents.entries.length with
  | zero =>
      rw [size] at ends
      have top : subjects.parents.get name = none := ends name rfl
      cases under.symm.trans top
  | succ steps =>
      have walked : ancestorsIn subjects.parents (steps + 1) name =
          parent :: ancestorsIn subjects.parents steps parent := by
        simp only [ancestorsIn, under]
      rw [size, walked] at ends
      rw [walked, ancestorsIn_ended _ 1]
      intro last member
      exact ends last (by rwa [List.getLast?_cons_cons])

theorem ancestors_eq_nil_iff : subjects.ancestors name = [] ↔ subjects.parents.get name = none := by
  refine ⟨fun none => ?_, ancestors_of_none⟩
  cases under : subjects.parents.get name with
  | none => rfl
  | some parent =>
      rw [ancestors_of_some under] at none
      cases none

/-- The ancestors of an ancestor are what follows it. -/
theorem ancestors_of_suffix {above : List String} {ancestor : String}
    (suffix : ancestor :: above <:+ subjects.ancestors name) : above = subjects.ancestors ancestor := by
  generalize names : subjects.ancestors name = all at suffix
  induction all generalizing name with
  | nil => cases List.suffix_nil.mp suffix
  | cons parent rest ih =>
      cases under : subjects.parents.get name with
      | none =>
          rw [ancestors_of_none under] at names
          cases names
      | some parent' =>
          rw [ancestors_of_some under] at names
          cases names
          rcases List.suffix_cons_iff.mp suffix with here | later
          · cases here
            rfl
          · exact ih rfl later

/-- No subject is its own ancestor, and none is one twice. -/
theorem ancestors_nodup : (name :: subjects.ancestors name).Nodup := by
  have shorter (one other : String) (above : other ∈ subjects.ancestors one) :
      (subjects.ancestors other).length < (subjects.ancestors one).length := by
    obtain ⟨before, after, split⟩ := List.append_of_mem above
    have suffix : other :: after <:+ subjects.ancestors one := ⟨before, split.symm⟩
    rw [← ancestors_of_suffix suffix]
    exact (Nat.lt_succ_self _).trans_le suffix.length_le
  generalize names : subjects.ancestors name = all
  induction all generalizing name with
  | nil => exact List.nodup_singleton name
  | cons parent rest ih =>
      have suffix : parent :: rest <:+ subjects.ancestors name := names ▸ List.suffix_rfl
      refine List.nodup_cons.mpr ⟨?_, ih (ancestors_of_suffix suffix).symm⟩
      intro itself
      exact Nat.lt_irrefl _ (shorter name name (names ▸ itself))

end Subjects

/-! ## Chains -/

theorem sealAncestors_prefix (carriers : String → List String) (ancestors : List String) :
    (sealAncestors carriers ancestors).map Prod.fst <+: ancestors := by
  induction ancestors with
  | nil => exact List.nil_prefix
  | cons ancestor rest ih =>
      unfold sealAncestors
      split
      · simpa using ih
      · exact List.nil_prefix

/-- A chain that is not refused names every ancestor. -/
theorem complete_of_unmissed {carriers : String → List String} {subjects : Subjects}
    {subject idField : String}
    (unmissed : missingAncestor subjects (sealChain carriers subjects subject idField) = none) :
    (sealAncestors carriers (subjects.ancestors subject)).map Prod.fst = subjects.ancestors subject := by
  have carried := sealAncestors_prefix carriers (subjects.ancestors subject)
  have distinct : (subjects.ancestors subject).Nodup := (List.nodup_cons.mp Subjects.ancestors_nodup).2
  unfold missingAncestor sealChain Seal.chain at unmissed
  dsimp only at unmissed
  split at unmissed
  · next same =>
      refine carried.eq_of_length ?_
      simpa using same
  · obtain ⟨rest, split⟩ := carried
    rw [List.find?_eq_none] at unmissed
    cases rest with
    | nil => rwa [List.append_nil] at split
    | cons missed rest =>
        rw [← split] at distinct
        have fresh : missed ∉ (sealAncestors carriers (subjects.ancestors subject)).map Prod.fst :=
          fun carried => (List.nodup_append.mp distinct).2.2 _ carried _ List.mem_cons_self rfl
        have wanted : missed ∈ subjects.ancestors subject := by
          rw [← split]
          exact List.mem_append_right _ List.mem_cons_self
        exact absurd fresh (by simpa using unmissed missed wanted)

namespace Deployed

variable {deployed : Deployed}

theorem ancestors_of_chain {type name : String} {declared : EventDef} {field : FieldMeta} {chain : Seal}
    (event : deployed.events.get type = some declared) (member : (name, field) ∈ declared.fields)
    (filed : field.sealedUnder = some chain) :
    chain.ancestors.map Prod.fst = deployed.subjects.ancestors chain.subject := by
  obtain ⟨made, unmissed⟩ := deployed.filed type declared name field chain event member filed
  rw [made] at unmissed
  have complete := complete_of_unmissed unmissed
  rw [made]
  exact complete

end Deployed

end Hekla.Adopt
