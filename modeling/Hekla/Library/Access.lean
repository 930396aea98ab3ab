import Mathlib.Logic.Relation

/-!
# Programs that share a state

A program is a tree of atomic accesses to a state it shares with others.  Between
two of its accesses others may change the state, each in the ways the access to
come allows for.  A program keeps its part when each of its accesses is a change
the others allow for, whatever they did before it, and its result is as promised
in the state its last access leaves.
-/

namespace Hekla.Library

universe u v w x y

/-- A program of accesses, each with an answer of its own type. -/
inductive Prog (ρ : Type u) (Answer : ρ → Type v) (α : Type w) where
  | done (result : α)
  | access (request : ρ) (next : Answer request → Prog ρ Answer α)

namespace Prog

variable {ρ : Type u} {Answer : ρ → Type v} {α : Type w} {β : Type x} {σ : Type y}

def bind : Prog ρ Answer α → (α → Prog ρ Answer β) → Prog ρ Answer β
  | .done result, rest => rest result
  | .access request next, rest => .access request fun answer => (next answer).bind rest

/-- Run a program that nothing interferes with. -/
def alone (perform : ∀ request, σ → Answer request × σ) : Prog ρ Answer α → σ → α × σ
  | .done result, st => (result, st)
  | .access request next, st =>
      (next (perform request st).1).alone perform (perform request st).2

theorem alone_bind (perform : ∀ request, σ → Answer request × σ) (prog : Prog ρ Answer α)
    (rest : α → Prog ρ Answer β) (st : σ) :
    (prog.bind rest).alone perform st =
      (rest (prog.alone perform st).1).alone perform (prog.alone perform st).2 := by
  induction prog generalizing st with
  | done result => rfl
  | access request next ih => exact ih (perform request st).1 (perform request st).2

section Interference

variable (perform : ∀ request, σ → Answer request × σ) (allows : ρ → σ → σ → Prop)
  (changes : σ → σ → Prop)

/-- From the state on, whatever the pending accesses allow others to do, the
program's own accesses are changes, and its result is as promised. -/
def Keeps (promised : α → σ → Prop) : Prog ρ Answer α → σ → Prop
  | .done result, st => promised result st
  | .access request next, st => ∀ st', Relation.ReflTransGen (allows request) st st' →
      changes st' (perform request st').2 ∧
        Keeps promised (next (perform request st').1) (perform request st').2

variable {perform allows changes} {promised weaker : α → σ → Prop}

/-- What is promised may be less. -/
theorem Keeps.mono {prog : Prog ρ Answer α} {st : σ}
    (keeps : Keeps perform allows changes promised prog st)
    (implies : ∀ result st, promised result st → weaker result st) :
    Keeps perform allows changes weaker prog st := by
  induction prog generalizing st with
  | done result => exact implies result st keeps
  | access request next ih =>
      intro st' others
      obtain ⟨changed, onwards⟩ := keeps st' others
      exact ⟨changed, ih _ onwards⟩

/-- A program goes on from where another leaves it. -/
theorem Keeps.bind {prog : Prog ρ Answer α} {rest : α → Prog ρ Answer β} {st : σ}
    {promisedThen : β → σ → Prop}
    (keeps : Keeps perform allows changes
      (fun result st => Keeps perform allows changes promisedThen (rest result) st) prog st) :
    Keeps perform allows changes promisedThen (prog.bind rest) st := by
  induction prog generalizing st with
  | done result => exact keeps
  | access request next ih =>
      intro st' others
      obtain ⟨changed, onwards⟩ := keeps st' others
      exact ⟨changed, ih _ onwards⟩

/-- A pending access stands whatever it allows. -/
theorem Keeps.interfere {request : ρ} {next : Answer request → Prog ρ Answer α} {st st' : σ}
    (keeps : Keeps perform allows changes promised (.access request next) st)
    (others : Relation.ReflTransGen (allows request) st st') :
    Keeps perform allows changes promised (.access request next) st' :=
  fun later more => keeps later (others.trans more)

end Interference

end Prog

end Hekla.Library
