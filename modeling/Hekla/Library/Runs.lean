import Mathlib.Order.Basic
import Mathlib.Data.Option.Basic

/-!
# Runs of a partial step function

A component is a state type with a step function that refuses the actions its
state does not admit.  A run is a list of actions that are all admitted one
after the other.  What one step preserves, every run preserves; where a step
preserves it only under a condition on the state it is taken in, every run
whose steps all meet that condition does.
-/

namespace Hekla.Library

universe u v w x

section Runs

variable {σ : Type u} {α : Type v} (step : σ → α → Option σ)

/-- Take the actions in order; refuse the run when one of them is refused. -/
def run : σ → List α → Option σ
  | state, [] => some state
  | state, action :: rest => (step state action).bind fun next => run next rest

/-- Every step of the run is taken in a state that meets the condition. -/
def Guarded (ok : σ → α → Prop) : σ → List α → Prop
  | _, [] => True
  | state, action :: rest =>
      ok state action ∧ ∀ next, step state action = some next → Guarded ok next rest

variable {step}

@[simp]
theorem run_nil (state : σ) : run step state [] = some state := rfl

theorem run_cons {state final : σ} {action : α} {rest : List α} :
    run step state (action :: rest) = some final ↔
      ∃ next, step state action = some next ∧ run step next rest = some final := by
  simp [run, Option.bind_eq_some_iff]

theorem run_append {state final : σ} {first second : List α} :
    run step state (first ++ second) = some final ↔
      ∃ middle, run step state first = some middle ∧ run step middle second = some final := by
  induction first generalizing state with
  | nil => simp
  | cons action rest ih =>
      rw [List.cons_append, run_cons]
      constructor
      · rintro ⟨next, stepped, tail⟩
        obtain ⟨middle, front, back⟩ := ih.mp tail
        exact ⟨middle, run_cons.mpr ⟨next, stepped, front⟩, back⟩
      · rintro ⟨middle, front, back⟩
        obtain ⟨next, stepped, tail⟩ := run_cons.mp front
        exact ⟨next, stepped, ih.mpr ⟨middle, tail, back⟩⟩

/-- What every step preserves, every run preserves. -/
theorem run_invariant (kept : σ → Prop)
    (preserved : ∀ state action next, kept state → step state action = some next → kept next)
    {state final : σ} {actions : List α} (initial : kept state)
    (ran : run step state actions = some final) : kept final := by
  induction actions generalizing state with
  | nil => exact Option.some.inj ran ▸ initial
  | cons action rest ih =>
      obtain ⟨next, stepped, tail⟩ := run_cons.mp ran
      exact ih (preserved state action next initial stepped) tail

/-- What every step keeps of a state and of the actions that led to it, every run
keeps. -/
theorem run_invariant_past (kept : List α → σ → Prop) {start : σ}
    (preserved : ∀ past state action next, run step start past = some state →
      kept past state → step state action = some next → kept (past ++ [action]) next)
    {past actions : List α} {state final : σ} (reached : run step start past = some state)
    (initial : kept past state) (ran : run step state actions = some final) :
    kept (past ++ actions) final := by
  induction actions generalizing past state with
  | nil =>
      rw [List.append_nil]
      exact Option.some.inj ran ▸ initial
  | cons action rest ih =>
      obtain ⟨next, stepped, tail⟩ := run_cons.mp ran
      have onward : run step start (past ++ [action]) = some next :=
        run_append.mpr ⟨state, reached, run_cons.mpr ⟨next, stepped, rfl⟩⟩
      have later := ih onward (preserved past state action next reached initial stepped) tail
      rwa [List.append_assoc] at later

theorem Guarded.cons {ok : σ → α → Prop} {state : σ} {action : α} {rest : List α}
    (guarded : Guarded step ok state (action :: rest)) :
    ok state action ∧ ∀ next, step state action = some next → Guarded step ok next rest :=
  guarded

/-- A run of actions that meet the condition in every state is guarded. -/
theorem Guarded.of_forall {ok : σ → α → Prop} {state : σ} {actions : List α}
    (always : ∀ action ∈ actions, ∀ state, ok state action) : Guarded step ok state actions := by
  induction actions generalizing state with
  | nil => exact trivial
  | cons action rest ih =>
      refine ⟨always action List.mem_cons_self state, ?_⟩
      intro next _
      exact ih fun later member => always later (List.mem_cons_of_mem _ member)

/-- A weaker condition guards the same runs. -/
theorem Guarded.imp {ok weaker : σ → α → Prop} {state : σ} {actions : List α}
    (implies : ∀ state action, ok state action → weaker state action)
    (guarded : Guarded step ok state actions) : Guarded step weaker state actions := by
  induction actions generalizing state with
  | nil => exact trivial
  | cons action rest ih =>
      obtain ⟨here, later⟩ := Guarded.cons guarded
      exact ⟨implies state action here, fun next taken => ih (later next taken)⟩

theorem guarded_cons_of_eq_some {ok : σ → α → Prop} {state next : σ} {action : α} {rest : List α}
    (taken : step state action = some next) :
    ok state action ∧ Guarded step ok next rest ↔ Guarded step ok state (action :: rest) := by
  refine and_congr_right fun _ => ⟨?_, fun later => later next taken⟩
  intro later other takenOther
  exact Option.some.inj (taken.symm.trans takenOther) ▸ later

theorem guarded_cons_of_eq_none {ok : σ → α → Prop} {state : σ} {action : α} {rest : List α}
    (refused : step state action = none) :
    ok state action ↔ Guarded step ok state (action :: rest) := by
  refine ⟨fun here => ⟨here, ?_⟩, fun guarded => guarded.1⟩
  intro next taken
  rw [refused] at taken
  cases taken

/-- Whether a run is guarded by a decidable condition can be computed. -/
instance decidableGuarded (ok : σ → α → Prop) [∀ state action, Decidable (ok state action)] :
    ∀ state actions, Decidable (Guarded step ok state actions)
  | _, [] => isTrue trivial
  | state, action :: rest =>
      match taken : step state action with
      | some next =>
          haveI := decidableGuarded ok next rest
          decidable_of_iff (ok state action ∧ Guarded step ok next rest)
            (guarded_cons_of_eq_some taken)
      | none => decidable_of_iff (ok state action) (guarded_cons_of_eq_none taken)

/-- Guarded runs compose. -/
theorem Guarded.join {ok : σ → α → Prop} {state middle : σ} {first second : List α}
    (front : Guarded step ok state first) (back : Guarded step ok middle second)
    (ran : run step state first = some middle) : Guarded step ok state (first ++ second) := by
  induction first generalizing state with
  | nil => exact Option.some.inj ran ▸ back
  | cons action rest ih =>
      obtain ⟨here, later⟩ := Guarded.cons front
      obtain ⟨next, stepped, tail⟩ := run_cons.mp ran
      refine ⟨here, ?_⟩
      intro other steppedOther
      have same : next = other := Option.some.inj (stepped.symm.trans steppedOther)
      exact same ▸ ih (later next stepped) tail

/-- What every step that meets the condition preserves, every run whose steps
all meet it preserves. -/
theorem run_invariant_of_guarded {ok : σ → α → Prop} (kept : σ → Prop)
    (preserved : ∀ state action next, kept state → ok state action →
      step state action = some next → kept next)
    {state final : σ} {actions : List α} (initial : kept state)
    (guarded : Guarded step ok state actions)
    (ran : run step state actions = some final) : kept final := by
  induction actions generalizing state with
  | nil => exact Option.some.inj ran ▸ initial
  | cons action rest ih =>
      obtain ⟨here, later⟩ := Guarded.cons guarded
      obtain ⟨next, stepped, tail⟩ := run_cons.mp ran
      exact ih (preserved state action next initial here stepped) (later next stepped) tail

/-- A run of a system is the run of its model, when every step is the model's. -/
theorem run_simulates {μ : Type w} {fits : α → Prop} {modelled : μ → α → μ} (related : σ → μ → Prop)
    (preserved : ∀ state model action next, related state model → fits action →
      step state action = some next → related next (modelled model action))
    {state final : σ} {model : μ} {actions : List α} (initial : related state model)
    (fit : ∀ action ∈ actions, fits action) (ran : run step state actions = some final) :
    related final (actions.foldl modelled model) := by
  induction actions generalizing state model with
  | nil => exact Option.some.inj ran ▸ initial
  | cons action rest ih =>
      obtain ⟨next, stepped, tail⟩ := run_cons.mp ran
      have kept := preserved state model action next initial (fit action List.mem_cons_self) stepped
      exact ih kept (fun later member => fit later (List.mem_cons_of_mem _ member)) tail

/-- A measure no admitted step lowers from a state of the invariant is not
lowered by a whole run. -/
theorem run_monotone_of_guarded {ok : σ → α → Prop} (kept : σ → Prop) {π : Type w} [Preorder π]
    (measure : σ → π)
    (preserved : ∀ state action next, kept state → ok state action →
      step state action = some next → kept next ∧ measure state ≤ measure next)
    {state final : σ} {actions : List α} (initial : kept state)
    (guarded : Guarded step ok state actions)
    (ran : run step state actions = some final) : measure state ≤ measure final := by
  induction actions generalizing state with
  | nil => exact Option.some.inj ran ▸ le_refl _
  | cons action rest ih =>
      obtain ⟨here, later⟩ := Guarded.cons guarded
      obtain ⟨next, stepped, tail⟩ := run_cons.mp ran
      obtain ⟨keptNext, grew⟩ := preserved state action next initial here stepped
      exact le_trans grew (ih keptNext (later next stepped) tail)

end Runs

end Hekla.Library
