import Hekla.Library.Runs
import Mathlib.Logic.Function.Basic

/-!
# Versions published to readers

A component keeps versions of something behind a name, and publishes the version
it has reached.  A reader passes the component's gate, waits until a version is
published, opens what is behind the name and holds it still while it reads.
Between any two of its moves the component may take steps: put a later version
behind a handle, or another file behind the name.

When what is published is never ahead of what is behind the name, and no step
takes back what is behind the name or an open handle, a reader that waited for a
version is served that version or a later one.
-/

namespace Hekla.Library

universe u

/-- What a component shows its readers.  The gate turns a read away with a
response. -/
structure Publication (σ η κ ρ : Type u) where
  gate : σ → Option ρ
  published : σ → Nat
  named : σ → Option η
  content : σ → η → Option κ
  version : κ → Nat
  broken : ρ

/-- What a read waits for, the response when it waits too long, and the answer it
makes of what it holds. -/
structure Request (ε κ ρ α : Type u) where
  after : Nat
  late : ρ
  answer : ε → κ → Except ρ α

/-- How far a read has come. -/
inductive Phase (η κ ρ α : Type u) where
  | asked
  | waiting
  | reached
  | opened (handle : η)
  | holding (content : κ)
  | served (content : κ) (answer : α)
  | refused (response : ρ)

inductive Move (ε : Type u) where
  | check
  | look
  | timeout
  | open
  | snapshot
  | answer (seen : ε)
  | fail

variable {σ η κ ρ ε α β : Type u}

namespace Publication

variable (shown : Publication σ η κ ρ)

/-- One move of a reader. -/
def move (state : σ) (request : Request ε κ ρ α) : Phase η κ ρ α → Move ε → Option (Phase η κ ρ α)
  | .asked, .check => some ((shown.gate state).elim .waiting .refused)
  | .waiting, .look => some (if shown.published state < request.after then .waiting else .reached)
  | .waiting, .timeout => some (.refused request.late)
  | .reached, .open => (shown.named state).map .opened
  | .opened handle, .snapshot => (shown.content state handle).map .holding
  | .holding content, .answer seen =>
      some (match request.answer seen content with
        | .ok answer => .served content answer
        | .error response => .refused response)
  | .reached, .fail | .opened _, .fail | .holding _, .fail => some (.refused shown.broken)
  | _, _ => none

end Publication

/-- A component and its reads in flight. -/
structure Serving (σ η κ ρ ε α : Type u) where
  state : σ
  reads : Nat → Option (Request ε κ ρ α × Phase η κ ρ α) := fun _ => none

/-- A step of the component, a new read, or a move of one. -/
inductive Turn (β ε κ ρ α : Type u) where
  | step (action : β)
  | ask (read : Nat) (request : Request ε κ ρ α)
  | move (read : Nat) (move : Move ε)

/-- Take one turn.  Some steps of the component end every read. -/
def Publication.serve (shown : Publication σ η κ ρ) (step : σ → β → Option σ) (ends : β → Bool)
    (serving : Serving σ η κ ρ ε α) : Turn β ε κ ρ α → Option (Serving σ η κ ρ ε α)
  | .step action => (step serving.state action).map fun next =>
      { state := next, reads := if ends action then fun _ => none else serving.reads }
  | .ask read request =>
      some { serving with reads := Function.update serving.reads read (some (request, .asked)) }
  | .move read move =>
      (serving.reads read).bind fun reading =>
        (shown.move serving.state reading.1 reading.2 move).map fun phase =>
          { serving with reads := Function.update serving.reads read (some (reading.1, phase)) }

/-! ## What a component owes its readers -/

section Owes

variable (shown : Publication σ η κ ρ) (good : σ → κ → Prop) (visible : σ → η → Prop)

/-- What is behind the name is good, and has come to a version. -/
def Behind (state : σ) (least : Nat) : Prop :=
  ∃ handle content, shown.named state = some handle ∧
    shown.content state handle = some content ∧ good state content ∧ least ≤ shown.version content

/-- What a state owes a read at each of its phases. -/
def Owes (state : σ) (request : Request ε κ ρ α) : Phase η κ ρ α → Prop
  | .asked | .refused _ => True
  | .waiting => Behind shown good state 0
  | .reached => Behind shown good state request.after
  | .opened handle => visible state handle ∧ ∃ content, shown.content state handle = some content ∧
      good state content ∧ request.after ≤ shown.version content
  | .holding content => good state content ∧ request.after ≤ shown.version content
  | .served content answer => (good state content ∧ request.after ≤ shown.version content) ∧
      ∃ seen, request.answer seen content = .ok answer

/-- What a state of the component has to be like. -/
structure Honest (state : σ) : Prop where
  gate : shown.gate state = none → Behind shown good state 0
  published : ∀ handle content, shown.named state = some handle →
    shown.content state handle = some content → shown.published state ≤ shown.version content
  visible : ∀ handle, shown.named state = some handle → visible state handle

/-- What a step of the component may not take back. -/
structure Keeps (before after : σ) : Prop where
  held : ∀ content, good before content → good after content
  named : ∀ least, Behind shown good before least → Behind shown good after least
  opened : ∀ handle content, visible before handle → shown.content before handle = some content →
    good before content → visible after handle ∧ ∃ later, shown.content after handle = some later ∧
      good after later ∧ shown.version content ≤ shown.version later

variable {shown good visible} {state next : σ} {request : Request ε κ ρ α} {phase : Phase η κ ρ α}

/-- A step that keeps what may not be taken back leaves every debt standing. -/
theorem Owes.keep (keeps : Keeps shown good visible state next)
    (owed : Owes shown good visible state request phase) :
    Owes shown good visible next request phase := by
  cases phase with
  | asked | refused => trivial
  | waiting => exact keeps.named 0 owed
  | reached => exact keeps.named request.after owed
  | opened handle =>
      obtain ⟨seen, content, found, fine, reached⟩ := owed
      obtain ⟨still, later, there, fineLater, grew⟩ := keeps.opened handle content seen found fine
      exact ⟨still, later, there, fineLater, Nat.le_trans reached grew⟩
  | holding content => exact ⟨keeps.held content owed.1, owed.2⟩
  | served content answer => exact ⟨⟨keeps.held content owed.1.1, owed.1.2⟩, owed.2⟩

/-- In an honest state, a reader's move leaves it owed what its new phase is. -/
theorem Owes.move (honest : Honest shown good visible state)
    (owed : Owes shown good visible state request phase) {move : Move ε} {later : Phase η κ ρ α}
    (moved : shown.move state request phase move = some later) :
    Owes shown good visible state request later := by
  unfold Publication.move at moved
  split at moved
  · cases Option.some.inj moved
    cases passed : shown.gate state with
    | none => exact honest.gate passed
    | some response => trivial
  · cases Option.some.inj moved
    split
    · exact owed
    · next reached =>
        obtain ⟨handle, content, named, found, fine, -⟩ := owed
        exact ⟨handle, content, named, found, fine,
          Nat.le_trans (Nat.not_lt.mp reached) (honest.published handle content named found)⟩
  · cases Option.some.inj moved
    trivial
  · obtain ⟨handle, named, rfl⟩ := Option.map_eq_some_iff.mp moved
    obtain ⟨behind, content, namedToo, found, fine, reached⟩ := owed
    cases named.symm.trans namedToo
    exact ⟨honest.visible handle named, content, found, fine, reached⟩
  · obtain ⟨content, found, rfl⟩ := Option.map_eq_some_iff.mp moved
    obtain ⟨-, held, foundToo, fine, reached⟩ := owed
    cases found.symm.trans foundToo
    exact ⟨fine, reached⟩
  · next content seen =>
      cases Option.some.inj moved
      cases made : request.answer seen content with
      | ok answer => exact ⟨owed, seen, made⟩
      | error response => trivial
  · cases Option.some.inj moved
    trivial
  · cases Option.some.inj moved
    trivial
  · cases Option.some.inj moved
    trivial
  · cases moved

end Owes

/-! ## Every interleaving -/

section Run

variable {shown : Publication σ η κ ρ} {good : σ → κ → Prop} {visible : σ → η → Prop}
  {step : σ → β → Option σ} {ends : β → Bool}

/-- The component is in a state of its invariant, and owes every read its phase. -/
structure Fair (shown : Publication σ η κ ρ) (good : σ → κ → Prop) (visible : σ → η → Prop)
    (kept : σ → Prop) (serving : Serving σ η κ ρ ε α) : Prop where
  state : kept serving.state
  reads : ∀ read request phase, serving.reads read = some (request, phase) →
    Owes shown good visible serving.state request phase

theorem Fair.turn {kept : σ → Prop} {serving next : Serving σ η κ ρ ε α} {turn : Turn β ε κ ρ α}
    (honest : ∀ state, kept state → Honest shown good visible state)
    (preserved : ∀ state action next, kept state → step state action = some next →
      kept next ∧ (ends action = false → Keeps shown good visible state next))
    (fair : Fair shown good visible kept serving)
    (taken : shown.serve step ends serving turn = some next) :
    Fair shown good visible kept next := by
  cases turn with
  | step action =>
      obtain ⟨after, stepped, rfl⟩ := Option.map_eq_some_iff.mp taken
      obtain ⟨keptAfter, keeps⟩ := preserved _ _ _ fair.state stepped
      refine ⟨keptAfter, ?_⟩
      intro read request phase reading
      dsimp only at reading
      split at reading
      · cases reading
      · next goes_on =>
          have lasting := keeps (Bool.eq_false_iff.mpr goes_on)
          exact (fair.reads read request phase reading).keep lasting
  | ask read request =>
      cases Option.some.inj taken
      refine ⟨fair.state, ?_⟩
      intro other asked phase reading
      dsimp only at reading
      rw [Function.update_apply] at reading
      split at reading
      · cases reading
        trivial
      · exact fair.reads other asked phase reading
  | move read move =>
      obtain ⟨⟨request, phase⟩, reading, taken⟩ := Option.bind_eq_some_iff.mp taken
      obtain ⟨later, moved, rfl⟩ := Option.map_eq_some_iff.mp taken
      have owed := (fair.reads read request phase reading).move (honest _ fair.state) moved
      refine ⟨fair.state, ?_⟩
      intro other asked found there
      dsimp only at there
      rw [Function.update_apply] at there
      split at there
      · cases there
        exact owed
      · exact fair.reads other asked found there

/-- In every interleaving, what a read was served is good, of the version it
waited for or a later one, and what its answer was made of. -/
theorem served_of_run (kept : σ → Prop)
    (honest : ∀ state, kept state → Honest shown good visible state)
    (preserved : ∀ state action next, kept state → step state action = some next →
      kept next ∧ (ends action = false → Keeps shown good visible state next))
    {start : σ} (initial : kept start) {turns : List (Turn β ε κ ρ α)}
    {final : Serving σ η κ ρ ε α}
    (ran : run (shown.serve step ends) { state := start } turns = some final) {read : Nat}
    {request : Request ε κ ρ α} {content : κ} {answer : α}
    (served : final.reads read = some (request, .served content answer)) :
    kept final.state ∧ (good final.state content ∧ request.after ≤ shown.version content) ∧
      ∃ seen, request.answer seen content = .ok answer := by
  have fair : Fair shown good visible kept final := by
    refine run_invariant (Fair shown good visible kept) ?_ ⟨initial, ?_⟩ ran
    · intro before turn after fair taken
      exact fair.turn honest preserved taken
    · intro read request phase reading
      cases reading
  exact ⟨fair.state, fair.reads read request _ served⟩

end Run

end Hekla.Library
