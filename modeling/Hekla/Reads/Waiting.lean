import Hekla.Library.Publication
import Hekla.Reads.TableRequest

/-!
# Read-your-writes waits

A read may ask for a position.  It is held until the reader it asks has published
that position, and is told when that takes too long; then it is answered from one
snapshot, with the position the snapshot was taken at.
-/

namespace Hekla.Reads

open Hekla.Library Tables

/-- A response that is not a 200, and whether the client is told to come back. -/
structure ErrorResponse where
  status : Nat
  error : Refusal
  retryAfter : Bool := false
  deriving DecidableEq

def readFailed : ErrorResponse := ⟨500, ⟨"internal", "internal error"⟩, false⟩

def notFound : ErrorResponse := ⟨404, ⟨"not_found", "no such row"⟩, false⟩

/-- The wait of a read that passes no `timeout_ms`, and the longest there is. -/
def readWaitDefault : Nat := 5000

def readWaitMax : Nat := 30000

structure Wait where
  after : Nat
  timeout : Nat
  deriving DecidableEq

/-- The wait that the parameters ask for, if any. -/
def parseWait (param : String → Option String) : Except ErrorResponse (Option Wait) :=
  match param "after" with
  | none => .ok none
  | some raw =>
      match parseUsize raw with
      | none => .error ⟨400, ⟨"invalid_after", "after must be a non-negative integer"⟩, false⟩
      | some after =>
          match param "timeout_ms" with
          | none => .ok (some ⟨after, readWaitDefault⟩)
          | some raw =>
              match parseUsize raw with
              | none =>
                  .error ⟨400, ⟨"invalid_input", "timeout_ms must be a non-negative integer"⟩, false⟩
              | some ms => .ok (some ⟨after, min ms readWaitMax⟩)

/-- The response to a wait that timed out on whom it waited for. -/
def notCaughtUp (who : String) (wait : Wait) : ErrorResponse :=
  ⟨503, ⟨"not_caught_up", s!"{who} did not reach position {wait.after} within {wait.timeout}ms"⟩, true⟩

/-- A read of a snapshot, with the position it is reported at.  A read that passes no
`after` waits for a position that is always there. -/
def waitingRead {ε κ α : Type} (who : String) (wait : Option Wait) (position : κ → Nat)
    (query : ε → κ → Except ErrorResponse α) : Library.Request ε κ ErrorResponse (α × Nat) where
  after := wait.elim 0 Wait.after
  late := notCaughtUp who (wait.getD ⟨0, readWaitDefault⟩)
  answer seen content := (query seen content).map fun answer => (answer, position content)

/-- The wait is never longer than the longest there is. -/
theorem timeout_le_of_parseWait {param : String → Option String} {wait : Wait}
    (parsed : parseWait param = .ok (some wait)) : wait.timeout ≤ readWaitMax := by
  unfold parseWait at parsed
  split at parsed
  · cases parsed
  · split at parsed
    · cases parsed
    · split at parsed
      · cases parsed
        exact (by decide : readWaitDefault ≤ readWaitMax)
      · split at parsed
        · cases parsed
        · cases parsed
          exact Nat.min_le_right _ _

theorem answer_waitingRead {ε κ α : Type} {who : String} {wait : Option Wait} {position : κ → Nat}
    {query : ε → κ → Except ErrorResponse α} {seen : ε} {content : κ} {answer : α} {reported : Nat} :
    (waitingRead who wait position query).answer seen content = .ok (answer, reported) ↔
      query seen content = .ok answer ∧ position content = reported := by
  unfold waitingRead
  dsimp only
  cases query seen content with
  | error response => simp [Except.map]
  | ok made => simp [Except.map]

end Hekla.Reads
