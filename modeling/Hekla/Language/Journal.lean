import Hekla.Host.Journal
import Hekla.Language.Json

/-!
# Journal rows of a run

A call of an arm is answered by a response with the body that the network sent,
by the outcome of a command, by the time, or by an erasure.  The row that
records an answer carries no variant in its value; the members it has say which
it is, and a body is kept under a member of its own.
-/

namespace Hekla.Language

open Hekla.Host

/-- What a call of the language is answered. -/
inductive Recorded where
  | response (status : Int64) (body : HeklangJson)
  | invoked (outcome : Invoked)
  | now (micros : Int64)
  | erased

/-- The body of a response: what was sent if it is JSON, and nothing if not. -/
def responseBody (document : Option Json) : HeklangJson := document.elim .null toHeklangJson

/-- What a run records: a body comes from the network, the rest is anything. -/
inductive Journaled : Recorded → Prop where
  | response (status : Int64) (document : Option Json)
      (read : ∀ json, document = some json → parsed json = true) :
      Journaled (.response status (responseBody document))
  | invoked (outcome : Invoked) : Journaled (.invoked outcome)
  | now (micros : Int64) : Journaled (.now micros)
  | erased : Journaled .erased

/-- A recorded result as a row, with its kind. -/
def encodeRecorded : Recorded → String × Json
  | .response status body =>
      ("http", .obj [("status", .int status.toInt), ("body", fromHeklangJson body)])
  | .invoked outcome =>
      ("invoke", .obj [("ok", .bool outcome.isOk), ("code", Host.optional outcome.code),
        ("message", Host.optional outcome.message)])
  | .now micros => ("now", .obj [("micros", .int micros.toInt)])
  | .erased => ("erase", .obj [])

/-- The result a row holds, told by the members it has. -/
def decodeRecorded (row : Json) : Recorded :=
  match (row.get "micros").bind Json.asI64 with
  | some micros => .now micros
  | none =>
      match (row.get "status").bind Json.asI64 with
      | some status => .response status ((row.get "body").elim .null toHeklangJson)
      | none =>
          match (row.get "ok").bind Json.asBool with
          | some ok =>
              .invoked (invoked ok ((row.get "code").bind Json.asStr)
                ((row.get "message").bind Json.asStr))
          | none => .erased

/-- A body crosses to the row and back as itself. -/
theorem to_from_responseBody {document : Option Json}
    (read : ∀ json, document = some json → parsed json = true) :
    toHeklangJson (fromHeklangJson (responseBody document)) = responseBody document := by
  cases document with
  | none => rfl
  | some json =>
      change toHeklangJson (fromHeklangJson (toHeklangJson json)) = toHeklangJson json
      rw [from_toHeklangJson json (read json rfl)]

/-- An outcome is told by its code and its message. -/
theorem invoked_outcome (outcome : Invoked) :
    invoked outcome.isOk ((Host.optional outcome.code).asStr) ((Host.optional outcome.message).asStr) =
      outcome := by
  cases outcome <;> rfl

/-- What a run recorded is what its row is read as. -/
theorem decodeRecorded_encodeRecorded {recorded : Recorded} (journaled : Journaled recorded) :
    decodeRecorded (encodeRecorded recorded).2 = recorded := by
  cases journaled with
  | response status document read =>
      -- neither member asked for first is one a response has
      change (match (Json.int status.toInt).asI64 with
        | some status =>
            Recorded.response status (toHeklangJson (fromHeklangJson (responseBody document)))
        | none => _) = _
      rw [asI64_int, to_from_responseBody read]
  | invoked outcome =>
      change Recorded.invoked (invoked outcome.isOk ((Host.optional outcome.code).asStr)
        ((Host.optional outcome.message).asStr)) = .invoked outcome
      rw [invoked_outcome]
  | now micros =>
      change (match (Json.int micros.toInt).asI64 with
        | some micros => Recorded.now micros
        | none => _) = _
      rw [asI64_int]
  | erased => rfl

/-- A response whose body has every member that is asked for is still a response. -/
theorem decodeRecorded_of_lookalike :
    decodeRecorded (encodeRecorded (.response 200 (responseBody (some (.obj
      [("micros", .int 7), ("ok", .bool true), ("status", .int 404), ("rate", .num "1e+2")]))))).2 =
    .response 200 (responseBody (some (.obj
      [("micros", .int 7), ("ok", .bool true), ("status", .int 404), ("rate", .num "1e+2")]))) :=
  decodeRecorded_encodeRecorded (.response 200 _ (by
    rintro _ ⟨⟩
    decide))

end Hekla.Language
