import Hekla.Host.Journal
import Hekla.Keys.Store

/-!
# Replaying an invocation on a sealed host

An effect's arm is delivered again against the journal of the run that was
recorded.  A call the journal answers is not performed; a call it does not
answer is performed by a host that refuses to send, to append and to erase, and
is never recorded.  What the run visited and missed is then compared with the
record, and the comparison read by whoever asked.
-/

namespace Hekla.Verify

open Hekla.Library Hekla.Host Hekla.Keys

/-! ## Programs and hosts -/

structure HttpRequest where
  method : String
  url : String
  headers : List (String × String) := []
  body : Option Json := none

/-- What a call wants done; an invoked command has decided, or failed. -/
inductive Call where
  | http (request : HttpRequest)
  | invoke (decided : Except HostError Decision)
  | now
  | erase (id : Identity)

/-- How a delivered invocation ends. -/
inductive Outcome where
  | done
  | failed (detail : String)
  | skipped (reason : String)
  | ignored
  deriving DecidableEq

/-- An arm delivered for one event: the calls it makes, each under its text, and
what it does with each answer.  What it reads outside the journal is settled. -/
inductive Program where
  | ended (outcome : Outcome)
  | error (error : HostError)
  | call (text : String) (asks : Call) (next : Recorded → Program)

/-- What a run could change. -/
structure World where
  store : Store := {}
  keys : KeyState
  sent : List HttpRequest := []

/-- A transport, given what has been sent so far. -/
structure HttpClient where
  send : List HttpRequest → HttpRequest → List HttpRequest × Except String (Int64 × Json)

/-- A transport that cannot send. -/
def SealedHttp : HttpClient where
  send sent _ := (sent, .error "a sealed replay tried to send an HTTP request")

structure Hosting where
  host : HeklaHost
  masters : Option MasterKeys
  client : HttpClient
  clock : Int64

namespace Hosting

def erase (hosting : Hosting) (world : World) (id : Identity) : World × Except HostError Unit :=
  if hosting.host.isSealed then
    (world, .error (.host "a sealed replay tried to erase a subject key"))
  else
    match hosting.masters with
    | none => (world, .error (.host "erase needs a master key, but none is configured"))
    | some _ =>
        match eraseSubject id world.keys with
        | (.error message, keys) => ({ world with keys }, .error (.host message))
        | (.ok _, keys) => ({ world with keys }, .ok ())

/-- Do what a call wants done. -/
def perform (hosting : Hosting) (world : World) : Call → World × Except HostError Recorded
  | .http request =>
      match hosting.client.send world.sent request with
      | (sent, .error reason) => ({ world with sent }, .error (.host reason))
      | (sent, .ok (status, body)) => ({ world with sent }, .ok (.response status body))
  | .invoke (.error error) => (world, .error error)
  | .invoke (.ok (.reject code message)) => (world, .ok (.invoked (.reject code message)))
  | .invoke (.ok (.invalid message)) => (world, .ok (.invoked (.invalid message)))
  | .invoke (.ok (.emits events condition)) =>
      match hosting.host.append world.store events condition with
      | (_, store, .error error) => ({ world with store }, .error error)
      | (_, store, .ok ()) => ({ world with store }, .ok (.invoked .ok))
  | .now => (world, .ok (.now hosting.clock))
  | .erase id =>
      match hosting.erase world id with
      | (world, .error error) => (world, .error error)
      | (world, .ok ()) => (world, .ok .erased)

/-- A host that performs nothing. -/
structure Sealed (hosting : Hosting) : Prop where
  refuses : hosting.host.isSealed = true
  silent : hosting.client = SealedHttp

/-- A sealed host leaves the world as it is. -/
theorem Sealed.perform {hosting : Hosting} (closed : hosting.Sealed) (world : World) (call : Call) :
    (hosting.perform world call).1 = world := by
  cases call with
  | http request =>
      unfold Hosting.perform
      rw [closed.silent]
      rfl
  | now => rfl
  | erase id =>
      unfold Hosting.perform Hosting.erase
      dsimp only
      rw [if_pos closed.refuses]
  | invoke decided =>
      cases decided with
      | error error => rfl
      | ok decision =>
          cases decision with
          | reject code message => rfl
          | invalid message => rfl
          | emits events condition =>
              unfold Hosting.perform HeklaHost.append
              dsimp only
              rw [if_pos closed.refuses]

end Hosting

/-! ## Where a run looks its calls up -/

/-- A call as the journal files it: the hash of its text, and how many of the
same came before. -/
abbrev CallKey := String × Nat

/-- One invocation's journal, in the order its rows were written, and the rows
that cannot be read. -/
structure Journal where
  rows : List (CallKey × Json) := []
  unreadable : CallKey → Option String := fun _ => none

/-- What answers a run's calls and records the others. -/
structure Calls (State : Type) where
  recorded : State → String → Nat → State × Except HostError (Option Recorded)
  record : State → String → Nat → Recorded → State × Except HostError Unit

section Delivery

variable (sha256Hex : String → String)

def callKey (text : String) (ordinal : Nat) : CallKey := (sha256Hex text, ordinal)

namespace Journal

def recorded (journal : Journal) (text : String) (ordinal : Nat) :
    Except HostError (Option Recorded) :=
  match journal.unreadable (callKey sha256Hex text ordinal) with
  | some message => .error (.host message)
  | none => .ok ((journal.rows.lookup (callKey sha256Hex text ordinal)).map decodeRecorded)

def record (journal : Journal) (text : String) (ordinal : Nat) (recorded : Recorded) :
    Journal × Except HostError Unit :=
  match journal.rows.lookup (callKey sha256Hex text ordinal) with
  | some _ => (journal, .error (.host "recording effect journal entry"))
  | none =>
      ({ journal with
          rows := journal.rows ++ [(callKey sha256Hex text ordinal, (encodeRecorded recorded).2)] },
        .ok ())

/-- The journal of a run that is being recorded. -/
def calls : Calls Journal where
  recorded journal text ordinal := (journal, journal.recorded sha256Hex text ordinal)
  record journal text ordinal recorded := journal.record sha256Hex text ordinal recorded

end Journal

/-- A journal that reads and never writes, and remembers what it was asked for. -/
structure SealedJournal where
  inner : Journal
  visited : List CallKey := []
  missed : Option String := none

namespace SealedJournal

def recorded (journal : SealedJournal) (text : String) (ordinal : Nat) :
    SealedJournal × Except HostError (Option Recorded) :=
  match journal.inner.recorded sha256Hex text ordinal with
  | .error error => (journal, .error error)
  | .ok (some found) =>
      ({ journal with visited := journal.visited ++ [callKey sha256Hex text ordinal] },
        .ok (some found))
  | .ok none =>
      ({ journal with missed := journal.missed <|> some s!"{text} #{ordinal}" }, .ok none)

def calls : Calls SealedJournal where
  recorded := recorded sha256Hex
  record journal _ _ _ := (journal, .ok ())

end SealedJournal

/-- Deliver an arm: every call is looked up first, and performed and recorded on a miss. -/
def deliver {State : Type} (hosting : Hosting) (calls : Calls State) :
    Program → List String → World → State → World × State × Except HostError Outcome
  | .ended outcome, _, world, journal => (world, journal, .ok outcome)
  | .error error, _, world, journal => (world, journal, .error error)
  | .call text asks next, made, world, journal =>
      match calls.recorded journal text (made.count text) with
      | (journal, .error error) => (world, journal, .error error)
      | (journal, .ok (some found)) =>
          deliver hosting calls (next found) (made ++ [text]) world journal
      | (journal, .ok none) =>
          match hosting.perform world asks with
          | (world, .error error) => (world, journal, .error error)
          | (world, .ok answer) =>
              match calls.record journal text (made.count text) answer with
              | (journal, .error error) => (world, journal, .error error)
              | (journal, .ok ()) =>
                  deliver hosting calls (next answer) (made ++ [text]) world journal

end Delivery

/-! ## The verdict -/

/-- Who asks for a replay. -/
inductive Asked where
  | live
  | sweep
  | candidate
  deriving DecidableEq

inductive Replayed where
  | matched
  | newCall (call : String) (asked : Asked)
  | different (journal replay : String)
  | noLongerHandled
  | subjectErased (reason : String)
  | noJournal (call : String)
  | reclaimed
  | terminallyFailed (detail : String)
  | operatorSkipped
  | unreadable (detail : String)
  | failed (detail : String)
  deriving DecidableEq

/-- Why nothing could be compared. -/
inductive Uncovered where
  | subjectErased
  | noJournal
  | reclaimed
  | operatorSkipped
  | unreadable
  deriving DecidableEq

/-- What a replay reads of the record around the run: the operator's skip mark
before it, the journal's list of calls and the invocation's row after it. -/
structure Readings where
  skipped : Except String Bool
  keys : Except String (List CallKey)
  row : Except String Bool

/-- An effect at a position, and how an error is spelled. -/
structure Replaying where
  effect : String
  position : Nat
  sha256Hex : String → String
  display : HostError → String

/-- A sequence of calls, each by the start of its hash. -/
def renderKeys (keys : List CallKey) : String :=
  let rendered := keys.map fun key => s!"{String.ofList (key.1.toList.take 8)}#{key.2}"
  "[" ++ ", ".intercalate rendered ++ "]"

def reclaimed (asked : Asked) (readings : Readings) : Option Replayed :=
  if asked ≠ .candidate then none
  else
    match readings.row with
    | .ok false => some .reclaimed
    | .ok true | .error _ => none

/-- A terminal failure, when it is news to whoever asked. -/
def terminalFailure (outcome : Outcome) (asked : Asked) : Option Replayed :=
  match outcome with
  | .failed detail => if asked = .candidate then some (.terminallyFailed detail) else none
  | _ => none

namespace Replaying

variable (unit : Replaying)

/-- What an empty record makes of a run. -/
def emptyVerdict (asked : Asked) (readings : Readings) (missed : Option String) :
    Except HostError Outcome → Replayed
  | outcome =>
      match missed, outcome with
      | some call, _ => if asked = .live then .newCall call asked else .noJournal call
      | none, .error error => .failed (unit.display error)
      | none, .ok outcome =>
          match Verify.reclaimed asked readings with
          | some gone => gone
          | none => (terminalFailure outcome asked).getD .matched

/-- What a record with calls makes of a run. -/
def recordVerdict (asked : Asked) (recorded : List CallKey) (journal : SealedJournal) :
    Except HostError Outcome → Replayed
  | .error error =>
      match journal.missed with
      | some call => .newCall call asked
      | none => .failed (unit.display error)
  | .ok outcome =>
      match journal.missed with
      | some call => .newCall call asked
      | none =>
          if journal.visited ≠ recorded then
            .different (renderKeys recorded) (renderKeys journal.visited)
          else (terminalFailure outcome asked).getD .matched

/-- What a run that ended as it did comes to. -/
def verdict (asked : Asked) (readings : Readings) (journal : SealedJournal)
    (outcome : Except HostError Outcome) : Replayed :=
  match outcome with
  | .ok (.skipped reason) => .subjectErased reason
  | .ok .ignored => .noLongerHandled
  | outcome =>
      match readings.keys with
      | .error message => .unreadable message
      | .ok [] => unit.emptyVerdict asked readings journal.missed outcome
      | .ok (key :: keys) => unit.recordVerdict asked (key :: keys) journal outcome

/-- The host of a replay: it appends nothing, erases nothing and sends nothing. -/
def sealedHosting (host : HeklaHost) (masters : Option MasterKeys) (clock : Int64) : Hosting where
  host := { host with isSealed := true, idemTag := none, call := none }
  masters
  client := SealedHttp
  clock

/-- Run a program against its journal, with what it visits and misses remembered. -/
def sealedRun (hosting : Hosting) (journal : Journal) (program : Program) (world : World) :
    World × SealedJournal × Except HostError Outcome :=
  deliver hosting (SealedJournal.calls unit.sha256Hex) program [] world { inner := journal }

/-- Re-run a recorded invocation and say how it went. -/
def replay (asked : Asked) (readings : Readings) (host : HeklaHost) (masters : Option MasterKeys)
    (clock : Int64) (journal : Journal) (program : Program) (world : World) :
    World × Journal × Replayed :=
  if asked ≠ .live ∧ readings.skipped.toOption.getD false = true then
    (world, journal, .operatorSkipped)
  else
    match unit.sealedRun (sealedHosting host masters clock) journal program world with
    | (world, ran, outcome) => (world, ran.inner, unit.verdict asked readings ran outcome)

end Replaying

namespace Replayed

def uncovered : Replayed → Option Uncovered
  | .subjectErased _ => some .subjectErased
  | .noJournal _ => some .noJournal
  | .reclaimed => some .reclaimed
  | .operatorSkipped => some .operatorSkipped
  | .unreadable _ => some .unreadable
  | _ => none

def isCovered (replayed : Replayed) : Bool := replayed.uncovered.isNone

def reproduces : Replayed → Bool
  | .matched => true
  | _ => false

def describe : Replayed → String
  | .matched => "it made the calls the journal records"
  | .newCall call .candidate => s!"it reached a call the recorded run never made ({call})"
  | .newCall call _ =>
      s!"it reached a call with no journal entry ({call}); a real retry would have " ++
        "performed it a second time"
  | .different journal replay =>
      "it made a different sequence of calls than the journal records " ++
        s!"(journal {journal}, replay {replay})"
  | .noLongerHandled =>
      "no arm selects the event that triggered it, so it would not run at all"
  | .subjectErased reason => s!"it cannot be replayed: {reason}"
  | .noJournal call =>
      s!"it reached a call ({call}) against a journal with no entries, and an operator skip " ++
        "and a run that called nothing both journal nothing, so what it would now call " ++
        "cannot be compared"
  | .reclaimed =>
      "retention reclaimed its record while the replay was running, so there is nothing left " ++
        "to compare against"
  | .terminallyFailed detail =>
      "it would end in a terminal `fail`, advancing past the event rather than handling " ++
        s!"it: {detail}"
  | .operatorSkipped =>
      "an operator skipped it, so nothing ran it to an end and its journal is whatever the " ++
        "wedged run had reached"
  | .unreadable detail => s!"its record could not be read, so nothing was compared: {detail}"
  | .failed detail => s!"it failed part-way through: {detail}"

end Replayed

/-- An effect's replay disagrees with its journal. -/
structure ReplayDivergence where
  effect : String
  position : Nat
  detail : String

/-- An outcome as a check reads it. -/
def violation (unit : Replaying) (replayed : Replayed) : Option ReplayDivergence :=
  if replayed.reproduces || !replayed.isCovered then none
  else some ⟨unit.effect, unit.position, replayed.describe⟩

/-! ## What a sealed run leaves and remembers -/

section Runs

variable {sha256Hex : String → String} {hosting : Hosting}

/-- The journal is not written, and a miss is not forgotten. -/
theorem deliver_keeps (closed : hosting.Sealed) (program : Program) (made : List String)
    (world : World) (journal : SealedJournal) :
    (deliver hosting (SealedJournal.calls sha256Hex) program made world journal).1 = world ∧
      (deliver hosting (SealedJournal.calls sha256Hex) program made world journal).2.1.inner =
        journal.inner ∧
      (journal.missed ≠ none →
        (deliver hosting (SealedJournal.calls sha256Hex) program made world journal).2.1.missed ≠
          none) := by
  induction program generalizing made journal with
  | ended outcome => exact ⟨rfl, rfl, id⟩
  | error error => exact ⟨rfl, rfl, id⟩
  | call text asks next ih =>
      have still := closed.perform world asks
      unfold deliver SealedJournal.calls SealedJournal.recorded
      dsimp only
      cases journal.inner.recorded sha256Hex text (made.count text) with
      | error error => exact ⟨rfl, rfl, id⟩
      | ok answer =>
          cases answer with
          | some found => exact ih found _ _
          | none =>
              dsimp only
              generalize hosting.perform world asks = performed at still
              obtain ⟨after, result⟩ := performed
              dsimp only at still
              subst after
              have noticed : (journal.missed <|> some s!"{text} #{made.count text}") ≠ none := by
                cases journal.missed <;> exact nofun
              cases result with
              | error error => exact ⟨rfl, rfl, fun _ => noticed⟩
              | ok recorded =>
                  obtain ⟨frame, kept, missed⟩ := ih recorded (made ++ [text])
                    { journal with missed := journal.missed <|> some s!"{text} #{made.count text}" }
                  exact ⟨frame, kept, fun _ => missed noticed⟩

/-- A program that makes the calls of these keys, each answered by the journal,
and ends. -/
inductive Answered (sha256Hex : String → String) (journal : Journal) :
    Program → List String → List CallKey → Outcome → Prop where
  | ended {outcome : Outcome} {made : List String} :
      Answered sha256Hex journal (.ended outcome) made [] outcome
  | call {text : String} {asks : Call} {next : Recorded → Program} {made : List String}
      {found : Recorded} {keys : List CallKey} {outcome : Outcome}
      (hit : journal.recorded sha256Hex text (made.count text) = .ok (some found))
      (rest : Answered sha256Hex journal (next found) (made ++ [text]) keys outcome) :
      Answered sha256Hex journal (.call text asks next) made
        (callKey sha256Hex text (made.count text) :: keys) outcome

/-- A run the journal answers visits its calls in order, and misses nothing. -/
theorem Answered.deliver {journal : SealedJournal} {program : Program} {made : List String}
    {keys : List CallKey} {outcome : Outcome}
    (answered : Answered sha256Hex journal.inner program made keys outcome) (world : World) :
    deliver hosting (SealedJournal.calls sha256Hex) program made world journal =
      (world, ⟨journal.inner, journal.visited ++ keys, journal.missed⟩, .ok outcome) := by
  generalize held : journal.inner = inner at answered
  induction answered generalizing journal with
  | ended =>
      unfold Verify.deliver
      rw [List.append_nil, ← held]
  | @call text asks next made found keys outcome hit rest ih =>
      subst held
      have later := @ih
        { journal with visited := journal.visited ++ [callKey sha256Hex text (made.count text)] }
        rfl
      rw [List.append_assoc] at later
      unfold Verify.deliver
      dsimp only [SealedJournal.calls, SealedJournal.recorded]
      rw [hit]
      exact later

/-- A run that misses nothing and ends was answered by the journal. -/
theorem answered_of_deliver (closed : hosting.Sealed) {program : Program} {made : List String}
    {world : World} {journal : SealedJournal} {outcome : Outcome}
    (ended : (deliver hosting (SealedJournal.calls sha256Hex) program made world journal).2.2 =
      .ok outcome)
    (hit : (deliver hosting (SealedJournal.calls sha256Hex) program made world journal).2.1.missed =
      none) :
    ∃ keys, Answered sha256Hex journal.inner program made keys outcome := by
  induction program generalizing made journal world with
  | ended other =>
      cases ended
      exact ⟨[], .ended⟩
  | error error => cases ended
  | call text asks next ih =>
      unfold deliver SealedJournal.calls SealedJournal.recorded at ended hit
      dsimp only at ended hit
      cases looked : journal.inner.recorded sha256Hex text (made.count text) with
      | error error =>
          rw [looked] at ended
          cases ended
      | ok answer =>
          rw [looked] at ended hit
          cases answer with
          | some found =>
              obtain ⟨keys, rest⟩ := ih found ended hit
              exact ⟨_, .call looked rest⟩
          | none =>
              -- A miss is remembered to the end, whatever the host answers.
              exfalso
              dsimp only at ended hit
              generalize hosting.perform world asks = performed at ended hit
              obtain ⟨after, result⟩ := performed
              have noticed : (journal.missed <|> some s!"{text} #{made.count text}") ≠ none := by
                cases journal.missed <;> exact nofun
              cases result with
              | error error => cases ended
              | ok recorded => exact (deliver_keeps closed _ _ _ _).2.2 noticed hit

end Runs

/-! ## When the record and the program agree -/

/-- An end that is not news to whoever asked: the record does not say how the
recorded run ended. -/
def Expected (asked : Asked) (outcome : Outcome) : Prop :=
  outcome = .done ∨ ∃ detail, outcome = .failed detail ∧ asked ≠ .candidate

/-- The journal answers every call the program makes, in the order of its rows,
and has no other rows.  A list of rows that reads empty is compared with nothing. -/
structure Agrees (unit : Replaying) (asked : Asked) (readings : Readings) (journal : Journal)
    (program : Program) : Prop where
  unskipped : asked = .live ∨ readings.skipped ≠ .ok true
  consumed : ∃ visited outcome, Answered unit.sha256Hex journal program [] visited outcome ∧
    Expected asked outcome ∧ (readings.keys = .ok visited ∨ readings.keys = .ok [])
  kept : asked = .candidate → readings.keys = .ok [] → readings.row ≠ .ok false

/-- An end the record has something to say about. -/
structure Comparable (outcome : Except HostError Outcome) : Prop where
  handled : outcome ≠ .ok .ignored
  legible : ∀ reason, outcome ≠ .ok (.skipped reason)

/-- What the record cannot decide about a run: an operator skipped it, the key of
a subject it reveals is gone, the record cannot be read, the record is empty and
may be that of an unfinished run, or retention took it meanwhile. -/
inductive Undecidable (asked : Asked) (readings : Readings) (ran : SealedJournal)
    (outcome : Except HostError Outcome) : Prop where
  | skipped (earlier : asked ≠ .live) (marked : readings.skipped = .ok true)
  | erased {reason : String} (ended : outcome = .ok (.skipped reason))
  | unreadable {message : String} (unread : readings.keys = .error message)
      (handled : outcome ≠ .ok .ignored)
  | unrecorded (earlier : asked ≠ .live) (empty : readings.keys = .ok [])
      (missed : ran.missed ≠ none) (handled : outcome ≠ .ok .ignored)
  | reclaimed {ended : Outcome} (candidate : asked = .candidate) (empty : readings.keys = .ok [])
      (gone : readings.row = .ok false) (hit : ran.missed = none) (ends : outcome = .ok ended)
      (handled : outcome ≠ .ok .ignored)

section Verdicts

variable {unit : Replaying} {asked : Asked} {readings : Readings} {ran : SealedJournal}
  {outcome : Except HostError Outcome}

/-- The outcomes of a verdict, each with what it was reached from. -/
inductive Judged (unit : Replaying) (asked : Asked) (readings : Readings) (ran : SealedJournal)
    (outcome : Except HostError Outcome) : Replayed → Prop where
  | erased {reason : String} (ended : outcome = .ok (.skipped reason)) :
      Judged unit asked readings ran outcome (.subjectErased reason)
  | ignored (ended : outcome = .ok .ignored) :
      Judged unit asked readings ran outcome .noLongerHandled
  | unreadable {message : String} (comparable : Comparable outcome)
      (unread : readings.keys = .error message) :
      Judged unit asked readings ran outcome (.unreadable message)
  | noJournal {call : String} (comparable : Comparable outcome) (earlier : asked ≠ .live)
      (empty : readings.keys = .ok []) (missed : ran.missed = some call) :
      Judged unit asked readings ran outcome (.noJournal call)
  | newCall {call : String} {keys : List CallKey} (comparable : Comparable outcome)
      (read : readings.keys = .ok keys) (some_key : asked = .live ∨ keys ≠ [])
      (missed : ran.missed = some call) :
      Judged unit asked readings ran outcome (.newCall call asked)
  | failed {error : HostError} {keys : List CallKey} (read : readings.keys = .ok keys)
      (hit : ran.missed = none) (ended : outcome = .error error) :
      Judged unit asked readings ran outcome (.failed (unit.display error))
  | reclaimed {ended : Outcome} (comparable : Comparable outcome) (candidate : asked = .candidate)
      (empty : readings.keys = .ok []) (gone : readings.row = .ok false) (hit : ran.missed = none)
      (ends : outcome = .ok ended) : Judged unit asked readings ran outcome .reclaimed
  | different {ended : Outcome} {keys : List CallKey} {journal replay : String}
      (comparable : Comparable outcome)
      (read : readings.keys = .ok keys) (some_key : keys ≠ []) (hit : ran.missed = none)
      (ends : outcome = .ok ended) (apart : ran.visited ≠ keys) :
      Judged unit asked readings ran outcome (.different journal replay)
  | terminallyFailed {detail : String} {keys : List CallKey} (read : readings.keys = .ok keys)
      (candidate : asked = .candidate) (hit : ran.missed = none)
      (ends : outcome = .ok (.failed detail)) (kept : keys = [] → readings.row ≠ .ok false) :
      Judged unit asked readings ran outcome (.terminallyFailed detail)
  | matched {ended : Outcome} (hit : ran.missed = none) (ends : outcome = .ok ended)
      (expected : Expected asked ended)
      (compared : readings.keys = .ok ran.visited ∨ readings.keys = .ok [])
      (kept : asked = .candidate → readings.keys = .ok [] → readings.row ≠ .ok false) :
      Judged unit asked readings ran outcome .matched

/-- A run that ended, and visited what was recorded. -/
theorem judged_ended {ended : Outcome} {keys : List CallKey}
    (comparable : Comparable (.ok ended)) (read : readings.keys = .ok keys)
    (hit : ran.missed = none) (compared : keys = ran.visited ∨ keys = [])
    (kept : asked = .candidate → keys = [] → readings.row ≠ .ok false) :
    Judged unit asked readings ran (.ok ended) ((terminalFailure ended asked).getD .matched) := by
  have compared' : readings.keys = .ok ran.visited ∨ readings.keys = .ok [] := by
    rcases compared with rfl | rfl
    · exact .inl read
    · exact .inr read
  have kept' : asked = .candidate → readings.keys = .ok [] → readings.row ≠ .ok false := by
    intro candidate empty
    rw [read] at empty
    exact kept candidate (Except.ok.inj empty)
  cases ended with
  | done => exact .matched hit rfl (.inl rfl) compared' kept'
  | failed detail =>
      unfold terminalFailure
      dsimp only
      split
      · next candidate => exact .terminallyFailed read candidate hit rfl (kept candidate)
      · next earlier => exact .matched hit rfl (.inr ⟨detail, rfl, earlier⟩) compared' kept'
  | skipped reason => exact absurd rfl (comparable.legible reason)
  | ignored => exact absurd rfl comparable.handled

theorem judged_empty (comparable : Comparable outcome) (empty : readings.keys = .ok []) :
    Judged unit asked readings ran outcome
      (unit.emptyVerdict asked readings ran.missed outcome) := by
  unfold Replaying.emptyVerdict
  cases missed : ran.missed with
  | some call =>
      dsimp only
      split
      · next live => exact .newCall comparable empty (.inl live) missed
      · next earlier => exact .noJournal comparable earlier empty missed
  | none =>
      cases outcome with
      | error error => exact .failed empty missed rfl
      | ok ended =>
          dsimp only
          unfold reclaimed
          by_cases candidate : asked = .candidate
          · rw [if_neg (not_not.mpr candidate)]
            cases row : readings.row with
            | error message =>
                refine judged_ended comparable empty missed (.inr rfl) ?_
                rw [row]
                exact nofun
            | ok there =>
                cases there with
                | false => exact .reclaimed comparable candidate empty row missed rfl
                | true =>
                    refine judged_ended comparable empty missed (.inr rfl) ?_
                    rw [row]
                    exact nofun
          · rw [if_pos candidate]
            exact judged_ended comparable empty missed (.inr rfl)
              fun claimed => absurd claimed candidate

theorem judged_record (comparable : Comparable outcome) {keys : List CallKey}
    (read : readings.keys = .ok keys) (some_key : keys ≠ []) :
    Judged unit asked readings ran outcome (unit.recordVerdict asked keys ran outcome) := by
  cases outcome with
  | error error =>
      unfold Replaying.recordVerdict
      dsimp only
      cases missed : ran.missed with
      | some call => exact .newCall comparable read (.inr some_key) missed
      | none => exact .failed read missed rfl
  | ok ended =>
      unfold Replaying.recordVerdict
      dsimp only
      cases missed : ran.missed with
      | some call => exact .newCall comparable read (.inr some_key) missed
      | none =>
          dsimp only
          split
          · next apart => exact .different comparable read some_key missed rfl apart
          · next same =>
              exact judged_ended comparable read missed (.inl (not_not.mp same).symm)
                fun _ empty => absurd empty some_key

theorem judged (unit : Replaying) (asked : Asked) (readings : Readings) (ran : SealedJournal)
    (outcome : Except HostError Outcome) :
    Judged unit asked readings ran outcome (unit.verdict asked readings ran outcome) := by
  unfold Replaying.verdict
  split
  · exact .erased rfl
  · exact .ignored rfl
  · next legible handled =>
      have comparable : Comparable outcome := ⟨handled, legible⟩
      cases read : readings.keys with
      | error message => exact .unreadable comparable read
      | ok keys =>
          cases keys with
          | nil => exact judged_empty comparable read
          | cons key keys => exact judged_record comparable read (List.cons_ne_nil key keys)

/-- A run that visited what was recorded, and ended as expected, is a match. -/
theorem Judged.eq_matched {replayed : Replayed} {ended : Outcome}
    (judged : Judged unit asked readings ran outcome replayed) (hit : ran.missed = none)
    (ends : outcome = .ok ended) (expected : Expected asked ended)
    (compared : readings.keys = .ok ran.visited ∨ readings.keys = .ok [])
    (kept : asked = .candidate → readings.keys = .ok [] → readings.row ≠ .ok false) :
    replayed = .matched := by
  subst ends
  cases judged with
  | matched => rfl
  | erased skipped =>
      cases skipped
      rcases expected with impossible | ⟨detail, impossible, -⟩ <;> cases impossible
  | ignored unhandled =>
      cases unhandled
      rcases expected with impossible | ⟨detail, impossible, -⟩ <;> cases impossible
  | unreadable _ unread => rcases compared with read | read <;> (rw [read] at unread; cases unread)
  | noJournal _ _ _ missed | newCall _ _ _ missed =>
      rw [hit] at missed
      cases missed
  | failed _ _ error => cases error
  | reclaimed _ candidate empty gone => exact absurd gone (kept candidate empty)
  | different _ read some_key _ _ apart =>
      rcases compared with same | empty
      · rw [read] at same
        exact absurd (Except.ok.inj same).symm apart
      · rw [read] at empty
        exact absurd (Except.ok.inj empty) some_key
  | terminallyFailed _ candidate _ failed =>
      cases failed
      rcases expected with impossible | ⟨detail, -, earlier⟩
      · cases impossible
      · exact absurd candidate earlier

/-- What a verdict leaves undecided is what the record cannot decide. -/
theorem Judged.uncovered_iff {replayed : Replayed}
    (judged : Judged unit asked readings ran outcome replayed)
    (unskipped : asked = .live ∨ readings.skipped ≠ .ok true) :
    replayed.uncovered ≠ none ↔ Undecidable asked readings ran outcome := by
  constructor
  · intro uncovered
    cases judged with
    | erased ended => exact .erased ended
    | unreadable comparable unread => exact .unreadable unread comparable.handled
    | noJournal comparable earlier empty missed =>
        refine .unrecorded earlier empty ?_ comparable.handled
        rw [missed]
        exact nofun
    | reclaimed comparable candidate empty gone hit ends =>
        exact .reclaimed candidate empty gone hit ends comparable.handled
    | ignored | newCall | failed | different | terminallyFailed | matched =>
        exact absurd rfl uncovered
  · intro undecidable
    cases undecidable with
    | skipped earlier marked =>
        rcases unskipped with live | unmarked
        · exact absurd live earlier
        · exact absurd marked unmarked
    | erased ended =>
        subst ended
        cases judged with
        | erased => exact nofun
        | unreadable comparable | noJournal comparable | newCall comparable
        | reclaimed comparable | different comparable =>
            exact absurd rfl (comparable.legible _)
        | ignored impossible | failed _ _ impossible | terminallyFailed _ _ _ impossible =>
            cases impossible
        | matched _ ends expected =>
            cases ends
            rcases expected with impossible | ⟨detail, impossible, -⟩ <;> cases impossible
    | unreadable unread handled =>
        cases judged with
        | erased | unreadable | noJournal | reclaimed => exact nofun
        | ignored ended => exact absurd ended handled
        | newCall _ read | failed read | different _ read | terminallyFailed read =>
            rw [unread] at read
            cases read
        | matched _ _ _ compared =>
            rcases compared with read | read <;> (rw [unread] at read; cases read)
    | unrecorded earlier empty missed handled =>
        cases judged with
        | erased | unreadable | noJournal | reclaimed => exact nofun
        | ignored ended => exact absurd ended handled
        | newCall _ read some_key =>
            rw [empty] at read
            rcases some_key with live | some_key
            · exact absurd live earlier
            · exact absurd (Except.ok.inj read).symm some_key
        | failed _ hit | different _ _ _ hit | terminallyFailed _ _ hit | matched hit =>
            exact absurd hit missed
    | reclaimed candidate empty gone hit ends handled =>
        cases judged with
        | erased | unreadable | noJournal | reclaimed => exact nofun
        | ignored ended => exact absurd ended handled
        | newCall _ _ _ missed =>
            rw [hit] at missed
            cases missed
        | failed _ _ ended =>
            rw [ends] at ended
            cases ended
        | different _ read some_key =>
            rw [empty] at read
            exact absurd (Except.ok.inj read).symm some_key
        | terminallyFailed read _ _ _ kept =>
            rw [empty] at read
            exact absurd gone (kept (Except.ok.inj read).symm)
        | matched _ _ _ _ kept => exact absurd gone (kept candidate empty)

end Verdicts

/-! ## A replay's verdict -/

theorem violation_isSome {unit : Replaying} {replayed : Replayed} :
    (violation unit replayed).isSome = true ↔ replayed ≠ .matched ∧ replayed.uncovered = none := by
  cases replayed <;> simp [violation, Replayed.reproduces, Replayed.isCovered, Replayed.uncovered]

theorem sealedHosting_sealed (host : HeklaHost) (masters : Option MasterKeys) (clock : Int64) :
    (Replaying.sealedHosting host masters clock).Sealed := ⟨rfl, rfl⟩

section Replays

variable {unit : Replaying} {asked : Asked} {readings : Readings} {journal : Journal}
  {program : Program}

/-- Every call the journal answers has a row. -/
theorem Answered.listed {made : List String} {visited : List CallKey} {outcome : Outcome}
    (answered : Answered unit.sha256Hex journal program made visited outcome) :
    ∀ key ∈ visited, key ∈ journal.rows.map Prod.fst := by
  induction answered with
  | ended => exact nofun
  | @call text asks next made found keys outcome hit rest ih =>
      intro key member
      rcases List.mem_cons.mp member with rfl | later
      · unfold Journal.recorded at hit
        split at hit
        · cases hit
        · obtain ⟨held, looked, -⟩ := Option.map_eq_some_iff.mp (Except.ok.inj hit)
          obtain ⟨before, after, rows, -⟩ := List.lookup_eq_some_iff.mp looked
          rw [rows, List.map_append, List.map_cons]
          exact List.mem_append_right _ List.mem_cons_self
      · exact ih key later

/-- What an answered run of a program comes to. -/
theorem answered_run (hosting : Hosting) {visited : List CallKey} {outcome : Outcome}
    (answered : Answered unit.sha256Hex journal program [] visited outcome) (world : World) :
    unit.sealedRun hosting journal program world = (world, ⟨journal, visited, none⟩, .ok outcome) := by
  let start : SealedJournal := { inner := journal }
  have from_start : Answered unit.sha256Hex start.inner program [] visited outcome := answered
  exact from_start.deliver world

theorem sealedRun_keeps {hosting : Hosting} (closed : hosting.Sealed) (world : World) :
    (unit.sealedRun hosting journal program world).1 = world ∧
      (unit.sealedRun hosting journal program world).2.1.inner = journal := by
  unfold Replaying.sealedRun
  obtain ⟨still, unwritten, -⟩ := deliver_keeps closed program [] world { inner := journal }
  exact ⟨still, unwritten⟩

/-- Against a journal that reads back as it is, the calls made are its rows. -/
theorem agrees_listed (listed : readings.keys = .ok (journal.rows.map Prod.fst)) :
    Agrees unit asked readings journal program ↔
      (asked = .live ∨ readings.skipped ≠ .ok true) ∧
        (∃ outcome, Answered unit.sha256Hex journal program [] (journal.rows.map Prod.fst)
          outcome ∧ Expected asked outcome) ∧
        (asked = .candidate → journal.rows = [] → readings.row ≠ .ok false) := by
  have empty_iff : readings.keys = .ok [] ↔ journal.rows = [] := by
    rw [listed, Except.ok.injEq, List.map_eq_nil_iff]
  constructor
  · rintro ⟨unskipped, ⟨visited, outcome, answered, expected, compared⟩, kept⟩
    refine ⟨unskipped, ⟨outcome, ?_, expected⟩, fun candidate empty =>
      kept candidate (empty_iff.mpr empty)⟩
    rcases compared with same | empty
    · rw [listed] at same
      rw [Except.ok.inj same]
      exact answered
    · -- A journal with no rows has answered nothing.
      have none_listed : visited = [] := by
        rw [List.eq_nil_iff_forall_not_mem]
        intro key member
        have row := answered.listed key member
        rw [empty_iff.mp empty] at row
        cases row
      rw [empty_iff.mp empty]
      rw [none_listed] at answered
      exact answered
  · rintro ⟨unskipped, ⟨outcome, answered, expected⟩, kept⟩
    exact ⟨unskipped, ⟨_, outcome, answered, expected, .inl listed⟩, fun candidate empty =>
      kept candidate (empty_iff.mp empty)⟩

/-- The record agrees with a program when a run of it is answered and ends as expected. -/
theorem verdict_matched_iff (unit : Replaying) (asked : Asked) (readings : Readings)
    {hosting : Hosting} (closed : hosting.Sealed) (journal : Journal) (program : Program)
    (world : World) (unskipped : asked = .live ∨ readings.skipped ≠ .ok true) :
    unit.verdict asked readings (unit.sealedRun hosting journal program world).2.1
        (unit.sealedRun hosting journal program world).2.2 = .matched ↔
      Agrees unit asked readings journal program := by
  have reached := judged unit asked readings (unit.sealedRun hosting journal program world).2.1
    (unit.sealedRun hosting journal program world).2.2
  constructor
  · intro matched
    rw [matched] at reached
    cases reached with
    | matched hit ends expected compared kept =>
        obtain ⟨visited, answered⟩ := answered_of_deliver closed ends hit
        have same := answered_run hosting answered world
        rw [same] at compared
        exact ⟨unskipped, ⟨visited, _, answered, expected, compared⟩, kept⟩
  · rintro ⟨-, ⟨visited, ended, answered, expected, compared⟩, kept⟩
    have same := answered_run hosting answered world
    rw [same] at reached ⊢
    exact reached.eq_matched rfl rfl expected compared kept

/-- A skip is read from the record before anything runs. -/
theorem skips_iff (asked : Asked) (readings : Readings) :
    (asked ≠ .live ∧ readings.skipped.toOption.getD false = true) ↔
      ¬(asked = .live ∨ readings.skipped ≠ .ok true) := by
  cases readings.skipped with
  | error message => simp [Except.toOption]
  | ok marked => cases marked <;> simp [Except.toOption]

end Replays

/-- A replay matches exactly when the journal answers every call of the program,
in the order of its rows and with none left over, and the program ends as whoever
asked expects; anything else is a violation, unless the record cannot decide it.
The world and the journal are as they were. -/
theorem replay_verdict (unit : Replaying) (asked : Asked) (readings : Readings) (host : HeklaHost)
    (masters : Option MasterKeys) (clock : Int64) (journal : Journal) (program : Program)
    (world : World) :
    ((unit.replay asked readings host masters clock journal program world).2.2 = .matched ↔
        Agrees unit asked readings journal program) ∧
      (readings.keys = .ok (journal.rows.map Prod.fst) →
        (Agrees unit asked readings journal program ↔
          (asked = .live ∨ readings.skipped ≠ .ok true) ∧
            (∃ outcome, Answered unit.sha256Hex journal program [] (journal.rows.map Prod.fst)
              outcome ∧ Expected asked outcome) ∧
            (asked = .candidate → journal.rows = [] → readings.row ≠ .ok false))) ∧
      ((violation unit
          (unit.replay asked readings host masters clock journal program world).2.2).isSome = true ↔
        ¬Agrees unit asked readings journal program ∧
          ¬Undecidable asked readings
            (unit.sealedRun (Replaying.sealedHosting host masters clock) journal program world).2.1
            (unit.sealedRun (Replaying.sealedHosting host masters clock) journal program
              world).2.2) ∧
      (unit.replay asked readings host masters clock journal program world).1 = world ∧
      (unit.replay asked readings host masters clock journal program world).2.1 = journal := by
  have closed := sealedHosting_sealed host masters clock
  by_cases unskipped : asked = .live ∨ readings.skipped ≠ .ok true
  · have runs : unit.replay asked readings host masters clock journal program world =
        ((unit.sealedRun (Replaying.sealedHosting host masters clock) journal program world).1,
          (unit.sealedRun (Replaying.sealedHosting host masters clock) journal program
            world).2.1.inner,
          unit.verdict asked readings
            (unit.sealedRun (Replaying.sealedHosting host masters clock) journal program world).2.1
            (unit.sealedRun (Replaying.sealedHosting host masters clock) journal program
              world).2.2) :=
      if_neg fun skips => (skips_iff asked readings).mp skips unskipped
    have matched := verdict_matched_iff unit asked readings closed journal program world unskipped
    have reached := judged unit asked readings
      (unit.sealedRun (Replaying.sealedHosting host masters clock) journal program world).2.1
      (unit.sealedRun (Replaying.sealedHosting host masters clock) journal program world).2.2
    rw [runs]
    obtain ⟨still, unwritten⟩ := sealedRun_keeps closed world
    refine ⟨matched, agrees_listed, ?_, still, unwritten⟩
    rw [violation_isSome, ← reached.uncovered_iff unskipped, not_not]
    exact and_congr_left fun _ => not_congr matched
  · have skips : unit.replay asked readings host masters clock journal program world =
        (world, journal, .operatorSkipped) := if_pos ((skips_iff asked readings).mpr unskipped)
    obtain ⟨earlier, marked⟩ := not_or.mp unskipped
    rw [skips]
    refine ⟨⟨nofun, fun agrees => absurd agrees.unskipped unskipped⟩, agrees_listed, ?_, rfl, rfl⟩
    rw [violation_isSome]
    constructor
    · rintro ⟨-, covered⟩
      cases covered
    · rintro ⟨-, decidable⟩
      exact absurd (.skipped earlier (not_not.mp marked)) decidable

/-! ## The record does not say how a run ended -/

/-- An arm that reads the clock, and then ends. -/
def timed (outcome : Outcome) : Program := .call "now" .now fun _ => .ended outcome

def charging : Replaying where
  effect := "Charge"
  position := 7
  sha256Hex := id
  display
    | .host message => message
    | .conflict _ => "conflict"

def servingHost : HeklaHost := { events := ∅, ctx := ⟨"corr", "cause", none⟩ }

def quietWorld : World := { keys := {} }

/-- The run that was recorded, on a host that performs. -/
def recordedRun (outcome : Outcome) : World × Journal × Except HostError Outcome :=
  deliver ⟨servingHost, none, SealedHttp, 5⟩ (Journal.calls id) (timed outcome) [] quietWorld {}

def recordedKeys (outcome : Outcome) : List CallKey := (recordedRun outcome).2.1.rows.map Prod.fst

def readBack (outcome : Outcome) : Readings :=
  ⟨.ok false, .ok (recordedKeys outcome), .ok true⟩

/-- A run that ended well matches one that fails after the same calls; and for a
candidate, a run that failed is not matched by one that fails the same way. -/
theorem replay_without_ends :
    ((recordedRun .done).2.2 = .ok .done ∧
        Answered id (recordedRun .done).2.1 (timed (.failed "declined")) []
          (recordedKeys .done) (.failed "declined") ∧
        (charging.replay .sweep (readBack .done) servingHost none 9 (recordedRun .done).2.1
          (timed (.failed "declined")) quietWorld).2.2 = .matched) ∧
      ((recordedRun (.failed "declined")).2.2 = .ok (.failed "declined") ∧
        Answered id (recordedRun (.failed "declined")).2.1 (timed (.failed "declined")) []
          (recordedKeys (.failed "declined")) (.failed "declined") ∧
        (charging.replay .candidate (readBack (.failed "declined")) servingHost none 9
          (recordedRun (.failed "declined")).2.1 (timed (.failed "declined"))
          quietWorld).2.2 = .terminallyFailed "declined") :=
  ⟨⟨rfl, .call rfl .ended, by decide⟩, ⟨rfl, .call rfl .ended, by decide⟩⟩

end Hekla.Verify
