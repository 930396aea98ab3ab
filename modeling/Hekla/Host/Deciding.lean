import Hekla.Host.Command
import Hekla.Library.Boundary
import Mathlib.Data.List.TakeWhile

/-!
# Commands at the boundary

A command reads the log stage by stage while other requests append to it, and
its events land under a condition over what it read.  Beaten to the log, it
reads again, from where its last attempt got to.  Whatever the requests do to
one another, the log is as though each command that landed had run alone, on
the log as those before it left it.
-/

namespace Hekla.Host

open Hekla.Library

deriving instance DecidableEq for Predicate

/-! ## Reading -/

namespace HeklaHost

/-- The events of some slices with their positions, after as many of the log as
`start` says, and up to one it has. -/
def read (store : Store) (slices : List Predicate) (start : Nat) (upto : Option Nat) :
    List (Nat × StoredEvent) :=
  if slices.isEmpty then []
  else
    (Store.readFrom (queryOf slices) (start + 1) (store.log.drop start)).takeWhile fun found =>
      upto.all fun last => found.1 ≤ last + 1

end HeklaHost

def probing : Probing (List Predicate) StoredEvent (Nat × StoredEvent) where
  accepts slices event := (HeklaHost.queryOf slices).accepts event
  read slices position events :=
    Store.readFrom (HeklaHost.queryOf slices) (position + 1) events
  read_append slices position first second := by
    rw [Store.readFrom_append, Nat.add_right_comm]
  read_none position none := Store.readFrom_none (position + 1) none

theorem HeklaHost.read_all (store : Store) (slices : List Predicate) (start : Nat) :
    HeklaHost.read store slices start none = probing.read slices start (store.log.drop start) := by
  unfold HeklaHost.read
  split
  · next empty =>
      rw [List.isEmpty_iff.mp empty]
      exact (probing.read_none start fun _ _ => rfl).symm
  · exact List.takeWhile_eq_self_iff.mpr fun _ _ => rfl

/-! ## Commands that read -/

/-- How a command decides. -/
inductive Verdict where
  | emits (events : List Event)
  | reject (code message : String)
  | invalid (message : String)

def Verdict.decision (condition : AppendCondition) : Verdict → Decision
  | .emits events => .emits events condition
  | .reject code message => .reject code message
  | .invalid message => .invalid message

/-- What a command reads, stage by stage, and how it then decides, given what it
asks of the world beside the log. -/
abbrev Course (World : Type) :=
  Inquiry (List Predicate) (Nat × StoredEvent) (World → Verdict)

abbrev Slice := Gathered (List Predicate) (Nat × StoredEvent)

/-- An attempt at a command: what it has read, and what the attempt before had. -/
structure Reading (World : Type) where
  plan : Course World
  rest : Course World := plan
  gathered : List Slice := []
  carried : List Slice := []
  world : Option World := none

namespace Reading

variable {World : Type}

/-- Read the next stage.  What the last attempt read of the same slices is read on. -/
def read (store : Store) (reading : Reading World) : Option (Reading World) :=
  match reading.rest with
  | .done _ => none
  | .stage slices next =>
      let kept := (reading.carried.find? fun slice => slice.query = slices).getD ⟨slices, 0, []⟩
      let found : Slice :=
        { query := slices
          covered := store.head
          records := kept.records ++ HeklaHost.read store slices kept.covered none }
      some { reading with rest := next found.records, gathered := reading.gathered ++ [found] }

/-- The attempt after one that was beaten to the log. -/
def again (reading : Reading World) : Reading World :=
  { plan := reading.plan, carried := reading.gathered }

end Reading

/-! ## Requests that read -/

/-- One append that landed: a command's, in what was the world beside the log, or
any other. -/
inductive Landing (World : Type) where
  | command (plan : Course World) (world : World) (host : HeklaHost)
  | elsewhere (batch : List StoredEvent)

/-- What an append puts on a log when it runs alone. -/
def Landing.batch {World : Type} (log : List StoredEvent) : Landing World → List StoredEvent
  | .command plan world host =>
      match probing.decide log plan world with
      | .emits events =>
          match host.lowerAll events with
          | .ok (built, _) => built
          | .error _ => []
      | .reject _ _ | .invalid _ => []
  | .elsewhere batch => batch

def serially {World : Type} (log : List StoredEvent) (landing : Landing World) :
    List StoredEvent :=
  log ++ landing.batch log

structure Deciding (World : Type) where
  serving : Serving := {}
  readings : Table Nat (Reading World) := ∅
  landings : List (Landing World) := []

inductive DecideAct (World : Type) where
  | arrive (id : Nat) (command : String) (key : Option String) (ctx : CommandContext)
      (boundaried : Bool) (input : Except String Unit) (plan : Course World)
  | read (id : Nat)
  | decide (id : Nat) (world : World)
  | append (id : Nat)
      (storedSeal : Option (List (String × String) → String → Value → Except String String))
  | recover (id : Nat)
  | respond (id : Nat)
  | crash (id : Nat)
  | elsewhere (host : HeklaHost) (events : List Event) (condition : AppendCondition)
  | drain (draining : Bool)

namespace Deciding

variable {World : Type} (unit : Deployment) (condition : Reading World → AppendCondition)

/-- The attempt of a request after its append: a new one when it is to decide again. -/
def attempted (serving : Serving) (id : Nat) (reading : Reading World) : Reading World :=
  match serving.requests.get id with
  | some ⟨_, _, _, .deciding⟩ => reading.again
  | _ => reading

/-- The landing of a request whose append made the log grow. -/
def landed (before after : Serving) (host : HeklaHost) (reading : Reading World) :
    List (Landing World) :=
  if after.store.log.length = before.store.log.length then []
  else reading.world.toList.map fun world => .command reading.plan world host

def step (w : Deciding World) : DecideAct World → Option (Deciding World)
  | .arrive id command key ctx boundaried input plan =>
      (w.serving.step unit (.arrive id command key ctx boundaried input)).map fun serving =>
        { w with serving, readings := w.readings.set id { plan } }
  | .read id =>
      match w.serving.requests.get id, w.readings.get id with
      | some ⟨_, _, _, .deciding⟩, some reading =>
          (reading.read w.serving.store).map fun reading =>
            { w with readings := w.readings.set id reading }
      | _, _ => none
  | .decide id world =>
      match w.readings.get id with
      | some ⟨plan, .done verdict, gathered, carried, _⟩ =>
          let reading : Reading World := ⟨plan, .done verdict, gathered, carried, some world⟩
          (w.serving.step unit
            (.decide id ((verdict world).decision (condition reading)))).map fun serving =>
              { w with serving, readings := w.readings.set id reading }
      | _ => none
  | .append id storedSeal =>
      match w.serving.requests.get id, w.readings.get id with
      | some request, some reading =>
          (w.serving.step unit (.append id storedSeal)).map fun serving =>
            { serving
              readings := w.readings.set id (attempted serving id reading)
              landings := w.landings ++
                landed w.serving serving { request.host with storedSeal } reading }
      | _, _ => none
  | .recover id => (w.serving.step unit (.recover id)).map fun serving => { w with serving }
  | .respond id => (w.serving.step unit (.respond id)).map fun serving => { w with serving }
  | .crash id => (w.serving.step unit (.crash id)).map fun serving => { w with serving }
  | .drain draining =>
      (w.serving.step unit (.drain draining)).map fun serving => { w with serving }
  | .elsewhere host events condition =>
      (w.serving.step unit (.elsewhere host events condition)).map fun serving =>
        { w with
          serving
          landings := w.landings ++
            [.elsewhere (serving.store.log.drop w.serving.store.log.length)] }

end Deciding

/-! ## What an append puts on the log -/

namespace HeklaHost

/-- An append leaves the log alone, or puts on it what the events come to, after
nothing that its condition names. -/
theorem append_log (host : HeklaHost) (store : Store) (events : List Event)
    (condition : AppendCondition) :
    (host.append store events condition).2.1.log = store.log ∨
      ∃ built emitted, host.lowerAll events = .ok (built, emitted) ∧
        store.exists_after (queryOf condition.slices) condition.after = false ∧
        (host.append store events condition).2.1.log = store.log ++ built := by
  unfold append
  split
  · exact .inl rfl
  split
  · exact .inl rfl
  split
  · exact .inl rfl
  split
  · exact .inl rfl
  next built emitted lowered =>
  dsimp only
  unfold Store.append
  cases store.draining with
  | true => exact .inl rfl
  | false =>
      cases clear : store.exists_after (queryOf condition.slices) condition.after with
      | true =>
          cases (host.idempotencyTag.map fun tag => [idemItem tag]).any
              (store.exists_after · 0) with
          | true => cases store.reports <;> exact .inl rfl
          | false => exact .inl rfl
      | false =>
          cases (host.idempotencyTag.map fun tag => [idemItem tag]).any
              (store.exists_after · 0) with
          | true => exact .inl rfl
          | false => exact .inr ⟨built, emitted, lowered, rfl, rfl⟩

theorem accepts_of_mem {slice : Predicate} {slices : List Predicate} {event : StoredEvent}
    (member : slice ∈ slices) (accepted : (itemOf slice).accepts event = true) :
    (queryOf slices).accepts event = true :=
  List.any_eq_true.mpr ⟨itemOf slice, List.mem_map_of_mem member, accepted⟩

/-- A query of fewer slices accepts no more. -/
theorem accepts_mono {slices more : List Predicate} {event : StoredEvent}
    (among : ∀ slice ∈ slices, slice ∈ more)
    (accepted : (queryOf slices).accepts event = true) : (queryOf more).accepts event = true := by
  obtain ⟨item, member, accepted⟩ := List.any_eq_true.mp accepted
  obtain ⟨slice, asked, rfl⟩ := List.mem_map.mp member
  exact accepts_of_mem (among slice asked) accepted

end HeklaHost

/-! ## What an attempt has read -/

namespace Deciding

variable {World : Type}

/-- An attempt that holds what the log does, as far as it has read. -/
structure Attempt (log : List StoredEvent) (reading : Reading World) : Prop where
  reached : reading.plan.Reached reading.gathered reading.rest
  gathered : ∀ slice ∈ reading.gathered, probing.Holds log slice
  carried : ∀ slice ∈ reading.carried, probing.Holds log slice

section Attempts

variable {store : Store} {log : List StoredEvent} {reading next : Reading World}

theorem attempt_start (plan : Course World) : Attempt log { plan } where
  reached := .start plan
  gathered := fun _ member => absurd member List.not_mem_nil
  carried := fun _ member => absurd member List.not_mem_nil

theorem Attempt.grown (attempt : Attempt log reading) (later : List StoredEvent) :
    Attempt (log ++ later) reading where
  reached := attempt.reached
  gathered slice member := (attempt.gathered slice member).grown later
  carried slice member := (attempt.carried slice member).grown later

theorem Attempt.again (attempt : Attempt log reading) : Attempt log reading.again where
  reached := .start _
  gathered := fun _ member => absurd member List.not_mem_nil
  carried := attempt.gathered

/-- Reading on from what the last attempt has of a stage finds all there is. -/
theorem Attempt.read (attempt : Attempt store.log reading) (read : reading.read store = some next) :
    Attempt store.log next := by
  obtain ⟨plan, rest, gathered, carried, world⟩ := reading
  unfold Reading.read at read
  cases rest with
  | done _ => cases read
  | stage slices onwards =>
      cases read
      dsimp only
      have kept : ∃ kept : Slice, ((carried.find? fun slice => slice.query = slices).getD
          ⟨slices, 0, []⟩) = kept ∧ kept.query = slices ∧ probing.Holds store.log kept := by
        refine ⟨_, rfl, ?_⟩
        cases found : carried.find? fun slice => slice.query = slices with
        | none => exact ⟨rfl, Probing.holds_empty _⟩
        | some slice =>
            have asked : slice.query = slices := by simpa using List.find?_some found
            exact ⟨asked, attempt.carried slice (List.mem_of_find?_eq_some found)⟩
      obtain ⟨kept, same, asked, holds⟩ := kept
      rw [same, HeklaHost.read_all]
      have extended := holds.readOn
      unfold Probing.readOn at extended
      rw [asked] at extended
      refine ⟨attempt.reached.stage _ rfl, ?_, attempt.carried⟩
      intro slice member
      rcases List.mem_append.mp member with old | new
      · exact attempt.gathered slice old
      · rw [List.mem_singleton.mp new]
        exact extended

end Attempts

/-! ## Serial appends -/

/-- The language's condition: it names all that was read, and no more of the log
than was there for every read. -/
structure Covers (condition : Reading World → AppendCondition) : Prop where
  slices : ∀ reading : Reading World, ∀ slice ∈ reading.gathered, ∀ asked ∈ slice.query,
    asked ∈ (condition reading).slices
  after : ∀ reading : Reading World, ∀ slice ∈ reading.gathered,
    (condition reading).after ≤ slice.covered

variable {condition : Reading World → AppendCondition}

/-- A command that passes its condition decides as it would on the whole log. -/
theorem Attempt.decide (covers : Covers condition) {store : Store} {reading : Reading World}
    (attempt : Attempt store.log reading)
    (clear : store.exists_after (HeklaHost.queryOf (condition reading).slices)
      (condition reading).after = false) :
    probing.decide store.log reading.plan = probing.decide store.log reading.rest := by
  refine attempt.reached.decide fun slice member => ?_
  have unread : probing.Clear store.log (condition reading).after slice := by
    intro event later
    cases accepted : probing.accepts slice.query event with
    | false => rfl
    | true =>
        have found := HeklaHost.accepts_mono (covers.slices reading slice member) accepted
        rw [Store.exists_after, List.any_eq_true.mpr ⟨event, later, found⟩] at clear
        cases clear
  exact (attempt.gathered slice member).all_of_clear unread (covers.after reading slice member)

/-! ## Requests that append -/

/-- A request whose command has decided, and is about to append. -/
def Appending (requests : Table Nat Request) (id : Nat) (events : List Event)
    (condition : AppendCondition) : Prop :=
  ∃ request, requests.get id = some request ∧ request.phase = .appending events condition

/-- A step that appends nothing, and that no command decides in. -/
structure Passes (before after : Serving) : Prop where
  log : after.store.log = before.store.log
  appending : ∀ id events condition, Appending after.requests id events condition →
    Appending before.requests id events condition

section Passing

variable {unit : Deployment} {before after : Serving} {id other : Nat} {request : Request}
  {events : List Event} {condition : AppendCondition}

theorem appending_set {requests : Table Nat Request}
    (quiet : ∀ events condition, request.phase ≠ .appending events condition)
    (appending : Appending (requests.set id request) other events condition) :
    other ≠ id ∧ Appending requests other events condition := by
  obtain ⟨held, found, phase⟩ := appending
  rw [Table.get_set] at found
  split at found
  · cases found
    exact absurd phase (quiet events condition)
  · next apart => exact ⟨apart, held, found, phase⟩

theorem appending_remove {requests : Table Nat Request}
    (appending : Appending (requests.remove id) other events condition) :
    Appending requests other events condition := by
  obtain ⟨held, found, phase⟩ := appending
  rw [Table.get_remove] at found
  split at found
  · cases found
  · exact ⟨held, found, phase⟩

theorem arriving_quiet {command : String} {key : Option String} {ctx : CommandContext}
    {boundaried : Bool} {input : Except String Unit} (events : List Event)
    (condition : AppendCondition) :
    (Serving.arriving unit command key ctx boundaried input).phase ≠
      .appending events condition := by
  unfold Serving.arriving
  cases input with
  | error message => rintro ⟨⟩
  | ok =>
      dsimp only
      split <;> rintro ⟨⟩

theorem recovered_quiet {fallback : CommandOutcome}
    {found : Except String (Option RecoveredOutcome)} (events : List Event)
    (condition : AppendCondition) :
    (Serving.recovered request fallback found).phase ≠ .appending events condition := by
  unfold Serving.recovered
  split <;> rintro ⟨⟩

theorem appended_quiet {host : HeklaHost} {result : Except HostError Unit} (events : List Event)
    (condition : AppendCondition) :
    (Serving.appended unit request host result).phase ≠ .appending events condition := by
  unfold Serving.appended
  cases result with
  | ok =>
      dsimp only
      cases host.appended <;> rintro ⟨⟩
  | error error =>
      dsimp only
      cases host.unavailable with
      | some message => rintro ⟨⟩
      | none =>
          dsimp only
          split
          · rintro ⟨⟩
          cases error with
          | host message => rintro ⟨⟩
          | conflict after =>
              dsimp only
              split <;> rintro ⟨⟩

theorem passes_set (quiet : ∀ events condition, request.phase ≠ .appending events condition) :
    Passes before { before with requests := before.requests.set id request } where
  log := rfl
  appending _ _ _ appending := (appending_set quiet appending).2

theorem passes_arrive {command : String} {key : Option String} {ctx : CommandContext}
    {boundaried : Bool} {input : Except String Unit}
    (stepped : before.step unit (.arrive id command key ctx boundaried input) = some after) :
    Passes before after := by
  simp only [Serving.step] at stepped
  split at stepped
  · cases stepped
    exact passes_set arriving_quiet
  · cases stepped

theorem passes_recover (stepped : before.step unit (.recover id) = some after) :
    Passes before after := by
  simp only [Serving.step] at stepped
  split at stepped
  · cases stepped
    exact passes_set recovered_quiet
  · cases stepped
    exact passes_set recovered_quiet
  · cases stepped

theorem passes_respond (stepped : before.step unit (.respond id) = some after) :
    Passes before after := by
  simp only [Serving.step] at stepped
  split at stepped
  · cases stepped
    exact ⟨rfl, fun _ _ _ => appending_remove⟩
  · cases stepped

theorem passes_crash (stepped : before.step unit (.crash id) = some after) :
    Passes before after := by
  cases stepped
  exact ⟨rfl, fun _ _ _ => appending_remove⟩

theorem passes_drain {draining : Bool} (stepped : before.step unit (.drain draining) = some after) :
    Passes before after := by
  cases stepped
  exact ⟨rfl, fun _ _ _ appending => appending⟩

theorem landed_log (w : Serving) (host : HeklaHost) (store : Store) :
    (w.landed host store).store = store ∧ (w.landed host store).requests = w.requests := by
  unfold Serving.landed
  split <;> exact ⟨rfl, rfl⟩

end Passing

/-! ## Every run is serial -/

/-- The command of an attempt that has read all it asks for decides to append. -/
structure Decided (condition : Reading World → AppendCondition) (reading : Reading World)
    (events : List Event) (appends : AppendCondition) : Prop where
  emits : ∃ verdict world, reading.rest = .done verdict ∧ reading.world = some world ∧
    verdict world = .emits events
  guarded : appends = condition reading

/-- The log is that of the landings run one at a time, and every attempt knows
what the log held when it read it. -/
structure Sound (condition : Reading World → AppendCondition) (start : List StoredEvent)
    (w : Deciding World) : Prop where
  serial : w.serving.store.log = w.landings.foldl serially start
  attempts : ∀ id reading, w.readings.get id = some reading → Attempt w.serving.store.log reading
  decided : ∀ id events appends, Appending w.serving.requests id events appends →
    ∃ reading, w.readings.get id = some reading ∧ Decided condition reading events appends

section Running

variable {unit : Deployment} {start : List StoredEvent} {w : Deciding World} {serving : Serving}
  {id : Nat}

theorem Sound.pass (sound : Sound condition start w) (passes : Passes w.serving serving) :
    Sound condition start { w with serving } where
  serial := passes.log.trans sound.serial
  attempts id reading held := passes.log ▸ sound.attempts id reading held
  decided id events appends appending :=
    sound.decided id events appends (passes.appending id events appends appending)

/-- A step of one request that appends nothing, and leaves it short of its append. -/
theorem Sound.turn (sound : Sound condition start w) {reading : Reading World}
    (attempt : Attempt w.serving.store.log reading) (log : serving.store.log = w.serving.store.log)
    (appending : ∀ other events appends, Appending serving.requests other events appends →
      (other ≠ id ∧ Appending w.serving.requests other events appends) ∨
        (other = id ∧ Decided condition reading events appends)) :
    Sound condition start { w with serving, readings := w.readings.set id reading } where
  serial := log.trans sound.serial
  attempts other held found := by
    rw [log]
    rw [Table.get_set] at found
    split at found
    · cases found
      exact attempt
    · exact sound.attempts other held found
  decided other events appends appends_ := by
    rw [Table.get_set]
    rcases appending other events appends appends_ with ⟨apart, before⟩ | ⟨rfl, decides⟩
    · rw [if_neg apart]
      exact sound.decided other events appends before
    · exact ⟨reading, if_pos rfl, decides⟩

theorem Sound.arrive (sound : Sound condition start w) {command : String} {key : Option String}
    {ctx : CommandContext} {boundaried : Bool} {input : Except String Unit} (plan : Course World)
    (stepped : w.serving.step unit (.arrive id command key ctx boundaried input) = some serving) :
    Sound condition start { w with serving, readings := w.readings.set id { plan } } := by
  refine sound.turn (attempt_start plan) (passes_arrive stepped).log ?_
  simp only [Serving.step] at stepped
  split at stepped
  · cases stepped
    exact fun other events appends appending => .inl (appending_set arriving_quiet appending)
  · cases stepped

theorem Sound.read (sound : Sound condition start w) {reading next : Reading World}
    {host : HeklaHost} {boundaried : Bool} {attempt : Nat}
    (asked : w.serving.requests.get id = some ⟨host, boundaried, attempt, .deciding⟩)
    (held : w.readings.get id = some reading) (read : reading.read w.serving.store = some next) :
    Sound condition start { w with readings := w.readings.set id next } := by
  refine sound.turn ((sound.attempts id reading held).read read) rfl ?_
  intro other events appends appending
  refine .inl ⟨?_, appending⟩
  rintro rfl
  obtain ⟨request, found, phase⟩ := appending
  cases asked.symm.trans found
  cases phase

theorem Sound.decide (sound : Sound condition start w) {reading : Reading World}
    {verdict : World → Verdict} (held : w.readings.get id = some reading)
    (done : reading.rest = .done verdict) (world : World)
    (stepped : w.serving.step unit (.decide id ((verdict world).decision
      (condition { reading with world := some world }))) = some serving) :
    Sound condition start
      { w with
        serving
        readings := w.readings.set id { reading with world := some world } } := by
  have attempt := sound.attempts id reading held
  simp only [Serving.step] at stepped
  split at stepped
  · cases stepped
    refine sound.turn ⟨attempt.reached, attempt.gathered, attempt.carried⟩ rfl ?_
    intro other events appends appending
    obtain ⟨request, found, phase⟩ := appending
    rw [Table.get_set] at found
    split at found
    · next same =>
        cases found
        refine .inr ⟨same, ?_⟩
        unfold Serving.decided at phase
        cases decides : verdict world with
        | emits emitted =>
            rw [decides] at phase
            cases phase
            exact ⟨⟨verdict, world, done, rfl, decides⟩, rfl⟩
        | reject code message =>
            rw [decides] at phase
            cases phase
        | invalid message =>
            rw [decides] at phase
            cases phase
    · next apart => exact .inl ⟨apart, request, found, phase⟩
  · cases stepped

theorem attempted_attempt {log : List StoredEvent} {reading : Reading World}
    (attempt : Attempt log reading) : Attempt log (attempted serving id reading) := by
  unfold attempted
  split
  · exact attempt.again
  · exact attempt

/-- What a command puts on the log is what it would alone. -/
theorem batch_of_decided (covers : Covers condition) {store : Store} {reading : Reading World}
    {host : HeklaHost} {events : List Event} {appends : AppendCondition} {built : List StoredEvent}
    {emitted : List EmittedEvent} (attempt : Attempt store.log reading)
    (decides : Decided condition reading events appends)
    (clear : store.exists_after (HeklaHost.queryOf appends.slices) appends.after = false)
    (lowered : host.lowerAll events = .ok (built, emitted)) :
    ∃ world, reading.world = some world ∧
      (Landing.command reading.plan world host).batch store.log = built := by
  obtain ⟨⟨verdict, world, done, there, emits⟩, guarded⟩ := decides
  rw [guarded] at clear
  refine ⟨world, there, ?_⟩
  unfold Landing.batch
  dsimp only
  rw [attempt.decide covers clear, done, Probing.decide, emits]
  dsimp only
  rw [lowered]

theorem landed_nil {before after : Serving} {host : HeklaHost} {reading : Reading World}
    (same : after.store.log = before.store.log) : landed before after host reading = [] :=
  if_pos (congrArg List.length same)

theorem Sound.append (covers : Covers condition) (sound : Sound condition start w)
    {request : Request} {reading : Reading World}
    {storedSeal : Option (List (String × String) → String → Value → Except String String)}
    (found : w.serving.requests.get id = some request) (held : w.readings.get id = some reading)
    (stepped : w.serving.step unit (.append id storedSeal) = some serving) :
    Sound condition start
      { serving
        readings := w.readings.set id (attempted serving id reading)
        landings := w.landings ++
          landed w.serving serving { request.host with storedSeal } reading } := by
  simp only [Serving.step] at stepped
  split at stepped
  · next host boundaried attempt events appends asked =>
      cases found.symm.trans asked
      cases stepped
      obtain ⟨reading', held', decides⟩ := sound.decided id events appends ⟨_, found, rfl⟩
      cases held.symm.trans held'
      have read := sound.attempts id reading held
      have after := landed_log w.serving host
        (({ host with storedSeal } : HeklaHost).append w.serving.store events appends).2.1
      have grows := ({ host with storedSeal } : HeklaHost).append_log w.serving.store events appends
      generalize ({ host with storedSeal } : HeklaHost).append w.serving.store events appends = run
        at after grows ⊢
      have log : ∃ later, run.2.1.log = w.serving.store.log ++ later ∧
          (later ≠ [] → ∃ emitted,
            ({ host with storedSeal } : HeklaHost).lowerAll events = .ok (later, emitted) ∧
            w.serving.store.exists_after (HeklaHost.queryOf appends.slices) appends.after =
              false) := by
        rcases grows with same | ⟨built, emitted, lowered, clear, grown⟩
        · exact ⟨[], by rw [same, List.append_nil], fun never => absurd rfl never⟩
        · exact ⟨built, grown, fun _ => ⟨emitted, lowered, clear⟩⟩
      obtain ⟨later, grown, lands⟩ := log
      have grownThen : (w.serving.landed host run.2.1).store.log = w.serving.store.log ++ later := by
        rw [after.1, grown]
      refine ⟨?_, ?_, ?_⟩
      · rw [List.foldl_append, ← sound.serial]
        change (w.serving.landed host run.2.1).store.log = _
        rw [grownThen]
        by_cases none : later = []
        · rw [landed_nil (by change (w.serving.landed host run.2.1).store.log = _
                             rw [grownThen, none, List.append_nil]), none, List.append_nil]
          rfl
        · obtain ⟨emitted, lowered, clear⟩ := lands none
          obtain ⟨world, there, batch⟩ := batch_of_decided covers read decides clear lowered
          have longer : (w.serving.landed host run.2.1).store.log.length ≠
              w.serving.store.log.length := by
            rw [grownThen, List.length_append]
            have := List.length_pos_iff.mpr none
            omega
          unfold landed
          rw [if_neg longer, there]
          exact congrArg (w.serving.store.log ++ ·) batch.symm
      · intro other attempted_ there
        change Attempt (w.serving.landed host run.2.1).store.log _
        rw [grownThen]
        rw [Table.get_set] at there
        split at there
        · cases there
          exact attempted_attempt (read.grown later)
        · exact (sound.attempts other attempted_ there).grown later
      · intro other events' appends' appending
        obtain ⟨apart, before⟩ := appending_set appended_quiet appending
        rw [Table.get_set, if_neg apart]
        exact sound.decided other events' appends' before
  · cases stepped

theorem Sound.elsewhere (sound : Sound condition start w) {host : HeklaHost} {events : List Event}
    {appends : AppendCondition}
    (stepped : w.serving.step unit (.elsewhere host events appends) = some serving) :
    Sound condition start
      { w with
        serving
        landings := w.landings ++
          [.elsewhere (serving.store.log.drop w.serving.store.log.length)] } := by
  simp only [Serving.step] at stepped
  cases stepped
  have after := landed_log w.serving { host with idemTag := none }
    (({ host with events := unit.events, idemTag := none } : HeklaHost).append w.serving.store
      events appends).2.1
  have grows := ({ host with events := unit.events, idemTag := none } : HeklaHost).append_log
    w.serving.store events appends
  generalize ({ host with events := unit.events, idemTag := none } : HeklaHost).append
    w.serving.store events appends = run at after grows ⊢
  have log : ∃ later, run.2.1.log = w.serving.store.log ++ later := by
    rcases grows with same | ⟨built, _, _, _, grown⟩
    · exact ⟨[], by rw [same, List.append_nil]⟩
    · exact ⟨built, grown⟩
  obtain ⟨later, grown⟩ := log
  refine ⟨?_, ?_, ?_⟩
  · rw [List.foldl_append, ← sound.serial]
    change (w.serving.landed _ run.2.1).store.log =
      w.serving.store.log ++ (w.serving.landed _ run.2.1).store.log.drop _
    rw [after.1, grown, List.drop_left]
  · intro id reading held
    change Attempt (w.serving.landed _ run.2.1).store.log reading
    rw [after.1, grown]
    exact (sound.attempts id reading held).grown later
  · intro id events' appends' appending
    refine sound.decided id events' appends' ?_
    rwa [after.2] at appending

/-- Every step keeps the log serial. -/
theorem Sound.step (covers : Covers condition) (sound : Sound condition start w)
    {act : DecideAct World} {next : Deciding World}
    (stepped : w.step unit condition act = some next) : Sound condition start next := by
  cases act with
  | arrive id command key ctx boundaried input plan =>
      obtain ⟨serving, served, rfl⟩ := Option.map_eq_some_iff.mp stepped
      exact sound.arrive plan served
  | read id =>
      simp only [Deciding.step] at stepped
      split at stepped
      · next asked held =>
          obtain ⟨next, read, rfl⟩ := Option.map_eq_some_iff.mp stepped
          exact sound.read asked held read
      · cases stepped
  | decide id world =>
      simp only [Deciding.step] at stepped
      split at stepped
      · next held =>
          obtain ⟨serving, served, rfl⟩ := Option.map_eq_some_iff.mp stepped
          exact sound.decide held rfl world served
      · cases stepped
  | append id storedSeal =>
      simp only [Deciding.step] at stepped
      split at stepped
      · next found held =>
          obtain ⟨serving, served, rfl⟩ := Option.map_eq_some_iff.mp stepped
          exact sound.append covers found held served
      · cases stepped
  | recover id =>
      obtain ⟨serving, served, rfl⟩ := Option.map_eq_some_iff.mp stepped
      exact sound.pass (passes_recover served)
  | respond id =>
      obtain ⟨serving, served, rfl⟩ := Option.map_eq_some_iff.mp stepped
      exact sound.pass (passes_respond served)
  | crash id =>
      dsimp only [Deciding.step] at stepped
      obtain ⟨serving, served, rfl⟩ := Option.map_eq_some_iff.mp stepped
      exact sound.pass (passes_crash served)
  | elsewhere host events appends =>
      dsimp only [Deciding.step] at stepped
      obtain ⟨serving, served, rfl⟩ := Option.map_eq_some_iff.mp stepped
      exact sound.elsewhere served
  | drain draining =>
      dsimp only [Deciding.step] at stepped
      obtain ⟨serving, served, rfl⟩ := Option.map_eq_some_iff.mp stepped
      exact sound.pass (passes_drain served)

end Running

/-- Whatever requests run beside one another, crash and retry, the log is the one
that the commands which landed make when they run one at a time. -/
theorem commands_serializable (unit : Deployment) (covers : Covers condition) (store : Store)
    {acts : List (DecideAct World)} {final : Deciding World}
    (ran : run (step unit condition) { serving := { store } } acts = some final) :
    final.serving.store.log = final.landings.foldl serially store.log := by
  have initial : Sound condition store.log { serving := { store } } := by
    refine ⟨rfl, fun id reading held => ?_, fun id events appends appending => ?_⟩
    · rw [Table.get_empty] at held
      cases held
    · obtain ⟨request, found, -⟩ := appending
      rw [Table.get_empty] at found
      cases found
  exact (run_invariant (Sound condition store.log) (fun _ _ _ sound stepped =>
    sound.step covers stepped) initial ran).serial

/-- The condition over all that was read, from where the first read ended. -/
def boundary (reading : Reading World) : AppendCondition where
  slices := reading.gathered.flatMap Gathered.query
  after := (reading.gathered.map Gathered.covered).min?.getD 0

theorem boundary_covers : Covers (@boundary World) where
  slices _ slice member _ within := List.mem_flatMap.mpr ⟨slice, member, within⟩
  after _ _ member := List.min?_getD_le_of_mem (List.mem_map_of_mem member)

/-- A course with one place. -/
def enrolling : Deployment where
  sha256Hex text := text
  maxAttempts := 3
  events := (∅ : EventDefs).set "course.joined"
    { fields := [("course_id", {})]
      distinct := by decide
      identifiers := by decide
      unreserved := by decide }

def joined : Event where
  path := ["course", "joined"]
  fields := (∅ : Table String Value).set "course_id" ⟨.str "c1", false⟩

def join : Course Unit :=
  .stage [⟨["course", "joined"], [("course_id", "c1")]⟩] fun found => .done fun _ =>
    if found.isEmpty then .emits [joined] else .reject "full" "the course is full"

/-- Two students find the place free; the one beaten to it reads what beat it. -/
def contended : List (DecideAct Unit) :=
  [.arrive 1 "Join" none ⟨"c1", "r1", none⟩ true (.ok ()) join,
    .arrive 2 "Join" none ⟨"c2", "r2", none⟩ true (.ok ()) join,
    .read 1, .read 2, .decide 1 (), .decide 2 (), .append 2 none, .append 1 none,
    .read 1, .decide 1 (), .recover 1, .respond 1, .respond 2]

theorem contended_serializable :
    ∃ final, run (step enrolling boundary) {} contended = some final ∧
      (final.serving.store.log.length = 1 ∧ final.landings.length = 1 ∧
        final.serving.answers.map (fun answer => answer.result.status) = [422, 200]) ∧
      final.serving.store.log = final.landings.foldl serially [] := by
  have ended : (run (step enrolling boundary) {} contended).any (fun final => decide
      (final.serving.store.log.length = 1 ∧ final.landings.length = 1 ∧
        final.serving.answers.map (fun answer => answer.result.status) = [422, 200])) = true := by
    decide
  obtain ⟨final, ran, holds⟩ := (Option.any_eq_true _ _).mp ended
  exact ⟨final, ran, of_decide_eq_true holds,
    commands_serializable enrolling boundary_covers {} ran⟩

end Deciding

end Hekla.Host
