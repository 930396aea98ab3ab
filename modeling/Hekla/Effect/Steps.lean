import Hekla.Effect.Dispatcher

/-!
# What one action can do

`Stepped` lists every change an action can make, with what must hold of the
state it is taken in.  A batch is admitted under one lock, and that is the same
as admitting its positions one at a time, so an invariant need only be followed
through `advance`.
-/

namespace Hekla.Effect

open Hekla.Library Hekla.Lanes

/-! ## A batch, one position at a time -/

namespace Process

variable (unit : EffectUnit)

/-- Read the next position of the subscription. -/
def advance (s : Process) : Process := (s.assign unit (s.cursor + 1)).scanTo (s.cursor + 1)

@[simp]
theorem advance_cursor (s : Process) : (s.advance unit).cursor = s.cursor + 1 := rfl

variable {unit}

/-- A position its lane has already seen changes nothing. -/
theorem offer_of_seen {s : Process} {position : Nat} {resolved : Resolved}
    (seen : s.lanes.seen resolved.lane position = true) : s.offer position resolved = s := by
  unfold offer LaneState.admitPosition
  rw [if_pos seen, if_pos seen]
  rfl

/-- A position its lane has not seen enters the queue and the history, and arms
the lane if it had no place. -/
theorem offer_of_fresh {s : Process} {position : Nat} {resolved : Resolved}
    (fresh : s.lanes.seen resolved.lane position = false) :
    s.offer position resolved =
      { s with
        lanes := s.lanes.enter resolved.lane position resolved.arm resolved.collapsible
        tickets :=
          if (s.lanes.place.get resolved.lane).isNone then s.tickets ++ [resolved.lane]
          else s.tickets
        ledger := s.ledger.enter s.lanes resolved.lane position resolved.arm
          resolved.collapsible } := by
  unfold offer LaneState.admitPosition
  rw [fresh]
  rfl

theorem assign_of_some {s : Process} {position : Nat} {resolved : Resolved}
    (found : unit.resolve position = some resolved) :
    s.assign unit position = s.offer position resolved := by
  unfold assign
  rw [found]

theorem assign_of_none {s : Process} {position : Nat} (none : unit.resolve position = none) :
    s.assign unit position = s := by
  unfold assign
  rw [none]

theorem assign_scanned (s : Process) (position : Nat) :
    (s.assign unit position).lanes.scanned = s.lanes.scanned := by
  cases found : unit.resolve position with
  | none => rw [assign_of_none found]
  | some resolved =>
      rw [assign_of_some found]
      cases seen : s.lanes.seen resolved.lane position with
      | true => rw [offer_of_seen seen]
      | false =>
          rw [offer_of_fresh seen]
          rfl

theorem advance_scanned (s : Process) :
    (s.advance unit).lanes.scanned = max s.lanes.scanned (s.cursor + 1) := by
  change max (s.assign unit (s.cursor + 1)).lanes.scanned (s.cursor + 1) = _
  rw [assign_scanned]

/-- Admission does not look at how far the subscription has read. -/
theorem assign_scanTo (s : Process) {earlier later : Nat} (order : earlier ≤ later)
    (position : Nat) :
    ((s.scanTo earlier).assign unit position).scanTo later =
      (s.assign unit position).scanTo later := by
  have merged : max (max s.lanes.scanned earlier) later = max s.lanes.scanned later := by
    rw [max_assoc, max_eq_right order]
  have unread (s' : Process) (same : s'.lanes.scanned = s.lanes.scanned) :
      (s'.scanTo earlier).scanTo later = s'.scanTo later := by
    rw [← same] at merged
    simp [scanTo, LaneState.setScanned, merged]
  cases found : unit.resolve position with
  | none => rw [assign_of_none found, assign_of_none found, unread s rfl]
  | some resolved =>
      rw [assign_of_some found, assign_of_some found]
      cases seen : s.lanes.seen resolved.lane position with
      | true =>
          have seenThen : (s.scanTo earlier).lanes.seen resolved.lane position = true := seen
          rw [offer_of_seen seen, offer_of_seen seenThen, unread s rfl]
      | false =>
          have seenThen : (s.scanTo earlier).lanes.seen resolved.lane position = false := seen
          have scanned : (s.offer position resolved).lanes.scanned = s.lanes.scanned := by
            rw [offer_of_fresh seen]
            rfl
          rw [← unread _ scanned, offer_of_fresh seen, offer_of_fresh seenThen]
          rfl

/-- Admitting a batch is reading its positions one at a time. -/
theorem deliver_eq_iterate (s : Process) (behind : s.cursor ≤ s.lanes.scanned) (count : Nat) :
    s.deliver unit (s.cursor + count) = (advance unit)^[count] s := by
  induction count with
  | zero =>
      have unchanged : s.lanes.setScanned s.cursor = s.lanes := by
        unfold LaneState.setScanned
        rw [max_eq_left behind]
      simp [deliver, scanTo, unchanged]
  | succ count ih =>
      rw [Function.iterate_succ_apply', ← ih]
      have later : s.cursor + (count + 1) - s.cursor = count + 1 := by omega
      have earlier : s.cursor + count - s.cursor = count := by omega
      have next : s.cursor + 1 + count = s.cursor + count + 1 := by omega
      change _ = ((s.deliver unit (s.cursor + count)).assign unit (s.cursor + count + 1)).scanTo
        (s.cursor + count + 1)
      unfold deliver
      rw [assign_scanTo _ (Nat.le_succ _), later, earlier, List.range'_1_concat,
        List.foldl_append, next]
      rfl

theorem deliver_workers (s : Process) (upto : Nat) :
    (s.deliver unit upto).workers = s.workers := by
  have assigned (batch : List Nat) (start : Process) :
      (batch.foldl (assign unit) start).workers = start.workers := by
    induction batch generalizing start with
    | nil => rfl
    | cons position rest ih =>
        rw [List.foldl_cons, ih]
        unfold assign
        split <;> rfl
  exact assigned _ s

/-- What reading one position keeps, a batch keeps. -/
theorem deliver_keeps (kept : Process → Prop) {s : Process} {upto : Nat}
    (behind : s.cursor ≤ s.lanes.scanned) (ahead : s.cursor ≤ upto) (initial : kept s)
    (advanced : ∀ s, kept s → kept (s.advance unit)) : kept (s.deliver unit upto) := by
  obtain ⟨count, rfl⟩ := Nat.exists_eq_add_of_le ahead
  rw [deliver_eq_iterate s behind]
  exact Function.Iterate.rec kept initial advanced count

end Process

/-! ## The changes of one action -/

/-- The state after an action, with what the action required of the one before. -/
inductive Stepped (unit : EffectUnit) (s : Process) : Act → Process → Prop where
  | deliver {upto : Nat} (polling : s.reader = .polling) (ahead : s.cursor ≤ upto) :
      Stepped unit s (.deliver upto) (s.deliver unit upto)
  | resubscribe : Stepped unit s (.resubscribe s.persisted) s.resubscribe
  | promote {now : Nat} (polling : s.reader = .polling) :
      Stepped unit s (.promote now) (s.offerWoken (s.lanes.promote now))
  | promoteMatching {wanted : Nat → Bool} (polling : s.reader = .polling) :
      Stepped unit s (.promoteMatching wanted) (s.offerWoken (s.lanes.promoteMatching wanted))
  | readOld (polling : s.reader = .polling) (old : s.lanes.lowWater ≤ s.position) :
      Stepped unit s .readMark s
  | readMark (polling : s.reader = .polling) (moved : s.position < s.lanes.lowWater) :
      Stepped unit s .readMark { s with reader := .marked s.lanes.lowWater }
  | writeMark {mark : Nat} (marked : s.reader = .marked mark) :
      Stepped unit s .writeMark { s with persisted := mark, reader := .written mark }
  | forgetMark {mark : Nat} (written : s.reader = .written mark) :
      Stepped unit s .forgetMark (s.forgetMark mark)
  | sweepRows {mark : Nat} (sweeping : s.reader = .sweeping mark) :
      Stepped unit s .sweepRows { s with reader := .pruning mark }
  | pruneRows {mark : Nat} (pruning : s.reader = .pruning mark) :
      Stepped unit s .pruneRows { s with lanes := s.lanes.pruneRows mark, reader := .polling }
  | claim {thread : Nat} {lane : LaneId} (idle : s.workers.get thread = none)
      (ticket : lane ∈ s.tickets) : Stepped unit s (.claim thread lane) (s.claim thread lane)
  | head {thread : Nat} {lane : LaneId} (ready : s.workers.get thread = some ⟨lane, .ready⟩) :
      Stepped unit s (.head thread) (s.head thread lane)
  | beginTerminal {thread : Nat} {lane : LaneId} {work : Work}
      (took : s.workers.get thread = some ⟨lane, .took work⟩) :
      Stepped unit s (.begin thread .alreadyTerminal) (s.turn thread lane (.settled work))
  | beginRunning {thread : Nat} {lane : LaneId} {work : Work}
      (took : s.workers.get thread = some ⟨lane, .took work⟩) :
      Stepped unit s (.begin thread .running) (s.turn thread lane (.live work))
  | settle {thread : Nat} {lane : LaneId} {work : Work}
      (live : s.workers.get thread = some ⟨lane, .live work⟩) :
      Stepped unit s (.settle thread) (s.turn thread lane (.settled work))
  | complete {thread : Nat} {lane : LaneId} {work : Work}
      (settled : s.workers.get thread = some ⟨lane, .settled work⟩) :
      Stepped unit s (.complete thread) (s.complete thread lane work)
  | recordRow {thread : Nat} {lane : LaneId} {position : Nat} {written : Bool}
      (owing : s.workers.get thread = some ⟨lane, .owing position⟩) :
      Stepped unit s (.recordRow thread written)
        (s.turn thread lane (if written then .recorded position else .ready))
  | noteRow {thread : Nat} {lane : LaneId} {position : Nat}
      (recorded : s.workers.get thread = some ⟨lane, .recorded position⟩) :
      Stepped unit s (.noteRow thread) (s.noteRow thread lane position)
  | defer {thread : Nat} {worker : Worker} {deadline : Nat}
      (working : s.workers.get thread = some worker) :
      Stepped unit s (.defer thread deadline) (s.defer thread worker.lane deadline)
  | release {thread : Nat} {worker : Worker} (working : s.workers.get thread = some worker) :
      Stepped unit s (.release thread) (s.release thread worker.lane)
  | stop : Stepped unit s .stop { s with stopped := true }

namespace Process

variable {unit : EffectUnit} {s s' : Process} {act : Act}

theorem whenPolling_eq_some {next : Process} :
    s.whenPolling next = some s' ↔ s.reader = .polling ∧ next = s' := by
  unfold whenPolling
  split
  · next polling => simp [polling]
  · next busy => simp [busy]

/-- Every action taken is one of the listed changes. -/
theorem stepped_of_step (taken : s.step unit act = some s') : Stepped unit s act s' := by
  cases act with
  | deliver upto =>
      obtain ⟨⟨polling, ahead⟩, rfl⟩ := (Option.ite_none_right_eq_some.mp taken).imp_right Option.some.inj
      exact .deliver polling ahead
  | resubscribe resume =>
      obtain ⟨rfl, rfl⟩ := (Option.ite_none_right_eq_some.mp taken).imp_right Option.some.inj
      exact .resubscribe
  | promote now =>
      obtain ⟨polling, rfl⟩ := whenPolling_eq_some.mp taken
      exact .promote polling
  | promoteMatching wanted =>
      obtain ⟨polling, rfl⟩ := whenPolling_eq_some.mp taken
      exact .promoteMatching polling
  | readMark =>
      obtain ⟨polling, rfl⟩ := whenPolling_eq_some.mp taken
      by_cases old : s.lanes.lowWater ≤ s.position
      · rw [if_pos old]
        exact .readOld polling old
      · rw [if_neg old]
        exact .readMark polling (Nat.lt_of_not_le old)
  | writeMark =>
      simp only [step] at taken
      split at taken
      · next marked => exact Option.some.inj taken ▸ .writeMark marked
      · cases taken
  | forgetMark =>
      simp only [step] at taken
      split at taken
      · next written => exact Option.some.inj taken ▸ .forgetMark written
      · cases taken
  | sweepRows =>
      simp only [step] at taken
      split at taken
      · next sweeping => exact Option.some.inj taken ▸ .sweepRows sweeping
      · cases taken
  | pruneRows =>
      simp only [step] at taken
      split at taken
      · next pruning => exact Option.some.inj taken ▸ .pruneRows pruning
      · cases taken
  | claim thread lane =>
      obtain ⟨⟨idle, ticket⟩, rfl⟩ := (Option.ite_none_right_eq_some.mp taken).imp_right Option.some.inj
      exact .claim idle ticket
  | head thread =>
      simp only [step] at taken
      split at taken
      · next ready => exact Option.some.inj taken ▸ .head ready
      · cases taken
  | begin thread answer =>
      simp only [step] at taken
      split at taken
      · next took =>
          cases answer with
          | alreadyTerminal => exact Option.some.inj taken ▸ .beginTerminal took
          | running => exact Option.some.inj taken ▸ .beginRunning took
      · cases taken
  | settle thread =>
      simp only [step] at taken
      split at taken
      · next live => exact Option.some.inj taken ▸ .settle live
      · cases taken
  | complete thread =>
      simp only [step] at taken
      split at taken
      · next settled => exact Option.some.inj taken ▸ .complete settled
      · cases taken
  | recordRow thread written =>
      simp only [step] at taken
      split at taken
      · next owing => exact Option.some.inj taken ▸ .recordRow owing
      · cases taken
  | noteRow thread =>
      simp only [step] at taken
      split at taken
      · next recorded => exact Option.some.inj taken ▸ .noteRow recorded
      · cases taken
  | defer thread deadline =>
      simp only [step] at taken
      split at taken
      · next working => exact Option.some.inj taken ▸ .defer working
      · next working => exact Option.some.inj taken ▸ .defer working
      · next working => exact Option.some.inj taken ▸ .defer working
      · cases taken
  | release thread =>
      simp only [step] at taken
      split at taken
      · next working => exact Option.some.inj taken ▸ .release working
      · cases taken
  | stop => exact Option.some.inj taken ▸ .stop

end Process

end Hekla.Effect
