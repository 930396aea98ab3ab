import Hekla.Projector.ReadModel
import Hekla.Library.Passes
import Mathlib.Data.List.TakeWhile
import Mathlib.Algebra.Group.Nat.Defs

/-!
# Projecting up to a bound

`project_to` follows a subscription and stops at a position its caller named;
`project_reading` reads a window of the log, with a budget of matching events.  A poll
may end past the bound, on it or before it, and a batch of the other loop wherever it is
full.  Both come to what the handlers make of the matching events of the window, in
order, and both leave the model standing at its end.
-/

namespace Hekla.Projector

open Hekla.Library

variable {Record Keys Rows Definition : Type}

/-! ## The events of a window, with their positions -/

namespace Projection

variable (projection : Projection Record Keys Rows)

/-- The events of the log that are selected, past one position and up to another, each
with its own.  The first of the log is at position one. -/
def matched (log : List Record) (start upto : Nat) : List (Record × Nat) :=
  (((log.zipIdx 1).take upto).drop start).filter fun event => projection.selects event.1

variable {projection} {log : List Record} {start upto : Nat}

theorem map_matched : (projection.matched log start upto).map Prod.fst =
    projection.selected log start upto := by
  unfold matched selected
  have kept : (fun event : Record × Nat => projection.selects event.1) =
      projection.selects ∘ Prod.fst := rfl
  rw [kept, ← List.filter_map, List.map_drop, List.map_take, List.zipIdx_map_fst]

/-- An event of a window lies in it, and in the log. -/
theorem position_of_mem {event : Record × Nat}
    (member : event ∈ projection.matched log start upto) :
    start < event.2 ∧ event.2 ≤ upto ∧ event.2 ≤ log.length := by
  have within := (List.mem_filter.mp member).1
  obtain ⟨place, found⟩ := List.mem_iff_getElem?.mp within
  rw [List.getElem?_drop, List.getElem?_take] at found
  split at found
  · next inside =>
      rw [List.getElem?_zipIdx] at found
      obtain ⟨record, there, rfl⟩ := Option.map_eq_some_iff.mp found
      have short := (List.getElem?_eq_some_iff.mp there).1
      dsimp only
      omega
  · cases found

/-- A window is two, cut anywhere inside. -/
theorem matched_append {middle : Nat} (first : start ≤ middle) (second : middle ≤ upto) :
    projection.matched log start middle ++ projection.matched log middle upto =
      projection.matched log start upto := by
  unfold matched
  rw [← List.filter_append]
  congr 1
  have cut := List.take_append_drop middle ((log.zipIdx 1).take upto)
  rw [List.take_take, Nat.min_eq_left second] at cut
  have inside : start ≤ ((log.zipIdx 1).take middle).length ∨
      ((log.zipIdx 1).take upto).drop middle = [] := by
    rw [List.length_take, List.length_zipIdx, List.drop_eq_nil_iff, List.length_take,
      List.length_zipIdx]
    omega
  rcases inside with inside | past
  · rw [← List.drop_append_of_le_length inside, cut]
  · rw [past, List.append_nil] at cut ⊢
    rw [cut]

theorem matched_of_le (past : upto ≤ start) : projection.matched log start upto = [] := by
  unfold matched
  rw [List.drop_eq_nil_of_le (Nat.le_trans (List.length_take_le _ _) past), List.filter_nil]

/-- The log ends where it ends. -/
theorem matched_min : projection.matched log start (min log.length upto) =
    projection.matched log start upto := by
  unfold matched
  rcases Nat.le_total log.length upto with short | long
  · rw [Nat.min_eq_left short, List.take_of_length_le, List.take_of_length_le]
    · rwa [List.length_zipIdx]
    · exact Nat.le_of_eq List.length_zipIdx
  · rw [Nat.min_eq_right long]

/-- The events of a window no later than a bound are those of the window it bounds. -/
theorem takeWhile_matched (limit : Nat) :
    (projection.matched log start upto).takeWhile (fun event => decide (event.2 ≤ limit)) =
      projection.matched log start (min upto limit) := by
  have none_past (from_ : Nat) (late : limit ≤ from_) :
      (projection.matched log from_ upto).takeWhile (fun event => decide (event.2 ≤ limit)) = [] := by
    cases events : projection.matched log from_ upto with
    | nil => rfl
    | cons event rest =>
        have after := (position_of_mem (events ▸ List.mem_cons_self)).1
        exact List.takeWhile_cons_of_neg (by simpa using Nat.lt_of_le_of_lt late after)
  rcases Nat.le_total upto limit with short | long
  · rw [Nat.min_eq_left short, List.takeWhile_eq_self_iff]
    intro event member
    exact decide_eq_true (Nat.le_trans (position_of_mem member).2.1 short)
  · rw [Nat.min_eq_right long]
    rcases Nat.le_total start limit with before | past
    · rw [← matched_append before long, List.takeWhile_append_of_pos, none_past limit (Nat.le_refl _),
        List.append_nil]
      intro event member
      exact decide_eq_true (position_of_mem member).2.1
    · rw [none_past start past, matched_of_le past]

theorem applyAll_append (keys : Record → Keys) (first second : List Record) (rows : Rows) :
    projection.applyAll keys (first ++ second) rows =
      (projection.applyAll keys first rows).bind (projection.applyAll keys second) :=
  List.foldlM_append

end Projection

/-! ## The subscription -/

/-- Why a projection failed, and the model with the batches that were committed. -/
abbrev Halted (Definition Rows : Type) := String × ReadModel Definition Rows

/-- `apply_batch`, which leaves the model as it was when a handler fails. -/
def ReadModel.applyEvents (model : ReadModel Definition Rows) (projection : Projection Record Keys Rows)
    (keys : Record → Keys) (batch : List (Record × Nat)) (checkpoint : Nat) :
    Except (Halted Definition Rows) (ReadModel Definition Rows) :=
  (model.applyBatch projection keys (batch.map Prod.fst) checkpoint).mapError (·, model)

section Loops

variable (projection : Projection Record Keys Rows) (keys : Record → Keys) (log : List Record)

/-- Where each poll of a subscription ends, from where it starts. -/
def Polls (cut : Nat → Nat) : Prop :=
  ∀ position, position ≤ log.length →
    (projection.pollBatch log position (cut position)).isSome = true

/-- The position a projection up to a bound comes to. -/
def reach (length : Nat) (upto : Option Nat) : Nat := upto.elim length (min length)

/-- A bounded run stops at the first event past the bound. -/
def withinBound (upto : Option Nat) (polled : List (Record × Nat)) : List (Record × Nat) :=
  match upto with
  | some limit => polled.takeWhile fun event => decide (event.2 ≤ limit)
  | none => polled

/-- The checkpoint behind a batch: where the poll ended, or the last event of the batch
when that is past the bound. -/
def batchCheckpoint (upto : Option Nat) (ended reached : Nat) : Nat :=
  match upto with
  | some limit => if limit < ended then reached else ended
  | none => ended

/-- The watermark of a subscription that has caught up, up to the bound. -/
def watermark (upto : Option Nat) (ended : Nat) : Nat :=
  match upto with
  | some limit => min ended limit
  | none => ended

/-- The polls of `project_to`, and what follows the last of them. -/
def projectLoop (cut : Nat → Nat) (upto : Option Nat) :
    Nat → Nat → Nat → ReadModel Definition Rows →
      Option (Except (Halted Definition Rows) (ReadModel Definition Rows × Nat))
  | 0, _, _, _ => none
  | fuel + 1, position, seen, model =>
      let ended := cut position
      let polled := projection.matched log position ended
      let batch := withinBound upto polled
      if batch.isEmpty then some (.ok (model.catchUp (watermark upto ended), seen))
      else
        let reached := (batch.getLast?.map Prod.snd).getD 0
        let checkpoint := batchCheckpoint upto ended reached
        match model.applyEvents projection keys batch checkpoint with
        | .error failed => some (.error failed)
        | .ok next =>
            if upto.any (· ≤ checkpoint) then some (.ok (next, seen + batch.length))
            else projectLoop cut upto fuel ended (seen + batch.length) next

/-- `project_to`: every event up to a bound, or to the head of the log. -/
def projectTo (cut : Nat → Nat) (upto : Option Nat) (model : ReadModel Definition Rows) :
    Option (Except (Halted Definition Rows) (ReadModel Definition Rows × Nat)) :=
  projectLoop projection keys log cut upto (log.length + 1) model.checkpoint 0 model

/-! ## The window -/

/-- Inclusive positions, and how many matching events may be applied. -/
structure Window where
  start : Nat
  upto : Nat
  maxEvents : Option Nat

/-- Why a scan stopped before the end of its window. -/
inductive Stopped where
  | maxEvents
  deriving DecidableEq

structure Scanned where
  events : Nat
  position : Nat
  stopped : Option Stopped
  deriving DecidableEq

/-- What a scan holds between two events. -/
structure Scan (Record Definition Rows : Type) where
  model : ReadModel Definition Rows
  batch : List (Record × Nat)
  matched : Nat
  reached : Nat

/-- Apply the events that have not been, up to the last one reached. -/
def Scan.flush (scan : Scan Record Definition Rows) :
    Except (Halted Definition Rows) (ReadModel Definition Rows) :=
  scan.model.applyEvents projection keys scan.batch scan.reached

/-- The reads of `project_reading`, in batches of so many events. -/
def scanLoop (full : Nat) (window : Window) : List (Record × Nat) → Scan Record Definition Rows →
    Except (Halted Definition Rows) (Scan Record Definition Rows × Option Stopped)
  | [], scan => .ok (scan, none)
  | event :: rest, scan =>
      -- An event past the window means the window is done, whatever is left of the budget.
      if window.upto < event.2 then .ok (scan, none)
      else if window.maxEvents.any (· ≤ scan.matched) then .ok (scan, some .maxEvents)
      else
        let scan := { scan with
          batch := scan.batch ++ [event]
          matched := scan.matched + 1
          reached := event.2 }
        if full ≤ scan.batch.length then do
          let model ← scan.flush projection keys
          scanLoop full window rest { scan with model, batch := [] }
        else scanLoop full window rest scan

/-- The position a scan reports. -/
def Window.ended (window : Window) (stopped : Option Stopped) (reached : Nat) : Nat :=
  if stopped.isSome then reached else window.upto

/-- The end of `project_reading`, past its reads: the last batch, and the checkpoint of a
scan that covered its window at the window's end. -/
def Scan.finish (window : Window) (scan : Scan Record Definition Rows) (stopped : Option Stopped) :
    Except (Halted Definition Rows) (ReadModel Definition Rows × Scanned) :=
  (if scan.batch.isEmpty then .ok scan.model else scan.flush projection keys).map fun model =>
    (model.catchUp (window.ended stopped scan.reached),
      { events := scan.matched, position := window.ended stopped scan.reached, stopped })

/-- The largest number of 64 bits. -/
def maxU64 : Nat := 2 ^ 64 - 1

/-- `project_reading`: a window of the log, with one event more than the budget read. -/
def projectReading (full : Nat) (window : Window) (model : ReadModel Definition Rows) :
    Except (Halted Definition Rows) (ReadModel Definition Rows × Scanned) :=
  let after := window.start - 1
  let events := projection.matched log after log.length
  let reads := window.maxEvents.elim events fun most => events.take (min (most + 1) maxU64)
  let start := { model, batch := [], matched := 0, reached := after }
  (scanLoop projection keys full window reads start).bind fun ended =>
    ended.1.finish projection keys window ended.2

end Loops

section Specs

variable {projection : Projection Record Keys Rows} {keys : Record → Keys} {log : List Record}

/-- What the handlers make of events, under a checkpoint. -/
def ReadModel.made (model : ReadModel Definition Rows) (projection : Projection Record Keys Rows)
    (keys : Record → Keys) (events : List (Record × Nat)) (checkpoint : Nat) :
    Except String (ReadModel Definition Rows) :=
  model.applyBatch projection keys (events.map Prod.fst) checkpoint

variable {model next : ReadModel Definition Rows}

theorem ReadModel.made_nil (checkpoint : Nat) :
    model.made projection keys [] checkpoint = .ok (model.advanceCheckpoint checkpoint) := rfl

/-- Some events, and then others under a later checkpoint. -/
theorem ReadModel.made_append (first second : List (Record × Nat)) (early checkpoint : Nat) :
    model.made projection keys (first ++ second) checkpoint =
      (model.made projection keys first early).bind fun next =>
        next.made projection keys second checkpoint := by
  unfold ReadModel.made ReadModel.applyBatch
  rw [List.map_append, Projection.applyAll_append]
  cases projection.applyAll keys (first.map Prod.fst) model.rows <;> rfl

theorem ReadModel.made_ok {events : List (Record × Nat)} {checkpoint : Nat}
    (made : model.made projection keys events checkpoint = .ok next) :
    next.checkpoint = checkpoint := by
  unfold ReadModel.made ReadModel.applyBatch at made
  cases rows : projection.applyAll keys (events.map Prod.fst) model.rows with
  | error why =>
      rw [rows] at made
      cases made
  | ok rows' =>
      rw [rows] at made
      cases made
      rfl

/-- A batch is applied whole, or leaves the model as it was. -/
theorem ReadModel.applyEvents_eq (batch : List (Record × Nat)) (checkpoint : Nat) :
    model.applyEvents projection keys batch checkpoint =
      (model.made projection keys batch checkpoint).mapError (·, model) := rfl

/-- The last event of a batch is one of it. -/
theorem last_mem {batch : List (Record × Nat)} (some_ : batch ≠ []) :
    ∃ event ∈ batch, (batch.getLast?.map Prod.snd).getD 0 = event.2 := by
  obtain ⟨event, last⟩ := Option.ne_none_iff_exists'.mp (mt List.getLast?_eq_none_iff.mp some_)
  refine ⟨event, List.mem_of_getLast? last, ?_⟩
  rw [last]
  rfl

section Bound

variable {upto : Option Nat} {bound ended : Nat} (bounded : upto.getD log.length = bound)

include bounded

/-! Where there is no bound, the head of the log is one. -/

theorem reach_eq : reach log.length upto = min log.length bound := by
  subst bounded
  cases upto with
  | none => exact (Nat.min_self _).symm
  | some limit => rfl

theorem withinBound_matched (projection : Projection Record Keys Rows) (start : Nat)
    (within : ended ≤ log.length) :
    withinBound upto (projection.matched log start ended) =
      projection.matched log start (min ended bound) := by
  subst bounded
  cases upto with
  | none =>
      rw [Option.getD_none, Nat.min_eq_left within]
      rfl
  | some limit => exact Projection.takeWhile_matched limit

theorem watermark_eq (within : ended ≤ log.length) : watermark upto ended = min ended bound := by
  subst bounded
  cases upto with
  | none => exact (Nat.min_eq_left within).symm
  | some limit => rfl

theorem batchCheckpoint_eq (within : ended ≤ log.length) (reached : Nat) :
    batchCheckpoint upto ended reached = if bound < ended then reached else ended := by
  subst bounded
  cases upto with
  | none => exact (if_neg (Nat.not_lt.mpr within)).symm
  | some limit => rfl

end Bound

/-- From any poll on, the loop comes to what the handlers make of the rest of the window. -/
theorem projectLoop_eq {cut : Nat → Nat} (polls : Polls projection log cut) (upto : Option Nat)
    {fuel position seen : Nat} (enough : log.length - position < fuel)
    (inside : position ≤ log.length) (behind : model.checkpoint ≤ reach log.length upto) :
    ∃ done, projectLoop projection keys log cut upto fuel position seen model = some done ∧
      done.mapError Prod.fst =
        (model.made projection keys (projection.matched log position (reach log.length upto))
          (reach log.length upto)).map
            (·, seen + (projection.matched log position (reach log.length upto)).length) := by
  induction fuel generalizing position seen model with
  | zero => exact absurd enough (Nat.not_lt_zero _)
  | succ fuel ih =>
      obtain ⟨polled, poll⟩ := Option.isSome_iff_exists.mp (polls position inside)
      obtain ⟨⟨onward, within, caught⟩, rfl⟩ := Projection.pollBatch_eq_some.mp poll
      generalize bounded : upto.getD log.length = bound
      have reached_eq := reach_eq bounded
      have batch_eq := withinBound_matched bounded projection position within
      have mark_eq := watermark_eq bounded within
      have checkpoint_eq := batchCheckpoint_eq bounded within
      unfold projectLoop
      dsimp only
      rw [batch_eq, mark_eq, checkpoint_eq]
      rw [reached_eq] at behind ih ⊢
      by_cases quiet : projection.matched log position (min (cut position) bound) = []
      · -- Nothing is left before the bound, or the subscription has caught up.
        have ends : min (cut position) bound = min log.length bound := by
          rcases Nat.le_total (cut position) bound with before | past
          · rw [Nat.min_eq_left before] at quiet ⊢
            have none : projection.selected log position (cut position) = [] := by
              rw [← Projection.map_matched, quiet]
              rfl
            rw [← caught none, Nat.min_eq_left before]
          · rw [Nat.min_eq_right past, Nat.min_eq_right (Nat.le_trans past within)]
        rw [if_pos (List.isEmpty_iff.mpr quiet)]
        refine ⟨_, rfl, ?_⟩
        rw [ends] at quiet ⊢
        rw [quiet, ReadModel.made_nil, ReadModel.catchUp_eq behind]
        rfl
      · rw [if_neg fun none => quiet (List.isEmpty_iff.mp none)]
        obtain ⟨event, member, last⟩ := last_mem quiet
        have place := Projection.position_of_mem member
        rw [last]
        generalize stood : (if bound < cut position then event.2 else cut position) = checkpoint
        have below : checkpoint ≤ min (cut position) bound := by
          split at stood <;> omega
        have rest_eq : projection.matched log (cut position) (min log.length bound) =
            projection.matched log (min (cut position) bound) (min log.length bound) := by
          rcases Nat.le_total (cut position) bound with before | past
          · rw [Nat.min_eq_left before]
          · rw [Projection.matched_of_le (by omega), Projection.matched_of_le (by omega)]
        have whole : projection.matched log position (min log.length bound) =
            projection.matched log position (min (cut position) bound) ++
              projection.matched log (cut position) (min log.length bound) := by
          rw [rest_eq]
          exact (Projection.matched_append (by omega) (by omega)).symm
        rw [whole, ReadModel.made_append _ _ checkpoint, ReadModel.applyEvents_eq]
        cases made : model.made projection keys
            (projection.matched log position (min (cut position) bound)) checkpoint with
        | error why => exact ⟨_, rfl, rfl⟩
        | ok next =>
            have stands := ReadModel.made_ok made
            dsimp only [Except.mapError, Except.bind]
            cases finished : upto.any (· ≤ checkpoint) with
            | true =>
                obtain ⟨limit, rfl, hit⟩ := (Option.any_eq_true _ _).mp finished
                have hit : limit ≤ checkpoint := of_decide_eq_true hit
                have same : limit = bound := bounded
                have done : projection.matched log (cut position) (min log.length bound) = [] := by
                  rw [rest_eq]
                  exact Projection.matched_of_le (by omega)
                refine ⟨_, if_pos rfl, ?_⟩
                rw [done, ReadModel.made_nil, List.append_nil]
                have ended : min log.length bound = next.checkpoint := by omega
                rw [ended]
                rfl
            | false =>
                have further : position < cut position := by omega
                have later : next.checkpoint ≤ min log.length bound := by omega
                obtain ⟨done, ran, spec⟩ := @ih next (cut position) (seen +
                  (projection.matched log position (min (cut position) bound)).length)
                  (by omega) within later
                refine ⟨done, (if_neg Bool.false_ne_true).trans ran, spec.trans ?_⟩
                rw [List.length_append, Nat.add_assoc]

/-! ## A window and its budget -/

/-- Where events that were applied end. -/
def lastPosition (events : List (Record × Nat)) (before : Nat) : Nat :=
  (events.getLast?.map Prod.snd).getD before

theorem lastPosition_cons (event : Record × Nat) (rest : List (Record × Nat)) (before : Nat) :
    lastPosition (event :: rest) before = lastPosition rest event.2 := by
  unfold lastPosition
  rw [List.getLast?_cons]
  cases rest.getLast? <;> rfl

/-- The events a budget allows. -/
def allowed (maxEvents : Option Nat) (events : List (Record × Nat)) : List (Record × Nat) :=
  maxEvents.elim events fun most => events.take most

/-- Whether there are more than a budget allows. -/
def stopsAt (maxEvents : Option Nat) (events : List (Record × Nat)) : Option Stopped :=
  if maxEvents.any fun most => decide (most < events.length) then some .maxEvents else none

theorem allowed_nil (maxEvents : Option Nat) : allowed maxEvents ([] : List (Record × Nat)) = [] := by
  cases maxEvents with
  | none => rfl
  | some most => exact List.take_nil

theorem stopsAt_nil (maxEvents : Option Nat) : stopsAt maxEvents ([] : List (Record × Nat)) = none := by
  cases maxEvents <;> rfl

/-- What is left of a budget. -/
def Window.left (window : Window) (matched : Nat) : Option Nat :=
  window.maxEvents.map fun most => most - matched

/-- A budget that is spent allows nothing, and stops at the next event. -/
theorem spent {window : Window} {matched : Nat}
    (spent : window.maxEvents.any (· ≤ matched) = true) (event : Record × Nat)
    (rest : List (Record × Nat)) :
    allowed (window.left matched) (event :: rest) = [] ∧
      stopsAt (window.left matched) (event :: rest) = some .maxEvents := by
  obtain ⟨most, budget, reached⟩ := (Option.any_eq_true _ _).mp spent
  have nothing : window.left matched = some 0 := by
    unfold Window.left
    rw [budget, Option.map_some, Nat.sub_eq_zero_of_le (of_decide_eq_true reached)]
  rw [nothing]
  exact ⟨rfl, rfl⟩

/-- A budget that is not spent allows the next event, and one less after it. -/
theorem unspent {window : Window} {matched : Nat}
    (unspent : window.maxEvents.any (· ≤ matched) = false) (event : Record × Nat)
    (rest : List (Record × Nat)) :
    allowed (window.left matched) (event :: rest) =
        event :: allowed (window.left (matched + 1)) rest ∧
      stopsAt (window.left matched) (event :: rest) = stopsAt (window.left (matched + 1)) rest := by
  unfold Window.left
  cases budget : window.maxEvents with
  | none => exact ⟨rfl, rfl⟩
  | some most =>
      rw [budget, Option.any_some, decide_eq_false_iff_not, Nat.not_le] at unspent
      obtain ⟨more, rfl⟩ : ∃ more, most = matched + 1 + more := ⟨most - (matched + 1), by omega⟩
      have here : matched + 1 + more - matched = more + 1 := by omega
      have next : matched + 1 + more - (matched + 1) = more := by omega
      rw [Option.map_some, Option.map_some, here, next]
      refine ⟨rfl, ?_⟩
      unfold stopsAt
      simp

/-- Where a model stands once events are applied to it, if there are any. -/
def standing (before : Nat) (events : List (Record × Nat)) (reached : Nat) : Nat :=
  match events with
  | [] => before
  | _ :: _ => reached

theorem standing_of_ne_nil {before reached : Nat} {events : List (Record × Nat)}
    (some_ : events ≠ []) : standing before events reached = reached := by
  cases events with
  | nil => exact absurd rfl some_
  | cons event rest => rfl

/-- The checkpoint a scan leaves, once some more events are applied. -/
def Scan.stands (scan : Scan Record Definition Rows) (taken : List (Record × Nat)) : Nat :=
  standing scan.model.checkpoint (scan.batch ++ taken) (lastPosition taken scan.reached)

theorem Scan.finish_eq (window : Window) (scan : Scan Record Definition Rows)
    (stopped : Option Stopped) :
    (scan.finish projection keys window stopped).mapError Prod.fst =
      (scan.model.made projection keys scan.batch (scan.stands [])).map fun model =>
        (model.catchUp (window.ended stopped scan.reached),
          { events := scan.matched, position := window.ended stopped scan.reached, stopped }) := by
  unfold Scan.finish Scan.stands
  rw [List.append_nil]
  cases batch : scan.batch with
  | nil => rfl
  | cons event rest =>
      rw [if_neg (by simp), standing_of_ne_nil (List.cons_ne_nil _ _)]
      unfold Scan.flush
      rw [batch, ReadModel.applyEvents_eq]
      have reached : lastPosition ([] : List (Record × Nat)) scan.reached = scan.reached := rfl
      rw [reached]
      cases scan.model.made projection keys (event :: rest) scan.reached <;> rfl

/-- From any read on, a scan comes to what the handlers make of what is left of its window
and its budget. -/
theorem scanLoop_eq (full : Nat) (window : Window) (reads : List (Record × Nat))
    (scan : Scan Record Definition Rows) :
    let within := reads.takeWhile fun event => decide (event.2 ≤ window.upto)
    let taken := allowed (window.left scan.matched) within
    let stopped := stopsAt (window.left scan.matched) within
    let position := window.ended stopped (lastPosition taken scan.reached)
    ((scanLoop projection keys full window reads scan).bind fun ended =>
        ended.1.finish projection keys window ended.2).mapError Prod.fst =
      (scan.model.made projection keys (scan.batch ++ taken) (scan.stands taken)).map fun model =>
        (model.catchUp position, { events := scan.matched + taken.length, position, stopped }) := by
  induction reads generalizing scan with
  | nil =>
      dsimp only
      rw [List.takeWhile_nil, allowed_nil, stopsAt_nil, List.append_nil]
      exact scan.finish_eq window none
  | cons event rest ih =>
      dsimp only
      unfold scanLoop
      by_cases late : window.upto < event.2
      · rw [if_pos late, List.takeWhile_cons_of_neg (by simpa using late), allowed_nil, stopsAt_nil,
          List.append_nil]
        exact scan.finish_eq window none
      · rw [if_neg late, List.takeWhile_cons_of_pos (by simpa using late)]
        generalize rest.takeWhile (fun event => decide (event.2 ≤ window.upto)) = within at ih ⊢
        cases budget : window.maxEvents.any (· ≤ scan.matched) with
        | true =>
            obtain ⟨nothing, stops⟩ := spent budget event within
            rw [if_pos rfl, nothing, stops, List.append_nil]
            exact scan.finish_eq window (some .maxEvents)
        | false =>
            obtain ⟨takes, stops⟩ := unspent budget event within
            rw [if_neg Bool.false_ne_true, takes, stops, lastPosition_cons, List.length_cons]
            have stands : scan.stands (event :: allowed (window.left (scan.matched + 1)) within) =
                lastPosition (allowed (window.left (scan.matched + 1)) within) event.2 := by
              unfold Scan.stands
              rw [standing_of_ne_nil (by simp), lastPosition_cons]
            have more : scan.matched + ((allowed (window.left (scan.matched + 1)) within).length + 1) =
                scan.matched + 1 + (allowed (window.left (scan.matched + 1)) within).length := by
              omega
            have parts : scan.batch ++ event :: allowed (window.left (scan.matched + 1)) within =
                (scan.batch ++ [event]) ++ allowed (window.left (scan.matched + 1)) within := by
              rw [List.append_assoc, List.singleton_append]
            rw [stands, more, parts]
            dsimp only
            split
            · -- The batch is full, and is committed before the next read.
              rw [ReadModel.made_append _ _ event.2]
              unfold Scan.flush
              dsimp only
              rw [ReadModel.applyEvents_eq]
              cases made : scan.model.made projection keys (scan.batch ++ [event]) event.2 with
              | error why => rfl
              | ok next =>
                  have later := ih ⟨next, [], scan.matched + 1, event.2⟩
                  have stood : (⟨next, [], scan.matched + 1, event.2⟩ : Scan Record Definition Rows).stands
                      (allowed (window.left (scan.matched + 1)) within) =
                      lastPosition (allowed (window.left (scan.matched + 1)) within) event.2 := by
                    unfold Scan.stands
                    rw [List.nil_append]
                    cases allowed (window.left (scan.matched + 1)) within with
                    | nil => exact ReadModel.made_ok made
                    | cons first more => rfl
                  dsimp only at later
                  rw [stood, List.nil_append] at later
                  exact later
            · have later := ih ⟨scan.model, scan.batch ++ [event], scan.matched + 1, event.2⟩
              have stood : (⟨scan.model, scan.batch ++ [event], scan.matched + 1, event.2⟩ :
                  Scan Record Definition Rows).stands
                  (allowed (window.left (scan.matched + 1)) within) =
                  lastPosition (allowed (window.left (scan.matched + 1)) within) event.2 := by
                unfold Scan.stands
                rw [standing_of_ne_nil (by simp)]
              dsimp only at later
              rw [stood] at later
              exact later

/-- A window holds no more events than the log. -/
theorem length_matched_le (start upto : Nat) :
    (projection.matched log start upto).length ≤ log.length := by
  unfold Projection.matched
  refine Nat.le_trans (List.length_filter_le _ _) ?_
  rw [List.length_drop, List.length_take, List.length_zipIdx]
  omega

/-- One event past the budget is enough to tell whether there is one. -/
theorem budget_of_reads {events : List (Record × Nat)} (short : events.length ≤ maxU64)
    (most : Nat) :
    (events.take (min (most + 1) maxU64)).take most = events.take most ∧
      (most < (events.take (min (most + 1) maxU64)).length ↔ most < events.length) := by
  rw [List.take_take, List.length_take]
  by_cases large : most + 1 ≤ maxU64
  · rw [Nat.min_eq_left large, Nat.min_eq_left (Nat.le_succ most)]
    exact ⟨rfl, by omega⟩
  · rw [Nat.min_eq_right (by omega), Nat.min_eq_right (by omega), List.take_of_length_le short,
      List.take_of_length_le (by omega)]
    exact ⟨rfl, by omega⟩

/-- A scan comes to what the handlers make of the events its window and budget allow. -/
theorem projectReading_eq (short : log.length ≤ maxU64) (full : Nat) (window : Window)
    (model : ReadModel Definition Rows) :
    let events := projection.matched log (window.start - 1) window.upto
    let taken := allowed window.maxEvents events
    let stopped := stopsAt window.maxEvents events
    let position := window.ended stopped (lastPosition taken (window.start - 1))
    (projectReading projection keys log full window model).mapError Prod.fst =
      (model.made projection keys taken
          (standing model.checkpoint taken (lastPosition taken (window.start - 1)))).map
        fun model => (model.catchUp position, { events := taken.length, position, stopped }) := by
  have whole : (projection.matched log (window.start - 1) log.length).takeWhile
      (fun event => decide (event.2 ≤ window.upto)) =
      projection.matched log (window.start - 1) window.upto := by
    rw [Projection.takeWhile_matched, Projection.matched_min]
  have left : window.left 0 = window.maxEvents := by
    unfold Window.left
    cases window.maxEvents <;> rfl
  have bounded : (projection.matched log (window.start - 1) window.upto).length ≤ maxU64 :=
    Nat.le_trans (length_matched_le _ _) short
  have spec (reads : List (Record × Nat)) :=
    @scanLoop_eq _ _ _ _ projection keys full window reads ⟨model, [], 0, window.start - 1⟩
  dsimp only at spec ⊢
  unfold projectReading
  dsimp only
  rw [spec, left, List.nil_append, Nat.zero_add]
  unfold Scan.stands
  rw [List.nil_append]
  cases budget : window.maxEvents with
  | none =>
      dsimp only [Option.elim_none]
      rw [whole]
  | some most =>
      dsimp only [Option.elim_some]
      rw [← List.take_takeWhile, whole]
      obtain ⟨same, stops⟩ := budget_of_reads bounded most
      have sameAllowed : allowed (some most) ((projection.matched log (window.start - 1)
          window.upto).take (min (most + 1) maxU64)) =
          allowed (some most) (projection.matched log (window.start - 1) window.upto) := same
      have sameStops : stopsAt (some most) ((projection.matched log (window.start - 1)
          window.upto).take (min (most + 1) maxU64)) =
          stopsAt (some most) (projection.matched log (window.start - 1) window.upto) := by
        unfold stopsAt
        rw [Option.any_some, Option.any_some, decide_eq_decide.mpr stops]
      rw [sameAllowed, sameStops]

/-! ## Both loops -/

theorem ReadModel.made_catchUp (events : List (Record × Nat)) {early late : Nat}
    (order : early ≤ late) :
    (model.made projection keys events early).map (·.catchUp late) =
      model.made projection keys events late := by
  cases made : model.made projection keys events early with
  | error why =>
      unfold ReadModel.made ReadModel.applyBatch at made ⊢
      cases rows : projection.applyAll keys (events.map Prod.fst) model.rows with
      | error other =>
          rw [rows] at made
          cases made
          rfl
      | ok rows' =>
          rw [rows] at made
          cases made
  | ok next =>
      have stands := ReadModel.made_ok made
      have split := @ReadModel.made_append _ _ _ _ projection keys model events [] early late
      rw [List.append_nil, made] at split
      rw [split]
      exact congrArg Except.ok (ReadModel.catchUp_eq (stands ▸ order))

/-- Events of a window leave a model within it. -/
theorem standing_le {start upto : Nat} (order : start ≤ upto) :
    standing start (projection.matched log start upto)
      (lastPosition (projection.matched log start upto) start) ≤ upto := by
  cases events : projection.matched log start upto with
  | nil => exact order
  | cons event rest =>
      obtain ⟨last, member, same⟩ := last_mem (events ▸ List.cons_ne_nil event rest :
        projection.matched log start upto ≠ [])
      have inside := (Projection.position_of_mem member).2.1
      rw [events] at same
      have reached : lastPosition (event :: rest) start = last.2 := by
        rw [← same]
        unfold lastPosition
        rw [List.getLast?_cons]
        rfl
      change lastPosition (event :: rest) start ≤ upto
      rwa [reached]

theorem projectTo_eq {cut : Nat → Nat} (polls : Polls projection log cut) {upto : Option Nat}
    (inside : model.checkpoint ≤ log.length) (above : ∀ limit ∈ upto, model.checkpoint ≤ limit) :
    ∃ done, projectTo projection keys log cut upto model = some done ∧
      done.mapError Prod.fst =
        (model.made projection keys
          (projection.matched log model.checkpoint (reach log.length upto))
          (reach log.length upto)).map
            (·, (projection.matched log model.checkpoint (reach log.length upto)).length) := by
  have behind : model.checkpoint ≤ reach log.length upto := by
    cases upto with
    | none => exact inside
    | some limit => exact Nat.le_min.mpr ⟨inside, above limit rfl⟩
  obtain ⟨done, ran, spec⟩ := @projectLoop_eq _ _ _ _ projection keys log model cut polls upto
    (log.length + 1) model.checkpoint 0 (Nat.lt_succ_of_le (Nat.sub_le _ _)) inside behind
  refine ⟨done, ran, ?_⟩
  rw [spec]
  simp only [Nat.zero_add]

/-- What became of a projection: the model, or why a handler failed. -/
def outcome {Report : Type} (done : Except (Halted Definition Rows) (ReadModel Definition Rows × Report)) :
    Except String (ReadModel Definition Rows) :=
  (done.mapError Prod.fst).map Prod.fst

/-- Project up to a bound, and then from there up to another. -/
def projectTwice (projection : Projection Record Keys Rows) (keys : Record → Keys) (log : List Record)
    (cut later : Nat → Nat) (stop : Nat) (upto : Option Nat) (model : ReadModel Definition Rows) :
    Option (Except String (ReadModel Definition Rows)) :=
  (projectTo projection keys log cut (some stop) model).bind fun first =>
    match outcome first with
    | .error why => some (.error why)
    | .ok middle => (projectTo projection keys log later upto middle).map outcome

theorem outcome_projectTo {cut : Nat → Nat} (polls : Polls projection log cut) {upto : Option Nat}
    (inside : model.checkpoint ≤ log.length) (above : ∀ limit ∈ upto, model.checkpoint ≤ limit) :
    (projectTo projection keys log cut upto model).map outcome =
      some (model.made projection keys
        (projection.matched log model.checkpoint (reach log.length upto)) (reach log.length upto)) := by
  obtain ⟨done, ran, spec⟩ := projectTo_eq polls inside above
  rw [ran, Option.map_some]
  unfold outcome
  rw [spec]
  cases model.made projection keys (projection.matched log model.checkpoint (reach log.length upto))
    (reach log.length upto) <;> rfl

/-- A projection that stops at a bound and goes on from there is one projection. -/
theorem projectTwice_eq {cut later : Nat → Nat} (polls : Polls projection log cut)
    (repolls : Polls projection log later) {stop : Nat} {upto : Option Nat}
    (inside : model.checkpoint ≤ log.length) (after : model.checkpoint ≤ stop)
    (above : ∀ limit ∈ upto, stop ≤ limit) :
    projectTwice projection keys log cut later stop upto model =
      (projectTo projection keys log cut upto model).map outcome := by
  have whole : ∀ limit ∈ upto, model.checkpoint ≤ limit := fun limit member =>
    Nat.le_trans after (above limit member)
  obtain ⟨first, ran⟩ : ∃ first, projectTo projection keys log cut (some stop) model = some first :=
    (projectTo_eq polls inside (by simpa using after)).imp fun _ => And.left
  have half := @outcome_projectTo _ _ _ _ projection keys log model cut polls (some stop) inside
    (by simpa using after)
  have order : reach log.length (some stop) ≤ reach log.length upto := by
    cases upto with
    | none => exact Nat.min_le_left _ _
    | some limit =>
        have behind := above limit rfl
        change min log.length stop ≤ min log.length limit
        omega
  have reached : model.checkpoint ≤ reach log.length (some stop) := Nat.le_min.mpr ⟨inside, after⟩
  rw [outcome_projectTo polls inside whole, ← Projection.matched_append reached order,
    ReadModel.made_append _ _ (reach log.length (some stop))]
  unfold projectTwice
  rw [ran] at half ⊢
  rw [Option.bind_some, Option.some.inj half]
  cases made : model.made projection keys (projection.matched log model.checkpoint
      (reach log.length (some stop))) (reach log.length (some stop)) with
  | error why => rfl
  | ok middle =>
      have stands := ReadModel.made_ok made
      have within : middle.checkpoint ≤ log.length := by
        rw [stands]
        exact Nat.min_le_left _ _
      have below : ∀ limit ∈ upto, middle.checkpoint ≤ limit := by
        rw [stands]
        intro limit member
        exact Nat.le_trans (Nat.min_le_right _ _) (above limit member)
      have rest := @outcome_projectTo _ _ _ _ projection keys log middle later repolls upto within below
      rw [stands] at rest
      exact rest

/-- A window with no budget is projected as a subscription is. -/
theorem outcome_projectReading (short : log.length ≤ maxU64) (full : Nat) {upto : Nat}
    (order : model.checkpoint ≤ upto) :
    outcome (projectReading projection keys log full
        { start := model.checkpoint + 1, upto, maxEvents := none } model) =
      model.made projection keys (projection.matched log model.checkpoint upto) upto := by
  have spec := @projectReading_eq _ _ _ _ projection keys log short full
    { start := model.checkpoint + 1, upto, maxEvents := none } model
  dsimp only at spec
  have all : allowed none (projection.matched log model.checkpoint upto) =
      projection.matched log model.checkpoint upto := rfl
  have free : stopsAt none (projection.matched log model.checkpoint upto) = none := rfl
  unfold outcome
  rw [spec, Nat.add_sub_cancel, all, free, ← ReadModel.made_catchUp _ (standing_le order)]
  cases model.made projection keys (projection.matched log model.checkpoint upto) _ <;> rfl

/-- A scan of a window applies the events its budget allows, and says whether there was
another. -/
theorem scanned_of_projectReading (short : log.length ≤ maxU64) (full : Nat) (window : Window)
    {scanned : Scanned}
    (ran : projectReading projection keys log full window model = .ok (next, scanned)) :
    let events := projection.matched log (window.start - 1) window.upto
    let taken := allowed window.maxEvents events
    projection.applyAll keys (taken.map Prod.fst) model.rows = .ok next.rows ∧
      scanned = ⟨taken.length,
        window.ended (stopsAt window.maxEvents events) (lastPosition taken (window.start - 1)),
        stopsAt window.maxEvents events⟩ := by
  have spec := @projectReading_eq _ _ _ _ projection keys log short full window model
  dsimp only at spec ⊢
  rw [ran] at spec
  generalize allowed window.maxEvents (projection.matched log (window.start - 1) window.upto) = taken
    at spec ⊢
  unfold ReadModel.made ReadModel.applyBatch at spec
  cases rows : projection.applyAll keys (taken.map Prod.fst) model.rows with
  | error why =>
      rw [rows] at spec
      cases spec
  | ok rows' =>
      rw [rows] at spec
      obtain ⟨rfl, rfl⟩ := Prod.mk.inj (Except.ok.inj spec)
      refine ⟨?_, rfl⟩
      unfold ReadModel.catchUp
      split <;> rfl

/-- A scan stops before the end of its window exactly when that held an event more than
its budget. -/
theorem stopsAt_iff {maxEvents : Option Nat} {events : List (Record × Nat)} :
    stopsAt maxEvents events = some .maxEvents ↔
      ∃ most, maxEvents = some most ∧ most < events.length := by
  unfold stopsAt
  cases maxEvents with
  | none => simp
  | some most => simp

/-- A projection up to a bound makes of the model what the handlers make of the events in
between, at whatever events it is cut into batches and wherever it is stopped and carried
on.  So does a scan of the window, which reports an event past its budget if there is one. -/
theorem projected_bounded (projection : Projection Record Keys Rows) (keys : Record → Keys)
    (log : List Record) (cut : Nat → Nat) (upto : Option Nat) (model : ReadModel Definition Rows)
    (polls : Polls projection log cut) (inside : model.checkpoint ≤ log.length)
    (above : ∀ limit ∈ upto, model.checkpoint ≤ limit) (short : log.length ≤ maxU64) :
    let reached := reach log.length upto
    let events := projection.matched log model.checkpoint reached
    (∃ done, projectTo projection keys log cut upto model = some done ∧
      done.mapError Prod.fst =
        ((projection.applyAll keys (events.map Prod.fst) model.rows).map fun rows =>
          ({ model with rows, checkpoint := reached }, events.length))) ∧
    (∀ stop later, Polls projection log later → model.checkpoint ≤ stop →
      (∀ limit ∈ upto, stop ≤ limit) →
      projectTwice projection keys log cut later stop upto model =
        (projectTo projection keys log cut upto model).map outcome) ∧
    (∀ full, some (outcome (projectReading projection keys log full
        { start := model.checkpoint + 1, upto := reached, maxEvents := none } model)) =
      (projectTo projection keys log cut upto model).map outcome) ∧
    ∀ full window next scanned,
      projectReading projection keys log full window model = .ok (next, scanned) →
      let held := projection.matched log (window.start - 1) window.upto
      let taken := allowed window.maxEvents held
      (scanned.stopped = some .maxEvents ↔
        ∃ most, window.maxEvents = some most ∧ most < held.length) ∧
      (scanned.stopped = some .maxEvents →
        scanned.position = lastPosition taken (window.start - 1)) ∧
      (scanned.stopped = none → scanned.position = window.upto) ∧
      scanned.events = taken.length ∧
      projection.applyAll keys (taken.map Prod.fst) model.rows = .ok next.rows := by
  have behind : model.checkpoint ≤ reach log.length upto := by
    cases upto with
    | none => exact inside
    | some limit => exact Nat.le_min.mpr ⟨inside, above limit rfl⟩
  refine ⟨?_, ?_, ?_, ?_⟩
  · obtain ⟨done, ran, spec⟩ := projectTo_eq polls inside above
    refine ⟨done, ran, ?_⟩
    rw [spec]
    unfold ReadModel.made ReadModel.applyBatch
    rw [Projection.map_matched]
    cases projection.applyAll keys (projection.selected log model.checkpoint
      (reach log.length upto)) model.rows <;> rfl
  · intro stop later repolls after before
    exact projectTwice_eq polls repolls inside after before
  · intro full
    rw [outcome_projectTo polls inside above, outcome_projectReading short full behind]
  · intro full window next scanned ran
    obtain ⟨applied, rfl⟩ := scanned_of_projectReading short full window ran
    refine ⟨stopsAt_iff, ?_, ?_, rfl, applied⟩
    all_goals
      intro stopped
      dsimp only at stopped ⊢
      rw [stopped]
      rfl

end Specs

/-- Events that are counted if they are set. -/
def counting : Projection Bool Unit Nat where
  selects := id
  apply _ rows _ := .ok (rows + 1)

/-- A bound between two events of one poll, and a budget of one of the two before it. -/
theorem counted_bounded :
    (∃ done, projectTo counting (fun _ => ()) [true, false, true, false, true] (fun _ => 5) (some 4)
        { definition := some (), rows := 0 } = some done ∧
      done.mapError Prod.fst = .ok ({ definition := some (), checkpoint := 4, rows := 2 }, 2)) ∧
    ∀ next scanned, projectReading counting (fun _ => ()) [true, false, true, false, true] 512
        { start := 1, upto := 4, maxEvents := some 1 } { definition := some (), rows := 0 } =
          .ok (next, scanned) →
      scanned.stopped = some .maxEvents := by
  obtain ⟨whole, _, _, window⟩ := projected_bounded counting (fun _ => ())
    [true, false, true, false, true] (fun _ => 5) (some 4) { definition := some (), rows := 0 }
    (by unfold Polls; decide) (by decide) (by simp) (by decide)
  refine ⟨whole, ?_⟩
  intro next scanned ran
  exact (window _ _ _ _ ran).1.mpr ⟨1, rfl, by decide⟩

end Hekla.Projector
