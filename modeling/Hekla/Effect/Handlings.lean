import Hekla.Effect.Accounting

/-!
# What happens to the work of one lane

The handlings of a lane are read off the actions of its workers: `head` hands
out the group at the front of the queue, `complete` retires what the worker
settled, and a worker that defers or releases the lane gives back what it has
in hand.  `Orderly` says in which order they may come.
-/

namespace Hekla.Effect

open Hekla.Library Hekla.Lanes

/-- What a worker does with the work of its lane. -/
inductive Handling where
  | handed (work : Work)
  | completed (work : Work)
  | returned (work : Work)
  deriving DecidableEq, Repr

/-- The work a handling hands out. -/
def Handling.out : Handling → Option Work
  | .handed work => some work
  | .completed _ | .returned _ => none

/-- What a lane has out between two handlings: nothing, work a worker has in
hand, or work that was given back before it completed. -/
inductive Hold where
  | idle
  | working (work : Work)
  | waiting (work : Work)

def Hold.out : Hold → Option Work
  | .idle => none
  | .working work | .waiting work => some work

/-- The handlings of a lane so far, the works that completed among them, and
what is out.  New work lies above everything that completed; work in hand is
completed or given back; and work given back goes out again, as it was, before
anything else does. -/
inductive Orderly : List Handling → List Work → Hold → Prop where
  | start : Orderly [] [] .idle
  | hand {trace : List Handling} {done : List Work} {work : Work}
      (before : Orderly trace done .idle)
      (above : ∀ earlier ∈ done, earlier.position < work.position) :
      Orderly (trace ++ [.handed work]) done (.working work)
  | again {trace : List Handling} {done : List Work} {work : Work}
      (before : Orderly trace done (.waiting work)) :
      Orderly (trace ++ [.handed work]) done (.working work)
  | complete {trace : List Handling} {done : List Work} {work : Work}
      (before : Orderly trace done (.working work)) :
      Orderly (trace ++ [.completed work]) (done ++ [work]) .idle
  | giveBack {trace : List Handling} {done : List Work} {work : Work}
      (before : Orderly trace done (.working work)) :
      Orderly (trace ++ [.returned work]) done (.waiting work)

namespace Orderly

/-- A picked entry of a list with one more at its end is that one or an earlier one. -/
theorem split_concat {α : Type} {trace before after : List α} {last picked : α}
    (split : trace ++ [last] = before ++ picked :: after) :
    (after = [] ∧ trace = before ∧ last = picked) ∨
      ∃ rest, after = rest ++ [last] ∧ trace = before ++ picked :: rest := by
  rcases List.eq_nil_or_concat' after with rfl | ⟨rest, ending, rfl⟩
  · obtain ⟨front, back⟩ := List.append_inj' split rfl
    exact .inl ⟨rfl, front, (List.cons.inj back).1⟩
  · have regrouped : trace ++ [last] = (before ++ picked :: rest) ++ [ending] := by
      simpa using split
    obtain ⟨front, back⟩ := List.append_inj' regrouped rfl
    exact .inr ⟨rest, congrArg (rest ++ ·) back.symm, front⟩

/-- What is out lies above everything that completed. -/
theorem out_above {trace : List Handling} {done : List Work} {hold : Hold}
    (orderly : Orderly trace done hold) :
    ∀ work, hold.out = some work → ∀ earlier ∈ done, earlier.position < work.position := by
  induction orderly with
  | start =>
      intro work out
      cases out
  | hand before above ih =>
      intro work out
      cases out
      exact above
  | again before ih => exact ih
  | complete before ih =>
      intro work out
      cases out
  | giveBack before ih => exact ih

/-- Work that was handed out has completed, or it is what is out. -/
theorem fate {trace : List Handling} {done : List Work} {hold : Hold}
    (orderly : Orderly trace done hold) {before after : List Handling} {work : Work}
    (split : trace = before ++ .handed work :: after) :
    work ∈ done ∨ hold.out = some work ∧ .completed work ∉ after ∧
      (hold = .waiting work → .returned work ∈ after) := by
  induction orderly generalizing after with
  | start => simp at split
  | hand earlier above ih =>
      rcases split_concat split with ⟨rfl, -, same⟩ | ⟨rest, rfl, shorter⟩
      · cases same
        exact .inr ⟨rfl, List.not_mem_nil, by rintro ⟨⟩⟩
      · rcases ih shorter with completed | ⟨out, -⟩
        · exact .inl completed
        · cases out
  | again earlier ih =>
      rcases split_concat split with ⟨rfl, -, same⟩ | ⟨rest, rfl, shorter⟩
      · cases same
        exact .inr ⟨rfl, List.not_mem_nil, by rintro ⟨⟩⟩
      · rcases ih shorter with completed | ⟨out, never, -⟩
        · exact .inl completed
        · refine .inr ⟨out, ?_, by rintro ⟨⟩⟩
          simpa using never
  | complete earlier ih =>
      rcases split_concat split with ⟨-, -, same⟩ | ⟨rest, rfl, shorter⟩
      · cases same
      · rcases ih shorter with completed | ⟨out, -⟩
        · exact .inl (List.mem_append_left _ completed)
        · cases out
          exact .inl (List.mem_append_right _ (List.mem_singleton_self _))
  | giveBack earlier ih =>
      rcases split_concat split with ⟨-, -, same⟩ | ⟨rest, rfl, shorter⟩
      · cases same
      · rcases ih shorter with completed | ⟨out, never, -⟩
        · exact .inl completed
        · cases out
          refine .inr ⟨rfl, ?_, fun _ => List.mem_append_right _ (List.mem_singleton_self _)⟩
          simpa using never

/-- Of two works handed out one after the other the second lies above the
first, unless the first was given back in between, had not completed, and is
handed out again as it was. -/
theorem handed_again {trace : List Handling} {done : List Work} {hold : Hold}
    (orderly : Orderly trace done hold) {before between after : List Handling}
    {first second : Work}
    (split : trace = before ++ .handed first :: between ++ .handed second :: after) :
    first.position < second.position ∨
      first = second ∧ .returned first ∈ between ∧ .completed first ∉ between := by
  induction orderly generalizing after with
  | start => simp at split
  | hand earlier above ih =>
      rcases split_concat split with ⟨-, front, same⟩ | ⟨rest, rfl, shorter⟩
      · cases same
        rcases earlier.fate front with completed | ⟨out, -⟩
        · exact .inl (above first completed)
        · cases out
      · exact ih shorter
  | again earlier ih =>
      rcases split_concat split with ⟨-, front, same⟩ | ⟨rest, rfl, shorter⟩
      · cases same
        rcases earlier.fate front with completed | ⟨out, never, returned⟩
        · exact .inl (earlier.out_above second rfl first completed)
        · cases out
          exact .inr ⟨rfl, returned rfl, never⟩
      · exact ih shorter
  | complete earlier ih =>
      rcases split_concat split with ⟨-, -, same⟩ | ⟨rest, rfl, shorter⟩
      · cases same
      · exact ih shorter
  | giveBack earlier ih =>
      rcases split_concat split with ⟨-, -, same⟩ | ⟨rest, rfl, shorter⟩
      · cases same
      · exact ih shorter

end Orderly

/-! ## The handlings of a run -/

/-- The work a worker has in hand, when it works that lane. -/
def Worker.workIn (lane : LaneId) (worker : Worker) : Option Work :=
  if worker.lane = lane then worker.phase.work else none

theorem Worker.workIn_of_ne {lane other : LaneId} (different : other ≠ lane) (phase : Phase) :
    Worker.workIn lane ⟨other, phase⟩ = none := if_neg different

@[simp]
theorem Worker.workIn_self (lane : LaneId) (phase : Phase) :
    Worker.workIn lane ⟨lane, phase⟩ = phase.work := if_pos rfl

namespace Process

variable {unit : EffectUnit}

/-- The work of a lane that a thread has in hand. -/
def inHand (s : Process) (lane : LaneId) (thread : Nat) : Option Work :=
  (s.workers.get thread).bind (Worker.workIn lane)

/-- What an action about to be taken does with the work of a lane. -/
def handling (s : Process) (lane : LaneId) : Act → Option Handling
  | .head thread =>
      if s.workers.get thread = some ⟨lane, .ready⟩ then
        (s.lanes.head lane).2.map Handling.handed
      else none
  | .complete thread => (s.inHand lane thread).map Handling.completed
  | .defer thread _ | .release thread => (s.inHand lane thread).map Handling.returned
  | _ => none

/-- The handlings of a lane along a run. -/
def handlings (unit : EffectUnit) (lane : LaneId) : Process → List Act → List Handling
  | _, [] => []
  | s, act :: rest =>
      (s.handling lane act).toList ++
        match s.step unit act with
        | some next => handlings unit lane next rest
        | none => []

theorem inHand_of_worker {s : Process} {thread : Nat} {worker : Worker}
    (working : s.workers.get thread = some worker) (lane : LaneId) :
    s.inHand lane thread = worker.workIn lane := by
  simp only [inHand, working, Option.bind_some]

theorem worker_of_inHand {s : Process} {lane : LaneId} {thread : Nat} {work : Work}
    (held : s.inHand lane thread = some work) :
    ∃ phase, s.workers.get thread = some ⟨lane, phase⟩ ∧ phase.work = some work := by
  obtain ⟨⟨here, phase⟩, working, within⟩ := Option.bind_eq_some_iff.mp held
  obtain ⟨rfl, inPhase⟩ := Option.ite_none_right_eq_some.mp within
  exact ⟨phase, working, inPhase⟩

/-- One thread has the work of a lane in hand. -/
theorem inHand_unique {s : Process} (placed : s.Placed) {lane : LaneId} {thread other : Nat}
    (owns : s.owner thread = some lane) (different : other ≠ thread) :
    s.inHand lane other = none := by
  by_contra holds
  obtain ⟨work, held⟩ := Option.ne_none_iff_exists'.mp holds
  obtain ⟨phase, working, -⟩ := worker_of_inHand held
  exact different (placed.unique other thread lane (owner_of_worker working) owns)

theorem inHand_set {s s' : Process} {thread : Nat} {worker : Worker}
    (workers : s'.workers = s.workers.set thread worker) (lane : LaneId) (other : Nat) :
    s'.inHand lane other =
      if other = thread then worker.workIn lane else s.inHand lane other := by
  simp only [inHand, workers, Table.get_set]
  split <;> rfl

theorem inHand_remove {s s' : Process} {thread : Nat}
    (workers : s'.workers = s.workers.remove thread) (lane : LaneId) (other : Nat) :
    s'.inHand lane other = if other = thread then none else s.inHand lane other := by
  simp only [inHand, workers, Table.get_remove]
  split <;> rfl

/-- A worker that has the same work in hand afterwards changes nothing in hand. -/
theorem inHand_turn {s s' : Process} {thread : Nat} {worker : Worker} {lane : LaneId}
    (workers : s'.workers = s.workers.set thread worker)
    (same : s.inHand lane thread = worker.workIn lane) (other : Nat) :
    s'.inHand lane other = s.inHand lane other := by
  rw [inHand_set workers]
  split
  · next here => rw [here, same]
  · rfl

/-- What one action does to the work of a lane: nothing, or one handling. -/
inductive Handles (s : Process) (lane : LaneId) (act : Act) (s' : Process) : Prop where
  | nothing (shown : s.handling lane act = none)
      (closed : s'.ledger.closed lane = s.ledger.closed lane)
      (handed : s'.ledger.handed lane = s.ledger.handed lane)
      (inHand : ∀ thread, s'.inHand lane thread = s.inHand lane thread)
  | hand {thread : Nat} {group : Group} {rest : List Group}
      (shown : s.handling lane act = some (.handed group.work))
      (queue : s.ledger.opened lane = group :: rest)
      (closed : s'.ledger.closed lane = s.ledger.closed lane)
      (handed : s'.ledger.handed lane = s.ledger.handed lane ++ [group.work])
      (free : ∀ other, s.inHand lane other = none)
      (takes : s'.inHand lane thread = some group.work)
  | complete {thread : Nat} {group : Group}
      (shown : s.handling lane act = some (.completed group.work))
      (held : s.inHand lane thread = some group.work)
      (closed : s'.ledger.closed lane = s.ledger.closed lane ++ [group])
      (handed : s'.ledger.handed lane = s.ledger.handed lane)
      (free : ∀ other, s'.inHand lane other = none)
  | giveBack {thread : Nat} {work : Work}
      (shown : s.handling lane act = some (.returned work))
      (held : s.inHand lane thread = some work)
      (closed : s'.ledger.closed lane = s.ledger.closed lane)
      (handed : s'.ledger.handed lane = s.ledger.handed lane)
      (free : ∀ other, s'.inHand lane other = none)

/-- A worker that gives its lane up gives back what it has in hand. -/
theorem Handles.remove {s s' : Process} (placed : s.Placed) {lane : LaneId} {act : Act}
    {thread : Nat} (shown : s.handling lane act = (s.inHand lane thread).map Handling.returned)
    (workers : s'.workers = s.workers.remove thread) (ledger : s'.ledger = s.ledger) :
    Handles s lane act s' := by
  cases held : s.inHand lane thread with
  | none =>
      refine .nothing (by rw [shown, held, Option.map_none]) (by rw [ledger]) (by rw [ledger]) ?_
      intro other
      rw [inHand_remove workers]
      split
      · next here => rw [here, held]
      · rfl
  | some work =>
      refine .giveBack (by rw [shown, held, Option.map_some]) held (by rw [ledger]) (by rw [ledger])
        ?_
      intro other
      obtain ⟨phase, works, -⟩ := worker_of_inHand held
      rw [inHand_remove workers]
      split
      · rfl
      · next different => exact inHand_unique placed (owner_of_worker works) different

/-- Moving a worker on inside its lane, with the work it had, handles nothing. -/
theorem Handles.turn {s s' : Process} {lane : LaneId} {act : Act} {thread : Nat} {worker : Worker}
    (shown : s.handling lane act = none) (workers : s'.workers = s.workers.set thread worker)
    (same : s.inHand lane thread = worker.workIn lane) (ledger : s'.ledger = s.ledger) :
    Handles s lane act s' :=
  .nothing shown (by rw [ledger]) (by rw [ledger]) (inHand_turn workers same)

/-- A worker at the head of an empty queue leaves. -/
theorem head_idle {s : Process} (sound : s.Sound unit) {here : LaneId}
    (queue : s.ledger.opened here = []) (thread : Nat) :
    (s.head thread here).workers = s.workers.set thread ⟨here, .leaving⟩ ∧
      (s.head thread here).ledger = s.ledger := by
  simp only [Process.head, sound.tracked.head_none queue, and_self]

/-- Otherwise it takes the work of the first group. -/
theorem head_takes {s : Process} (sound : s.Sound unit) {here : LaneId} {group : Group}
    {rest : List Group} (queue : s.ledger.opened here = group :: rest) (thread : Nat) :
    (s.head thread here).workers = s.workers.set thread ⟨here, .took group.work⟩ ∧
      (s.head thread here).ledger = s.ledger.hand here group.work := by
  simp only [Process.head, sound.tracked.head_some queue, and_self]

theorem Handles.head {s : Process} (sound : s.Sound unit) {thread : Nat} {here : LaneId}
    (ready : s.workers.get thread = some ⟨here, .ready⟩) (lane : LaneId) :
    Handles s lane (.head thread) (s.head thread here) := by
  have empty : s.inHand lane thread = none := by
    rw [inHand_of_worker ready]
    exact ite_self none
  by_cases same : here = lane
  · subst same
    have shown : s.handling here (.head thread) = (s.lanes.head here).2.map Handling.handed :=
      if_pos ready
    cases queue : s.ledger.opened here with
    | nil =>
        obtain ⟨workers, ledger⟩ := head_idle sound queue thread
        rw [sound.tracked.head_none queue] at shown
        refine .turn shown workers ?_ ledger
        rw [empty, Worker.workIn_self]
        rfl
    | cons group rest =>
        obtain ⟨workers, ledger⟩ := head_takes sound queue thread
        rw [sound.tracked.head_some queue] at shown
        have takes : (s.head thread here).inHand here thread = some group.work := by
          rw [inHand_set workers, if_pos rfl, Worker.workIn_self]
          rfl
        refine .hand shown queue ?_ ?_ ?_ takes
        · rw [ledger]
          rfl
        · rw [ledger]
          exact Function.update_self ..
        · intro other
          by_cases same : other = thread
          · rw [same, empty]
          · exact inHand_unique sound.placed (owner_of_worker ready) same
  · have shown : s.handling lane (.head thread) = none := by
      refine if_neg ?_
      rw [ready]
      rintro ⟨⟩
      exact same rfl
    cases queue : s.ledger.opened here with
    | nil =>
        obtain ⟨workers, ledger⟩ := head_idle sound queue thread
        refine .turn shown workers ?_ ledger
        rw [empty, Worker.workIn_of_ne same]
    | cons group rest =>
        obtain ⟨workers, ledger⟩ := head_takes sound queue thread
        refine .nothing shown ?_ ?_ (inHand_turn workers ?_)
        · rw [ledger]
          rfl
        · rw [ledger]
          exact Function.update_of_ne (Ne.symm same) ..
        · rw [empty, Worker.workIn_of_ne same]

theorem Handles.finish {s : Process} (sound : s.Sound unit) {thread : Nat} {here : LaneId}
    {work : Work} (settled : s.workers.get thread = some ⟨here, .settled work⟩) (lane : LaneId) :
    Handles s lane (.complete thread) (s.complete thread here work) := by
  obtain ⟨group, rest, queue, rfl, -⟩ := sound.working thread here _ work settled rfl
  have ledger : (s.complete thread here group.work).ledger = s.ledger.close here group.hi := rfl
  have idle (next : Phase) (rests : next.work = none) :
      Worker.workIn lane ⟨here, next⟩ = none := by
    unfold Worker.workIn
    rw [rests, ite_self]
  have after (other : Nat) : (s.complete thread here group.work).inHand lane other =
      if other = thread then none else s.inHand lane other := by
    have workers : (s.complete thread here group.work).workers = s.workers.set thread
        ⟨here, if (s.lanes.complete here group.hi).2 then .owing group.hi else .ready⟩ := rfl
    rw [inHand_set workers, idle]
    split <;> rfl
  rw [Tracked.close_head queue] at ledger
  by_cases same : here = lane
  · subst same
    have held : s.inHand here thread = some group.work := by
      rw [inHand_of_worker settled, Worker.workIn_self]
      rfl
    refine .complete (by rw [handling, held, Option.map_some]) held ?_ ?_ ?_
    · rw [ledger]
      exact Function.update_self ..
    · rw [ledger]
    · intro other
      rw [after]
      split
      · rfl
      · next different => exact inHand_unique sound.placed (owner_of_worker settled) different
  · have empty : s.inHand lane thread = none := by
      rw [inHand_of_worker settled, Worker.workIn_of_ne same]
    refine .nothing (by rw [handling, empty, Option.map_none]) ?_ ?_ ?_
    · rw [ledger]
      exact Function.update_of_ne (Ne.symm same) ..
    · rw [ledger]
    · intro other
      rw [after]
      split
      · next here => rw [here, empty]
      · rfl

/-- Every action handles the work of a lane in one of the four ways. -/
theorem handles_of_step {s s' : Process} {act : Act} (sound : s.Sound unit)
    (taken : s.step unit act = some s') (lane : LaneId) : Handles s lane act s' := by
  cases stepped_of_step taken with
  | @deliver upto polling ahead =>
      have kept : (s.deliver unit upto).ledger.closed lane = s.ledger.closed lane ∧
          (s.deliver unit upto).ledger.handed lane = s.ledger.handed lane := by
        refine deliver_keeps (fun next => next.ledger.closed lane = s.ledger.closed lane ∧
          next.ledger.handed lane = s.ledger.handed lane) sound.behind ahead ⟨rfl, rfl⟩ ?_
        intro next same
        rcases advance_cases unit next with ⟨eq, -⟩ | ⟨resolved, -, fresh, eq⟩
        · rw [eq]
          exact same
        · rw [eq, offer_of_fresh fresh]
          exact same
      refine .nothing rfl kept.1 kept.2 ?_
      intro thread
      simp only [inHand, deliver_workers]
  | @claim thread here idle ticket =>
      have empty : s.inHand lane thread = none := by simp only [inHand, idle, Option.bind_none]
      by_cases waiting : (s.lanes.claim here).2 = true
      · have workers : (s.claim thread here).workers = s.workers.set thread ⟨here, .ready⟩ :=
          if_pos waiting
        refine .turn rfl workers ?_ rfl
        rw [empty]
        exact (ite_self none).symm
      · refine .nothing rfl rfl rfl ?_
        intro other
        simp only [inHand, Process.claim, if_neg waiting]
  | head ready => exact .head sound ready lane
  | beginTerminal took =>
      refine .turn rfl rfl ?_ rfl
      rw [inHand_of_worker took]
      rfl
  | beginRunning took =>
      refine .turn rfl rfl ?_ rfl
      rw [inHand_of_worker took]
      rfl
  | settle live =>
      refine .turn rfl rfl ?_ rfl
      rw [inHand_of_worker live]
      rfl
  | complete settled => exact .finish sound settled lane
  | @recordRow thread here position written owing =>
      refine .turn rfl rfl ?_ rfl
      rw [inHand_of_worker owing]
      cases written <;> rfl
  | noteRow recorded =>
      refine .turn rfl rfl ?_ rfl
      rw [inHand_of_worker recorded]
      rfl
  | defer working => exact .remove sound.placed rfl rfl rfl
  | release working => exact .remove sound.placed rfl rfl rfl
  | _ => exact .nothing rfl rfl rfl fun _ => rfl

end Process

end Hekla.Effect
