import Hekla.Effect.Redelivery

/-!
# Every admitted position is accounted for

Only admission, handing out and completion write the history.  Between them
they keep every admitted position in a group of its own lane and arm, open or
retired, and put nothing else there.
-/

namespace Hekla.Effect

open Hekla.Library Hekla.Lanes

/-- The groups a lane ever had, in the order they retire. -/
def Ledger.groups (ledger : Ledger) (lane : LaneId) : List Group :=
  ledger.closed lane ++ ledger.opened lane

namespace Process

variable {unit : EffectUnit}

/-- How far the log was scanned never goes back. -/
theorem scanned_mono {s s' : Process} {act : Act} (sound : s.Sound unit)
    (taken : s.step unit act = some s') : s.lanes.scanned ≤ s'.lanes.scanned := by
  rcases still_or_reads taken with still | reads
  · exact Nat.le_of_eq still.scanned.symm
  cases reads with
  | deliver polling ahead =>
      refine (deliver_keeps (fun next => s.lanes.scanned ≤ next.lanes.scanned) sound.behind ahead
        (le_refl _) ?_)
      intro next grown
      rw [advance_scanned]
      exact le_trans grown (le_max_left _ _)
  | resubscribe => exact le_max_left _ _
  | readMark => exact le_refl _
  | writeMark => exact le_refl _
  | forgetMark => exact le_refl _

/-- What an action does to the history: nothing, a batch, work handed out from
the head of a lane, or the head of a lane retired. -/
inductive Writes (unit : EffectUnit) (s : Process) : Act → Process → Prop where
  | nothing {act : Act} {s' : Process} (ledger : s'.ledger = s.ledger)
      (latest : s'.lanes.latest = s.lanes.latest) : Writes unit s act s'
  | deliver {upto : Nat} (polling : s.reader = .polling) (ahead : s.cursor ≤ upto) :
      Writes unit s (.deliver upto) (s.deliver unit upto)
  | head {s' : Process} {thread : Nat} {lane : LaneId} {group : Group} {rest : List Group}
      (ready : s.workers.get thread = some ⟨lane, .ready⟩) (queue : s.ledger.opened lane = group :: rest)
      (ledger : s'.ledger = s.ledger.hand lane group.work)
      (lanes : s'.lanes = { s.lanes with latest := s.lanes.closeLatest lane group.toPending }) :
      Writes unit s (.head thread) s'
  | complete {s' : Process} {thread : Nat} {lane : LaneId} {group : Group} {rest : List Group}
      (settled : s.workers.get thread = some ⟨lane, .settled group.work⟩)
      (queue : s.ledger.opened lane = group :: rest)
      (ledger : s'.ledger = s.ledger.close lane group.hi)
      (lanes : s'.lanes = s.lanes.retire lane group.hi) : Writes unit s (.complete thread) s'

theorem writes_of_step {s s' : Process} {act : Act} (sound : s.Sound unit)
    (taken : s.step unit act = some s') : Writes unit s act s' := by
  cases stepped_of_step taken with
  | deliver polling ahead => exact .deliver polling ahead
  | @head thread lane ready =>
      cases queue : s.ledger.opened lane with
      | nil =>
          refine .nothing ?_ ?_ <;> unfold Process.head <;> rw [sound.tracked.head_none queue]
      | cons group rest =>
          refine .head ready queue ?_ ?_ <;> unfold Process.head <;> rw [sound.tracked.head_some queue]
  | @complete thread lane work settled =>
      obtain ⟨group, rest, queue, rfl, -⟩ := sound.working thread lane _ work settled rfl
      exact .complete settled queue rfl rfl
  | promote polling => exact .nothing rfl (LaneState.wakeAll_sameWork _ _).latest
  | promoteMatching polling => exact .nothing rfl (LaneState.wakeAll_sameWork _ _).latest
  | claim idle ticket => exact .nothing rfl (LaneState.claim_sameWork _ _).latest
  | release working => exact .nothing rfl (LaneState.release_sameWork _ _).latest
  | _ => exact .nothing rfl rfl

/-- Every admitted position is in a group of its lane and arm, and every group
fits its lane and holds admitted positions only. -/
structure Accounted (unit : EffectUnit) (s : Process) : Prop where
  covered : ∀ lane position arm, (position, arm) ∈ s.ledger.admitted lane →
    ∃ group ∈ s.ledger.groups lane, group.arm = arm ∧ position ∈ group.members
  members : ∀ lane, ∀ group ∈ s.ledger.groups lane, ∀ position ∈ group.members,
    (position, group.arm) ∈ s.ledger.admitted lane
  fits : ∀ lane, ∀ group ∈ s.ledger.groups lane, group.Fits unit lane
  positive : ∀ lane position arm, (position, arm) ∈ s.ledger.admitted lane →
    0 < position ∧ position ≤ s.lanes.scanned

theorem accounted_boot (unit : EffectUnit) (resume : Nat) (rows : Table LaneId Nat)
    (begun : List Nat) (blind : Bool) : (boot resume rows begun blind).Accounted unit where
  covered lane position arm member := by cases member
  members lane group member := by cases member
  fits lane group member := by cases member
  positive lane position arm member := by cases member

/-- An action that leaves the history of each lane alone, or moves a group from
the open to the retired ones, accounts for what it accounted for before. -/
theorem Accounted.congr {s s' : Process} (accounted : s.Accounted unit)
    (groups : ∀ lane, s'.ledger.groups lane = s.ledger.groups lane)
    (admitted : s'.ledger.admitted = s.ledger.admitted)
    (scanned : s.lanes.scanned ≤ s'.lanes.scanned) : s'.Accounted unit where
  covered lane := by
    rw [groups, admitted]
    exact accounted.covered lane
  members lane := by
    rw [groups, admitted]
    exact accounted.members lane
  fits lane := by
    rw [groups]
    exact accounted.fits lane
  positive lane position arm := by
    rw [admitted]
    intro member
    obtain ⟨above, below⟩ := accounted.positive lane position arm member
    exact ⟨above, le_trans below scanned⟩

theorem groups_close {ledger : Ledger} {lane : LaneId} {group : Group} {rest : List Group}
    (queue : ledger.opened lane = group :: rest) (other : LaneId) :
    (ledger.close lane group.hi).groups other = ledger.groups other := by
  unfold Ledger.groups
  rw [Tracked.close_head queue]
  dsimp only
  rw [Function.update_apply, Function.update_apply]
  split
  · next same =>
      rw [same, queue, List.append_assoc]
      rfl
  · rfl

theorem admitted_close (ledger : Ledger) (lane : LaneId) (position : Nat) :
    (ledger.close lane position).admitted = ledger.admitted := by
  unfold Ledger.close
  split
  · split <;> rfl
  · rfl

theorem admitted_enter {ledger : Ledger} {lanes : LaneState} (lane : LaneId) (position arm : Nat)
    (declared : Bool) (other : LaneId) :
    (ledger.enter lanes lane position arm declared).admitted other =
      if other = lane then ledger.admitted lane ++ [(position, arm)]
      else ledger.admitted other :=
  Function.update_apply ..

/-- An open group of a lane after an admission: one it had, the one the position
starts, or an open one widened to the position. -/
theorem mem_opened_enter {lanes : LaneState} {ledger : Ledger} (tracked : Tracked unit lanes ledger)
    {lane other : LaneId} {position arm : Nat} {declared : Bool} {group : Group}
    (member : group ∈ (ledger.enter lanes lane position arm declared).opened other) :
    group ∈ ledger.opened other ∨ other = lane ∧ (group = Group.single position arm ∨
      ∃ taken ∈ ledger.opened lane, group = taken.absorb position ∧ taken.arm = arm) := by
  rw [Tracked.opened_enter] at member
  split at member
  · next same =>
      subst same
      rcases tracked.mem_entered member with ⟨old, -⟩ | ⟨new, -⟩ | ⟨taken, old, eq, arm_eq, -⟩
      · exact .inl old
      · exact .inr ⟨rfl, .inl new⟩
      · exact .inr ⟨rfl, .inr ⟨taken, old, eq, arm_eq⟩⟩
  · exact .inl member

theorem Accounted.offer {s : Process} (accounted : s.Accounted unit) (sound : s.Sound unit)
    {position : Nat} {resolved : Resolved} (found : unit.resolve position = some resolved)
    (positive : 0 < position) (scanned : position ≤ s.lanes.scanned) :
    (s.offer position resolved).Accounted unit := by
  cases seen : s.lanes.seen resolved.lane position with
  | true =>
      rw [offer_of_seen seen]
      exact accounted
  | false =>
      have tracked := sound.tracked.enter found seen
      rw [offer_of_fresh seen]
      obtain ⟨lane, arm, declared⟩ := resolved
      constructor
      · intro other earlier arm' member
        dsimp only at member ⊢
        rw [admitted_enter] at member
        -- Each group there was is still there, or was widened and keeps its members.
        have persists : ∀ group ∈ s.ledger.groups other, ∀ earlier ∈ group.members,
            ∃ later ∈ (s.ledger.enter s.lanes lane position arm declared).groups other,
              later.arm = group.arm ∧ earlier ∈ later.members := by
          intro group old earlier inside
          rcases List.mem_append.mp old with retired | queued
          · exact ⟨group, List.mem_append_left _ retired, rfl, inside⟩
          · by_cases same : other = lane
            · subst same
              have opened : (s.ledger.enter s.lanes other position arm declared).opened other = _ :=
                (Tracked.opened_enter other position arm declared other).trans (if_pos rfl)
              rcases sound.tracked.mem_entered_of_mem position arm declared queued with
                kept | ⟨-, -, -, absorbed⟩
              · exact ⟨group, List.mem_append_right _ (opened ▸ kept), rfl, inside⟩
              · exact ⟨group.absorb position, List.mem_append_right _ (opened ▸ absorbed), rfl,
                  List.mem_append_left _ inside⟩
            · refine ⟨group, List.mem_append_right _ ?_, rfl, inside⟩
              rw [Tracked.opened_enter, if_neg same]
              exact queued
        have old (member : (earlier, arm') ∈ s.ledger.admitted other) :
            ∃ group ∈ (s.ledger.enter s.lanes lane position arm declared).groups other,
              group.arm = arm' ∧ earlier ∈ group.members := by
          obtain ⟨group, here, arm_eq, inside⟩ := accounted.covered other earlier arm' member
          obtain ⟨later, there, arm_eq', inside'⟩ := persists group here earlier inside
          exact ⟨later, there, arm_eq'.trans arm_eq, inside'⟩
        split at member
        · next same =>
            subst same
            rcases List.mem_append.mp member with before | now
            · exact old before
            · cases List.mem_singleton.mp now
              obtain ⟨group, here, hi_eq, arm_eq⟩ : ∃ group ∈
                  (s.ledger.enter s.lanes other position arm declared).opened other,
                  position ∈ group.members ∧ group.arm = arm := by
                rw [Tracked.opened_enter, if_pos rfl]
                rcases sound.tracked.entered_cases other position arm declared with
                  ⟨-, eq⟩ | ⟨before, taken, after, -, -, eq, -, -, arm_eq, -⟩
                · exact ⟨Group.single position arm, eq ▸ by simp, List.mem_singleton_self _, rfl⟩
                · exact ⟨taken.absorb position, eq ▸ by simp,
                    List.mem_append_right _ (List.mem_singleton_self _), arm_eq⟩
              exact ⟨group, List.mem_append_right _ here, arm_eq, hi_eq⟩
        · exact old member
      · intro other group member earlier inside
        dsimp only at member ⊢
        rw [admitted_enter]
        have old (was : (earlier, group.arm) ∈ s.ledger.admitted other) :
            (earlier, group.arm) ∈ if other = lane then s.ledger.admitted lane ++ [(position, arm)]
              else s.ledger.admitted other := by
          split
          · next same =>
              subst same
              exact List.mem_append_left _ was
          · exact was
        rcases List.mem_append.mp member with retired | queued
        · exact old (accounted.members other group (List.mem_append_left _ retired) earlier inside)
        rcases mem_opened_enter sound.tracked queued with before | ⟨rfl, now⟩
        · exact old (accounted.members other group (List.mem_append_right _ before) earlier inside)
        · rcases now with rfl | ⟨taken, waiting, rfl, rfl⟩
          · rw [if_pos rfl, List.mem_singleton.mp inside]
            exact List.mem_append_right _ (List.mem_singleton_self _)
          · rcases List.mem_append.mp inside with before | now
            · exact old (accounted.members other taken (List.mem_append_right _ waiting) earlier before)
            · rw [if_pos rfl, List.mem_singleton.mp now]
              exact List.mem_append_right _ (List.mem_singleton_self _)
      · intro other group member
        rcases List.mem_append.mp member with retired | queued
        · exact accounted.fits other group (List.mem_append_left _ retired)
        · exact tracked.fits other group queued
      · intro other earlier arm' member
        dsimp only at member ⊢
        rw [admitted_enter] at member
        split at member
        · next same =>
            rcases List.mem_append.mp member with before | now
            · exact accounted.positive _ earlier arm' before
            · cases List.mem_singleton.mp now
              exact ⟨positive, scanned⟩
        · exact accounted.positive other earlier arm' member

theorem Accounted.advance {s : Process} (accounted : s.Accounted unit) (sound : s.Sound unit) :
    (s.advance unit).Accounted unit := by
  rw [advance_eq]
  have read : (s.scanTo (s.cursor + 1)).Accounted unit :=
    accounted.congr (fun _ => rfl) rfl (le_max_left _ _)
  have assigned : ((s.scanTo (s.cursor + 1)).assign unit (s.cursor + 1)).Accounted unit := by
    cases found : unit.resolve (s.cursor + 1) with
    | none =>
        rw [assign_of_none found]
        exact read
    | some resolved =>
        rw [assign_of_some found]
        exact read.offer (sound.scanTo _) found (Nat.succ_pos _) (le_max_right _ _)
  exact assigned.congr (fun _ => rfl) rfl (le_max_left _ _)

theorem Accounted.step {s s' : Process} {act : Act} (accounted : s.Accounted unit)
    (sound : s.Sound unit) (taken : s.step unit act = some s') : s'.Accounted unit := by
  have scanned := scanned_mono sound taken
  cases writes_of_step sound taken with
  | nothing ledger latest =>
      exact accounted.congr (fun _ => by rw [ledger]) (by rw [ledger]) scanned
  | deliver polling ahead =>
      refine (deliver_keeps
        (fun s => (s.Accounted unit ∧ s.Sound unit) ∧ s.reader = .polling) sound.behind ahead
        ⟨⟨accounted, sound⟩, polling⟩ ?_).1.1
      rintro s ⟨⟨accounted, sound⟩, polling⟩
      exact ⟨⟨accounted.advance sound, sound.advance polling⟩, (assign_reader s _).trans polling⟩
  | head ready queue ledger lanes =>
      exact accounted.congr (fun _ => by rw [ledger]; rfl) (by rw [ledger]; rfl) scanned
  | complete settled queue ledger lanes =>
      refine accounted.congr ?_ ?_ scanned
      · intro other
        rw [ledger]
        exact groups_close queue other
      · rw [ledger]
        exact admitted_close _ _ _

theorem accounted_of_run {resume : Nat} {rows : Table LaneId Nat} {begun : List Nat} {blind : Bool}
    {acts : List Act} {s : Process}
    (ran : run (step unit) (boot resume rows begun blind) acts = some s) : s.Accounted unit := by
  refine (run_invariant (fun s => s.Accounted unit ∧ s.Sound unit) ?_
    ⟨accounted_boot unit resume rows begun blind, sound_boot unit resume rows begun blind⟩ ran).1
  rintro s act s' ⟨accounted, sound⟩ taken
  exact ⟨accounted.step sound taken, sound.step taken⟩

end Process

end Hekla.Effect
