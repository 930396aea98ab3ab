import Hekla.Effect.Coverage
import Hekla.Library.Join
import Hekla.Verify.Replay
import Mathlib.Algebra.BigOperators.Group.Finset.Basic
import Mathlib.Algebra.BigOperators.Intervals
import Mathlib.Order.Interval.Finset.Nat

/-!
# Counting the positions a sweep stands for

An invocation of an arm that collapses may stand for a batch: every position of
its arm and lane from `collapsedFrom` up to its own.  One pass over the log
attributes each position to the invocation that folded it.  What a sweep checks
and skips is then every row, and every position folded into one: in a run, what
was delivered at or below the mark, and what else the rows stand for.
-/

namespace Hekla.Verify

open Hekla.Library Hekla.Lanes Hekla.Effect

/-- A terminal invocation as its row has it. -/
structure TerminalInvocation where
  position : Nat
  scriptHash : String
  collapsedFrom : Option Nat := none

/-- The terminal rows of an effect, in order of position; a position has one. -/
structure Terminal where
  rows : List TerminalInvocation
  ascending : rows.Pairwise fun first second => first.position < second.position

/-- `terminal_invocations`: the terminal rows of a database, which one program wrote. -/
def terminalInvocations (digest : String) (db : OpDb) : Terminal where
  rows := (db.invocations.keys.insertionSort (· ≤ ·)).filterMap fun position =>
    match db.invocations.get position with
    | some (.terminal collapsedFrom) => some ⟨position, digest, collapsedFrom⟩
    | _ => none
  ascending := by
    have sorted := List.pairwise_insertionSort (· ≤ ·) db.invocations.keys
    have distinct := (List.perm_insertionSort (· ≤ ·) db.invocations.keys).nodup_iff.mpr
      db.invocations.nodupKeys
    refine ((sorted.and distinct).imp fun order => lt_of_le_of_ne order.1 order.2).filterMap _ ?_
    intro position other lower row here row' there
    split at here
    · cases here
      split at there
      · cases there
        exact lower
      · cases there
    · cases here

theorem mem_terminalInvocations {digest : String} {db : OpDb} {row : TerminalInvocation} :
    row ∈ (terminalInvocations digest db).rows ↔ row.scriptHash = digest ∧
      db.invocations.get row.position = some (.terminal row.collapsedFrom) := by
  unfold terminalInvocations
  rw [List.mem_filterMap]
  constructor
  · rintro ⟨position, -, found⟩
    split at found
    · next held =>
        cases found
        exact ⟨rfl, held⟩
    · cases found
  · rintro ⟨rfl, held⟩
    refine ⟨row.position, ?_, ?_⟩
    · rw [List.mem_insertionSort]
      exact (Table.mem_keys_iff db.invocations row.position).mpr ⟨_, held⟩
    · rw [held]

/-- The arm and the lane of a position that an arm answers. -/
def groupAt (unit : EffectUnit) (position : Nat) : Option (Nat × LaneId) :=
  ((unit.eventType position).bind (armIndex unit.arms).get).map fun arm =>
    (arm.index, unit.laneOf arm.index position)

theorem groupAt_of_resolve {unit : EffectUnit} {position : Nat} {resolved : Resolved}
    (found : unit.resolve position = some resolved) :
    groupAt unit position = some (resolved.arm, resolved.lane) := by
  unfold EffectUnit.resolve at found
  unfold groupAt
  split at found
  · cases found
  · next answered =>
      rw [answered]
      split at found
      · cases found
      · cases found
        rfl

/-! ## The pass -/

/-- The rows the present program wrote, each with where its batch began. -/
def unedited (digest : String) (rows : List TerminalInvocation) : List (Nat × Option Nat) :=
  (rows.filter fun row => row.scriptHash = digest).map fun row => (row.position, row.collapsedFrom)

/-- The positions of each arm and lane since it last had an invocation, and how
many were folded so far. -/
structure Pass where
  pending : Table (Nat × LaneId) (List Nat) := ∅
  folded : Nat := 0

def Pass.group (pass : Pass) (key : Nat × LaneId) : List Nat := (pass.pending.get key).getD []

/-- One position of the log: an invocation closes its own group. -/
def attributed (unit : EffectUnit) (invocations : List (Nat × Option Nat)) (pass : Pass)
    (position : Nat) : Pass :=
  match groupAt unit position with
  | none => pass
  | some key =>
      match invocations.lookup position with
      | some (some range) =>
          { pending := pass.pending.set key []
            folded := pass.folded + ((pass.group key).filter (range ≤ ·)).length }
      | some none => { pass with pending := pass.pending.set key [] }
      | none => { pass with pending := pass.pending.set key (pass.group key ++ [position]) }

/-- The positions folded into the rows of the present program, in one pass from
the start of the oldest batch to the last collapsed row. -/
def collapsedPositions (unit : EffectUnit) (digest : String) (rows : List TerminalInvocation) : Nat :=
  let invocations := unedited digest rows
  match (invocations.filterMap Prod.snd).min? with
  | none => 0
  | some oldest =>
      let upto := ((invocations.filter fun entry => entry.2.isSome).map Prod.fst).max?.getD oldest
      ((List.range' oldest (upto + 1 - oldest)).foldl (attributed unit invocations) {}).folded

/-! ## What each invocation folded -/

section Groups

variable (unit : EffectUnit)

/-- The positions of an invocation's arm and lane in its range, up to its own. -/
def members (range position : Nat) : Finset Nat :=
  (Finset.Ico range position).filter fun earlier =>
    (groupAt unit earlier).isSome = true ∧ groupAt unit earlier = groupAt unit position

def foldedInto (entry : Nat × Option Nat) : Finset Nat :=
  entry.2.elim ∅ fun range => members unit range entry.1

/-- The positions a row stands for: its own, and what was folded into it. -/
def covers (entry : Nat × Option Nat) : Finset Nat := insert entry.1 (foldedInto unit entry)

/-- The positions that some row stands for. -/
def covered (invocations : List (Nat × Option Nat)) : Finset Nat :=
  invocations.toFinset.biUnion (covers unit)

/-- No position stands under two rows. -/
def Apart (invocations : List (Nat × Option Nat)) : Prop :=
  invocations.Pairwise fun first second => Disjoint (covers unit first) (covers unit second)

instance (invocations : List (Nat × Option Nat)) : Decidable (Apart unit invocations) :=
  inferInstanceAs (Decidable (List.Pairwise _ _))

end Groups

section Walk

variable {unit : EffectUnit} {invocations : List (Nat × Option Nat)} {oldest : Nat}

theorem mem_members {range position earlier : Nat} :
    earlier ∈ members unit range position ↔
      range ≤ earlier ∧ earlier < position ∧
        ∃ key, groupAt unit earlier = some key ∧ groupAt unit position = some key := by
  unfold members
  rw [Finset.mem_filter, Finset.mem_Ico, and_assoc]
  constructor
  · rintro ⟨lower, upper, known, same⟩
    obtain ⟨key, here⟩ := Option.isSome_iff_exists.mp known
    exact ⟨lower, upper, key, here, same ▸ here⟩
  · rintro ⟨lower, upper, key, here, there⟩
    refine ⟨lower, upper, ?_, here.trans there.symm⟩
    rw [here]
    rfl

/-- What a position folds, by what is recorded there. -/
def foldedAt (unit : EffectUnit) (invocations : List (Nat × Option Nat)) (position : Nat) :
    Finset Nat :=
  (invocations.lookup position).elim ∅ fun start => foldedInto unit (position, start)

theorem mem_foldedInto {entry : Nat × Option Nat} {earlier : Nat} :
    earlier ∈ foldedInto unit entry ↔
      ∃ range, entry.2 = some range ∧ earlier ∈ members unit range entry.1 := by
  obtain ⟨position, start⟩ := entry
  cases start with
  | none => simp [foldedInto]
  | some range => simp [foldedInto]

theorem mem_foldedAt {position earlier : Nat} :
    earlier ∈ foldedAt unit invocations position ↔
      ∃ range, invocations.lookup position = some (some range) ∧
        earlier ∈ members unit range position := by
  unfold foldedAt
  cases invocations.lookup position with
  | none => simp
  | some start =>
      rw [Option.elim_some, mem_foldedInto]
      simp

/-- No batch reaches below the oldest, or over another row of its arm and lane. -/
def Clear (unit : EffectUnit) (invocations : List (Nat × Option Nat)) (oldest : Nat) : Prop :=
  ∀ position range, invocations.lookup position = some (some range) → oldest ≤ range ∧
    ∀ earlier ∈ members unit range position, invocations.lookup earlier = none

/-- A position of a group that no row of the group has closed yet. -/
structure Waiting (unit : EffectUnit) (invocations : List (Nat × Option Nat)) (oldest next : Nat)
    (key : Nat × LaneId) (position : Nat) : Prop where
  lower : oldest ≤ position
  upper : position < next
  here : groupAt unit position = some key
  unclosed : ∀ later, position ≤ later → later < next → groupAt unit later = some key →
    invocations.lookup later = none

section Waiting

variable {next position : Nat} {key : Nat × LaneId}

theorem waiting_succ_of_ne (elsewhere : groupAt unit next ≠ some key) :
    Waiting unit invocations oldest (next + 1) key position ↔
      Waiting unit invocations oldest next key position := by
  constructor
  · intro waiting
    have apart : position ≠ next := by
      rintro rfl
      exact elsewhere waiting.here
    exact ⟨waiting.lower, lt_of_le_of_ne (Nat.le_of_lt_succ waiting.upper) apart, waiting.here,
      fun later above_ before => waiting.unclosed later above_ (Nat.lt_succ_of_lt before)⟩
  · intro waiting
    refine ⟨waiting.lower, Nat.lt_succ_of_lt waiting.upper, waiting.here, ?_⟩
    intro later lower upper there
    refine waiting.unclosed later lower (lt_of_le_of_ne (Nat.le_of_lt_succ upper) ?_) there
    rintro rfl
    exact elsewhere there

theorem not_waiting_of_row (here : groupAt unit next = some key)
    (row : invocations.lookup next ≠ none) :
    ¬Waiting unit invocations oldest (next + 1) key position := fun waiting =>
  row (waiting.unclosed next (Nat.le_of_lt_succ waiting.upper) (Nat.lt_succ_self next) here)

theorem waiting_succ_of_open (reached : oldest ≤ next) (here : groupAt unit next = some key)
    (unrecorded : invocations.lookup next = none) :
    Waiting unit invocations oldest (next + 1) key position ↔
      Waiting unit invocations oldest next key position ∨ position = next := by
  constructor
  · intro waiting
    rcases Nat.lt_succ_iff_lt_or_eq.mp waiting.upper with before | same
    · exact .inl ⟨waiting.lower, before, waiting.here,
        fun later lower upper => waiting.unclosed later lower (Nat.lt_succ_of_lt upper)⟩
    · exact .inr same
  · rintro (waiting | rfl)
    · refine ⟨waiting.lower, Nat.lt_succ_of_lt waiting.upper, waiting.here, ?_⟩
      intro later lower upper there
      rcases Nat.lt_succ_iff_lt_or_eq.mp upper with before | rfl
      · exact waiting.unclosed later lower before there
      · exact unrecorded
    · refine ⟨reached, Nat.lt_succ_self _, here, ?_⟩
      intro later lower upper _
      rw [le_antisymm (Nat.le_of_lt_succ upper) lower]
      exact unrecorded

end Waiting

/-- What the pass knows before it reads a position: the groups hold what waits,
and what was folded is what each row folded. -/
structure Walked (unit : EffectUnit) (invocations : List (Nat × Option Nat)) (oldest next : Nat)
    (pass : Pass) : Prop where
  pending : ∀ key position, position ∈ pass.group key ↔
    Waiting unit invocations oldest next key position
  distinct : ∀ key, (pass.group key).Nodup
  folded : pass.folded =
    ∑ position ∈ Finset.Ico oldest next, (foldedAt unit invocations position).card

theorem Pass.group_set (pass : Pass) (key other : Nat × LaneId) (held : List Nat) (folded : Nat) :
    Pass.group ⟨pass.pending.set key held, folded⟩ other =
      if other = key then held else pass.group other := by
  unfold Pass.group
  dsimp only
  rw [Table.get_set]
  split
  · rfl
  · rfl

theorem walked_start : Walked unit invocations oldest oldest {} where
  pending key position := by
    constructor
    · intro member
      cases member
    · intro waiting
      have lower := waiting.lower
      have upper := waiting.upper
      omega
  distinct key := List.nodup_nil
  folded := by
    rw [Finset.Ico_self]
    rfl

/-- What waits in its range, at a row, is what is folded into it. -/
theorem Walked.filter_card {next range : Nat} {pass : Pass} {key : Nat × LaneId}
    (walked : Walked unit invocations oldest next pass) (clear : Clear unit invocations oldest)
    (here : groupAt unit next = some key) (row : invocations.lookup next = some (some range)) :
    ((pass.group key).filter (range ≤ ·)).length = (members unit range next).card := by
  obtain ⟨lowest, alone⟩ := clear next range row
  rw [← List.toFinset_card_of_nodup ((walked.distinct key).filter _)]
  congr 1
  ext position
  rw [List.mem_toFinset, List.mem_filter, walked.pending, decide_eq_true_iff, mem_members]
  constructor
  · rintro ⟨waiting, within⟩
    exact ⟨within, waiting.upper, key, waiting.here, here⟩
  · rintro ⟨within, upper, key', there, here'⟩
    rw [here] at here'
    cases here'
    refine ⟨⟨lowest.trans within, upper, there, ?_⟩, within⟩
    -- A row of the group in between would be folded into this one.
    intro later lower before same
    exact alone later (mem_members.mpr ⟨within.trans lower, before, key, same, here⟩)

theorem Walked.step {next : Nat} {pass : Pass} (walked : Walked unit invocations oldest next pass)
    (clear : Clear unit invocations oldest) (reached : oldest ≤ next) :
    Walked unit invocations oldest (next + 1) (attributed unit invocations pass next) := by
  have sum := Finset.sum_Ico_succ_top reached fun position =>
    (foldedAt unit invocations position).card
  rw [← walked.folded] at sum
  unfold attributed
  cases here : groupAt unit next with
  | none =>
      have nothing : (foldedAt unit invocations next).card = 0 := by
        rw [Finset.card_eq_zero, Finset.eq_empty_iff_forall_notMem]
        intro earlier member
        obtain ⟨range, -, folded⟩ := mem_foldedAt.mp member
        obtain ⟨-, -, key, -, there⟩ := mem_members.mp folded
        rw [here] at there
        cases there
      refine ⟨fun key position => ?_, walked.distinct, ?_⟩
      · rw [walked.pending, waiting_succ_of_ne]
        rw [here]
        exact nofun
      · rw [sum, nothing, Nat.add_zero]
  | some key =>
      have elsewhere {other : Nat × LaneId} (apart : other ≠ key) : groupAt unit next ≠ some other := by
        rw [here]
        exact fun same => apart (Option.some.inj same).symm
      dsimp only
      cases row : invocations.lookup next with
      | none =>
          refine ⟨fun other position => ?_, fun other => ?_, ?_⟩
          · rw [Pass.group_set]
            split
            · next same =>
                subst same
                rw [List.mem_append, List.mem_singleton, walked.pending,
                  waiting_succ_of_open reached here row]
            · next apart => rw [walked.pending, waiting_succ_of_ne (elsewhere apart)]
          · rw [Pass.group_set]
            split
            · refine (List.nodup_append.mpr ⟨walked.distinct key, List.nodup_singleton _, ?_⟩)
              intro position member other single same
              have before := ((walked.pending key position).mp member).upper
              rw [List.mem_singleton] at single
              omega
            · exact walked.distinct other
          · rw [sum]
            unfold foldedAt
            rw [row]
            rfl
      | some start =>
          have closed (folded : Nat) (other : Nat × LaneId) (position : Nat) :
              position ∈ Pass.group ⟨pass.pending.set key [], folded⟩ other ↔
                Waiting unit invocations oldest (next + 1) other position := by
            rw [Pass.group_set]
            split
            · next same =>
                subst same
                have gone := @not_waiting_of_row unit invocations oldest next position other here
                  (by rw [row]; exact nofun)
                exact ⟨nofun, fun waiting => absurd waiting gone⟩
            · next apart => rw [walked.pending, waiting_succ_of_ne (elsewhere apart)]
          have distinct (folded : Nat) (other : Nat × LaneId) :
              (Pass.group ⟨pass.pending.set key [], folded⟩ other).Nodup := by
            rw [Pass.group_set]
            split
            · exact List.nodup_nil
            · exact walked.distinct other
          cases start with
          | none =>
              refine ⟨closed _, distinct _, ?_⟩
              rw [sum]
              unfold foldedAt
              rw [row]
              rfl
          | some range =>
              refine ⟨closed _, distinct _, ?_⟩
              dsimp only
              rw [sum, walked.filter_card clear here row]
              unfold foldedAt
              rw [row]
              rfl

/-- The walk from the oldest batch, over any number of positions. -/
theorem walked_run (clear : Clear unit invocations oldest) (count : Nat) :
    Walked unit invocations oldest (oldest + count)
      ((List.range' oldest count).foldl (attributed unit invocations) {}) := by
  induction count with
  | zero => exact walked_start
  | succ count ih =>
      rw [List.range'_1_concat, List.foldl_append]
      exact ih.step clear (Nat.le_add_right _ _)

end Walk

/-! ## The count -/

section Count

variable {unit : EffectUnit} {invocations : List (Nat × Option Nat)}

theorem unedited_ascending (digest : String) (table : Terminal) :
    Ascending (unedited digest table.rows) := by
  unfold unedited
  exact List.pairwise_map.mpr ((table.ascending.filter _).imp id)

/-- Rows that stand for different positions are clear of one another. -/
theorem clear_of_apart (ascending : Ascending invocations) (apart : Apart unit invocations)
    {oldest : Nat} (least : (invocations.filterMap Prod.snd).min? = some oldest) :
    Clear unit invocations oldest := by
  intro position range row
  have member := (mem_iff_lookup ascending position (some range)).mpr row
  refine ⟨(List.min?_eq_some_iff.mp least).2 _ (List.mem_filterMap.mpr ⟨_, member, rfl⟩), ?_⟩
  intro earlier folded
  by_contra recorded
  obtain ⟨start, there⟩ := Option.ne_none_iff_exists'.mp recorded
  have other := (mem_iff_lookup ascending earlier start).mpr there
  have different : (earlier, start) ≠ (position, some range) := by
    intro same
    have upper := (mem_members.mp folded).2.1
    rw [(Prod.mk.inj same).1] at upper
    exact absurd upper (lt_irrefl position)
  have symmetric : Std.Symm fun first second : Nat × Option Nat =>
      Disjoint (covers unit first) (covers unit second) := ⟨fun _ _ disjoint => disjoint.symm⟩
  have disjoint := List.Pairwise.forall apart other member different
  exact Finset.disjoint_left.mp disjoint (Finset.mem_insert_self _ _)
    (Finset.mem_insert_of_mem folded)

/-- Every position of the walk that folds anything has a row, and the other way around. -/
theorem sum_foldedAt (ascending : Ascending invocations) (positions : Finset Nat)
    (walked : ∀ entry ∈ invocations, foldedInto unit entry ≠ ∅ → entry.1 ∈ positions) :
    ∑ position ∈ positions, (foldedAt unit invocations position).card =
      (invocations.map fun entry => (foldedInto unit entry).card).sum := by
  have distinct : (invocations.map Prod.fst).Nodup :=
    (List.pairwise_map.mpr ascending).imp fun lower => lower.ne
  have rows : (invocations.map fun entry => (foldedInto unit entry).card).sum =
      ∑ position ∈ (invocations.map Prod.fst).toFinset,
        (foldedAt unit invocations position).card := by
    rw [List.sum_toFinset _ distinct, List.map_map]
    refine congrArg List.sum (List.map_congr_left fun entry member => ?_)
    unfold foldedAt
    rw [Function.comp_apply, (mem_iff_lookup ascending entry.1 entry.2).mp member]
    rfl
  rw [rows]
  refine Finset.sum_congr_of_eq_on_inter ?_ ?_ fun position _ _ => rfl
  · intro position _ absent
    rw [Finset.card_eq_zero, Finset.eq_empty_iff_forall_notMem]
    intro earlier member
    obtain ⟨range, row, -⟩ := mem_foldedAt.mp member
    have listed := (mem_iff_lookup ascending position (some range)).mpr row
    exact absent (List.mem_toFinset.mpr (List.mem_map.mpr ⟨_, listed, rfl⟩))
  · intro position listed outside
    obtain ⟨entry, member, rfl⟩ := List.mem_map.mp (List.mem_toFinset.mp listed)
    unfold foldedAt
    rw [(mem_iff_lookup ascending entry.1 entry.2).mp member, Option.elim_some,
      Finset.card_eq_zero]
    by_contra folds
    exact outside (walked entry member folds)

/-- One pass counts what each row folded. -/
theorem collapsedPositions_eq (digest : String) (table : Terminal)
    (apart : Apart unit (unedited digest table.rows)) :
    collapsedPositions unit digest table.rows =
      ((unedited digest table.rows).map fun entry => (foldedInto unit entry).card).sum := by
  have ascending := unedited_ascending digest table
  unfold collapsedPositions
  dsimp only
  generalize unedited digest table.rows = invocations at ascending apart ⊢
  cases least : (invocations.filterMap Prod.snd).min? with
  | none =>
      have none_collapsed := List.min?_eq_none_iff.mp least
      refine (List.sum_eq_zero fun count member => ?_).symm
      obtain ⟨entry, listed, rfl⟩ := List.mem_map.mp member
      have uncollapsed := List.filterMap_eq_nil_iff.mp none_collapsed entry listed
      unfold foldedInto
      rw [uncollapsed]
      rfl
  | some oldest =>
      have walked := walked_run (clear_of_apart ascending apart least)
      dsimp only
      rw [(walked _).folded]
      refine sum_foldedAt ascending _ fun entry member folds => ?_
      obtain ⟨earlier, folded⟩ := Finset.nonempty_iff_ne_empty.mpr folds
      obtain ⟨range, collapsed, inside⟩ := mem_foldedInto.mp folded
      obtain ⟨lower, upper, -⟩ := mem_members.mp inside
      have lowest : oldest ≤ range :=
        (List.min?_eq_some_iff.mp least).2 _ (List.mem_filterMap.mpr ⟨entry, member, collapsed⟩)
      have listed : entry.1 ∈ (invocations.filter fun entry => entry.2.isSome).map Prod.fst := by
        refine List.mem_map.mpr ⟨entry, List.mem_filter.mpr ⟨member, ?_⟩, rfl⟩
        rw [collapsed]
        rfl
      have highest := List.le_max?_getD_of_mem listed (k := oldest)
      rw [Finset.mem_Ico]
      omega

end Count

/-! ## A sweep of one effect -/

/-- Why invocations were not checked. -/
structure Skipped where
  effectEdited : Nat := 0
  subjectErased : Nat := 0
  noJournal : Nat := 0
  operatorSkipped : Nat := 0
  unreadable : Nat := 0
  reclaimed : Nat := 0
  eventMissing : Nat := 0
  collapsed : Nat := 0

namespace Skipped

def total (skipped : Skipped) : Nat :=
  skipped.effectEdited + skipped.subjectErased + skipped.noJournal + skipped.operatorSkipped +
    skipped.unreadable + skipped.reclaimed + skipped.eventMissing + skipped.collapsed

/-- Count one invocation nothing could be concluded about. -/
def count (skipped : Skipped) : Uncovered → Skipped
  | .noJournal => { skipped with noJournal := skipped.noJournal + 1 }
  | .operatorSkipped => { skipped with operatorSkipped := skipped.operatorSkipped + 1 }
  | .unreadable => { skipped with unreadable := skipped.unreadable + 1 }
  | .subjectErased => { skipped with subjectErased := skipped.subjectErased + 1 }
  | .reclaimed => { skipped with reclaimed := skipped.reclaimed + 1 }

theorem total_count (skipped : Skipped) (why : Uncovered) :
    (skipped.count why).total = skipped.total + 1 := by
  cases why <;> simp only [count, total] <;> omega

end Skipped

structure Report where
  violations : List ReplayDivergence := []
  invocationsChecked : Nat := 0
  skipped : Skipped := {}

/-- What a report accounts for, either way. -/
def Report.accounted (report : Report) : Nat := report.invocationsChecked + report.skipped.total

/-- Replay one recorded invocation, unless its program or its event is gone. -/
def sweepRow (unit : EffectUnit) (digest : String) (replaying : Replaying)
    (replayed : Nat → Replayed) (report : Report) (row : TerminalInvocation) : Report :=
  if row.scriptHash ≠ digest then
    { report with
      skipped := { report.skipped with effectEdited := report.skipped.effectEdited + 1 } }
  else if (groupAt unit row.position).isNone then
    { report with
      skipped := { report.skipped with eventMissing := report.skipped.eventMissing + 1 } }
  else
    let outcome := replayed row.position
    let report :=
      match outcome.uncovered with
      | none => { report with invocationsChecked := report.invocationsChecked + 1 }
      | some why => { report with skipped := report.skipped.count why }
    { report with
      violations := report.violations ++
        (violation { replaying with position := row.position } outcome).toList }

/-- Replay every recorded invocation of one effect. -/
def sweepEffect (unit : EffectUnit) (digest : String) (replaying : Replaying)
    (replayed : Nat → Replayed) (rows : List TerminalInvocation) (report : Report) : Report :=
  let collapsed := report.skipped.collapsed + collapsedPositions unit digest rows
  rows.foldl (sweepRow unit digest replaying replayed)
    { report with skipped := { report.skipped with collapsed } }

section Sweep

variable {unit : EffectUnit} {digest : String} {replaying : Replaying} {replayed : Nat → Replayed}

/-- Each row is counted once. -/
theorem sweepRow_accounted (report : Report) (row : TerminalInvocation) :
    (sweepRow unit digest replaying replayed report row).accounted = report.accounted + 1 := by
  unfold sweepRow
  split
  · simp only [Report.accounted, Skipped.total]
    omega
  · split
    · simp only [Report.accounted, Skipped.total]
      omega
    · cases uncovered : (replayed row.position).uncovered with
      | none =>
          simp only [Report.accounted, uncovered]
          omega
      | some why =>
          simp only [Report.accounted, uncovered, Skipped.total_count]
          omega

theorem sweepRows_accounted (rows : List TerminalInvocation) (report : Report) :
    (rows.foldl (sweepRow unit digest replaying replayed) report).accounted =
      report.accounted + rows.length := by
  induction rows generalizing report with
  | nil => rfl
  | cons row rest ih =>
      rw [List.foldl_cons, ih, sweepRow_accounted, List.length_cons]
      omega

/-- A sweep accounts for every row, and for what the pass counted. -/
theorem sweepEffect_accounted (rows : List TerminalInvocation) (report : Report) :
    (sweepEffect unit digest replaying replayed rows report).accounted =
      report.accounted + rows.length + collapsedPositions unit digest rows := by
  unfold sweepEffect
  rw [sweepRows_accounted]
  simp only [Report.accounted, Skipped.total]
  omega

end Sweep

/-- The positions up to a mark that were delivered to the effect. -/
def deliveredUpTo (unit : EffectUnit) (mark : Nat) : Finset Nat :=
  (Finset.range (mark + 1)).filter fun position => (unit.resolve position).isSome

/-- Rows that stand for different positions stand for as many as their batches and they. -/
theorem card_covers {unit : EffectUnit} {invocations : List (Nat × Option Nat)}
    (ascending : Ascending invocations) (apart : Apart unit invocations) :
    (covered unit invocations).card =
      invocations.length + (invocations.map fun entry => (foldedInto unit entry).card).sum := by
  have distinct : invocations.Nodup := List.Pairwise.imp (fun lower same => by
    rw [same] at lower
    exact lt_irrefl _ lower) ascending
  have symmetric : Std.Symm fun first second : Nat × Option Nat =>
      Disjoint (covers unit first) (covers unit second) := ⟨fun _ _ disjoint => disjoint.symm⟩
  unfold covered
  rw [Finset.card_biUnion]
  · rw [List.sum_toFinset _ distinct]
    have own (entry : Nat × Option Nat) :
        (covers unit entry).card = 1 + (foldedInto unit entry).card := by
      unfold covers
      rw [Finset.card_insert_of_notMem, Nat.add_comm]
      intro itself
      obtain ⟨range, -, inside⟩ := mem_foldedInto.mp itself
      exact absurd (mem_members.mp inside).2.1 (lt_irrefl entry.1)
    simp only [own]
    rw [List.sum_map_add, List.map_const', List.sum_replicate]
    exact congrArg (· + _) (Nat.mul_one _)
  · intro first member second other different
    exact List.Pairwise.forall apart (List.mem_toFinset.mp member) (List.mem_toFinset.mp other)
      different

/-- In a run, every position delivered at or below the mark is one that a row stands for. -/
theorem delivered_subset_covered {unit : EffectUnit} {acts : List WorldAct} {w : Effect.World}
    (ran : run (Effect.World.step unit) {} acts = some w)
    (behind : Guarded (Effect.World.step unit) Effect.World.RowsBehind {} acts) (digest : String) :
    deliveredUpTo unit w.db.watermark ⊆
      covered unit (unedited digest (terminalInvocations digest w.db).rows) := by
  intro position delivered
  obtain ⟨within, answered⟩ := Finset.mem_filter.mp delivered
  obtain ⟨resolved, found⟩ := Option.isSome_iff_exists.mp answered
  have stored := (Effect.World.covering_of_run ran behind).stored
  obtain ⟨terminal, collapsedFrom, row, folder, lower, upper⟩ :=
    stored.mark position resolved found (Nat.le_of_lt_succ (Finset.mem_range.mp within))
  have listed : (terminal, collapsedFrom) ∈
      (unedited digest (terminalInvocations digest w.db).rows).toFinset := by
    rw [List.mem_toFinset]
    unfold unedited
    refine List.mem_map.mpr ⟨⟨terminal, digest, collapsedFrom⟩, List.mem_filter.mpr ⟨?_, ?_⟩, rfl⟩
    · exact mem_terminalInvocations.mpr ⟨rfl, row⟩
    · exact decide_eq_true rfl
  refine Finset.mem_biUnion.mpr ⟨_, listed, ?_⟩
  rcases upper.eq_or_lt with rfl | before
  · exact Finset.mem_insert_self _ _
  · refine Finset.mem_insert_of_mem (mem_foldedInto.mpr ?_)
    cases collapsedFrom with
    | none => exact absurd before (Nat.not_lt.mpr lower)
    | some oldest =>
        exact ⟨oldest, rfl, mem_members.mpr
          ⟨lower, before, _, groupAt_of_resolve found, groupAt_of_resolve folder⟩⟩

/-- An effect with one arm that collapses, over a log with these lanes. -/
def latestUnit (lanes : List String) : EffectUnit :=
  .ofLog [⟨["order.placed"], .latest⟩] (lanes.map fun lane => ("order.placed", ⟨lane⟩))

def sweeping : Replaying where
  effect := "Notify"
  position := 0
  sha256Hex := id
  display
    | .host message => message
    | .conflict _ => "conflict"

/-- Three rows of two lanes, the last of them standing for two positions. -/
def twoLanes : Terminal where
  rows := [⟨1, "d", none⟩, ⟨3, "d", none⟩, ⟨4, "d", some 2⟩]
  ascending := by decide

end Hekla.Verify
