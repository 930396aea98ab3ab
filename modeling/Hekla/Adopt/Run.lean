import Hekla.Adopt.Fold
import Hekla.Library.Keyset
import Mathlib.Data.String.Basic

/-!
# A run of the adoption

A pass takes a batch of the roots that wait, folds the log for their parents and moves each
under its own.  A run makes passes until nothing waits, or another pass would do no more.
-/

namespace Hekla.Adopt

open Hekla.Library Host Keys

/-- How many candidates are read at a time. -/
def PAGE : Nat := 1000

/-- How many passes a run makes at most. -/
def PASSES : Nat := 512

/-- How many identities a pass takes on. -/
def BATCH : Nat := 50000

/-- How many passes that saw all there was may leave rows behind. -/
def CONTENDED_PASSES : Nat := 3

/-! ## What waits -/

/-- The order of the table's primary key. -/
def before (one other : Identity) : Prop := one.1 < other.1 ∨ one.1 = other.1 ∧ one.2 < other.2

instance : DecidableRel before := fun one other => by
  unfold before
  infer_instance

/-- The roots of some subjects. -/
def rootsIn (rows : KeyTable) (subjects : List String) : List Identity :=
  (rows.allSubjectKeys.map Prod.fst).filter fun id => subjects.contains id.1

def countRootsOf (rows : KeyTable) (subjects : List String) : Nat := (rootsIn rows subjects).length

/-- The roots in the order they are read. -/
def sortedRoots (rows : KeyTable) (subjects : List String) : List Identity :=
  ordered before (fun root => root) (rootsIn rows subjects)

/-- A page of what is counted, after a cursor. -/
def rootsOf (rows : KeyTable) (subjects : List String) (after : Option Identity) (limit : Nat) :
    List Identity :=
  match after with
  | none => (sortedRoots rows subjects).take limit
  | some last => ((sortedRoots rows subjects).filter fun other => decide (before last other)).take limit

/-- Page by page, until there are no more or the batch is full. -/
def collect (rows : KeyTable) (subjects : List String) : Nat → Option Identity → List Identity → List Identity
  | 0, _, found => found
  | pages + 1, after, found =>
      let page := rootsOf rows subjects after PAGE
      match page.getLast? with
      | none => found
      | some last =>
          if BATCH ≤ (found ++ page).length then found ++ page
          else collect rows subjects pages (some last) (found ++ page)

/-- Up to a batch of roots. -/
def candidates (rows : KeyTable) (subjects : List String) : List Identity :=
  collect rows subjects ((rootsIn rows subjects).length + 1) none []

/-! ## Moving them -/

/-- What a pass did, or a run. -/
structure Adoption where
  adopted : Nat := 0
  waiting : Nat := 0
  scanned : Nat := 0
  unresolved : List Identity := []
  disagreements : List Disagreement := []
  remaining : Nat := 0
  mintedAncestors : Nat := 0
  failed : Nat := 0
  firstFailure : Option String := none

/-- How many rows moved, and how many failed, with what the first of them said. -/
structure Moves where
  adopted : Nat := 0
  failed : Nat := 0
  firstFailure : Option String := none

/-- One row after the other. -/
def adoptEach (masters : MasterKeys) : List Chain → Moves → KeyState → Moves × KeyState
  | [], moves, st => (moves, st)
  | chain :: rest, moves, st =>
      match adoptIn masters chain st with
      | (.ok .moved, st) => adoptEach masters rest { moves with adopted := moves.adopted + 1 } st
      | (.ok _, st) => adoptEach masters rest moves st
      | (.error message, st) =>
          adoptEach masters rest
            { moves with
              failed := moves.failed + 1
              firstFailure := moves.firstFailure.or (some message) } st

/-- The subjects a fold has placed, in order, each with its chain. -/
def placements (search : Search Identity Chain) : List (Identity × Chain) :=
  ordered before Prod.fst (search.found.entries.map fun entry => (entry.1, entry.2))

/-- The chains in the order of the subjects they are of. -/
def placed (search : Search Identity Chain) : List Chain := (placements search).map Prod.snd

/-- The ancestors of the chains that have no key that can be read. -/
def absentAncestors (rows : KeyTable) (chains : List Chain) : List Identity :=
  ((chains.flatMap List.tail).dedup).filter fun id => !rows.subjectKeyReachable id

section Run

variable (deployed : Deployed) (decoder : Decoder) (store : Store) (masters : MasterKeys)

def pass (st : KeyState) : Except String Adoption × KeyState :=
  let pending := candidates st.rows deployed.subjects.parented
  if pending.isEmpty then (.ok {}, st)
  else
    match fold deployed decoder store pending with
    | .error message => (.error message, st)
    | .ok folded =>
        let chains := placed folded.search
        let absent := absentAncestors st.rows chains
        let (moves, st) := adoptEach masters chains {} st
        (.ok
          { adopted := moves.adopted
            waiting := pending.length
            scanned := folded.scanned
            unresolved := folded.search.pending
            disagreements := folded.disagreements
            mintedAncestors := (absent.filter st.rows.subjectKeyReachable).length
            failed := moves.failed
            firstFailure := moves.firstFailure }, st)

/-- A pass's counts folded into a run's. -/
def Adoption.absorb (done batch : Adoption) : Adoption :=
  let known := (done.disagreements.map fun one => (one.subject, one.subjectValue)).dedup
  { done with
    adopted := done.adopted + batch.adopted
    scanned := done.scanned + batch.scanned
    mintedAncestors := done.mintedAncestors + batch.mintedAncestors
    failed := batch.failed
    firstFailure := batch.firstFailure
    unresolved := batch.unresolved
    disagreements := done.disagreements ++
      (batch.disagreements.filter fun one => !known.contains (one.subject, one.subjectValue)).take
        (DISAGREEMENTS - known.length) }

/-- So many passes at most. -/
def passes : Nat → Nat → Adoption → KeyState → Except String Adoption × KeyState
  | 0, _, done, st => (.ok done, st)
  | more + 1, contended, done, st =>
      match pass deployed decoder store masters st with
      | (.error message, st) => (.error message, st)
      | (.ok batch, st) =>
          let after :=
            { done.absorb batch with remaining := countRootsOf st.rows deployed.subjects.parented }
          if after.remaining = 0 then (.ok after, st)
          else if !after.unresolved.isEmpty then (.ok after, st)
          else if after.adopted = done.adopted then (.ok after, st)
          else if BATCH ≤ batch.waiting then passes more contended after st
          else if CONTENDED_PASSES ≤ contended + 1 then (.ok after, st)
          else passes more (contended + 1) after st

/-- Adopt every root of a parented subject, and report what happened. -/
def run (st : KeyState) : Except String Adoption × KeyState :=
  if deployed.subjects.parented.isEmpty then (.ok {}, st)
  else
    passes deployed decoder store masters PASSES 0
      { waiting := countRootsOf st.rows deployed.subjects.parented } st

end Run

/-! ## Why rows were left -/

inductive Unfinished where
  | unaccounted (total : Nat) (sample : List Identity)
  | contended (remaining : Nat)
  | failed (count : Nat) (first : String)

/-- Why a run left rows behind, if it did. -/
def unfinished (done : Adoption) : Option Unfinished :=
  if done.remaining = 0 then none
  else if !done.unresolved.isEmpty then
    some (.unaccounted done.unresolved.length (done.unresolved.take NAMED))
  else if 0 < done.failed then
    some (.failed done.failed (done.firstFailure.getD "no detail was recorded"))
  else some (.contended done.remaining)

/-- Whether every key is where the declaration says it is. -/
def Adoption.settled (done : Adoption) : Bool := (unfinished done).isNone

/-- What a boot does before it serves: nothing is left that waits, or it ends. -/
def adoptAtBoot (deployed : Deployed) (decoder : Decoder) (store : Store) (masters : MasterKeys)
    (st : KeyState) : Except (String ⊕ Unfinished) Unit × KeyState :=
  if countRootsOf st.rows deployed.subjects.parented = 0 then (.ok (), st)
  else
    match run deployed decoder store masters st with
    | (.error message, st) => (.error (.inl message), st)
    | (.ok done, st) =>
        match unfinished done with
        | some left => (.error (.inr left), st)
        | none => (.ok (), st)

end Hekla.Adopt
