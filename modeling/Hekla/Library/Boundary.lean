import Mathlib.Data.List.Basic

/-!
# Decisions on a growing log

A decision reads a log in stages, each stage asking what the ones before it
made it ask, while others append.  What was read is only checked once, at the
end: that nothing any of its queries accepts came after the place it began at.
A decision that passes is the one it would have been on the log as it is by
then, read all at once; and one that has to be made again may keep what it has
read and read on from there.
-/

namespace Hekla.Library

variable {ι ε ρ δ : Type*}

/-- What queries find in the events of a log, from a position on. -/
structure Probing (ι ε ρ : Type*) where
  accepts : ι → ε → Bool
  read : ι → Nat → List ε → List ρ
  read_append : ∀ query position first second,
    read query position (first ++ second) =
      read query position first ++ read query (position + first.length) second
  read_none : ∀ {query : ι} {events : List ε} (position : Nat),
    (∀ event ∈ events, accepts query event = false) → read query position events = []

/-- A decision that reads before it is made. -/
inductive Inquiry (ι ρ δ : Type*) where
  | done (decision : δ)
  | stage (query : ι) (next : List ρ → Inquiry ι ρ δ)

/-- What one query has found in a log up to a position. -/
structure Gathered (ι ρ : Type*) where
  query : ι
  covered : Nat
  records : List ρ

namespace Probing

variable (probing : Probing ι ε ρ)

/-- All a query finds in a log. -/
def all (query : ι) (log : List ε) : List ρ := probing.read query 0 log

/-- Read on in a log from where an earlier read of it ended. -/
def readOn (log : List ε) (found : Gathered ι ρ) : Gathered ι ρ where
  query := found.query
  covered := log.length
  records := found.records ++ probing.read found.query found.covered (log.drop found.covered)

/-- The decision made on a log that nobody appends to. -/
def decide (log : List ε) : Inquiry ι ρ δ → δ
  | .done decision => decision
  | .stage query next => decide log (next (probing.all query log))

/-- A read that holds what a prefix of the log does. -/
structure Holds (log : List ε) (found : Gathered ι ρ) : Prop where
  covered : found.covered ≤ log.length
  records : found.records = probing.all found.query (log.take found.covered)

/-- Nothing that a read asked for comes after a position. -/
def Clear (log : List ε) (position : Nat) (found : Gathered ι ρ) : Prop :=
  ∀ event ∈ log.drop position, probing.accepts found.query event = false

variable {probing} {log : List ε} {found : Gathered ι ρ}

theorem holds_empty (query : ι) : probing.Holds log ⟨query, 0, []⟩ where
  covered := Nat.zero_le _
  records := (probing.read_none 0 (fun _ member => absurd member List.not_mem_nil)).symm

theorem Holds.grown (holds : probing.Holds log found) (later : List ε) :
    probing.Holds (log ++ later) found where
  covered := by
    rw [List.length_append]
    exact Nat.le_add_right_of_le holds.covered
  records := by rw [holds.records, List.take_append_of_le_length holds.covered]

theorem Holds.readOn (holds : probing.Holds log found) :
    probing.Holds log (probing.readOn log found) where
  covered := Nat.le_refl _
  records := by
    have whole := probing.read_append found.query 0 (log.take found.covered)
      (log.drop found.covered)
    rw [List.take_append_drop, Nat.zero_add, List.length_take, Nat.min_eq_left holds.covered]
      at whole
    change found.records ++ _ = probing.read found.query 0 (log.take log.length)
    rw [List.take_length, whole, holds.records]
    rfl

/-- A read that nothing has come after holds all there is. -/
theorem Holds.all_of_clear (holds : probing.Holds log found) {position : Nat}
    (clear : probing.Clear log position found) (covers : position ≤ found.covered) :
    found.records = probing.all found.query log := by
  have whole := probing.read_append found.query 0 (log.take found.covered)
    (log.drop found.covered)
  rw [List.take_append_drop] at whole
  have rest : probing.read found.query (0 + (log.take found.covered).length)
      (log.drop found.covered) = [] := by
    refine probing.read_none _ fun event member => clear event ?_
    obtain ⟨more, covered⟩ := Nat.exists_eq_add_of_le covers
    rw [covered, ← List.drop_drop] at member
    exact List.mem_of_mem_drop member
  unfold all
  rw [whole, rest, List.append_nil, holds.records]
  rfl

end Probing

/-- What is left of a decision that has read so far. -/
inductive Inquiry.Reached : Inquiry ι ρ δ → List (Gathered ι ρ) → Inquiry ι ρ δ → Prop where
  | start (plan : Inquiry ι ρ δ) : Reached plan [] plan
  | stage {plan : Inquiry ι ρ δ} {gathered : List (Gathered ι ρ)} {query : ι}
      {next : List ρ → Inquiry ι ρ δ} (reached : Reached plan gathered (.stage query next))
      (found : Gathered ι ρ) (asked : found.query = query) :
      Reached plan (gathered ++ [found]) (next found.records)

/-- Reads at different moments that nothing has come after, make the decision
that one look at the whole log makes. -/
theorem Inquiry.Reached.decide {probing : Probing ι ε ρ} {log : List ε} {plan rest : Inquiry ι ρ δ}
    {gathered : List (Gathered ι ρ)} (reached : plan.Reached gathered rest)
    (whole : ∀ found ∈ gathered, found.records = probing.all found.query log) :
    probing.decide log plan = probing.decide log rest := by
  induction reached with
  | start => rfl
  | stage _ found asked ih =>
      rw [ih fun earlier member => whole earlier (List.mem_append_left _ member), Probing.decide,
        ← asked, ← whole found (List.mem_append_right _ (List.mem_singleton_self _))]

end Hekla.Library
