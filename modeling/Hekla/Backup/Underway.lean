import Hekla.Backup.Moments

/-!
# What a run has done

At each phase of a run what it has measured, staged and copied stays good while the log
grows: how far a file was written is never less, and what was written of it does not
change.
-/

namespace Hekla.Backup.Copying

open Hekla.Library

/-- Every segment that a copy has is one of a row. -/
def Within (listed : List Segment) (events : Table String Contents) : Prop :=
  ∀ path bytes, isLog path = true → events.get path = some bytes → ∃ one ∈ listed, one.name = path

/-- Every segment that a copy has is, as far as it goes, what the source has. -/
def Held (now : Source) (events : Table String Contents) : Prop :=
  ∀ path bytes, isLog path = true → events.get path = some bytes →
    ∃ segment ∈ now.segments, segment.name = path ∧
      ∃ count ≤ segment.data.length, bytes = (segment.cut count).bytes

/-- A file to be copied that is measured, if it is a segment. -/
structure PlannedFor (listed : List Segment) (now : Source) (file : Planned) : Prop where
  known : isLog file.path = true → ∃ one ∈ listed, one.name = file.path
  measured : ∀ one ∈ listed, one.name = file.path →
    ∃ other ∈ now.segments, Onward one other ∧ file.size = other.size ∧ Measured one other file.extent

/-- Each segment that was listed is still to be measured, is planned, or is there. -/
structure Planning (listed : List Segment) (now : Source) (events : Table String Contents)
    (todo : List String) (planned : List Planned) : Prop where
  measured : ∀ file ∈ planned, PlannedFor listed now file
  covered : ∀ one ∈ listed, one.name ∈ todo ∨ (∃ file ∈ planned, file.path = one.name) ∨
    Copied now events one

/-- A file is zeros from where its scan stands. -/
def Scanning (listed : List Segment) (path : String) (stop : Nat) : Prop :=
  ∀ one ∈ listed, one.name = path → ∀ index, stop ≤ index → one.data.getD index 0 = 0

/-- What is staged of a segment, in some form, is the front of it. -/
def Written (listed : List Segment) (now : Source) (staged : Table String Contents)
    (form : Segment → Contents) (path : String) (count : Nat) : Prop :=
  ∀ one ∈ listed, one.name = path → ∃ other ∈ now.segments, Onward one other ∧
    count ≤ other.data.length ∧ staged.get path = some (form (other.cut count))

/-- The copy's segments are those of a moment. -/
def Logs (events : Table String Contents) (log : Source) : Prop :=
  ∀ path, isLog path = true → events.get path = log.bytes path

/-- Two moments, the one no later than the other. -/
def Taken (seen : List Source) (holds : Source → Source → Prop) : Prop :=
  ∃ upTo log later, upTo <:+ seen ∧ log ∈ upTo ∧ upTo.head? = some later ∧ holds log later

section Growth

variable {listed : List Segment} {now after : Source} {seen : List Source}
  {events staged : Table String Contents}

theorem Held.grows (held : Held now events) (grows : Grows now after) : Held after events := by
  intro path bytes log there
  obtain ⟨segment, member, named, count, within, same⟩ := held path bytes log there
  obtain ⟨later, member', onward⟩ := grows.onward member
  refine ⟨later, member', onward.name.symm.trans named, count, within.trans onward.data.length_le, ?_⟩
  rw [same, onward.cut_eq within]

theorem PlannedFor.grows {file : Planned} (planned : PlannedFor listed now file) (grows : Grows now after) :
    PlannedFor listed after file := by
  refine ⟨planned.known, fun one member named => ?_⟩
  obtain ⟨other, there, onward, size, measured⟩ := planned.measured one member named
  obtain ⟨later, there', further⟩ := grows.onward there
  exact ⟨later, there', onward.trans further, size.trans further.size, measured.onward further⟩

theorem Planning.grows {todo : List String} {planned : List Planned}
    (planning : Planning listed now events todo planned) (grows : Grows now after) :
    Planning listed after events todo planned := by
  refine ⟨fun file member => (planning.measured file member).grows grows, fun one member => ?_⟩
  rcases planning.covered one member with left | plan | copied
  · exact .inl left
  · exact .inr (.inl plan)
  · exact .inr (.inr (copied.grows grows))

theorem Written.grows {form : Segment → Contents} {path : String} {count : Nat}
    (written : Written listed now staged form path count) (grows : Grows now after) :
    Written listed after staged form path count := by
  intro one member named
  obtain ⟨other, there, onward, within, bytes⟩ := written one member named
  obtain ⟨later, there', further⟩ := grows.onward there
  refine ⟨later, there', onward.trans further, within.trans further.data.length_le, ?_⟩
  rw [bytes, further.cut_eq within]

theorem Taken.cons {holds : Source → Source → Prop} (taken : Taken seen holds) (source : Source) :
    Taken (source :: seen) holds := by
  obtain ⟨upTo, log, later, suffix, member, last, held⟩ := taken
  exact ⟨upTo, log, later, suffix.trans (List.suffix_cons source seen), member, last, held⟩

theorem Taken.imp {holds holds' : Source → Source → Prop} (taken : Taken seen holds)
    (weaker : ∀ log later, holds log later → holds' log later) : Taken seen holds' := by
  obtain ⟨upTo, log, later, suffix, member, last, held⟩ := taken
  exact ⟨upTo, log, later, suffix, member, last, weaker log later held⟩

end Growth

/-! ## A run of a listed log -/

section Phases

variable (headOf : (String → Option Contents) → UInt64)

/-- Copied, and snapshot no sooner. -/
def Snapshot (seen : List Source) (target : Target) (form : Database → Database) : Prop :=
  Taken seen fun log later => Logs target.events log ∧ target.incoming = some (form later.state.database)

/-- What a run has done that listed a log. -/
def Underway (listed now : Source) (seen : List Source) (target : Target) : Phase → Prop
  | .tidying | .claiming | .listing | .sweeping => True
  | .measuring todo stop planned =>
      todo ⊆ listed.files ∧ Planning listed.segments now target.events (todo.map Prod.fst) planned ∧
        ∀ file, todo.head? = some file → Scanning listed.segments file.1 stop
  | .removing planned => Planning listed.segments now target.events [] planned
  | .creating planned =>
      Planning listed.segments now target.events [] planned ∧ Within listed.segments target.events
  | .writing planned done =>
      (Planning listed.segments now target.events [] planned ∧ Within listed.segments target.events) ∧
        ∀ file, planned.head? = some file → done ≤ file.extent ∧
          Written listed.segments now target.staged Segment.data file.path done
  | .sizing planned =>
      (Planning listed.segments now target.events [] planned ∧ Within listed.segments target.events) ∧
        ∀ file, planned.head? = some file →
          Written listed.segments now target.staged Segment.data file.path file.extent
  | .placing planned =>
      (Planning listed.segments now target.events [] planned ∧ Within listed.segments target.events) ∧
        ∀ file, planned.head? = some file →
          Written listed.segments now target.staged Segment.bytes file.path file.extent
  | .snapshotting => ∃ log ∈ seen, Logs target.events log
  | .checking => Snapshot seen target id
  | .clearing head | .clamping head => head = headOf target.events.get ∧ Snapshot seen target id
  | .installing => Snapshot seen target fun database => clamped database (headOf target.events.get)
  | .marking => Taken seen fun log later => Copies headOf target log later

variable {headOf} {listed now after : Source} {seen : List Source} {target : Target} {phase : Phase}

/-- What a run has done stays done while the source is written to. -/
theorem Underway.grows (underway : Underway headOf listed now seen target phase) (grows : Grows now after) :
    Underway headOf listed after (after :: seen) target phase := by
  cases phase with
  | measuring todo stop planned => exact ⟨underway.1, underway.2.1.grows grows, underway.2.2⟩
  | removing planned => exact Planning.grows underway grows
  | creating planned => exact ⟨underway.1.grows grows, underway.2⟩
  | writing planned done =>
      refine ⟨⟨underway.1.1.grows grows, underway.1.2⟩, fun file first => ?_⟩
      exact ⟨(underway.2 file first).1, (underway.2 file first).2.grows grows⟩
  | sizing planned =>
      exact ⟨⟨underway.1.1.grows grows, underway.1.2⟩, fun file first => (underway.2 file first).grows grows⟩
  | placing planned =>
      exact ⟨⟨underway.1.1.grows grows, underway.1.2⟩, fun file first => (underway.2 file first).grows grows⟩
  | snapshotting =>
      obtain ⟨log, member, logs⟩ := underway
      exact ⟨log, List.mem_cons_of_mem _ member, logs⟩
  | checking => exact Taken.cons underway after
  | clearing head => exact ⟨underway.1, underway.2.cons after⟩
  | clamping head => exact ⟨underway.1, underway.2.cons after⟩
  | installing => exact Taken.cons underway after
  | marking => exact Taken.cons underway after
  | _ => trivial

end Phases

end Hekla.Backup.Copying
