import Mathlib.Data.String.Basic
import Mathlib.Data.List.Sort
import Hekla.Backup.OpSchema
import Hekla.Library.Preallocated

/-!
# A data directory that is written to

The log is a row of segments, each named above those before it.  A segment takes its
full size when it is made, and is written from the front; only the newest is written to,
and nothing written is written again.  The other files of the log may change at any
time, and so may the operational database.
-/

namespace Hekla.Backup

open Hekla.Library

abbrev Contents := List UInt8

/-! ## Names -/

def INCOMING : String := ".incoming"

def TEPHRA_LOCK : String := "LOCK"

def fileName (path : String) : List Char := (path.toList.reverse.takeWhile (· != '/')).reverse

/-- Whether a path has the extension of a segment. -/
def isLog (path : String) : Bool :=
  ".log".toList.isSuffixOf (fileName path) && decide (4 < (fileName path).length)

/-- Whether a run staged a file, or SQLite did beside one. -/
def staging (path : String) : Bool := path.toList.tails.any fun rest => INCOMING.toList.isPrefixOf rest

/-- What a listing of the log has: everything but its lock, and what is staged. -/
def listable (path : String) : Bool := fileName path != TEPHRA_LOCK.toList && !staging path

/-! ## Segments -/

structure Segment where
  name : String
  size : Nat
  data : Contents
  fits : data.length ≤ size

namespace Segment

/-- The file of a segment: what is written of it, and zeros. -/
def bytes (segment : Segment) : Contents := preallocated 0 segment.size segment.data

/-- A byte more. -/
def push (segment : Segment) (byte : UInt8) (room : segment.data.length < segment.size) : Segment where
  name := segment.name
  size := segment.size
  data := segment.data ++ [byte]
  fits := by
    rw [List.length_append]
    exact room

/-- What a segment was when less of it was written. -/
def cut (segment : Segment) (count : Nat) : Segment where
  name := segment.name
  size := segment.size
  data := segment.data.take count
  fits := (List.length_take_le' _ _).trans segment.fits

@[simp] theorem length_bytes (segment : Segment) : segment.bytes.length = segment.size :=
  length_preallocated segment.fits

@[simp] theorem name_cut (segment : Segment) (count : Nat) : (segment.cut count).name = segment.name := rfl

theorem bytes_cut (segment : Segment) (count : Nat) :
    (segment.cut count).bytes = preallocated 0 segment.size (segment.data.take count) := rfl

theorem cut_eq_self {segment : Segment} {count : Nat} (whole : segment.data.length ≤ count) :
    segment.cut count = segment := by
  unfold cut
  simp [List.take_of_length_le whole]

end Segment

/-- The log as its segments, newest first, and its other files, beside the operational
database. -/
structure Source where
  segments : List Segment
  newest : (segments.map Segment.name).Pairwise (· > ·)
  logs : ∀ segment ∈ segments, isLog segment.name = true ∧ listable segment.name = true
  others : Table String Contents
  apart : ∀ path bytes, others.get path = some bytes → isLog path = false
  state : OpStore

namespace Source

variable (source : Source)

/-- The file at a path of the log's directory. -/
def bytes (path : String) : Option Contents :=
  match source.segments.find? fun segment => segment.name == path with
  | some segment => some segment.bytes
  | none => source.others.get path

/-- `list_files`: every file with its length. -/
def files : List (String × Nat) :=
  List.insertionSort (fun one other => one.1 ≤ other.1)
    (source.segments.map (fun segment => (segment.name, segment.size)) ++
      (source.others.entries.filter fun file => listable file.1).map fun file => (file.1, file.2.length))

/-! ## What it is written -/

/-- The newest segment is written a byte. -/
def grow (byte : UInt8) : Option Source :=
  match segments : source.segments with
  | [] => none
  | active :: older =>
      if room : active.data.length < active.size then
        some { source with
          segments := active.push byte room :: older
          newest := by simpa [Segment.push, segments] using source.newest
          logs := by simpa [Segment.push, segments] using source.logs }
      else none

/-- A segment is made, and from then on is the one that is written to. -/
def roll (name : String) (size : Nat) : Option Source :=
  if fresh : (isLog name = true ∧ listable name = true) ∧ ∀ segment ∈ source.segments, segment.name < name then
    some { source with
      segments := ⟨name, size, [], Nat.zero_le _⟩ :: source.segments
      newest := by
        refine List.pairwise_cons.mpr ⟨?_, source.newest⟩
        exact List.forall_mem_map.mpr fresh.2
      logs := by simpa using ⟨fresh.1, source.logs⟩ }
  else none

/-- Any other file is replaced. -/
def index (path : String) (bytes : Contents) : Option Source :=
  if other : isLog path = false then
    some { source with
      others := source.others.set path bytes
      apart := by
        intro path' bytes' found
        rw [Table.get_set] at found
        split at found
        · next same => exact same ▸ other
        · exact source.apart path' bytes' found }
  else none

def commit (state : OpStore) : Source := { source with state }

/-! ## Reading it -/

variable {source} {segment : Segment} {path : String}

theorem bytes_of_mem (member : segment ∈ source.segments) : source.bytes segment.name = some segment.bytes := by
  have names := source.newest
  unfold bytes
  generalize source.segments = segments at member names
  induction segments with
  | nil => cases member
  | cons first rest ih =>
      rw [List.map_cons, List.pairwise_cons] at names
      rcases List.mem_cons.mp member with rfl | later
      · simp
      · have below := names.1 segment.name (List.mem_map_of_mem later)
        rw [List.find?_cons_of_neg (by simpa using below.ne')]
        exact ih later names.2

theorem bytes_of_notMem (log : isLog path = true) (absent : ∀ segment ∈ source.segments, segment.name ≠ path) :
    source.bytes path = none := by
  have unheld : source.segments.find? (fun segment => segment.name == path) = none := by
    rw [List.find?_eq_none]
    intro segment member
    simpa using absent segment member
  unfold bytes
  rw [unheld]
  cases other : source.others.get path with
  | none => simp
  | some held =>
      have apart := source.apart path held other
      rw [log] at apart
      cases apart

/-- Each segment is known by its name. -/
theorem eq_of_name {one other : Segment} (member : one ∈ source.segments) (member' : other ∈ source.segments)
    (same : one.name = other.name) : one = other := by
  have names := source.newest
  rw [List.pairwise_map] at names
  by_contra differ
  rcases List.Pairwise.forall_of_forall_of_flip (R := fun one other : Segment =>
      one ≠ other → one.name ≠ other.name) (fun _ _ differ => absurd rfl differ)
    (names.imp fun above _ => above.ne') (names.imp fun above _ => above.ne) member member' with apart
  exact apart differ same

/-- The files of a listing that are logs are the segments. -/
theorem mem_files {size : Nat} (log : isLog path = true) :
    (path, size) ∈ source.files ↔ ∃ segment ∈ source.segments, segment.name = path ∧ segment.size = size := by
  unfold files
  rw [(List.perm_insertionSort _ _).mem_iff, List.mem_append]
  constructor
  · rintro (held | held)
    · obtain ⟨segment, member, same⟩ := List.mem_map.mp held
      exact ⟨segment, member, Prod.mk.inj same⟩
    · obtain ⟨other, member, same⟩ := List.mem_map.mp held
      have found := (Table.get_eq_some_iff source.others other.1 other.2).mpr (List.mem_of_mem_filter member)
      have apart := source.apart _ _ found
      rw [(Prod.mk.inj same).1, log] at apart
      cases apart
  · rintro ⟨segment, member, rfl, rfl⟩
    exact .inl (List.mem_map_of_mem member)

end Source

end Hekla.Backup
