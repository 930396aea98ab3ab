import Mathlib.Data.List.Basic
import Mathlib.Order.Basic

/-!
# Files that are extended with zeros

A file takes its full size when it is made, and is zeros where nothing is written yet.
How far it is written is not on record: the extent of its bytes, up to the last one that
is no zero, is what a reader can tell.  A reader looks for it from the back, a chunk at
a time.
-/

namespace Hekla.Library

universe u

variable {β : Type u} [DecidableEq β] (zero : β)

/-- Data with zeros after it, up to a size. -/
def preallocated (size : Nat) (data : List β) : List β := data ++ List.replicate (size - data.length) zero

/-- The offset past the last byte that is no zero. -/
def extent : List β → Nat
  | [] => 0
  | byte :: rest => if extent rest = 0 ∧ byte = zero then 0 else extent rest + 1

/-- The index of the last byte that passes a test. -/
def rposition (test : β → Bool) : List β → Option Nat
  | [] => none
  | byte :: rest =>
      match rposition test rest with
      | some index => some (index + 1)
      | none => if test byte then some 0 else none

/-- Exactly so many bytes from an offset on. -/
def readExactAt (bytes : List β) (start span : Nat) : Option (List β) :=
  if start + span ≤ bytes.length then some ((bytes.drop start).take span) else none

/-- What one chunk tells: where the extent ends, or that it is below. -/
inductive Scanned where
  | ended (extent : Nat)
  | onward (stop : Nat)
  deriving DecidableEq

/-- One chunk of a scan, from the back. -/
def scanChunk (chunk : Nat) (bytes : List β) (stop : Nat) : Option Scanned :=
  if stop = 0 then some (.ended 0)
  else
    let start := stop - chunk
    (readExactAt bytes start (stop - start)).map fun span =>
      match rposition (· != zero) span with
      | some index => .ended (start + index + 1)
      | none => .onward start

/-- A scan of a file that nobody writes to; each chunk brings it closer to the front. -/
def scanFrom (chunk : Nat) (bytes : List β) : Nat → Nat → Option Nat
  | 0, _ => none
  | fuel + 1, stop =>
      match scanChunk zero chunk bytes stop with
      | none => none
      | some (.ended found) => some found
      | some (.onward start) => scanFrom chunk bytes fuel start

def committedExtent (chunk : Nat) (bytes : List β) (size : Nat) : Option Nat :=
  scanFrom zero chunk bytes (size + 1) size

section Padding

variable {zero} {size : Nat} {data other : List β}

omit [DecidableEq β] in
@[simp] theorem length_preallocated (fits : data.length ≤ size) : (preallocated zero size data).length = size := by
  simp [preallocated]
  omega

omit [DecidableEq β] in
/-- A byte that is not written is zero. -/
@[simp] theorem getD_preallocated (size : Nat) (data : List β) (index : Nat) :
    (preallocated zero size data).getD index zero = data.getD index zero := by
  simp only [preallocated, List.getD_eq_getElem?_getD, List.getElem?_append]
  split
  · rfl
  · next beyond =>
      rw [List.getElem?_eq_none (Nat.not_lt.mp beyond), List.getElem?_replicate]
      split <;> rfl

omit [DecidableEq β] in
theorem preallocated_congr (fits : data.length ≤ size) (fits' : other.length ≤ size)
    (same : ∀ index, data.getD index zero = other.getD index zero) :
    preallocated zero size data = preallocated zero size other := by
  refine List.ext_getElem (by simp [fits, fits']) ?_
  intro index within within'
  have bytes := same index
  rw [← getD_preallocated size data, ← getD_preallocated size other, List.getD_eq_getElem?_getD,
    List.getD_eq_getElem?_getD, List.getElem?_eq_getElem within, List.getElem?_eq_getElem within'] at bytes
  exact bytes

/-- The extent is where the zeros begin. -/
theorem extent_le_iff {bytes : List β} {bound : Nat} :
    extent zero bytes ≤ bound ↔ ∀ index, bound ≤ index → bytes.getD index zero = zero := by
  induction bytes generalizing bound with
  | nil => simp [extent]
  | cons byte rest ih =>
      cases bound with
      | zero =>
          have below : extent zero rest ≤ 0 ↔ ∀ index, 0 ≤ index → rest.getD index zero = zero := ih
          simp only [Nat.le_zero, Nat.zero_le, true_imp_iff] at below
          constructor
          · intro none_ index _
            simp only [extent, Nat.le_zero, ite_eq_left_iff, Nat.add_eq_zero_iff, Nat.one_ne_zero, and_false,
              imp_false, not_not] at none_
            cases index with
            | zero => simpa using none_.2
            | succ index => simpa using below.mp none_.1 index
          · intro zeros
            have first := zeros 0 (Nat.le_refl 0)
            have others := below.mpr fun index => by simpa using zeros (index + 1) (Nat.zero_le _)
            simp [extent, others] at first ⊢
            exact first
      | succ bound =>
          have whole : extent zero (byte :: rest) ≤ bound + 1 ↔ extent zero rest ≤ bound := by
            simp only [extent]
            split <;> omega
          rw [whole, ih]
          constructor
          · intro zeros index above
            cases index with
            | zero => omega
            | succ index => simpa using zeros index (by omega)
          · intro zeros index above
            simpa using zeros (index + 1) (by omega)

theorem extent_congr {bytes bytes' : List β}
    (same : ∀ index, bytes.getD index zero = bytes'.getD index zero) : extent zero bytes = extent zero bytes' := by
  apply Nat.le_antisymm
  · exact extent_le_iff.mpr fun index above => (same index).trans (extent_le_iff.mp (Nat.le_refl _) index above)
  · exact extent_le_iff.mpr fun index above =>
      (same index).symm.trans (extent_le_iff.mp (Nat.le_refl _) index above)

omit [DecidableEq β] in
/-- What is cut where only zeros follow reads the same. -/
theorem getD_take {bound : Nat} (zeros : ∀ index, bound ≤ index → data.getD index zero = zero) (index : Nat) :
    (data.take bound).getD index zero = data.getD index zero := by
  by_cases within : index < bound
  · simp [List.getD_eq_getElem?_getD, within]
  · rw [zeros index (Nat.not_lt.mp within), List.getD_eq_getElem?_getD, List.getElem?_take, if_neg within]
    rfl

/-- What is cut no shorter than all of it was written, reads the same as all of it. -/
theorem getD_take_of_extent {count : Nat}
    (same : extent zero (data.take count) = extent zero data) (index : Nat) :
    (data.take count).getD index zero = data.getD index zero := by
  by_cases within : index < count
  · simp [List.getD_eq_getElem?_getD, within]
  · refine getD_take ?_ index
    intro index above
    refine extent_le_iff.mp (same ▸ extent_le_iff.mpr ?_ : extent zero data ≤ count) index above
    intro index above
    rw [List.getD_eq_getElem?_getD, List.getElem?_take, if_neg (Nat.not_lt.mpr above)]
    rfl

omit [DecidableEq β] in
/-- What is read of a file where it is written is the data. -/
theorem readExactAt_preallocated {start span : Nat} {read : List β} (within : start + span ≤ data.length)
    (found : readExactAt (preallocated zero size data) start span = some read) : read = (data.drop start).take span := by
  simp only [readExactAt] at found
  split at found
  · cases found
    rw [preallocated, List.drop_append_of_le_length (by omega), List.take_append_of_le_length (by simp; omega)]
  · cases found

end Padding

/-! ## Scans -/

section Scans

variable {zero} {chunk : Nat} {bytes : List β}

omit [DecidableEq β] in
theorem rposition_none {test : β → Bool} {span : List β} (absent : rposition test span = none) :
    ∀ byte ∈ span, test byte = false := by
  induction span with
  | nil => simp
  | cons byte rest ih =>
      simp only [rposition] at absent
      split at absent
      · cases absent
      · next none_ =>
          intro other member
          rcases List.mem_cons.mp member with rfl | later
          · simpa using absent
          · exact ih none_ other later

omit [DecidableEq β] in
theorem rposition_some {test : β → Bool} {span : List β} {index : Nat}
    (found : rposition test span = some index) :
    (∃ byte, span[index]? = some byte ∧ test byte = true) ∧
      ∀ later byte, index < later → span[later]? = some byte → test byte = false := by
  induction span generalizing index with
  | nil => cases found
  | cons byte rest ih =>
      simp only [rposition] at found
      split at found
      · next inner found' =>
          cases found
          refine ⟨by simpa using (ih found').1, ?_⟩
          intro later other above there
          cases later with
          | zero => omega
          | succ later => exact (ih found').2 later other (by omega) (by simpa using there)
      · next none_ =>
          split at found
          · next passes =>
              cases found
              refine ⟨⟨byte, rfl, passes⟩, ?_⟩
              intro later other above there
              cases later with
              | zero => omega
              | succ later => exact rposition_none none_ other (List.mem_of_getElem? (by simpa using there))
          · cases found

/-- What a chunk that was read says of the file. -/
structure ScansTo (zero : β) (bytes : List β) (stop bound : Nat) : Prop where
  le : bound ≤ stop
  zeros : ∀ index, bound ≤ index → index < stop → bytes.getD index zero = zero

omit [DecidableEq β] in
theorem getElem?_readExactAt {start span : Nat} {read : List β} (found : readExactAt bytes start span = some read)
    (index : Nat) (within : index < span) : read[index]? = bytes[start + index]? := by
  simp only [readExactAt] at found
  split at found
  · cases found
    simp [within, List.getElem?_drop]
  · cases found

omit [DecidableEq β] in
theorem length_readExactAt {start span : Nat} {read : List β} (found : readExactAt bytes start span = some read) :
    read.length = span ∧ start + span ≤ bytes.length := by
  simp only [readExactAt] at found
  split at found
  · next within =>
      cases found
      simp
      omega
  · cases found

theorem scanChunk_onward {stop start : Nat} (positive : 0 < chunk)
    (scanned : scanChunk zero chunk bytes stop = some (.onward start)) :
    start < stop ∧ ScansTo zero bytes stop start := by
  simp only [scanChunk] at scanned
  split at scanned
  · cases scanned
  · next some_ =>
      obtain ⟨span, read, told⟩ := Option.map_eq_some_iff.mp scanned
      split at told
      · cases told
      · next none_ =>
          cases told
          refine ⟨by omega, by omega, ?_⟩
          intro index above below
          have place : stop - chunk + (index - (stop - chunk)) = index := by omega
          have there := getElem?_readExactAt read (index - (stop - chunk)) (by omega)
          rw [place] at there
          rw [List.getD_eq_getElem?_getD, ← there]
          cases byte : span[index - (stop - chunk)]? with
          | none => rfl
          | some value => simpa using rposition_none none_ value (List.mem_of_getElem? byte)

theorem scanChunk_ended {stop found : Nat} (scanned : scanChunk zero chunk bytes stop = some (.ended found)) :
    ScansTo zero bytes stop found ∧ (found ≠ 0 → bytes.getD (found - 1) zero ≠ zero) := by
  simp only [scanChunk] at scanned
  split at scanned
  · next empty =>
      cases scanned
      exact ⟨⟨Nat.zero_le _, fun index _ below => absurd below (by omega)⟩, fun some_ => absurd rfl some_⟩
  · obtain ⟨span, read, told⟩ := Option.map_eq_some_iff.mp scanned
    split at told
    · next index last =>
        cases told
        obtain ⟨⟨byte, there, differs⟩, after⟩ := rposition_some last
        obtain ⟨length, -⟩ := length_readExactAt read
        have within : index < span.length := (List.getElem?_eq_some_iff.mp there).1
        have place {other : Nat} (above : stop - chunk ≤ other) (below : other < stop) :
            span[other - (stop - chunk)]? = bytes[other]? := by
          have same := getElem?_readExactAt read (other - (stop - chunk)) (by omega)
          rwa [Nat.add_sub_cancel' above] at same
        refine ⟨⟨by omega, ?_⟩, ?_⟩
        · intro other above below
          rw [List.getD_eq_getElem?_getD, ← place (by omega) below]
          cases value : span[other - (stop - chunk)]? with
          | none => rfl
          | some value' => simpa using after _ value' (by omega) value
        · intro _
          have here := getElem?_readExactAt read index (by omega)
          rw [Nat.add_sub_cancel, List.getD_eq_getElem?_getD, ← here, there]
          simpa using differs
    · cases told

/-- A scan of a file that nobody writes to finds its extent. -/
theorem committedExtent_eq (positive : 0 < chunk) :
    committedExtent zero chunk bytes bytes.length = some (extent zero bytes) := by
  have scans : ∀ fuel stop, stop < fuel → stop ≤ bytes.length →
      (∀ index, stop ≤ index → bytes.getD index zero = zero) →
      scanFrom zero chunk bytes fuel stop = some (extent zero bytes) := by
    intro fuel
    induction fuel with
    | zero => intro stop below; omega
    | succ fuel ih =>
        intro stop below within zeros
        simp only [scanFrom]
        cases scanned : scanChunk zero chunk bytes stop with
        | none =>
            simp only [scanChunk, readExactAt] at scanned
            split at scanned
            · cases scanned
            · rw [if_pos (by omega)] at scanned
              cases scanned
        | some told =>
            cases told with
            | onward start =>
                obtain ⟨less, scans⟩ := scanChunk_onward positive scanned
                refine ih start (by omega) (by omega) fun index above => ?_
                by_cases inside : index < stop
                · exact scans.zeros index above inside
                · exact zeros index (Nat.not_lt.mp inside)
            | ended found =>
                obtain ⟨scans, last⟩ := scanChunk_ended scanned
                refine congrArg some (Nat.le_antisymm ?_ ?_)
                · by_contra above
                  exact last (by omega) (extent_le_iff.mp (Nat.le_refl _) _ (by omega))
                · refine extent_le_iff.mpr fun index above => ?_
                  by_cases inside : index < stop
                  · exact scans.zeros index above inside
                  · exact zeros index (Nat.not_lt.mp inside)
  refine scans _ _ (Nat.lt_succ_self _) (Nat.le_refl _) fun index above => ?_
  rw [List.getD_eq_getElem?_getD, List.getElem?_eq_none above]
  rfl

end Scans

end Hekla.Library
