import Hekla.Backup.Copying

/-!
# Moments of a log

As a log is written byte by byte, every state between an earlier one and a later one was
there at some moment.  A copy that has of each segment no less than was there when the log
was listed, and no more than is there now, is therefore the log of one moment.
-/

namespace Hekla.Backup

open Hekla.Library

/-- A segment that is written further. -/
structure Onward (one other : Segment) : Prop where
  name : one.name = other.name
  size : one.size = other.size
  data : one.data <+: other.data

namespace Onward

variable {one middle other : Segment}

theorem refl (one : Segment) : Onward one one := ⟨rfl, rfl, List.prefix_rfl⟩

theorem trans (first : Onward one middle) (second : Onward middle other) : Onward one other :=
  ⟨first.name.trans second.name, first.size.trans second.size, first.data.trans second.data⟩

theorem push (one : Segment) (byte : UInt8) (room : one.data.length < one.size) : Onward one (one.push byte room) :=
  ⟨rfl, rfl, List.prefix_append _ _⟩

theorem cut (one : Segment) (count : Nat) : Onward (one.cut count) one := ⟨rfl, rfl, List.take_prefix _ _⟩

theorem getD (onward : Onward one other) {index : Nat} (within : index < one.data.length) :
    other.data.getD index 0 = one.data.getD index 0 := by
  obtain ⟨more, data⟩ := onward.data
  rw [← data, List.getD_eq_getElem?_getD, List.getD_eq_getElem?_getD, List.getElem?_append_left within]

theorem eq_of_data (onward : Onward one other) (same : one.data = other.data) : one = other := by
  cases one
  cases other
  obtain ⟨name, size, -⟩ := onward
  dsimp only at name size same
  subst name size same
  rfl

/-- What was written of a segment is not written again. -/
theorem cut_eq (onward : Onward one other) {count : Nat} (within : count ≤ one.data.length) :
    other.cut count = one.cut count := by
  have same : (one.cut count).data = (other.cut count).data := by
    obtain ⟨more, data⟩ := onward.data
    exact (data ▸ List.take_append_of_le_length within).symm
  have cuts : Onward (one.cut count) (other.cut count) :=
    ⟨onward.name, onward.size, same ▸ List.prefix_rfl⟩
  exact (cuts.eq_of_data same).symm

/-- Where a segment is zeros, it always was. -/
theorem zeros (onward : Onward one other) {index : Nat} (zero : other.data.getD index 0 = 0) :
    one.data.getD index 0 = 0 := by
  by_cases within : index < one.data.length
  · rw [← onward.getD within, zero]
  · simp [List.getD_eq_getElem?_getD, Nat.not_lt.mp within]

end Onward

/-- One row of segments is another in which the newest is written further. -/
inductive Extends : List Segment → List Segment → Prop where
  | nil : Extends [] []
  | cons {one other : Segment} {older : List Segment} (onward : Onward one other) :
      Extends (one :: older) (other :: older)

theorem Extends.refl : ∀ segments : List Segment, Extends segments segments
  | [] => .nil
  | one :: _ => .cons (Onward.refl one)

theorem Extends.onward {listed kept : List Segment} (extended : Extends listed kept) {one : Segment}
    (member : one ∈ listed) : ∃ other ∈ kept, Onward one other := by
  cases extended with
  | nil => cases member
  | cons onward =>
      rcases List.mem_cons.mp member with rfl | older
      · exact ⟨_, List.mem_cons_self, onward⟩
      · exact ⟨one, List.mem_cons_of_mem _ older, Onward.refl one⟩

theorem Extends.antisymm {listed kept : List Segment} (lower : Extends listed kept)
    (upper : Extends kept listed) : kept = listed := by
  cases lower with
  | nil => rfl
  | cons onward =>
      cases upper with
      | cons back =>
          refine congrArg (· :: _) (onward.eq_of_data ?_).symm
          exact onward.data.eq_of_length (Nat.le_antisymm onward.data.length_le back.data.length_le)

/-- What a row becomes by one byte is that row, or was there before. -/
theorem Extends.push_cases {active : Segment} {older between : List Segment} {byte : UInt8}
    {room : active.data.length < active.size} (upper : Extends between (active.push byte room :: older)) :
    between = active.push byte room :: older ∨ Extends between (active :: older) := by
  cases upper with
  | cons onward =>
      rcases List.prefix_concat_iff.mp onward.data with whole | less
      · exact .inl (congrArg (· :: _) (onward.eq_of_data whole))
      · exact .inr (.cons ⟨onward.name, onward.size, less⟩)

/-- What a source does to its segments. -/
inductive Grows (source after : Source) : Prop where
  | push (active : Segment) (older : List Segment) (byte : UInt8) (room : active.data.length < active.size)
      (segments : source.segments = active :: older)
      (grown : after.segments = active.push byte room :: older)
  | roll (fresh : Segment) (grown : after.segments = fresh :: source.segments)
  | still (same : after.segments = source.segments)

section Steps

variable {source after : Source}

theorem grows_grow {byte : UInt8} (stepped : source.grow byte = some after) : Grows source after := by
  unfold Source.grow at stepped
  split at stepped
  · cases stepped
  · next active older segments =>
      split at stepped
      · next room =>
          cases stepped
          exact .push active older byte room segments rfl
      · cases stepped

theorem grows_roll {name : String} {size : Nat} (stepped : source.roll name size = some after) :
    Grows source after := by
  unfold Source.roll at stepped
  split at stepped
  · cases stepped
    exact .roll _ rfl
  · cases stepped

theorem grows_index {path : String} {bytes : Contents} (stepped : source.index path bytes = some after) :
    Grows source after := by
  unfold Source.index at stepped
  split at stepped
  · cases stepped
    exact .still rfl
  · cases stepped

theorem Grows.onward (grows : Grows source after) {segment : Segment} (member : segment ∈ source.segments) :
    ∃ later ∈ after.segments, Onward segment later := by
  cases grows with
  | push active older byte room segments grown =>
      rw [segments] at member
      rw [grown]
      exact (Extends.cons (Onward.push active byte room)).onward member
  | roll fresh grown =>
      rw [grown]
      exact ⟨segment, List.mem_cons_of_mem _ member, Onward.refl segment⟩
  | still same => exact ⟨segment, same ▸ member, Onward.refl segment⟩

end Steps

/-- A log that was listed, as it is now: what was its newest segment is written further, any
newer one came later, and every log in between was there at some moment. -/
structure Tracked (listed : List Segment) (now : Source) (seen : List Source) : Prop where
  kept : ∃ fresh kept, now.segments = fresh ++ kept ∧ Extends listed kept ∧
    ∀ between, Extends listed between → Extends between kept → ∃ moment ∈ seen, moment.segments = between

namespace Tracked

variable {listed : List Segment} {now after : Source} {seen : List Source}

/-- A log is tracked from the moment that it is listed. -/
theorem start {source : Source} (current : source ∈ seen) : Tracked source.segments source seen :=
  ⟨[], source.segments, rfl, Extends.refl _, fun _ lower upper =>
    ⟨source, current, (lower.antisymm upper).symm⟩⟩

theorem grows (tracked : Tracked listed now seen) (grows : Grows now after) :
    Tracked listed after (after :: seen) := by
  obtain ⟨fresh, kept, segments, extended, moments⟩ := tracked
  have earlier : ∀ between, Extends listed between → Extends between kept →
      ∃ moment ∈ after :: seen, moment.segments = between := by
    intro between lower upper
    obtain ⟨moment, member, same⟩ := moments between lower upper
    exact ⟨moment, List.mem_cons_of_mem _ member, same⟩
  cases grows with
  | push active older byte room front grown =>
      rw [front] at segments
      cases fresh with
      | nil =>
          rw [List.nil_append] at segments
          subst segments
          cases extended with
          | cons onward =>
              refine ⟨[], _, grown, .cons (onward.trans (Onward.push active byte room)), ?_⟩
              intro between lower upper
              rcases upper.push_cases with rfl | under
              · exact ⟨after, List.mem_cons_self, grown⟩
              · exact earlier between lower under
      | cons first rest =>
          obtain ⟨rfl, rfl⟩ := List.cons.inj segments
          exact ⟨active.push byte room :: rest, kept, grown, extended, earlier⟩
  | roll next grown =>
      exact ⟨next :: fresh, kept, by rw [grown, segments, List.cons_append], extended, earlier⟩
  | still same => exact ⟨fresh, kept, same.trans segments, extended, earlier⟩

/-- Each segment that was listed is there, written further at most. -/
theorem onward (tracked : Tracked listed now seen) {one : Segment} (member : one ∈ listed) :
    ∃ other ∈ now.segments, Onward one other := by
  obtain ⟨fresh, kept, segments, extended, -⟩ := tracked
  obtain ⟨other, held, onward⟩ := extended.onward member
  exact ⟨other, segments ▸ List.mem_append_right _ held, onward⟩

/-- Of the segments that were listed only the newest is written to. -/
theorem older (tracked : Tracked (one :: rest) now seen) {segment : Segment} (member : segment ∈ rest) :
    segment ∈ now.segments := by
  obtain ⟨fresh, kept, segments, extended, -⟩ := tracked
  cases extended with
  | cons onward =>
      rw [segments]
      exact List.mem_append_right _ (List.mem_cons_of_mem _ member)

end Tracked

/-! ## A copy of what is measured -/

/-- A count of bytes of a segment that is no less than was written of it when it was listed,
zeros aside, and no more than is written now. -/
structure Measured (listed now : Segment) (count : Nat) : Prop where
  written : count ≤ now.data.length
  zeros : ∀ index, count ≤ index → listed.data.getD index 0 = 0

theorem Measured.onward {listed now after : Segment} {count : Nat} (measured : Measured listed now count)
    (onward : Onward now after) : Measured listed after count :=
  ⟨measured.written.trans onward.data.length_le, measured.zeros⟩

/-- A sealed segment that is measured is all there. -/
theorem Measured.bytes {segment : Segment} {count : Nat} (measured : Measured segment segment count) :
    (segment.cut count).bytes = segment.bytes := by
  rw [Segment.bytes_cut]
  refine preallocated_congr ?_ segment.fits fun index => getD_take measured.zeros index
  exact (List.length_take_le' _ _).trans segment.fits

/-- What is measured of a segment that is written to is what it was at some moment. -/
theorem Measured.between {listed now : Segment} {count : Nat} (measured : Measured listed now count)
    (onward : Onward listed now) :
    ∃ moment, Onward listed moment ∧ Onward moment now ∧ moment.bytes = (now.cut count).bytes := by
  by_cases reached : listed.data.length ≤ count
  · refine ⟨now.cut count, ⟨onward.name, onward.size, ?_⟩, Onward.cut now count, rfl⟩
    exact List.prefix_of_prefix_length_le onward.data (List.take_prefix _ _)
      (by simpa [Segment.cut, measured.written] using reached)
  · refine ⟨listed, Onward.refl listed, onward, ?_⟩
    rw [onward.cut_eq (by omega)]
    exact Measured.bytes ⟨by omega, measured.zeros⟩ |>.symm

/-- A copy has a segment as far as it was measured. -/
def Copied (now : Source) (events : Table String Contents) (one : Segment) : Prop :=
  ∃ other ∈ now.segments, Onward one other ∧ ∃ count, Measured one other count ∧
    events.get one.name = some (other.cut count).bytes

theorem Copied.grows {now after : Source} {events : Table String Contents} {one : Segment}
    (copied : Copied now events one) (grows : Grows now after) : Copied after events one := by
  obtain ⟨other, member, onward, count, measured, there⟩ := copied
  obtain ⟨later, member', further⟩ := grows.onward member
  refine ⟨later, member', onward.trans further, count, measured.onward further, ?_⟩
  rw [there, further.cut_eq measured.written]

/-- A copy has every segment of a log as far as it was measured, and no other. -/
structure Settled (listed : List Segment) (now : Source) (events : Table String Contents) : Prop where
  copied : ∀ one ∈ listed, Copied now events one
  within : ∀ path bytes, isLog path = true → events.get path = some bytes → ∃ one ∈ listed, one.name = path

/-- A copy is the log of one moment. -/
theorem Settled.moment {listed : List Segment} {now : Source} {seen : List Source}
    {events : Table String Contents} (settled : Settled listed now events)
    (tracked : Tracked listed now seen) :
    ∃ moment ∈ seen, ∀ path, isLog path = true → events.get path = moment.bytes path := by
  have copy : ∀ {moment : Source}, (∀ segment ∈ moment.segments, events.get segment.name = some segment.bytes) →
      (∀ one ∈ listed, ∃ segment ∈ moment.segments, segment.name = one.name) →
      ∀ path, isLog path = true → events.get path = moment.bytes path := by
    intro moment holds names path log
    cases held : events.get path with
    | some bytes =>
        obtain ⟨one, member, rfl⟩ := settled.within path bytes log held
        obtain ⟨segment, there, same⟩ := names one member
        rw [← held, ← same, holds segment there, Source.bytes_of_mem there]
    | none =>
        refine (Source.bytes_of_notMem log fun segment there same => ?_).symm
        rw [← same, holds segment there] at held
        cases held
  obtain ⟨fresh, kept, segments, extended, moments⟩ := tracked
  cases extended with
  | nil =>
      obtain ⟨moment, member, empty⟩ := moments [] .nil .nil
      exact ⟨moment, member, copy (by simp [empty]) (by simp)⟩
  | @cons one other older onward =>
      have here : other ∈ now.segments := by simp [segments]
      obtain ⟨other', there, onward', count, measured, held⟩ := settled.copied one List.mem_cons_self
      obtain rfl : other' = other := Source.eq_of_name there here (onward'.name.symm.trans onward.name)
      obtain ⟨between, lower, upper, same⟩ := measured.between onward
      obtain ⟨moment, member, row⟩ := moments (between :: older) (.cons lower) (.cons upper)
      refine ⟨moment, member, copy ?_ ?_⟩
      · rw [row]
        refine List.forall_mem_cons.mpr ⟨?_, fun segment sealed_ => ?_⟩
        · rw [← lower.name, held, same]
        · have present : segment ∈ now.segments := by simp [segments, sealed_]
          obtain ⟨later, there, onward, count, measured, held⟩ :=
            settled.copied segment (List.mem_cons_of_mem _ sealed_)
          obtain rfl : later = segment := Source.eq_of_name there present onward.name.symm
          rw [held, measured.bytes]
      · rw [row]
        intro one' member
        rcases List.mem_cons.mp member with rfl | sealed_
        · exact ⟨between, List.mem_cons_self, lower.name.symm⟩
        · exact ⟨one', List.mem_cons_of_mem _ sealed_, rfl⟩

end Hekla.Backup
