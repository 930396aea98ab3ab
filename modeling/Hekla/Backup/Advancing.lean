import Hekla.Backup.Underway

/-!
# One operation of a run

What a run has done after its next operation, phase after phase.  A file is reused only
where it is a sealed segment: then what is held of it is a front of what the source has, and
one that ends where the whole does is the whole.
-/

namespace Hekla.Backup.Copying

open Hekla.Library

variable {listed now : Source} {seen : List Source} {target : Target} {path : String}

theorem Written.set {row : List Segment} {staged : Table String Contents} {form : Segment → Contents}
    {count : Nat} {bytes : Contents}
    (written : ∀ one ∈ row, one.name = path → ∃ other ∈ now.segments, Onward one other ∧
      count ≤ other.data.length ∧ bytes = form (other.cut count)) :
    Written row now (staged.set path bytes) form path count := by
  intro one member named
  obtain ⟨other, there, onward, within, same⟩ := written one member named
  exact ⟨other, there, onward, within, by rw [Table.get_set, if_pos rfl, same]⟩

theorem Held.set {events : Table String Contents} {bytes : Contents} (held : Held now events)
    (good : isLog path = true → ∃ segment ∈ now.segments, segment.name = path ∧
      ∃ count ≤ segment.data.length, bytes = (segment.cut count).bytes) :
    Held now (events.set path bytes) := by
  intro path' bytes' log there
  rw [Table.get_set] at there
  split at there
  · next same =>
      subst same
      exact Option.some.inj there ▸ good log
  · exact held path' bytes' log there

theorem Held.remove {events : Table String Contents} (held : Held now events) :
    Held now (events.remove path) := by
  intro path' bytes log there
  rw [Table.get_remove] at there
  split at there
  · cases there
  · exact held path' bytes log there

/-! ## Measuring -/

/-- The segment of a file that was listed. -/
theorem size_of_listed {size : Nat} {one : Segment} (known : (path, size) ∈ listed.files)
    (member : one ∈ listed.segments) (named : one.name = path) : size = one.size := by
  have log : isLog path = true := named ▸ (listed.logs one member).1
  obtain ⟨segment, there, named', rfl⟩ := (Source.mem_files log).mp known
  rw [Source.eq_of_name member there (named.trans named'.symm)]

theorem scanning_from_end {todo : List (String × Nat)} (known : todo ⊆ listed.files) :
    ∀ file, todo.head? = some file →
      Scanning listed.segments file.1 ((todo.head?.map Prod.snd).getD 0) := by
  intro file first one member named index above
  have size := size_of_listed (known (List.mem_of_head? first)) member named
  rw [first, Option.map_some, Option.getD_some, size] at above
  rw [List.getD_eq_getElem?_getD, List.getElem?_eq_none (one.fits.trans above)]
  rfl

/-- One chunk further to the front. -/
theorem Scanning.onward {stop start : Nat} {bytes : Contents} (tracked : Tracked listed.segments now seen)
    (scanning : Scanning listed.segments path stop) (found : now.bytes path = some bytes)
    (scans : ScansTo 0 bytes stop start) : Scanning listed.segments path start := by
  intro one member named index above
  by_cases beyond : stop ≤ index
  · exact scanning one member named index beyond
  · obtain ⟨other, there, onward⟩ := tracked.onward member
    rw [← named, onward.name, Source.bytes_of_mem there] at found
    cases found
    refine onward.zeros ?_
    rw [← getD_preallocated other.size other.data index]
    exact scans.zeros index above (by omega)

/-- Where a scan ends a segment is measured. -/
theorem measured_of_scan {stop extent : Nat} {bytes : Contents} {one : Segment}
    (tracked : Tracked listed.segments now seen) (scanning : Scanning listed.segments path stop)
    (found : now.bytes path = some bytes) (scanned : scanChunk 0 CHUNK bytes stop = some (.ended extent))
    (member : one ∈ listed.segments) (named : one.name = path) :
    ∃ other ∈ now.segments, Onward one other ∧ Measured one other extent ∧
      (extent ≠ 0 → other.data.getD (extent - 1) 0 ≠ 0) := by
  obtain ⟨scans, last⟩ := scanChunk_ended scanned
  have zeros := Scanning.onward tracked scanning found scans one member named
  obtain ⟨other, there, onward⟩ := tracked.onward member
  rw [← named, onward.name, Source.bytes_of_mem there] at found
  cases found
  have last' : extent ≠ 0 → other.data.getD (extent - 1) 0 ≠ 0 := fun some_ => by
    rw [← getD_preallocated other.size other.data]
    exact last some_
  refine ⟨other, there, onward, ⟨?_, zeros⟩, last'⟩
  by_contra beyond
  refine last' (by omega) ?_
  rw [List.getD_eq_getElem?_getD, List.getElem?_eq_none (by omega)]
  rfl

/-- The segment that is written to has the highest name. -/
theorem activeSegment_files {first : Segment} {rest : List Segment} (segments : listed.segments = first :: rest) :
    activeSegment listed.files = some first.name := by
  have newest := listed.newest
  have known : first ∈ listed.segments := segments ▸ List.mem_cons_self
  have log := (listed.logs first known).1
  unfold activeSegment
  refine List.max?_eq_some_iff.mpr ⟨?_, fun name member => ?_⟩
  · refine List.mem_filter.mpr ⟨List.mem_map.mpr ⟨(first.name, first.size), ?_, rfl⟩, log⟩
    exact (Source.mem_files log).mpr ⟨first, known, rfl, rfl⟩
  · obtain ⟨file, log'⟩ := List.mem_filter.mp member
    obtain ⟨file, held, rfl⟩ := List.mem_map.mp file
    obtain ⟨segment, there, named, -⟩ := (Source.mem_files log').mp held
    rw [segments] at there newest
    rw [← named]
    rcases List.mem_cons.mp there with rfl | later
    · exact le_refl _
    · exact ((List.pairwise_cons.mp newest).1 _ (List.mem_map_of_mem later)).le

/-- A file that is reused is a sealed segment, and whole. -/
theorem copied_of_reuses {size extent : Nat} {one other : Segment} (held : Held now target.events)
    (tracked : Tracked listed.segments now seen) (reuses : target.reuses listed.files path size extent = true)
    (member : one ∈ listed.segments) (named : one.name = path) (sized : size = one.size)
    (there : other ∈ now.segments) (onward : Onward one other) (measured : Measured one other extent)
    (last : extent ≠ 0 → other.data.getD (extent - 1) 0 ≠ 0) : Copied now target.events one := by
  unfold Target.reuses at reuses
  obtain ⟨inactive, same⟩ := Bool.and_eq_true_iff.mp reuses
  have still : one = other := by
    cases segments : listed.segments with
    | nil =>
        rw [segments] at member
        cases member
    | cons first rest =>
        rw [activeSegment_files segments, bne_iff_ne, ← named] at inactive
        rw [segments] at member tracked
        rcases List.mem_cons.mp member with rfl | older
        · exact absurd rfl inactive
        · exact Source.eq_of_name (tracked.older older) there onward.name
  subst still
  split at same
  · cases same
  · next bytes found =>
      rw [← named] at found
      obtain ⟨segment, present, named', count, within, front⟩ :=
        held one.name bytes (listed.logs one member).1 found
      obtain rfl := Source.eq_of_name present there named'
      obtain ⟨length, extents⟩ := Bool.and_eq_true_iff.mp same
      have full : bytes.length = size := beq_iff_eq.mp length
      rw [← full, committedExtent_eq chunk_pos, beq_iff_eq, Option.some.injEq] at extents
      have whole : Library.extent 0 segment.data = extent := by
        refine Nat.le_antisymm (extent_le_iff.mpr measured.zeros) ?_
        by_contra less
        exact last (by omega) (extent_le_iff.mp (Nat.le_refl _) _ (by omega))
      have cut : Library.extent 0 (segment.data.take count) = Library.extent 0 segment.data := by
        rw [whole, ← extents, front]
        exact extent_congr fun index => (getD_preallocated segment.size _ index).symm
      refine ⟨segment, there, onward, segment.data.length, ⟨Nat.le_refl _, fun index above => ?_⟩, ?_⟩
      · rw [List.getD_eq_getElem?_getD, List.getElem?_eq_none above]
        rfl
      · rw [found, front, Segment.cut_eq_self (Nat.le_refl _)]
        refine congrArg some (preallocated_congr (segment.cut count).fits segment.fits ?_)
        exact getD_take_of_extent cut

/-- A file that is measured is planned, unless it is reused. -/
theorem Planning.next {size extent : Nat} {rest : List (String × Nat)} {planned : List Planned}
    (held : Held now target.events) (tracked : Tracked listed.segments now seen)
    (known : (path, size) ∈ listed.files)
    (planning : Planning listed.segments now target.events (path :: rest.map Prod.fst) planned)
    (measured : ∀ one ∈ listed.segments, one.name = path → ∃ other ∈ now.segments, Onward one other ∧
      Measured one other extent ∧ (extent ≠ 0 → other.data.getD (extent - 1) 0 ≠ 0)) :
    Planning listed.segments now target.events (rest.map Prod.fst)
      (if target.reuses listed.files path size extent then planned else planned ++ [⟨path, size, extent⟩]) := by
  by_cases reuses : target.reuses listed.files path size extent = true
  · rw [if_pos reuses]
    refine ⟨planning.measured, fun one member => ?_⟩
    rcases planning.covered one member with left | done
    · rcases List.mem_cons.mp left with named | later
      · obtain ⟨other, there, onward, bounds, last⟩ := measured one member named
        exact .inr (.inr (copied_of_reuses held tracked reuses member named
          (size_of_listed known member named) there onward bounds last))
      · exact .inl later
    · exact .inr done
  · rw [if_neg reuses]
    constructor
    · intro file member
      rcases List.mem_append.mp member with earlier | new
      · exact planning.measured file earlier
      · obtain rfl := List.mem_singleton.mp new
        refine ⟨fun log => ?_, fun one member named => ?_⟩
        · obtain ⟨segment, there, named, -⟩ := (Source.mem_files log).mp known
          exact ⟨segment, there, named⟩
        · obtain ⟨other, there, onward, bounds, -⟩ := measured one member named
          exact ⟨other, there, onward, (size_of_listed known member named).trans onward.size, bounds⟩
    · intro one member
      rcases planning.covered one member with left | ⟨file, planned_, named⟩ | copied
      · rcases List.mem_cons.mp left with named | later
        · exact .inr (.inl ⟨_, List.mem_append_right _ (List.mem_singleton_self _), named.symm⟩)
        · exact .inl later
      · exact .inr (.inl ⟨file, List.mem_append_left _ planned_, named⟩)
      · exact .inr (.inr copied)

/-! ## Copying -/

/-- A file that is not of the listing is no segment's. -/
theorem Planning.remove {todo : List String} {planned : List Planned}
    (planning : Planning listed.segments now target.events todo planned)
    (stale : path ∉ listed.files.map Prod.fst) :
    Planning listed.segments now (target.events.remove path) todo planned := by
  refine ⟨planning.measured, fun one member => ?_⟩
  rcases planning.covered one member with left | plan | copied
  · exact .inl left
  · exact .inr (.inl plan)
  · obtain ⟨other, there, onward, count, measured, held⟩ := copied
    refine .inr (.inr ⟨other, there, onward, count, measured, ?_⟩)
    have apart : one.name ≠ path := by
      rintro rfl
      have log := (listed.logs one member).1
      have file : (one.name, one.size) ∈ listed.files := (Source.mem_files log).mpr ⟨one, member, rfl, rfl⟩
      exact stale (List.mem_map_of_mem file)
    rw [Table.get_remove, if_neg apart, held]

theorem within_of_kept (kept : ∀ path ∈ target.events.keys, path ∈ listed.files.map Prod.fst) :
    Within listed.segments target.events := by
  intro path bytes log there
  have key := kept path ((Table.mem_keys_iff target.events path).mpr ⟨bytes, there⟩)
  obtain ⟨file, held, rfl⟩ := List.mem_map.mp key
  obtain ⟨segment, member, named, -⟩ := (Source.mem_files log).mp held
  exact ⟨segment, member, named⟩

/-- What a file is created with. -/
theorem written_nothing {staged : Table String Contents} {file : Planned}
    (planned : PlannedFor listed.segments now file) :
    Written listed.segments now (staged.set file.path []) Segment.data file.path 0 := by
  refine Written.set fun one member named => ?_
  obtain ⟨other, there, onward, -, -⟩ := planned.measured one member named
  exact ⟨other, there, onward, Nat.zero_le _, rfl⟩

/-- A chunk more of a file. -/
theorem Written.chunk {staged : Table String Contents} {file : Planned} {done span : Nat}
    {bytes read : Contents} (planned : PlannedFor listed.segments now file)
    (written : Written listed.segments now staged Segment.data file.path done)
    (found : now.bytes file.path = some bytes) (chunk : readExactAt bytes done span = some read)
    (within : done + span ≤ file.extent) :
    Written listed.segments now (staged.set file.path ((staged.get file.path).getD [] ++ read))
      Segment.data file.path (done + span) := by
  refine Written.set fun one member named => ?_
  obtain ⟨other, there, onward, -, content⟩ := written one member named
  obtain ⟨same, there', onward', -, measured⟩ := planned.measured one member named
  obtain rfl := Source.eq_of_name there' there (onward'.name.symm.trans onward.name)
  have bound := within.trans measured.written
  rw [← named, onward.name, Source.bytes_of_mem there] at found
  cases found
  refine ⟨same, there, onward, bound, ?_⟩
  rw [content, readExactAt_preallocated bound chunk, Option.getD_some]
  exact List.take_add.symm

/-- A file is given its length. -/
theorem Written.sized {staged : Table String Contents} {file : Planned}
    (planned : PlannedFor listed.segments now file)
    (written : Written listed.segments now staged Segment.data file.path file.extent) :
    Written listed.segments now (staged.set file.path (setLen file.size ((staged.get file.path).getD [])))
      Segment.bytes file.path file.extent := by
  refine Written.set fun one member named => ?_
  obtain ⟨other, there, onward, within, content⟩ := written one member named
  obtain ⟨same, there', onward', size, -⟩ := planned.measured one member named
  obtain rfl := Source.eq_of_name there' there (onward'.name.symm.trans onward.name)
  refine ⟨same, there, onward, within, ?_⟩
  have fits : (same.cut file.extent).data.length ≤ same.size := (same.cut file.extent).fits
  rw [content, Option.getD_some, size]
  unfold setLen
  rw [List.take_of_length_le fits]
  rfl

/-- A file is put in place. -/
theorem Planning.place {staged events : Table String Contents} {file : Planned} {rest : List Planned}
    {bytes : Contents} (planning : Planning listed.segments now events [] (file :: rest))
    (written : Written listed.segments now staged Segment.bytes file.path file.extent)
    (found : staged.get file.path = some bytes) :
    Planning listed.segments now (events.set file.path bytes) [] rest := by
  refine ⟨fun other member => planning.measured other (List.mem_cons_of_mem _ member), fun one member => ?_⟩
  by_cases named : one.name = file.path
  · obtain ⟨other, there, onward, -, content⟩ := written one member named
    obtain ⟨same, there', onward', -, measured⟩ :=
      (planning.measured file List.mem_cons_self).measured one member named
    obtain rfl := Source.eq_of_name there' there (onward'.name.symm.trans onward.name)
    rw [found, Option.some.injEq] at content
    exact .inr (.inr ⟨same, there, onward, file.extent, measured, by rw [Table.get_set, if_pos named, content]⟩)
  · rcases planning.covered one member with left | ⟨planned, listed_, named'⟩ | copied
    · cases left
    · rcases List.mem_cons.mp listed_ with rfl | later
      · exact absurd named'.symm named
      · exact .inr (.inl ⟨planned, later, named'⟩)
    · obtain ⟨other, there, onward, count, measured, held⟩ := copied
      exact .inr (.inr ⟨other, there, onward, count, measured, by rw [Table.get_set, if_neg named, held]⟩)

theorem Within.place {row : List Segment} {events : Table String Contents} {file : Planned} {bytes : Contents}
    (within : Within row events) (planned : PlannedFor row now file) :
    Within row (events.set file.path bytes) := by
  intro path bytes log there
  rw [Table.get_set] at there
  split at there
  · next same => exact same ▸ planned.known (same ▸ log)
  · exact within path bytes log there

/-- What is put in place is a front of what the source has. -/
theorem Held.place {staged events : Table String Contents} {file : Planned} {bytes : Contents}
    (held : Held now events) (planned : PlannedFor listed.segments now file)
    (written : Written listed.segments now staged Segment.bytes file.path file.extent)
    (found : staged.get file.path = some bytes) : Held now (events.set file.path bytes) := by
  refine held.set fun log => ?_
  obtain ⟨one, member, named⟩ := planned.known log
  obtain ⟨other, there, onward, within, content⟩ := written one member named
  rw [found, Option.some.injEq] at content
  exact ⟨other, there, onward.name.symm.trans named, file.extent, within, content⟩

end Hekla.Backup.Copying
