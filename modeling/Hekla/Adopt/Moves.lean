import Hekla.Adopt.Run
import Hekla.Keys.Erasure

/-!
# What a run moves

Whatever a run comes to, a key that could be read before it can be read after it, under the
secret it had.  Its row is as it was, or it was a root and hangs from the parent that the
earliest event that sealed under it names.
-/

namespace Hekla.Adopt

open Hekla.Library Host Keys Forest

/-! ## Candidates -/

section Candidates

variable {rows : KeyTable} {subjects : List String} {id : Identity}

theorem mem_rootsIn : id ∈ rootsIn rows subjects ↔
    id.1 ∈ subjects ∧ ∃ row, rows.get id = some row ∧ row.parent = none := by
  unfold rootsIn KeyTable.allSubjectKeys
  rw [List.mem_filter, List.contains_iff_mem, and_comm]
  refine and_congr_right fun _ => ?_
  simp only [List.mem_map, List.mem_filterMap]
  constructor
  · rintro ⟨⟨id', wrapped, master⟩, ⟨⟨key, row⟩, member, kept⟩, rfl⟩
    cases columns : row.wrapping with
    | parent ref =>
        simp only [columns] at kept
        cases kept
    | master id =>
        simp only [columns] at kept
        cases kept
        refine ⟨row, (Table.get_eq_some_iff _ _ _).mpr member, ?_⟩
        unfold SubjectKey.parent
        rw [columns]
  · rintro ⟨row, held, root⟩
    cases columns : row.wrapping with
    | parent ref =>
        unfold SubjectKey.parent at root
        rw [columns] at root
        cases root
    | master master =>
        refine ⟨(id, row.wrapped, master), ⟨⟨id, row⟩, (Table.get_eq_some_iff _ _ _).mp held, ?_⟩, rfl⟩
        simp only [columns]

theorem rootsIn_nodup : (rootsIn rows subjects).Nodup := by
  unfold rootsIn KeyTable.allSubjectKeys
  refine List.Nodup.filter _ ?_
  have keys : (rows.entries.map Sigma.fst).Nodup := rows.nodupKeys
  refine (List.Sublist.nodup ?_ keys)
  rw [List.map_filterMap]
  generalize rows.entries = entries
  induction entries with
  | nil => exact List.Sublist.slnil
  | cons entry entries ih =>
      rw [List.filterMap_cons, List.map_cons]
      cases columns : entry.2.wrapping with
      | parent ref => simpa [columns] using ih.cons entry.1
      | master master => simpa [columns] using ih.cons_cons entry.1

instance : IsStrictTotalOrder Identity before where
  irrefl one below := by
    unfold before at below
    rcases below with less | ⟨-, less⟩ <;> exact lt_irrefl _ less
  trans one middle other first second := by
    unfold before at *
    rcases first with first | ⟨same, first⟩ <;> rcases second with second | ⟨same', second⟩
    · exact .inl (first.trans second)
    · exact .inl (same' ▸ first)
    · exact .inl (same ▸ second)
    · exact .inr ⟨same.trans same', first.trans second⟩
  trichotomous one other above below := by
    unfold before at above below
    push Not at above below
    have subjects : one.1 = other.1 := le_antisymm below.1 above.1
    exact Prod.ext subjects (le_antisymm (below.2 subjects.symm) (above.2 subjects))

theorem mem_sortedRoots : id ∈ sortedRoots rows subjects ↔ id ∈ rootsIn rows subjects :=
  (ordered_perm before (fun root => root) _).mem_iff

theorem rootsOf_of_split {done rest : List Identity} (split : sortedRoots rows subjects = done ++ rest)
    (limit : Nat) : rootsOf rows subjects done.getLast? limit = rest.take limit := by
  unfold rootsOf
  cases ended : done.getLast? with
  | none =>
      rw [List.getLast?_eq_none_iff] at ended
      subst ended
      exact congrArg (List.take limit) split
  | some last =>
      have distinct : ((rootsIn rows subjects).map fun root => root).Nodup := by
        rw [List.map_id']
        exact rootsIn_nodup
      exact congrArg (List.take limit) (ordered_after before _ distinct split ended)

/-- Pages follow one another until the batch is full or there are no more. -/
theorem collect_spec {pages : Nat} {done rest : List Identity}
    (split : sortedRoots rows subjects = done ++ rest) (enough : rest.length < pages) :
    ∃ taken left, sortedRoots rows subjects = taken ++ left ∧
      collect rows subjects pages done.getLast? done = taken ∧ (BATCH ≤ taken.length ∨ left = []) := by
  induction pages generalizing done rest with
  | zero => exact absurd enough (Nat.not_lt_zero _)
  | succ pages ih =>
      unfold collect
      rw [rootsOf_of_split split]
      dsimp only
      cases rest with
      | nil => exact ⟨done, [], split, rfl, .inr rfl⟩
      | cons first rest =>
          have page : (first :: rest).take PAGE ≠ [] := List.cons_ne_nil _ _
          have split' : sortedRoots rows subjects =
              (done ++ (first :: rest).take PAGE) ++ (first :: rest).drop PAGE := by
            rw [split, List.append_assoc, List.take_append_drop]
          rw [List.getLast?_eq_some_getLast page]
          dsimp only
          split
          · next full => exact ⟨_, _, split', rfl, .inl full⟩
          · have fewer : ((first :: rest).drop PAGE).length < pages := by
              rw [List.length_drop]
              unfold PAGE
              rw [List.length_cons] at enough ⊢
              omega
            have ended : (done ++ (first :: rest).take PAGE).getLast? =
                some (((first :: rest).take PAGE).getLast page) := by
              rw [List.getLast?_append_of_ne_nil _ page, List.getLast?_eq_some_getLast page]
            exact ended ▸ ih split' fewer

/-- A pass takes on the first of the roots, and all of them unless its batch is full. -/
theorem candidates_spec : ∃ left, sortedRoots rows subjects = candidates rows subjects ++ left ∧
    (BATCH ≤ (candidates rows subjects).length ∨ left = []) := by
  have enough : (sortedRoots rows subjects).length < (rootsIn rows subjects).length + 1 := by
    rw [sortedRoots, (ordered_perm before _ _).length_eq]
    exact Nat.lt_succ_self _
  obtain ⟨taken, left, split, same, ends⟩ := collect_spec (List.nil_append _).symm enough
  have taken_eq : candidates rows subjects = taken := same
  rw [taken_eq]
  exact ⟨left, split, ends⟩

theorem mem_rootsIn_of_candidate (member : id ∈ candidates rows subjects) : id ∈ rootsIn rows subjects := by
  obtain ⟨left, split, -⟩ := @candidates_spec rows subjects
  rw [← mem_sortedRoots, split]
  exact List.mem_append_left _ member

end Candidates

/-! ## Moving a row -/

section Moving

variable {masters : MasterKeys} {chain : Chain} {st st' st'' : KeyState} {id : Identity} {row : SubjectKey}

/-- A mint leaves every row that can be read. -/
theorem Mint.get_of_intact (mint : Mint masters chain st st') (intact : Intact st.rows.forest id) :
    st'.rows.get id = st.rows.get id := by
  cases mint with
  | draw drawn grows => rfl
  | plant planted new drawn named broken wraps fresh grows place =>
      rw [Table.get_set, if_neg]
      rintro rfl
      exact broken intact

theorem Mints.get_of_intact (mints : Mints masters chain st st') (held : st.rows.get id = some row)
    (intact : Intact st.rows.forest id) : st'.rows.get id = some row := by
  have kept : st'.rows.get id = some row ∧ Intact st'.rows.forest id := by
    induction mints with
    | refl => exact ⟨held, intact⟩
    | tail _ mint ih =>
        refine ⟨(Mint.get_of_intact mint ih.2).trans ih.1, ?_⟩
        exact (mint.intact ih.2 (KeyTable.stands_of_get ih.1)).1
  exact kept.1

/-- A row of the same secret that hangs from a parent. -/
def HungFrom (parent : Identity) (row moved : SubjectKey) : Prop :=
  moved.secret = row.secret ∧ ∃ ref, moved.parent = some ref ∧ ref.identity = parent

/-- What an adoption writes: the ancestors' rows are minted, and the root is hung from the
first of them. -/
theorem adoptIn_rows (masters : MasterKeys) (id parentId : Identity) (above : Chain) (sound : st.Sound) :
    (adoptIn masters (id :: parentId :: above) st).2.rows = st.rows ∨
      ∃ mid, Mints masters (parentId :: above) st mid ∧
        ((adoptIn masters (id :: parentId :: above) st).2.rows = mid.rows ∨
          ∃ row moved, st.rows.get id = some row ∧ row.parent = none ∧ HungFrom parentId row moved ∧
            (adoptIn masters (id :: parentId :: above) st).2.rows = mid.rows.set id moved) := by
  unfold adoptIn
  dsimp only
  split
  · exact .inl rfl
  · exact .inl rfl
  · next row secret read =>
      obtain ⟨held, root, rfl⟩ := adoptRead_some read
      have minted := mintSecretIn_spec masters parentId above sound
      have mints := Preserves.mints sound minted.mints
      have intact := KeyTable.intact_root held root
      split
      · next made =>
          rw [made] at minted
          exact .inr ⟨_, minted.mints, .inl rfl⟩
      · next made =>
          rw [made] at minted
          exact .inr ⟨_, minted.mints, .inl rfl⟩
      · next parent mid made =>
          rw [made] at minted mints
          have parentHolds := minted.holds parent rfl
          dsimp only at parentHolds mints
          refine .inr ⟨mid, minted.mints, ?_⟩
          have still : mid.rows.get id = some row := Mints.get_of_intact minted.mints held intact
          unfold adoptWrite KeyState.wrapKeyUnder KeyTable.adoptSubjectKey
          dsimp only
          rcases compareAndSet_cases mid.rows id row.wrapped
            ⟨⟨mid.entropy, ⟨childKek parent, childAad id parentId, row.secret⟩⟩,
              .parent ⟨parentId, parentFingerprint parent⟩⟩ with lost | ⟨old, _, _, won⟩
          · rw [lost]
            exact .inl rfl
          · rw [won]
            have adopted := Preserves.adopt
              ⟨mid.entropy, ⟨childKek parent, childAad id parentId, row.secret⟩⟩ mints.sound
              still root parentHolds rfl (Nat.le_succ mid.entropy)
            right
            refine ⟨row, ⟨⟨mid.entropy, ⟨childKek parent, childAad id parentId, row.secret⟩⟩,
              .parent ⟨parentId, parentFingerprint parent⟩⟩, held, root, ⟨rfl, _, rfl, rfl⟩, ?_⟩
            split
            · next lost => cases lost
            · next written after wrote =>
                cases wrote
                split
                · rfl
                · rfl
                · next unread =>
                    -- The row has been hung from an intact parent, so it opens.
                    obtain ⟨intact, stands⟩ := adopted.holds id row.secret trivial
                      ⟨KeyTable.intact_root still root, KeyTable.stands_of_get still⟩
                    exact absurd unread (loadSecret_ne_none masters intact stands)

/-- What moves a key moves it to where it is placed, and keeps every other that can be read. -/
structure Placing (places : Identity → Option Chain) (st st' : KeyState) : Prop where
  preserves : Preserves nobody nobody everyone st st'
  rows : ∀ id row, st.rows.get id = some row → Intact st.rows.forest id →
    st'.rows.get id = some row ∨ row.parent = none ∧ ∃ parent above moved,
      places id = some (id :: parent :: above) ∧ st'.rows.get id = some moved ∧ HungFrom parent row moved

variable {places : Identity → Option Chain}

theorem Placing.refl (sound : st.Sound) : Placing places st st :=
  ⟨.refl sound, fun _ _ held _ => .inl held⟩

theorem Placing.trans (first : Placing places st st') (second : Placing places st' st'') :
    Placing places st st'' := by
  refine ⟨first.preserves.trans second.preserves, ?_⟩
  intro id row held intact
  obtain ⟨intact', -⟩ := first.preserves.holds id row.secret trivial ⟨intact, KeyTable.stands_of_get held⟩
  rcases first.rows id row held intact with same | ⟨root, parent, above, moved, placed, held', hung⟩
  · exact second.rows id row same intact'
  · refine .inr ⟨root, parent, above, moved, placed, ?_, hung⟩
    rcases second.rows id moved held' intact' with same | ⟨unhung, _⟩
    · exact same
    · obtain ⟨-, ref, linked, -⟩ := hung
      cases unhung.symm.trans linked

theorem Placing.adoptIn (masters : MasterKeys) {parent : Identity} {above : Chain} (sound : st.Sound)
    (placed : places id = some (id :: parent :: above)) :
    Placing places st (adoptIn masters (id :: parent :: above) st).2 := by
  refine ⟨.adoptIn masters _ sound, ?_⟩
  intro other row held intact
  rcases adoptIn_rows masters id parent above sound with same | ⟨mid, mints, rows⟩
  · rw [same]
    exact .inl held
  · have still := Mints.get_of_intact mints held intact
    rcases rows with same | ⟨old, moved, heldOld, root, hung, same⟩
    · rw [same]
      exact .inl still
    · rw [same, Table.get_set]
      split
      · next here =>
          subst here
          cases held.symm.trans heldOld
          exact .inr ⟨root, parent, above, moved, placed, rfl, hung⟩
      · exact .inl still

/-- A chain that is placed: the head's own, with a parent in it. -/
def Placed (places : Identity → Option Chain) (chain : Chain) : Prop :=
  ∃ id parent above, chain = id :: parent :: above ∧ places id = some chain

theorem Placing.adoptEach {chains : List Chain} {moves : Moves} (sound : st.Sound)
    (placed : ∀ chain ∈ chains, Placed places chain) :
    Placing places st (adoptEach masters chains moves st).2 := by
  induction chains generalizing st moves with
  | nil => exact .refl sound
  | cons chain rest ih =>
      obtain ⟨id, parent, above, rfl, place⟩ := placed chain List.mem_cons_self
      have first := Placing.adoptIn masters sound place
      have others := fun st sound moves => @ih st moves sound fun later member =>
        placed later (List.mem_cons_of_mem _ member)
      unfold Adopt.adoptEach
      split
      · next moved =>
          rw [moved] at first
          exact first.trans (others _ first.preserves.sound _)
      · next moved =>
          rw [moved] at first
          exact first.trans (others _ first.preserves.sound _)
      · next failed =>
          rw [failed] at first
          exact first.trans (others _ first.preserves.sound _)

end Moving

/-! ## Passes -/

section Passes

variable {deployed : Deployed} {decoder : Decoder} {store : Store} {masters : MasterKeys}
  {st st' : KeyState}

theorem chain_of_earliest {log : List StoredEvent} {id : Identity} {chain : Chain}
    (first : earliest deployed decoder log id = some chain) :
    ∃ parent above, chain = id :: parent :: above ∧
      (parent :: above).map Prod.fst = deployed.subjects.ancestors id.1 := by
  obtain ⟨stored, -, told⟩ := List.mem_flatMap.mp (mem_of_firstTold first)
  exact chain_of_mentioned told

theorem mem_placements {search : Search Identity Chain} {id : Identity} {chain : Chain} :
    (id, chain) ∈ placements search ↔ search.found.get id = some chain := by
  unfold placements
  rw [(ordered_perm before Prod.fst _).mem_iff, List.mem_map]
  constructor
  · rintro ⟨entry, member, same⟩
    cases same
    exact (Table.get_eq_some_iff _ _ _).mpr member
  · intro found
    exact ⟨⟨id, chain⟩, (Table.get_eq_some_iff _ _ _).mp found, rfl⟩

theorem placed_of_fold {pending : List Identity} {folded : Folding}
    (read : fold deployed decoder store pending = .ok folded) (chain : Chain)
    (member : chain ∈ placed folded.search) : Placed (earliest deployed decoder store.log) chain := by
  obtain ⟨⟨id, _⟩, placement, rfl⟩ := List.mem_map.mp member
  have found := mem_placements.mp placement
  rw [found_fold read] at found
  split at found
  · obtain ⟨parent, above, same, -⟩ := chain_of_earliest found
    exact ⟨id, parent, above, same, found⟩
  · cases found

variable (deployed decoder store masters)

/-- What a pass comes to: nothing waits, the log cannot be read, or the chains are adopted. -/
theorem pass_cases (st : KeyState) :
    (candidates st.rows deployed.subjects.parented = [] ∧
        pass deployed decoder store masters st = (.ok {}, st)) ∨
      (∃ message, fold deployed decoder store (candidates st.rows deployed.subjects.parented) =
          .error message ∧ pass deployed decoder store masters st = (.error message, st)) ∨
      ∃ folded moves minted, candidates st.rows deployed.subjects.parented ≠ [] ∧
        fold deployed decoder store (candidates st.rows deployed.subjects.parented) = .ok folded ∧
        adoptEach masters (placed folded.search) {} st = (moves, minted) ∧
        ∃ batch, pass deployed decoder store masters st = (.ok batch, minted) ∧
          batch.adopted = moves.adopted ∧ batch.failed = moves.failed ∧
          batch.waiting = (candidates st.rows deployed.subjects.parented).length ∧
          batch.unresolved = folded.search.pending ∧ batch.disagreements = folded.disagreements := by
  unfold pass
  dsimp only
  split
  · next none => exact .inl ⟨List.isEmpty_iff.mp none, rfl⟩
  · next some =>
      split
      · next message read => exact .inr (.inl ⟨message, read, rfl⟩)
      · next folded read =>
          refine .inr (.inr ⟨folded, _, _, ?_, read, rfl, _, rfl, rfl, rfl, rfl, rfl, rfl⟩)
          rintro empty
          exact some (List.isEmpty_iff.mpr empty)

theorem Placing.pass (sound : st.Sound) :
    Placing (earliest deployed decoder store.log) st (pass deployed decoder store masters st).2 := by
  rcases pass_cases deployed decoder store masters st with ⟨-, idle⟩ | ⟨message, -, failed⟩ |
    ⟨folded, moves, minted, -, read, adopted, batch, done, -⟩
  · rw [idle]
    exact .refl sound
  · rw [failed]
    exact .refl sound
  · have placing : Placing (earliest deployed decoder store.log) st
        (Adopt.adoptEach masters (placed folded.search) {} st).2 := .adoptEach sound (placed_of_fold read)
    rw [adopted] at placing
    rw [done]
    exact placing

theorem Placing.passes {more contended : Nat} {done : Adoption} (sound : st.Sound) :
    Placing (earliest deployed decoder store.log) st
      (passes deployed decoder store masters more contended done st).2 := by
  induction more generalizing contended done st with
  | zero => exact .refl sound
  | succ more ih =>
      have first := Placing.pass deployed decoder store masters sound
      unfold Adopt.passes
      dsimp only
      split
      · next failed =>
          rw [failed] at first
          exact first
      · next made =>
          rw [made] at first
          dsimp only at first
          repeat' split
          all_goals first | exact first | exact first.trans (ih first.preserves.sound)

theorem Placing.run (sound : st.Sound) :
    Placing (earliest deployed decoder store.log) st (run deployed decoder store masters st).2 := by
  unfold Adopt.run
  split
  · exact .refl sound
  · exact .passes deployed decoder store masters sound

/-! ## What is reported -/

/-- A disagreement between what is told first of a subject and what is told of it too. -/
def Disagreed (log : List StoredEvent) (disagreement : Disagreement) : Prop :=
  ∃ id kept also, earliest deployed decoder log id = some kept ∧
    (id, also) ∈ log.flatMap (mentioned deployed decoder) ∧ kept ≠ also ∧
    disagreement = ⟨id.1, id.2, render kept.tail, render also.tail⟩

/-- A report of a run: what it says remains is what is counted, and what it says differs does. -/
structure Reported (done : Adoption) (st : KeyState) : Prop where
  remaining : done.remaining = countRootsOf st.rows deployed.subjects.parented
  disagreed : ∀ one ∈ done.disagreements, Disagreed deployed decoder store.log one

variable {deployed decoder store masters}

theorem disagreed_of_pass {batch : Adoption}
    (passed : pass deployed decoder store masters st = (.ok batch, st')) (one : Disagreement)
    (member : one ∈ batch.disagreements) : Disagreed deployed decoder store.log one := by
  rcases pass_cases deployed decoder store masters st with ⟨-, idle⟩ | ⟨message, -, failed⟩ |
    ⟨folded, moves, minted, -, read, adopted, batch', done, -, -, -, -, same⟩
  · cases idle.symm.trans passed
    cases member
  · cases failed.symm.trans passed
  · cases done.symm.trans passed
    exact fold_disagreements read one (same ▸ member)

theorem mem_disagreements_absorb {done batch : Adoption} {one : Disagreement}
    (member : one ∈ (done.absorb batch).disagreements) :
    one ∈ done.disagreements ∨ one ∈ batch.disagreements := by
  rcases List.mem_append.mp member with before | added
  · exact .inl before
  · exact .inr (List.mem_of_mem_filter (List.mem_of_mem_take added))

theorem reported_of_passes {more contended : Nat} {done final : Adoption}
    (disagreed : ∀ one ∈ done.disagreements, Disagreed deployed decoder store.log one)
    (counted : more = 0 → done.remaining = countRootsOf st.rows deployed.subjects.parented)
    (ran : passes deployed decoder store masters more contended done st = (.ok final, st')) :
    Reported deployed decoder store final st' := by
  induction more generalizing contended done st with
  | zero =>
      cases ran
      exact ⟨counted rfl, disagreed⟩
  | succ more ih =>
      unfold passes at ran
      dsimp only at ran
      split at ran
      · cases ran
      · next batch after passed =>
          have reported : Reported deployed decoder store
              { done.absorb batch with
                remaining := countRootsOf after.rows deployed.subjects.parented } after := by
            refine ⟨rfl, fun one member => ?_⟩
            rcases mem_disagreements_absorb member with before | added
            · exact disagreed one before
            · exact disagreed_of_pass passed one added
          repeat' split at ran
          all_goals
            first
            | (cases ran; exact reported)
            | exact ih reported.disagreed (fun _ => rfl) ran

/-- What a run reports is so. -/
theorem reported_of_run {done : Adoption}
    (ran : run deployed decoder store masters st = (.ok done, st')) :
    Reported deployed decoder store done st' := by
  unfold run at ran
  split at ran
  · next none =>
      cases ran
      refine ⟨?_, fun one member => absurd member List.not_mem_nil⟩
      rw [List.isEmpty_iff.mp none]
      simp [countRootsOf, rootsIn]
  · refine reported_of_passes (fun one member => absurd member List.not_mem_nil) (fun zero => ?_) ran
    cases zero

theorem unfinished_eq_none_iff (done : Adoption) : unfinished done = none ↔ done.remaining = 0 := by
  unfold unfinished
  split
  · next zero => exact ⟨fun _ => zero, fun _ => rfl⟩
  · next some =>
      refine ⟨fun none => ?_, fun zero => absurd zero some⟩
      repeat' split at none
      all_goals cases none

/-- A run is settled when no root of a subject with a parent is left. -/
theorem Reported.settled_iff {done : Adoption} (reported : Reported deployed decoder store done st) :
    done.settled = true ↔ ∀ id row, st.rows.get id = some row → row.parent = none →
      deployed.subjects.parents.get id.1 = none := by
  unfold Adoption.settled
  rw [Option.isNone_iff_eq_none, unfinished_eq_none_iff, reported.remaining, countRootsOf,
    List.length_eq_zero_iff, List.eq_nil_iff_forall_not_mem]
  constructor
  · intro none id row held root
    by_contra under
    obtain ⟨parent, under⟩ := Option.ne_none_iff_exists'.mp under
    exact none id (mem_rootsIn.mpr ⟨Subjects.mem_parented.mpr ⟨parent, under⟩, row, held, root⟩)
  · intro none id member
    obtain ⟨parented, row, held, root⟩ := mem_rootsIn.mp member
    obtain ⟨parent, under⟩ := Subjects.mem_parented.mp parented
    cases (none id row held root).symm.trans under

/-- A run of the adoption, whatever the log says and however it ends, brings no erased key back
and loses none that could be read: such a row is as it was, or was a root and hangs, with the
secret it has, from the parent the earliest event that sealed under it names.  A run says that it is
settled exactly when no root of a subject that declares a parent is left, and every
disagreement it reports is one. -/
theorem run_places_earliest {ops : List KeyOp} (deployed : Deployed) (decoder : Decoder) (store : Store)
    (masters : MasterKeys) (ran : Library.run KeyOp.step {} ops = some st) :
    Placing (earliest deployed decoder store.log) st (run deployed decoder store masters st).2 ∧
      ∀ done, (run deployed decoder store masters st).1 = .ok done →
        (done.settled = true ↔ ∀ id row,
          (run deployed decoder store masters st).2.rows.get id = some row → row.parent = none →
            deployed.subjects.parents.get id.1 = none) ∧
        ∀ one ∈ done.disagreements, Disagreed deployed decoder store.log one := by
  refine ⟨.run deployed decoder store masters (KeyOp.sound_of_run KeyState.Sound.start ran), ?_⟩
  intro done ended
  have reported : Reported deployed decoder store done (run deployed decoder store masters st).2 :=
    reported_of_run (Prod.ext ended rfl)
  exact ⟨reported.settled_iff, reported.disagreed⟩

end Passes

/-! ## A customer of a shop -/

/-- Customers are declared under shops. -/
def customersOfShops : Subjects where
  parents := Table.set ∅ "Customer" "Shop"
  ends := by
    intro name last member
    by_cases customer : name = "Customer"
    · subst customer
      cases member
      rfl
    · have top : (Table.set ∅ "Customer" "Shop" : Table String String).get name = none := by
        rw [Table.get_set, if_neg customer, Table.get_empty]
      have alone : ancestorsIn (Table.set ∅ "Customer" "Shop") 1 name = [] := by
        simp only [ancestorsIn, top]
      rw [show (Table.set ∅ "Customer" "Shop" : Table String String).entries.length = 1 from rfl,
        alone] at member
      cases member
      exact top

/-- An order seals an address under its buyer, and the buyer under the shop. -/
def orderPlaced : EventDef where
  fields := [("buyer", {}), ("shop", {}),
    ("email", { sealedUnder := some ⟨"Customer", "buyer", [("Shop", "shop")]⟩ })]
  distinct := by decide
  identifiers := by decide
  unreserved := by decide

def ordersOfShops : Deployed where
  subjects := customersOfShops
  events := Table.set ∅ "OrderPlaced" orderPlaced
  carriers := fun _ ancestor => if ancestor = "Shop" then ["shop"] else []
  filed := by
    intro type declared name field chain event member filed
    rw [Table.get_set, Table.get_empty] at event
    split at event
    · cases event
      simp only [orderPlaced, List.mem_cons, Prod.mk.injEq, List.not_mem_nil, or_false] at member
      rcases member with ⟨-, rfl⟩ | ⟨-, rfl⟩ | ⟨-, rfl⟩
      · cases filed
      · cases filed
      · cases filed
        exact ⟨by rfl, by rfl⟩
    · cases event

/-- An event read as it is stored. -/
def asStored : Decoder where
  read := fun stored =>
    .ok ⟨[stored.eventType], Table.ofList (stored.data.map fun field => (field.1, ⟨field.2, false⟩))⟩
  typed := by
    intro stored event read
    cases read
    exact String.intercalate_singleton

/-- One order, of a customer at a shop. -/
def oneOrder : Store where
  log := [⟨"OrderPlaced", [], ⟨"c", "c", none⟩,
    [("buyer", .str "88"), ("shop", .str "7"), ("email", .str "sealed")]⟩]

theorem earliest_oneOrder : earliest ordersOfShops asStored oneOrder.log KeyOp.customer =
    some [KeyOp.customer, KeyOp.shop] := by rfl

/-- A customer's key that hangs from nothing, as it was before shops were declared. -/
theorem run_places_earliest_of_order :
    Placing (earliest ordersOfShops asStored oneOrder.log)
      (KeyOp.perform {} (.encrypt KeyOp.oneMaster [KeyOp.customer] "email" "a@b.c"))
      (run ordersOfShops asStored oneOrder KeyOp.oneMaster
        (KeyOp.perform {} (.encrypt KeyOp.oneMaster [KeyOp.customer] "email" "a@b.c"))).2 ∧
      earliest ordersOfShops asStored oneOrder.log KeyOp.customer = some [KeyOp.customer, KeyOp.shop] := by
  have ran : Library.run KeyOp.step {} [.encrypt KeyOp.oneMaster [KeyOp.customer] "email" "a@b.c"] =
      some (KeyOp.perform {} (.encrypt KeyOp.oneMaster [KeyOp.customer] "email" "a@b.c")) := rfl
  exact ⟨(run_places_earliest ordersOfShops asStored oneOrder KeyOp.oneMaster ran).1, earliest_oneOrder⟩

end Hekla.Adopt
