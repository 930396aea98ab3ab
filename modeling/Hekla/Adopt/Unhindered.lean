import Hekla.Adopt.Moves

/-!
# Adoptions that nothing hinders

Where every row hangs from a subject that its own is declared under, no walk up the parents
is longer than the hierarchy.  With the masters at hand a mint then always answers, and the
adoption of a root moves it; no root of a subject with a parent comes of it.
-/

namespace Hekla.Adopt

open Hekla.Library Host Keys Forest

/-- A row that hangs from another hangs from its subject's declared parent. -/
def Hung (subjects : Subjects) (rows : KeyTable) : Prop :=
  ∀ id row ref, rows.get id = some row → row.parent = some ref →
    subjects.parents.get id.1 = some ref.identity.1

/-- Every master a row names is configured. -/
def MastersHeld (masters : MasterKeys) (rows : KeyTable) : Prop :=
  ∀ id row master, rows.get id = some row → row.wrapping = .master master → masters.holds master = true

/-- A hierarchy that is not too deep for the store. -/
def Shallow (subjects : Subjects) : Prop := ∀ name, (subjects.ancestors name).length ≤ maxSubjectDepth

section Walks

variable {subjects : Subjects} {rows : KeyTable}

theorem within_of_hung (hung : Hung subjects rows) {levels : Nat} {id : Identity}
    (enough : (subjects.ancestors id.1).length < levels) : Within rows.forest levels id := by
  induction levels generalizing id with
  | zero => exact absurd enough (Nat.not_lt_zero _)
  | succ levels ih =>
      rintro upper ⟨node, gen, found, above⟩
      obtain ⟨row, held, rfl⟩ := KeyTable.get_of_forest found
      obtain ⟨ref, linked, rfl, -⟩ := SubjectKey.node_above above
      have under := hung id row ref held linked
      refine ih ?_
      rw [Subjects.ancestors_of_some under, List.length_cons] at enough
      omega

theorem Hung.set (hung : Hung subjects rows) {id : Identity} {row : SubjectKey}
    (declared : ∀ ref, row.parent = some ref → subjects.parents.get id.1 = some ref.identity.1) :
    Hung subjects (rows.set id row) := by
  intro other found ref held linked
  rw [Table.get_set] at held
  split at held
  · next here =>
      cases held
      exact here ▸ declared ref linked
  · exact hung other found ref held linked

theorem MastersHeld.set {masters : MasterKeys} (held : MastersHeld masters rows) {id : Identity}
    {row : SubjectKey} (primary : ∀ master, row.wrapping = .master master → master = masters.primary) :
    MastersHeld masters (rows.set id row) := by
  intro other found master at_other columns
  rw [Table.get_set] at at_other
  split at at_other
  · cases at_other
    rw [primary master columns]
    simp [MasterKeys.holds]
  · exact held other found master at_other columns

end Walks

/-! ## Minting -/

/-- What a mint that nothing hinders leaves: rows elsewhere as they are, and no root of a
subject that has a parent. -/
structure Grown (masters : MasterKeys) (subjects : Subjects) (chain : Chain) (st st' : KeyState) : Prop where
  hung : Hung subjects st'.rows
  held : MastersHeld masters st'.rows
  elsewhere : ∀ id, id ∉ chain → st'.rows.get id = st.rows.get id
  rooted : ∀ id row, st'.rows.get id = some row → row.parent = none →
    subjects.parents.get id.1 ≠ none → st.rows.get id = some row

section Minting

variable {masters : MasterKeys} {subjects : Subjects} {st st' : KeyState} {id : Identity}

theorem openExisting_eq (st : KeyState) (masters : MasterKeys) (id : Identity) :
    st.openExisting masters id (st.rows.get id) = loadSecretAt masters st.rows (maxSubjectDepth + 1) id := by
  unfold loadSecretAt KeyState.openExisting
  cases st.rows.get id <;> rfl

theorem openExisting_ne_error (sound : st.Sound) (hung : Hung subjects st.rows)
    (held : MastersHeld masters st.rows) (shallow : Shallow subjects) (message : String) :
    st.openExisting masters id (st.rows.get id) ≠ .error message := by
  rw [openExisting_eq]
  exact loadSecretAt_ne_error sound.wraps held
    (within_of_hung hung (Nat.lt_succ_of_le (shallow id.1))) message

/-- A fresh row takes the place of the one that was read. -/
theorem insertFresh_ok (st : KeyState) (masters : MasterKeys) (id : Identity)
    (parent : Option (Identity × Secret)) :
    ∃ row secret drawn, st.insertFresh masters id (st.rows.get id) parent =
        (.ok (some secret), ⟨st.rows.set id row, drawn⟩) ∧
      (parent = none ∧ row.wrapping = .master masters.primary ∨
        ∃ parentId gen, parent = some (parentId, gen) ∧
          row.wrapping = .parent ⟨parentId, parentFingerprint gen⟩) := by
  obtain ⟨fresh, drawn, -, wraps, columns⟩ := candidate_spec st masters id parent
  have inserted : st.rows.getOrInsertSubjectKey id fresh (st.rows.get id) =
      (st.rows.set id fresh, fresh) := by
    unfold KeyTable.getOrInsertSubjectKey
    cases st.rows.get id with
    | none => rfl
    | some row => simp
  have opened : ∃ secret, KeyState.openPersisted ⟨st.rows.set id fresh, st.entropy + 2⟩ masters id fresh parent =
      .ok (some secret) := by
    unfold KeyState.openPersisted
    unfold SubjectKey.Wraps at wraps
    rcases columns with ⟨-, root⟩ | ⟨parentId, gen, rfl, child⟩
    · rw [root] at wraps ⊢
      have primary : masters.masterFor masters.primary id.1 = .ok (.master masters.primary) := by
        simp [MasterKeys.masterFor, MasterKeys.holds]
      dsimp only
      rw [primary]
      exact ⟨_, map_unwrapKeyUnder wraps.1 wraps.2⟩
    · rw [child] at wraps ⊢
      dsimp only
      rw [if_pos ⟨rfl, rfl⟩]
      exact ⟨_, map_unwrapKeyUnder wraps.1 wraps.2⟩
  obtain ⟨secret, opens⟩ := opened
  refine ⟨fresh, secret, st.entropy + 2, ?_, columns⟩
  unfold KeyState.insertFresh
  rw [drawn]
  dsimp only
  rw [inserted]
  dsimp only
  rw [opens]

theorem Grown.refl {chain : Chain} (hung : Hung subjects st.rows) (held : MastersHeld masters st.rows) :
    Grown masters subjects chain st st :=
  ⟨hung, held, fun _ _ => rfl, fun _ _ held _ _ => held⟩

theorem Grown.trans {st'' : KeyState} {chain : Chain} (first : Grown masters subjects chain st st')
    (second : Grown masters subjects chain st' st'') : Grown masters subjects chain st st'' where
  hung := second.hung
  held := second.held
  elsewhere id outside := (second.elsewhere id outside).trans (first.elsewhere id outside)
  rooted id row held root under := first.rooted id row (second.rooted id row held root under) root under

theorem Grown.mono {chain more : Chain} (grown : Grown masters subjects chain st st')
    (within : chain ⊆ more) : Grown masters subjects more st st' :=
  { grown with elsewhere := fun id outside => grown.elsewhere id fun inside => outside (within inside) }

/-- A fresh row that hangs as its subject is declared to. -/
theorem Grown.plant {chain : Chain} {row : SubjectKey} (drawn : Nat) (hung : Hung subjects st.rows)
    (held : MastersHeld masters st.rows) (member : id ∈ chain)
    (placed : row.wrapping = .master masters.primary ∧ subjects.parents.get id.1 = none ∨
      ∃ ref, row.wrapping = .parent ref ∧ subjects.parents.get id.1 = some ref.identity.1) :
    Grown masters subjects chain st ⟨st.rows.set id row, drawn⟩ := by
  refine ⟨hung.set fun ref linked => ?_, held.set fun master columns => ?_, ?_, ?_⟩
  · unfold SubjectKey.parent at linked
    rcases placed with ⟨root, -⟩ | ⟨ref', child, declared⟩
    · rw [root] at linked
      cases linked
    · rw [child] at linked
      cases linked
      exact declared
  · rcases placed with ⟨root, -⟩ | ⟨ref', child, -⟩
    · cases root.symm.trans columns
      rfl
    · cases child.symm.trans columns
  · intro other outside
    rw [Table.get_set, if_neg]
    rintro rfl
    exact outside member
  · intro other found held root under
    rw [Table.get_set] at held
    split at held
    · next here =>
        cases held
        subst here
        rcases placed with ⟨-, top⟩ | ⟨ref', child, -⟩
        · exact absurd top under
        · unfold SubjectKey.parent at root
          rw [child] at root
          cases root
    · exact held

theorem retryMint_first {attempt : KeyState → Except String (Option Secret) × KeyState} {secret : Secret}
    (answers : attempt st = (.ok (some secret), st')) (more : Nat) :
    retryMint attempt (more + 1) st = (.ok (some secret), st') := by
  unfold retryMint
  rw [answers]

theorem tryMintIn_ok (shallow : Shallow subjects) (above : Chain) (id : Identity) {st : KeyState}
    (sound : st.Sound) (hung : Hung subjects st.rows) (held : MastersHeld masters st.rows)
    (declared : above.map Prod.fst = subjects.ancestors id.1) :
    ∃ secret st', tryMintIn masters (id :: above) st = (.ok (some secret), st') ∧
      Grown masters subjects (id :: above) st st' := by
  induction above generalizing id st with
  | nil =>
      have top : subjects.parents.get id.1 = none := Subjects.ancestors_eq_nil_iff.mp declared.symm
      unfold tryMintIn
      dsimp only
      cases opens : st.openExisting masters id (st.rows.get id) with
      | error message => exact absurd opens (openExisting_ne_error sound hung held shallow message)
      | ok found =>
          cases found with
          | some secret => exact ⟨secret, st, rfl, .refl hung held⟩
          | none =>
              obtain ⟨row, secret, drawn, inserted, columns⟩ := insertFresh_ok st masters id none
              refine ⟨secret, _, inserted, .plant drawn hung held List.mem_cons_self (.inl ?_)⟩
              rcases columns with ⟨-, root⟩ | ⟨parentId, gen, never, -⟩
              · exact ⟨root, top⟩
              · cases never
  | cons parentId above ih =>
      obtain ⟨parent, under⟩ : ∃ parent, subjects.parents.get id.1 = some parent := by
        cases under : subjects.parents.get id.1 with
        | some parent => exact ⟨parent, rfl⟩
        | none =>
            rw [Subjects.ancestors_of_none under] at declared
            cases declared
      rw [Subjects.ancestors_of_some under, List.map_cons] at declared
      obtain ⟨rfl, further⟩ := List.cons.inj declared
      have apart : id ∉ parentId :: above := by
        intro member
        have subject : id.1 ∈ subjects.ancestors id.1 := by
          rw [Subjects.ancestors_of_some under, ← further]
          exact List.mem_map_of_mem member
        exact (List.nodup_cons.mp Subjects.ancestors_nodup).1 subject
      unfold tryMintIn
      dsimp only
      cases opens : st.openExisting masters id (st.rows.get id) with
      | error message => exact absurd opens (openExisting_ne_error sound hung held shallow message)
      | ok found =>
          cases found with
          | some secret => exact ⟨secret, st, rfl, .refl hung held⟩
          | none =>
              obtain ⟨gen, st', minted, grown⟩ := ih parentId sound hung held further
              have still : st'.rows.get id = st.rows.get id := grown.elsewhere id apart
              obtain ⟨row, secret, drawn, inserted, columns⟩ :=
                insertFresh_ok st' masters id (some (parentId, gen))
              rw [still] at inserted
              dsimp only
              rw [mintAttempts, retryMint_first minted 31]
              refine ⟨secret, _, inserted, (grown.mono (List.subset_cons_self _ _)).trans ?_⟩
              refine .plant drawn grown.hung grown.held List.mem_cons_self (.inr ?_)
              rcases columns with ⟨never, -⟩ | ⟨_, _, ⟨⟩, child⟩
              · cases never
              · exact ⟨_, child, under⟩

theorem mintSecretIn_ok (shallow : Shallow subjects) {above : Chain} (sound : st.Sound)
    (hung : Hung subjects st.rows) (held : MastersHeld masters st.rows)
    (declared : above.map Prod.fst = subjects.ancestors id.1) :
    ∃ secret st', mintSecretIn masters (id :: above) st = (.ok (some secret), st') ∧
      Grown masters subjects (id :: above) st st' := by
  obtain ⟨secret, st', minted, grown⟩ := tryMintIn_ok shallow above id sound hung held declared
  exact ⟨secret, st', retryMint_first minted 31, grown⟩

end Minting

/-! ## Adopting -/

/-- What the store is like while an adoption runs by itself. -/
structure Ready (masters : MasterKeys) (subjects : Subjects) (st : KeyState) : Prop where
  sound : st.Sound
  hung : Hung subjects st.rows
  held : MastersHeld masters st.rows

section Adopting

variable {masters : MasterKeys} {subjects : Subjects} {st st' : KeyState} {id : Identity} {row : SubjectKey}

theorem adoptRead_ok (ready : Ready masters subjects st) (heldRow : st.rows.get id = some row)
    (root : row.parent = none) : adoptRead masters id st = .ok (some (row, row.secret)) := by
  have wraps := ready.sound.wraps id row heldRow
  unfold adoptRead
  rw [heldRow]
  unfold SubjectKey.parent at root
  unfold SubjectKey.Wraps at wraps
  cases columns : row.wrapping with
  | parent ref =>
      rw [columns] at root
      cases root
  | master master =>
      rw [columns] at wraps
      have configured := ready.held id row master heldRow columns
      have opened := (unwrapKeyUnder_eq_ok_iff (.master master) row.wrapped [] row.secret).mpr
        ⟨wraps.1, wraps.2, rfl⟩
      simp only [columns, MasterKeys.masterFor, configured, if_true, opened, Except.map]

/-- The adoption of a root moves it, and makes nothing else wait. -/
theorem adoptIn_ok (shallow : Shallow subjects) {parent : Identity} {above : Chain}
    (ready : Ready masters subjects st) (heldRow : st.rows.get id = some row) (root : row.parent = none)
    (declared : (parent :: above).map Prod.fst = subjects.ancestors id.1) :
    ∃ st', adoptIn masters (id :: parent :: above) st = (.ok .moved, st') ∧
      Ready masters subjects st' ∧ ∀ other found, st'.rows.get other = some found → found.parent = none →
        subjects.parents.get other.1 ≠ none → other ≠ id ∧ st.rows.get other = some found := by
  have under : subjects.parents.get id.1 = some parent.1 := by
    cases under : subjects.parents.get id.1 with
    | none =>
        rw [Subjects.ancestors_of_none under] at declared
        cases declared
    | some name =>
        rw [Subjects.ancestors_of_some under, List.map_cons] at declared
        rw [(List.cons.inj declared).1]
  have further : above.map Prod.fst = subjects.ancestors parent.1 := by
    rw [Subjects.ancestors_of_some under, List.map_cons] at declared
    exact (List.cons.inj declared).2
  obtain ⟨gen, mid, made, grown⟩ :=
    mintSecretIn_ok shallow ready.sound ready.hung ready.held further
  have minted := mintSecretIn_spec masters parent above ready.sound
  have mints := Preserves.mints ready.sound minted.mints
  rw [made] at minted mints
  have parentHolds := minted.holds gen rfl
  dsimp only at parentHolds mints
  have still : mid.rows.get id = some row :=
    Mints.get_of_intact minted.mints heldRow (KeyTable.intact_root heldRow root)
  have adopted := Preserves.adopt
    ⟨mid.entropy, ⟨childKek gen, childAad id parent, row.secret⟩⟩ mints.sound
    still root parentHolds rfl (Nat.le_succ mid.entropy)
  have hung : Hung subjects (mid.rows.set id
      ⟨⟨mid.entropy, ⟨childKek gen, childAad id parent, row.secret⟩⟩,
        .parent ⟨parent, parentFingerprint gen⟩⟩) := by
    refine grown.hung.set ?_
    rintro ref ⟨⟩
    exact under
  have held : MastersHeld masters (mid.rows.set id
      ⟨⟨mid.entropy, ⟨childKek gen, childAad id parent, row.secret⟩⟩,
        .parent ⟨parent, parentFingerprint gen⟩⟩) := by
    refine grown.held.set ?_
    rintro master ⟨⟩
  -- The row that was written is read back through its parent.
  obtain ⟨intact, stands⟩ := adopted.holds id row.secret trivial
    ⟨KeyTable.intact_root still root, KeyTable.stands_of_get still⟩
  have loaded : loadSecret masters (mid.rows.set id
      ⟨⟨mid.entropy, ⟨childKek gen, childAad id parent, row.secret⟩⟩,
        .parent ⟨parent, parentFingerprint gen⟩⟩) id = .ok (some row.secret) := by
    unfold loadSecret
    rcases loadSecretAt_of_intact intact stands with loaded | ⟨message, failed⟩
    · exact loaded
    · exact absurd failed (loadSecretAt_ne_error adopted.sound.wraps held
        (within_of_hung hung (Nat.lt_succ_of_le (shallow id.1))) message)
  refine ⟨⟨_, mid.entropy + 1⟩, ?_, ⟨adopted.sound, hung, held⟩, ?_⟩
  · simp only [adoptIn, adoptRead_ok ready heldRow root, made, adoptWrite, KeyState.wrapKeyUnder,
      KeyTable.adoptSubjectKey, KeyTable.compareAndSet, still, if_true, loaded]
  · intro other found at_other unhung parented
    rw [Table.get_set] at at_other
    split at at_other
    · cases at_other
      cases unhung
    · next apart => exact ⟨apart, grown.rooted other found at_other unhung parented⟩

/-- An adoption leaves every other root. -/
theorem adoptIn_elsewhere (masters : MasterKeys) (sound : st.Sound) {other : Identity} (parent : Identity)
    (above : Chain) (apart : other ≠ id) (held : st.rows.get other = some row) (root : row.parent = none) :
    (adoptIn masters (id :: parent :: above) st).2.rows.get other = some row := by
  have intact := KeyTable.intact_root held root
  rcases adoptIn_rows masters id parent above sound with same | ⟨mid, mints, rows⟩
  · rw [same, held]
  · have still := Mints.get_of_intact mints held intact
    rcases rows with same | ⟨_, moved, -, -, -, same⟩
    · rw [same, still]
    · rw [same, Table.get_set, if_neg apart, still]

/-- A root of a subject with a parent. -/
def Waits (subjects : Subjects) (rows : KeyTable) (id : Identity) : Prop :=
  (∃ row, rows.get id = some row ∧ row.parent = none) ∧ subjects.parents.get id.1 ≠ none

/-- The chain of a root that waits, with every ancestor of its subject. -/
structure Awaits (subjects : Subjects) (rows : KeyTable) (id : Identity) (chain : Chain) : Prop where
  root : ∃ row, rows.get id = some row ∧ row.parent = none
  chain : ∃ parent above, chain = id :: parent :: above ∧
    (parent :: above).map Prod.fst = subjects.ancestors id.1

/-- Adopting roots that wait moves each of them, and makes nothing else wait. -/
theorem adoptEach_ok (shallow : Shallow subjects) {placements : List (Identity × Chain)} {moves : Moves}
    (ready : Ready masters subjects st)
    (awaits : ∀ one ∈ placements, Awaits subjects st.rows one.1 one.2)
    (distinct : (placements.map Prod.fst).Nodup) :
    ∃ st', adoptEach masters (placements.map Prod.snd) moves st =
        ({ moves with adopted := moves.adopted + placements.length }, st') ∧
      Ready masters subjects st' ∧ ∀ id, Waits subjects st'.rows id ↔
        Waits subjects st.rows id ∧ id ∉ placements.map Prod.fst := by
  induction placements generalizing st moves with
  | nil => exact ⟨st, rfl, ready, by simp⟩
  | cons placement rest ih =>
      obtain ⟨id, chain⟩ := placement
      obtain ⟨⟨row, heldRow, root⟩, parent, above, same, declared⟩ := awaits (id, chain) List.mem_cons_self
      dsimp only at heldRow same declared
      subst same
      rw [List.map_cons, List.nodup_cons] at distinct
      obtain ⟨st₁, moved, ready₁, waits₁⟩ := adoptIn_ok shallow ready heldRow root declared
      have kept {other : Identity} {found : SubjectKey} (apart : other ≠ id)
          (held : st.rows.get other = some found) (unhung : found.parent = none) :
          st₁.rows.get other = some found := by
        have elsewhere := adoptIn_elsewhere masters ready.sound parent above apart held unhung
        rwa [moved] at elsewhere
      have onward : ∀ one ∈ rest, Awaits subjects st₁.rows one.1 one.2 := by
        intro one member
        obtain ⟨⟨found, held, unhung⟩, placed⟩ := awaits one (List.mem_cons_of_mem _ member)
        refine ⟨⟨found, kept ?_ held unhung, unhung⟩, placed⟩
        intro same
        exact distinct.1 (List.mem_map.mpr ⟨one, member, same⟩)
      obtain ⟨st₂, all, ready₂, waits₂⟩ := @ih _ { moves with adopted := moves.adopted + 1 } ready₁ onward distinct.2
      refine ⟨st₂, ?_, ready₂, ?_⟩
      · rw [List.map_cons, adoptEach, moved]
        dsimp only
        rw [all, List.length_cons]
        simp only [Nat.add_assoc, Nat.add_comm 1]
      · intro other
        rw [waits₂, List.map_cons, List.mem_cons, not_or, ← and_assoc]
        refine and_congr_left fun _ => ?_
        constructor
        · rintro ⟨⟨found, held, unhung⟩, parented⟩
          obtain ⟨apart, before⟩ := waits₁ other found held unhung parented
          exact ⟨⟨⟨found, before, unhung⟩, parented⟩, apart⟩
        · rintro ⟨⟨⟨found, held, unhung⟩, parented⟩, apart⟩
          exact ⟨⟨found, kept apart held unhung, unhung⟩, parented⟩

end Adopting

end Hekla.Adopt
