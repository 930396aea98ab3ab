import Hekla.Keys.Erasure
import Hekla.Library.Pruning

/-!
# Sweeping orphaned rows

A sweep deletes rows whose parent has none, a chunk at a time, and repeats the
pass until one deletes nothing.  What it deletes reads as erased before and
after; the one reading it changes is a walk that is refused for its depth, which
may afterwards end at the row that is gone.
-/

namespace Hekla.Keys

open Hekla.Library Forest

/-! ## Orphaned rows -/

namespace KeyTable

variable {rows : KeyTable} {id : Identity} {row : SubjectKey} {picked : List Identity}

/-- The identities of the rows whose parent has none. -/
def orphans (rows : KeyTable) : List Identity :=
  rows.entries.filterMap fun entry => if isOrphan rows entry.2 then some entry.1 else none

theorem mem_orphans :
    id ∈ rows.orphans ↔ ∃ row, rows.get id = some row ∧ rows.isOrphan row = true := by
  unfold orphans
  rw [List.mem_filterMap]
  constructor
  · rintro ⟨⟨other, row⟩, member, kept⟩
    dsimp only at kept
    split at kept
    · next orphaned =>
        cases kept
        exact ⟨row, (Table.get_eq_some_iff rows id row).mpr member, orphaned⟩
    · cases kept
  · rintro ⟨row, held, orphaned⟩
    refine ⟨⟨id, row⟩, (Table.get_eq_some_iff rows id row).mp held, ?_⟩
    exact if_pos orphaned

theorem forest_eq_none_iff : rows.forest id = none ↔ rows.get id = none := Option.map_eq_none_iff

theorem isOrphan_iff (held : rows.get id = some row) :
    rows.isOrphan row = true ↔ Orphan rows.forest id := by
  unfold isOrphan
  constructor
  · intro orphaned
    split at orphaned
    · cases orphaned
    · next ref columns =>
        have hung : row.parent = some ref := by
          unfold SubjectKey.parent
          rw [columns]
        exact ⟨ref.identity, hangs_of_get held hung,
          forest_eq_none_iff.mpr (Option.isNone_iff_eq_none.mp orphaned)⟩
  · rintro ⟨upper, ⟨node, gen, found, above⟩, gone⟩
    rw [forest_of_get held] at found
    cases found
    obtain ⟨ref, hung, rfl, rfl⟩ := SubjectKey.node_above above
    unfold SubjectKey.parent at hung
    cases columns : row.wrapping with
    | master fingerprint =>
        simp [columns] at hung
    | parent link =>
        have same : link = ref := by simpa [columns] using hung
        rw [same]
        exact Option.isNone_iff_eq_none.mpr (forest_eq_none_iff.mp gone)

/-- A row that a sweep deletes is one of those picked, and an orphan. -/
theorem orphan_of_swept (held : rows.get id = some row)
    (gone : Table.get (rows.sweepOrphanSubjectKeys picked) id = none) :
    id ∈ picked ∧ rows.isOrphan row = true := by
  unfold sweepOrphanSubjectKeys at gone
  rw [Table.get_retain, held, Option.filter_eq_none_iff] at gone
  have dropped := gone row rfl
  rw [Bool.not_eq_true, Bool.not_eq_false', Bool.and_eq_true] at dropped
  exact ⟨List.contains_iff_mem.mp dropped.1, dropped.2⟩

theorem swept_of_picked (member : id ∈ picked) (orphan : Orphan rows.forest id) :
    Table.get (rows.sweepOrphanSubjectKeys picked) id = none := by
  unfold sweepOrphanSubjectKeys
  rw [Table.get_retain, Option.filter_eq_none_iff]
  intro row held
  have orphaned := (isOrphan_iff held).mpr orphan
  simp [orphaned, member]

theorem sweep_pruned (rows : KeyTable) (picked : List Identity) :
    Pruned rows.forest (forest (rows.sweepOrphanSubjectKeys picked)) := by
  constructor
  · intro id node found
    obtain ⟨row, held, rfl⟩ := get_of_forest found
    exact forest_of_get (sweep_shrunk held)
  · intro id gone
    cases held : rows.get id with
    | none => exact .inl (forest_eq_none_iff.mpr held)
    | some row =>
        have orphaned := (orphan_of_swept held (forest_eq_none_iff.mp gone)).2
        exact .inr ⟨1, .top ((isOrphan_iff held).mp orphaned)⟩

end KeyTable

/-! ## What a sweep changes of a reading -/

/-- The reading after is the reading before, or the one before was refused for
the depth of its walk and the one after finds nothing. -/
def Uncovers {α : Type} (before after : Except String (Option α)) : Prop :=
  after = before ∨ (∃ deep, before = .error (tooDeep deep)) ∧ after = .ok none

namespace Uncovers

variable {α : Type} {first second third : Except String (Option α)}

theorem refl (reading : Except String (Option α)) : Uncovers reading reading := .inl rfl

theorem trans (one : Uncovers first second) (two : Uncovers second third) :
    Uncovers first third := by
  rcases two with rfl | ⟨⟨deep, refused⟩, erased⟩
  · exact one
  · rcases one with rfl | ⟨-, found⟩
    · exact .inr ⟨⟨deep, refused⟩, erased⟩
    · cases found.symm.trans refused

end Uncovers

section Reading

variable {masters : MasterKeys} {rows : KeyTable} {id : Identity} {row : SubjectKey}
  {picked : List Identity}

theorem parent_missing (orphaned : rows.isOrphan row = true) :
    ∃ ref, row.wrapping = .parent ref ∧ rows.get ref.identity = none := by
  unfold KeyTable.isOrphan at orphaned
  cases columns : row.wrapping with
  | master _ =>
      rw [columns] at orphaned
      cases orphaned
  | parent ref =>
      rw [columns] at orphaned
      exact ⟨ref, rfl, Option.isNone_iff_eq_none.mp orphaned⟩

theorem openRow_of_parent {load : Identity → Except String (Option Secret)} {ref : ParentRef}
    (columns : row.wrapping = .parent ref) (absent : load ref.identity = .ok none) :
    openRow masters load id row = .ok none := by
  unfold openRow
  rw [columns]
  dsimp only
  rw [absent]

/-- The row of an orphan reads as erased: its parent has no row. -/
theorem loadSecret_of_orphan (masters : MasterKeys) (held : rows.get id = some row)
    (orphaned : rows.isOrphan row = true) : loadSecret masters rows id = .ok none := by
  obtain ⟨ref, columns, missing⟩ := parent_missing orphaned
  have above : loadSecretAt masters rows maxSubjectDepth ref.identity = .ok none := by
    unfold maxSubjectDepth loadSecretAt
    rw [missing]
  unfold loadSecret loadSecretAt
  rw [held]
  exact openRow_of_parent columns above

/-- A row opens the same way when its parent loads the same way. -/
theorem openRow_uncovers {load after : Identity → Except String (Option Secret)}
    (parents : ∀ parent, Uncovers (load parent) (after parent)) :
    Uncovers (openRow masters load id row) (openRow masters after id row) := by
  unfold openRow
  split
  · exact .refl _
  · next ref _ =>
      rcases parents ref.identity with same | ⟨⟨deep, refused⟩, erased⟩
      · rw [same]
        exact .refl _
      · rw [refused, erased]
        exact .inr ⟨⟨deep, rfl⟩, rfl⟩

theorem loadSecretAt_uncovers (masters : MasterKeys) (rows : KeyTable) (picked : List Identity)
    (levels : Nat) (id : Identity) :
    Uncovers (loadSecretAt masters rows levels id)
      (loadSecretAt masters (rows.sweepOrphanSubjectKeys picked) levels id) := by
  induction levels generalizing id with
  | zero => exact .refl _
  | succ levels ih =>
      cases held : rows.get id with
      | none =>
          have gone : Table.get (rows.sweepOrphanSubjectKeys picked) id = none := by
            rw [sweep_get_of_linked, held]
            rw [held]
            exact nofun
          unfold loadSecretAt
          rw [held, gone]
          exact .refl _
      | some row =>
          cases kept : Table.get (rows.sweepOrphanSubjectKeys picked) id with
          | some left =>
              have same : left = row :=
                Option.some.inj ((sweep_shrunk kept).symm.trans held)
              unfold loadSecretAt
              rw [held, kept, same]
              exact openRow_uncovers ih
          | none =>
              obtain ⟨ref, columns, missing⟩ :=
                parent_missing (KeyTable.orphan_of_swept held kept).2
              have after : loadSecretAt masters (rows.sweepOrphanSubjectKeys picked)
                  (levels + 1) id = .ok none := by
                unfold loadSecretAt
                rw [kept]
              rw [after]
              unfold loadSecretAt
              rw [held]
              -- Its parent reads as erased, unless the walk may not go so far up.
              cases levels with
              | zero =>
                  refine .inr ⟨⟨ref.identity, ?_⟩, rfl⟩
                  dsimp only
                  unfold openRow
                  rw [columns]
                  rfl
              | succ levels =>
                  have above : loadSecretAt masters rows (levels + 1) ref.identity = .ok none := by
                    unfold loadSecretAt
                    rw [missing]
                  exact .inl (openRow_of_parent columns above).symm

theorem decryptSubject_uncovers {rows' : KeyTable} {reader : Identity}
    (loads : Uncovers (loadSecret masters rows reader) (loadSecret masters rows' reader))
    (field : String) (ciphertext : Ciphertext) :
    Uncovers (decryptSubject masters rows reader field ciphertext)
      (decryptSubject masters rows' reader field ciphertext) := by
  unfold decryptSubject
  rcases loads with same | ⟨⟨deep, refused⟩, erased⟩
  · rw [same]
    exact .refl _
  · rw [refused, erased]
    exact .inr ⟨⟨deep, rfl⟩, rfl⟩

end Reading

/-! ## Passes -/

/-- The most rows one statement deletes. -/
def sweepChunk : Nat := 1000

/-- The most passes of one sweep. -/
def orphanPasses : Nat := 32

/-- The order in which the database comes upon the orphans of a table. -/
structure OrphanScan where
  order : KeyTable → List Identity
  lists : ∀ rows, (order rows).Perm rows.orphans

namespace OrphanScan

variable (scan : OrphanScan)

/-- Delete so many orphans at most, and count them. -/
def sweepOrphanSubjectKeys (limit : Nat) (rows : KeyTable) : Nat × KeyTable :=
  let picked := (scan.order rows).take limit
  (picked.length, rows.sweepOrphanSubjectKeys picked)

/-- Delete chunks until one is short. -/
def sweepChunks : Nat → KeyTable → Nat × KeyTable
  | 0, rows => (0, rows)
  | chunks + 1, rows =>
      let (deleted, rows) := scan.sweepOrphanSubjectKeys sweepChunk rows
      if deleted < sweepChunk then (deleted, rows)
      else
        let (more, rows) := sweepChunks chunks rows
        (deleted + more, rows)

/-- One pass; every full chunk makes the table smaller, so there are no more than its rows. -/
def sweepPass (rows : KeyTable) : Nat × KeyTable :=
  scan.sweepChunks (rows.entries.length + 1) rows

/-- Repeat the pass until one deletes nothing, so often at most, and tell whether one did. -/
def sweepOrphanKeys : Nat → KeyTable → Bool × KeyTable
  | 0, rows => (false, rows)
  | passes + 1, rows =>
      let (swept, rows) := scan.sweepPass rows
      if swept = 0 then (true, rows) else sweepOrphanKeys passes rows

variable {scan} {rows : KeyTable}

theorem mem_order {id : Identity} : id ∈ scan.order rows ↔ id ∈ rows.orphans :=
  (scan.lists rows).mem_iff

/-- A chunk that is short has left none of the orphans it found. -/
theorem short_chunk {limit : Nat} {id : Identity}
    (short : (scan.sweepOrphanSubjectKeys limit rows).1 < limit)
    (orphan : Orphan rows.forest id) :
    (scan.sweepOrphanSubjectKeys limit rows).2.forest id = none := by
  have whole : (scan.order rows).take limit = scan.order rows := by
    refine List.take_of_length_le ?_
    change ((scan.order rows).take limit).length < limit at short
    rw [List.length_take] at short
    omega
  obtain ⟨upper, hangs, gone⟩ := orphan
  obtain ⟨node, gen, found, above⟩ := hangs
  obtain ⟨row, held, rfl⟩ := KeyTable.get_of_forest found
  have orphan : Orphan rows.forest id := ⟨upper, ⟨_, gen, found, above⟩, gone⟩
  have listed : id ∈ scan.order rows :=
    mem_order.mpr (KeyTable.mem_orphans.mpr ⟨row, held, (KeyTable.isOrphan_iff held).mpr orphan⟩)
  exact KeyTable.forest_eq_none_iff.mpr
    (KeyTable.swept_of_picked (whole.symm ▸ listed) orphan)

/-- A chunk that deletes something makes the table smaller. -/
theorem chunk_shrinks {limit : Nat} (some_deleted : 0 < (scan.sweepOrphanSubjectKeys limit rows).1) :
    (scan.sweepOrphanSubjectKeys limit rows).2.entries.length < rows.entries.length := by
  obtain ⟨id, member⟩ := List.exists_mem_of_length_pos some_deleted
  have listed := KeyTable.mem_orphans.mp (mem_order.mp (List.mem_of_mem_take member))
  obtain ⟨row, held, orphaned⟩ := listed
  refine List.length_filter_lt_length_iff_exists.mpr
    ⟨⟨id, row⟩, (Table.get_eq_some_iff rows id row).mp held, ?_⟩
  simp [orphaned, member]

theorem chunk_pruned (limit : Nat) :
    Pruned rows.forest (scan.sweepOrphanSubjectKeys limit rows).2.forest :=
  KeyTable.sweep_pruned rows _

theorem sweepChunks_pruned (chunks : Nat) (rows : KeyTable) :
    Pruned rows.forest (scan.sweepChunks chunks rows).2.forest := by
  induction chunks generalizing rows with
  | zero => exact .refl _
  | succ chunks ih =>
      have first : Pruned rows.forest (scan.sweepOrphanSubjectKeys sweepChunk rows).2.forest :=
        chunk_pruned sweepChunk
      unfold sweepChunks
      dsimp only
      split
      · exact first
      · exact first.trans (ih _)

/-- What was an orphan when a pass began is gone when it ends. -/
theorem sweepChunks_sweeps {chunks : Nat} (enough : rows.entries.length < chunks) (id : Identity)
    (orphan : Orphan rows.forest id) : (scan.sweepChunks chunks rows).2.forest id = none := by
  induction chunks generalizing rows with
  | zero => exact absurd enough (Nat.not_lt_zero _)
  | succ chunks ih =>
      unfold sweepChunks
      dsimp only
      split
      · next short => exact short_chunk short orphan
      · next full =>
          have positive : 0 < sweepChunk := by decide
          have deleted : 0 < (scan.sweepOrphanSubjectKeys sweepChunk rows).1 := by omega
          have shrunk := chunk_shrinks deleted
          have first : Pruned rows.forest (scan.sweepOrphanSubjectKeys sweepChunk rows).2.forest :=
            chunk_pruned sweepChunk
          have rest : Pruned (scan.sweepOrphanSubjectKeys sweepChunk rows).2.forest
              (scan.sweepChunks chunks (scan.sweepOrphanSubjectKeys sweepChunk rows).2).2.forest :=
            sweepChunks_pruned chunks _
          cases found : (scan.sweepOrphanSubjectKeys sweepChunk rows).2.forest id with
          | none =>
              cases left : (scan.sweepChunks chunks
                  (scan.sweepOrphanSubjectKeys sweepChunk rows).2).2.forest id with
              | none => rfl
              | some node => cases found.symm.trans (rest.kept id node left)
          | some node =>
              -- It was beyond this chunk's limit, and its parent has not come back.
              refine ih (by omega) ?_
              obtain ⟨upper, ⟨was, gen, foundBefore, above⟩, gone⟩ := orphan
              have same := foundBefore.symm.trans (first.kept id node found)
              cases same
              refine ⟨upper, ⟨node, gen, found, above⟩, ?_⟩
              cases there : (scan.sweepOrphanSubjectKeys sweepChunk rows).2.forest upper with
              | none => rfl
              | some other => cases gone.symm.trans (first.kept upper other there)

theorem sweepPass_pruned (rows : KeyTable) : Pruned rows.forest (scan.sweepPass rows).2.forest :=
  sweepChunks_pruned _ rows

theorem sweepPass_sweeps (id : Identity) (orphan : Orphan rows.forest id) :
    (scan.sweepPass rows).2.forest id = none :=
  sweepChunks_sweeps (Nat.lt_succ_self _) id orphan

/-- A pass that deletes nothing has found no orphan. -/
theorem sweepPass_eq_zero_iff :
    (scan.sweepPass rows).1 = 0 ↔ ∀ id, ¬Orphan rows.forest id := by
  have positive : 0 < sweepChunk := by decide
  unfold sweepPass sweepChunks
  dsimp only
  constructor
  · intro none_swept id orphan
    have deleted : (scan.sweepOrphanSubjectKeys sweepChunk rows).1 = 0 := by
      split at none_swept
      · exact none_swept
      · dsimp only at none_swept
        omega
    have short : (scan.sweepOrphanSubjectKeys sweepChunk rows).1 < sweepChunk := by omega
    obtain ⟨upper, ⟨node, gen, found, above⟩, gone⟩ := orphan
    obtain ⟨row, held, rfl⟩ := KeyTable.get_of_forest found
    have swept : (scan.sweepOrphanSubjectKeys sweepChunk rows).2.forest id = none :=
      short_chunk short ⟨upper, ⟨_, gen, found, above⟩, gone⟩
    have picked := (KeyTable.orphan_of_swept held (KeyTable.forest_eq_none_iff.mp swept)).1
    have nothing := List.eq_nil_of_length_eq_zero deleted
    rw [nothing] at picked
    cases picked
  · intro unbroken
    have listed : scan.order rows = [] := by
      refine List.eq_nil_iff_forall_not_mem.mpr fun id member => ?_
      obtain ⟨row, held, orphaned⟩ := KeyTable.mem_orphans.mp (mem_order.mp member)
      exact unbroken id ((KeyTable.isOrphan_iff held).mp orphaned)
    have deleted : (scan.sweepOrphanSubjectKeys sweepChunk rows).1 = 0 := by
      unfold sweepOrphanSubjectKeys
      rw [listed, List.take_nil]
      rfl
    rw [if_pos (deleted.trans_lt positive)]
    exact deleted

/-- With a pass more than the longest broken chain has rows, the last one deletes
nothing, and no row names a missing parent. -/
theorem sweepOrphanKeys_ends {depth passes : Nat}
    (bounded : ∀ length id, Broken rows.forest length id → length ≤ depth)
    (enough : depth < passes) :
    ∃ rows', scan.sweepOrphanKeys passes rows = (true, rows') ∧
      ∀ id row, rows'.get id = some row → rows'.isOrphan row = false := by
  induction passes generalizing depth rows with
  | zero => exact absurd enough (Nat.not_lt_zero depth)
  | succ passes ih =>
      unfold sweepOrphanKeys
      dsimp only
      by_cases ended : (scan.sweepPass rows).1 = 0
      · refine ⟨_, if_pos ended, ?_⟩
        have whole := sweepPass_eq_zero_iff.mp ended
        have same : (scan.sweepPass rows).2.forest = rows.forest := by
          refine (sweepPass_pruned rows).eq_of_unbroken fun length id broken => ?_
          obtain ⟨other, orphan⟩ := broken.has_orphan
          exact whole other orphan
        intro id row held
        rw [← Bool.not_eq_true]
        intro orphaned
        exact whole id (same ▸ (KeyTable.isOrphan_iff held).mp orphaned)
      · rw [if_neg ended]
        cases depth with
        | succ depth =>
            exact ih ((sweepPass_pruned rows).bound sweepPass_sweeps bounded)
              (Nat.lt_of_succ_lt_succ enough)
        | zero =>
            refine absurd (sweepPass_eq_zero_iff.mpr fun id orphan => ?_) ended
            exact absurd (bounded 1 id (.top orphan)) (Nat.not_succ_le_zero 0)

theorem sweepOrphanKeys_uncovers (masters : MasterKeys) (passes : Nat) (rows : KeyTable)
    (reader : Identity) :
    Uncovers (loadSecret masters rows reader)
      (loadSecret masters (scan.sweepOrphanKeys passes rows).2 reader) := by
  have chunk (rows : KeyTable) : Uncovers (loadSecret masters rows reader)
      (loadSecret masters (scan.sweepOrphanSubjectKeys sweepChunk rows).2 reader) :=
    loadSecretAt_uncovers masters rows _ _ reader
  have pass (chunks : Nat) (rows : KeyTable) : Uncovers (loadSecret masters rows reader)
      (loadSecret masters (scan.sweepChunks chunks rows).2 reader) := by
    induction chunks generalizing rows with
    | zero => exact .refl _
    | succ chunks ih =>
        unfold sweepChunks
        dsimp only
        split
        · exact chunk rows
        · exact (chunk rows).trans (ih _)
  induction passes generalizing rows with
  | zero => exact .refl _
  | succ passes ih =>
      unfold sweepOrphanKeys
      dsimp only
      split
      · exact pass _ rows
      · exact (pass _ rows).trans (ih _)

end OrphanScan

/-! ## The law of sweeping -/

/-- What a sweep deletes is a row whose parent has none, which reads as erased;
no reading changes, unless it was refused for its depth and now finds nothing;
and repeating the pass until one deletes nothing takes one pass more than the
longest broken chain has rows, and leaves no row without its parent. -/
theorem sweep_sound_and_ends :
    (∀ (rows : KeyTable) (picked : List Identity) (id : Identity) (row : SubjectKey),
      rows.get id = some row → Table.get (rows.sweepOrphanSubjectKeys picked) id = none →
        rows.isOrphan row = true ∧ ∀ masters, loadSecret masters rows id = .ok none) ∧
      (∀ (rows : KeyTable) (picked : List Identity) (masters : MasterKeys) (reader : Identity)
        (field : String) (ciphertext : Ciphertext),
        Uncovers (decryptSubject masters rows reader field ciphertext)
          (decryptSubject masters (rows.sweepOrphanSubjectKeys picked) reader field
            ciphertext)) ∧
      (∀ (scan : OrphanScan) (passes : Nat) (rows : KeyTable) (masters : MasterKeys)
        (reader : Identity) (field : String) (ciphertext : Ciphertext),
        Uncovers (decryptSubject masters rows reader field ciphertext)
          (decryptSubject masters (scan.sweepOrphanKeys passes rows).2 reader field
            ciphertext)) ∧
      ∀ (scan : OrphanScan) (rows : KeyTable) (depth passes : Nat),
        (∀ length id, Broken rows.forest length id → length ≤ depth) → depth + 1 ≤ passes →
          ∃ rows', scan.sweepOrphanKeys passes rows = (true, rows') ∧
            ∀ id row, rows'.get id = some row → rows'.isOrphan row = false := by
  refine ⟨?_, ?_, ?_, ?_⟩
  · intro rows picked id row held gone
    have orphaned := (KeyTable.orphan_of_swept held gone).2
    exact ⟨orphaned, fun masters => loadSecret_of_orphan masters held orphaned⟩
  · intro rows picked masters reader field ciphertext
    exact decryptSubject_uncovers (loadSecretAt_uncovers masters rows picked _ reader) field
      ciphertext
  · intro scan passes rows masters reader field ciphertext
    exact decryptSubject_uncovers (scan.sweepOrphanKeys_uncovers masters passes rows reader) field
      ciphertext
  · intro scan rows depth passes bounded enough
    exact scan.sweepOrphanKeys_ends bounded enough

namespace KeyOp

/-- A shop's customer whose shop has been erased. -/
def shopless : KeyState :=
  perform (perform {} (.encrypt oneMaster [customer, shop] "email" "a@b.c")) (.erase shop)

/-- The customer's row goes in the first of two passes. -/
theorem sweep_of_shopless :
    ∃ rows', OrphanScan.sweepOrphanKeys ⟨KeyTable.orphans, fun _ => .refl _⟩ 2 shopless.rows =
        (true, rows') ∧
      ∀ id row, rows'.get id = some row → rows'.isOrphan row = false := by
  refine sweep_sound_and_ends.2.2.2 _ shopless.rows 1 2 ?_ (Nat.le_refl 2)
  have only (id upper : Identity) (hangs : Hangs shopless.rows.forest id upper) : upper = shop := by
    obtain ⟨node, gen, found, above⟩ := hangs
    obtain ⟨row, held, rfl⟩ := KeyTable.get_of_forest found
    have listed : shopless.rows.entries.all fun entry =>
        decide (entry.2.node.above.all fun link => decide (link.1 = shop)) := by decide
    have member := List.all_eq_true.mp listed _ ((Table.get_eq_some_iff _ _ _).mp held)
    have links := of_decide_eq_true member
    rw [above] at links
    exact of_decide_eq_true links
  have erased : shopless.rows.forest shop = none := by rfl
  intro length id broken
  cases broken with
  | top => exact Nat.le_refl 1
  | link hangs broken =>
      obtain rfl := only id _ hangs
      cases broken with
      | top orphan =>
          obtain ⟨-, ⟨node, -, found, -⟩, -⟩ := orphan
          cases erased.symm.trans found
      | link hangs _ =>
          obtain ⟨node, -, found, -⟩ := hangs
          cases erased.symm.trans found

/-- The head of the deep chain, and the one below it. -/
def deepTop : Identity := (String.ofList (List.replicate 34 's'), "1")

def belowTop : Identity := (String.ofList (List.replicate 33 's'), "1")

/-- A chain deeper than a walk may go, its head erased. -/
def beheaded : KeyState :=
  perform (perform {} (.encrypt oneMaster deepChain "email" "a@b.c")) (.erase deepTop)

/-- What is at the foot of a chain too deep to read reads as erased once the
orphan below the erased head is swept. -/
theorem sweep_changes_reading :
    ¬∀ (ops : List KeyOp) (st : KeyState) (picked : List Identity) (masters : MasterKeys)
      (reader : Identity) (field : String) (ciphertext : Ciphertext),
      run step {} ops = some st →
        decryptSubject masters (st.rows.sweepOrphanSubjectKeys picked) reader field ciphertext =
          decryptSubject masters st.rows reader field ciphertext := by
  intro unchanged
  have same := unchanged [.encrypt oneMaster deepChain "email" "a@b.c", .erase deepTop] beheaded
    [belowTop] oneMaster ("s", "1") "email" (encryptWith 66 "email" "a@b.c") rfl
  have refused : (match decryptSubject oneMaster beheaded.rows ("s", "1") "email"
      (encryptWith 66 "email" "a@b.c") with
    | .error _ => true
    | .ok _ => false) = true := by decide
  have erased : (match decryptSubject oneMaster (beheaded.rows.sweepOrphanSubjectKeys [belowTop])
      ("s", "1") "email" (encryptWith 66 "email" "a@b.c") with
    | .error _ => true
    | .ok _ => false) = false := by decide
  rw [same, refused] at erased
  cases erased

end KeyOp

end Hekla.Keys
