import Hekla.Keys.Rotation

/-!
# Adoption under races

Between its write and its restore an adoption holds its row in custody: the row
may hang from a parent that has gone, and be put back.  That is safe as long as
nothing above the row is erased while it is in custody, and nothing replaces or
sweeps what only the restore can make readable again.
-/

namespace Hekla.Keys.Races

open Hekla.Library Forest

variable {w w' : Races}

/-! ## The condition -/

/-- Nothing of the chain is waiting for an adoption to be restored. -/
def MintsSettled (w : Races) (chain : List Identity) : Prop :=
  ∀ id ∈ chain, IntactBut w.keys.rows.forest w.Suspended id → Intact w.keys.rows.forest id

/-- No erase above a row in custody, no mint or sweep of what waits for a
restore, and no read back that fails outright. -/
def Unraced (w : Races) (act : RaceAct) : Prop :=
  w.KeepsSnapshots act ∧
    match act with
    | .encrypt _ chain _ _ => w.MintsSettled chain
    | .adoptMint adoption => ∀ adopting, w.adoptions.get adoption = some adopting →
        w.MintsSettled (adopting.parentId :: adopting.above)
    | .erase id => ∀ other, w.Suspended other →
        ¬Relation.TransGen (Hangs w.keys.rows.forest) other id
    | .sweep picked => ∀ id ∈ picked, ∀ row, w.keys.rows.get id = some row →
        w.keys.rows.isOrphan row = true → ¬w.Suspended id
    | .adoptReadBack adoption => ∀ adopting, w.adoptions.get adoption = some adopting →
        ∀ message, loadSecret adopting.masters w.keys.rows adopting.id ≠ .error message
    | _ => True

/-- The step erases the identity, or one its row hangs from. -/
def Covers (owner : Identity) (w : Races) : RaceAct → Prop
  | .erase id => id.1 ≠ globalSubject ∧ Reaches w.keys.rows.forest owner id
  | _ => False

def Spares (owner : Identity) (w : Races) (act : RaceAct) : Prop := ¬Covers owner w act

/-! ## Mints -/

/-- The rows that have the bytes pending for them. -/
def HeldBy (pending : Identity → Wrapped → Prop) (rows : KeyTable) (id : Identity) : Prop :=
  ∃ row, rows.get id = some row ∧ pending id row.wrapped

theorem heldBy_congr {pending : Identity → Wrapped → Prop} {rows rows' : KeyTable} {id : Identity}
    (same : rows'.get id = rows.get id) : HeldBy pending rows id ↔ HeldBy pending rows' id := by
  unfold HeldBy
  rw [same]

/-- What is planted is intact, and nothing else becomes so. -/
theorem settled_of_mint {masters : MasterKeys} {chain : List Identity} {st st' : KeyState}
    {pending : Identity → Wrapped → Prop} (sound : st.Sound) (mint : Mint masters chain st st')
    (settled : ∀ id ∈ chain, IntactBut st.rows.forest (HeldBy pending st.rows) id →
      Intact st.rows.forest id) (id : Identity) (named : id ∈ chain)
    (intact : IntactBut st'.rows.forest (HeldBy pending st'.rows) id) :
    Intact st'.rows.forest id := by
  cases mint with
  | draw drawn grows => exact settled id named intact
  | plant planted row drawn plantedNamed broken wraps fresh grows place =>
      have others (other : Identity) (apart : other ≠ planted) :
          KeyTable.forest (st.rows.set planted row) other = st.rows.forest other :=
        KeyTable.forest_set_ne apart
      have away {other : Identity} (intact : Intact st.rows.forest other) :
          Intact (KeyTable.forest (st.rows.set planted row)) other :=
        intact.away broken others fun _ _ never => never
      by_cases here : id = planted
      · subst here
        have got : (st.rows.set id row).get id = some row := by rw [Table.get_set, if_pos rfl]
        rcases place with ⟨root, -⟩ | ⟨ref, child, intactParent, node, found, gen⟩
        · refine KeyTable.intact_root got ?_
          unfold SubjectKey.parent
          rw [root]
        · have hung : row.parent = some ref := by
            unfold SubjectKey.parent
            rw [child]
          have apart : ref.identity ≠ id := by
            rintro same
            exact broken (same ▸ intactParent)
          exact KeyTable.intact_child got hung (away intactParent)
            ⟨node, (others _ apart).trans found, gen⟩
      · refine away (settled id named ?_)
        refine intact.of_planted others KeyTable.forest_set_self ?_ ?_ here
        · intro other node upper found above
          exact absurd fresh (sound.links other node upper _ found above).ne
        · intro other apart
          exact (heldBy_congr (by rw [Table.get_set, if_neg apart])).mpr

theorem preserves_mints {masters : MasterKeys} {chain : List Identity} {st st' : KeyState}
    {pending : Identity → Wrapped → Prop} (sound : st.Sound) (mints : Mints masters chain st st')
    (settled : ∀ id ∈ chain, IntactBut st.rows.forest (HeldBy pending st.rows) id →
      Intact st.rows.forest id) :
    Preserves (HeldBy pending st.rows) (HeldBy pending st'.rows) everyone st st' ∧
      ∀ id ∈ chain, IntactBut st'.rows.forest (HeldBy pending st'.rows) id →
        Intact st'.rows.forest id := by
  induction mints with
  | refl => exact ⟨.refl sound, settled⟩
  | tail mints mint ih =>
      obtain ⟨preserves, settledThen⟩ := ih
      have soundThen := preserves.sound
      exact ⟨preserves.trans (.mint soundThen mint settledThen fun _ => heldBy_congr),
        settled_of_mint soundThen mint settledThen⟩

/-- The bytes the adoptions of a race have pending. -/
def pendingOf (w : Races) (id : Identity) (wrapped : Wrapped) : Prop :=
  ∃ adoption adopting, w.adoptions.get adoption = some adopting ∧
    adopting.pending = some wrapped ∧ adopting.id = id

theorem suspended_eq_heldBy (w : Races) : w.Suspended = HeldBy w.pendingOf w.keys.rows := by
  funext id
  refine propext ⟨?_, ?_⟩
  · rintro ⟨adoption, adopting, wrapped, row, found, pending, here, held, bytes⟩
    exact ⟨row, held, adoption, adopting, found, bytes ▸ pending, here⟩
  · rintro ⟨row, held, adoption, adopting, found, pending, here⟩
    exact ⟨adoption, adopting, row.wrapped, row, found, pending, here, held, rfl⟩

theorem preserves_mintSecretIn {masters : MasterKeys} {chain : List Identity} (sound : w.Sound)
    (settled : w.MintsSettled chain) :
    Preserves w.Suspended (Suspended { w with keys := (mintSecretIn masters chain w.keys).2 })
      everyone w.keys (mintSecretIn masters chain w.keys).2 := by
  cases chain with
  | nil =>
      rw [mintSecretIn_nil]
      exact .refl sound.keys
  | cons id above =>
      unfold MintsSettled at settled
      rw [suspended_eq_heldBy] at settled ⊢
      rw [suspended_eq_heldBy]
      exact (preserves_mints sound.keys (mintSecretIn_spec masters id above sound.keys).mints
        settled).1

/-! ## One step -/

/-- Ending or changing an adoption that has nothing pending. -/
theorem suspended_of_unpending (adoption : Nat)
    (others : ∀ other, other ≠ adoption → w'.adoptions.get other = w.adoptions.get other)
    (quiet : ∀ adopting, w.adoptions.get adoption = some adopting → adopting.pending = none)
    (quiet' : ∀ adopting, w'.adoptions.get adoption = some adopting → adopting.pending = none)
    (keys : w'.keys = w.keys) : w.Suspended = w'.Suspended := by
  funext id
  refine propext (suspended_of_quiet adoption others ?_ ?_ (by rw [keys]))
  · intro adopting wrapped found pending
    cases (quiet adopting found).symm.trans pending
  · intro adopting wrapped found pending
    cases (quiet' adopting found).symm.trans pending

theorem suspended_eq (adoptions : w'.adoptions = w.adoptions)
    (same : ∀ id, w'.keys.rows.get id = w.keys.rows.get id) : w.Suspended = w'.Suspended :=
  funext fun id => propext (suspended_congr adoptions (same id))

/-- A rotation's write passes by the rows in custody, which are children. -/
theorem suspended_of_rotateWrite {updates : List RewrapUpdate} {primary : String}
    {rotations : Table Nat Rotating} (sound : w.Sound)
    (formed : ∀ update ∈ updates, update.Formed primary)
    (currents : ∀ update ∈ updates, update.Current w.keys.rows) (id : Identity) :
    w.Suspended id ↔
      Suspended { w with keys := (Keys.rotateWrite updates w.keys).2, rotations } id := by
  constructor
  · rintro ⟨adoption, adopting, wrapped, row, found, pending, here, held, bytes⟩
    refine ⟨adoption, adopting, wrapped, row, found, pending, here, ?_, bytes⟩
    rcases rewrapSubjectKeys_get formed currents id with ⟨none, -⟩ | ⟨old, row', before, after, to_row⟩
    · rw [held] at none
      cases none
    · rw [held] at before
      cases before
      cases to_row with
      | kept => exact after
      | moved update member _ columns =>
          have wraps := sound.keys.wraps id row held
          unfold SubjectKey.Wraps at wraps
          rw [columns] at wraps
          have knows := sound.adoptions adoption adopting found
          unfold Adopting.pending at pending
          cases knows with
          | read phase =>
              rw [phase] at pending
              cases pending
          | minted phase =>
              rw [phase] at pending
              cases pending
          | pending phase message key =>
              rcases phase with phase | phase <;> rw [phase] at pending <;> cases pending <;>
                rw [← bytes] at key <;> cases wraps.1.symm.trans key
  · rintro ⟨adoption, adopting, wrapped, row, found, pending, here, held, bytes⟩
    refine ⟨adoption, adopting, wrapped, row, found, pending, here, ?_, bytes⟩
    rcases rewrapSubjectKeys_get formed currents id with ⟨-, gone⟩ | ⟨old, row', before, after, to_row⟩
    · exact absurd (gone.symm.trans held) nofun
    · have same : row' = row := Option.some.inj (after.symm.trans held)
      subst same
      cases to_row with
      | kept => exact before
      | moved update member =>
          have shape := (formed update member).key
          have knows := sound.adoptions adoption adopting found
          unfold Adopting.pending at pending
          cases knows with
          | read phase =>
              rw [phase] at pending
              cases pending
          | minted phase =>
              rw [phase] at pending
              cases pending
          | pending phase message key =>
              rcases phase with phase | phase <;> rw [phase] at pending <;> cases pending <;>
                rw [← bytes] at key <;> cases shape.symm.trans key

/-- An adoption that finds its row unreadable keeps it in custody; one that reads
it lets it go. -/
theorem preserves_adoptReadBack {spares : Identity → Prop} {adoption : Nat} (sound : w.Sound)
    (readable : ∀ adopting, w.adoptions.get adoption = some adopting →
      ∀ message, loadSecret adopting.masters w.keys.rows adopting.id ≠ .error message)
    (taken : w.step (.adoptReadBack adoption) = some w') :
    Preserves w.Suspended w'.Suspended spares w.keys w'.keys := by
  simp only [step] at taken
  split at taken
  · next masters id parentId above wrapped secret found =>
      split at taken
      · next unread =>
          cases taken
          have equal : w.Suspended = Suspended { w with
              adoptions :=
                w.adoptions.set adoption ⟨masters, id, parentId, above, .restoring wrapped secret⟩ } := by
            funext other
            refine propext ⟨?_, ?_⟩
            · rintro ⟨another, adopting, bytes, row, there, pending, here, held, same⟩
              by_cases mine : another = adoption
              · subst mine
                rw [found] at there
                cases there
                refine ⟨another, ⟨masters, id, parentId, above, .restoring wrapped secret⟩, bytes, row,
                  ?_, pending, here, held, same⟩
                rw [Table.get_set, if_pos rfl]
              · refine ⟨another, adopting, bytes, row, ?_, pending, here, held, same⟩
                rw [Table.get_set, if_neg mine]
                exact there
            · rintro ⟨another, adopting, bytes, row, there, pending, here, held, same⟩
              rw [Table.get_set] at there
              split at there
              · next mine =>
                  cases there
                  exact ⟨adoption, _, bytes, row, found, pending, here, held, same⟩
              · exact ⟨another, adopting, bytes, row, there, pending, here, held, same⟩
          rw [← equal]
          exact .refl sound.keys
      · next read =>
          cases taken
          have intact : Intact w.keys.rows.forest id := by
            cases loaded : loadSecret masters w.keys.rows id with
            | error message => exact absurd loaded (readable _ found message)
            | ok answer =>
                cases answer with
                | none => exact absurd loaded read
                | some opened => exact (loadSecretAt_some loaded).1
          have after (other : Identity) (holding : Suspended { w with
              adoptions := w.adoptions.remove adoption } other) : w.Suspended other := by
            obtain ⟨another, adopting, bytes, row, there, pending⟩ := holding
            rw [Table.get_remove] at there
            split at there
            · cases there
            · exact ⟨another, adopting, bytes, row, there, pending⟩
          have freed (other : Identity) (holding : w.Suspended other) :
              Suspended { w with adoptions := w.adoptions.remove adoption } other ∨
                Intact w.keys.rows.forest other := by
            obtain ⟨another, adopting, bytes, row, there, pending, here, held, same⟩ := holding
            by_cases mine : another = adoption
            · subst mine
              rw [found] at there
              cases there
              exact .inr (here ▸ intact)
            · refine .inl ⟨another, adopting, bytes, row, ?_, pending, here, held, same⟩
              rw [Table.get_remove, if_neg mine]
              exact there
          exact ⟨sound.keys, le_rfl, fun _ _ _ holds => ⟨holds.1.release freed, holds.2⟩,
            fun _ _ dead => dead.mono after, fun _ _ _ bound => bound⟩
  · cases taken

/-- A sweep that leaves what is in custody. -/
theorem preserves_sweep {spares : Identity → Prop} {picked : List Identity} (sound : w.Sound)
    (left : ∀ id ∈ picked, ∀ row, w.keys.rows.get id = some row →
      w.keys.rows.isOrphan row = true → ¬w.Suspended id) :
    Preserves w.Suspended
      (Suspended { w with
        keys := { w.keys with rows := w.keys.rows.sweepOrphanSubjectKeys picked } })
      spares w.keys { w.keys with rows := w.keys.rows.sweepOrphanSubjectKeys picked } := by
  refine .shrink sound.keys (fun _ _ => sweep_shrunk) ?_ fun id same =>
    by refine suspended_congr ?_ same; rfl
  intro _ other _ intact _
  unfold KeyTable.sweepOrphanSubjectKeys
  rw [Table.get_retain]
  cases held : w.keys.rows.get other with
  | none => rfl
  | some row =>
      rw [Option.filter_some, if_pos]
      rw [Bool.not_eq_true', Bool.and_eq_false_iff]
      by_cases named : other ∈ picked
      · refine .inr ?_
        rw [Bool.eq_false_iff]
        intro orphan
        obtain ⟨node, found, holding | links⟩ := IntactBut.standing other intact
        · exact left other named row held orphan holding
        · rw [KeyTable.forest_of_get held] at found
          cases found
          have kept : w.keys.rows.isOrphan row = false := not_orphan fun ref hung =>
            (links _ _ (SubjectKey.node_above_of_parent hung)).2
          exact absurd orphan (kept ▸ Bool.false_ne_true)
      · refine .inl ?_
        rw [Bool.eq_false_iff]
        intro contained
        exact named (List.contains_iff_mem.mp contained)

/-- An erase below which nothing is in custody. -/
theorem preserves_erase (sound : w.Sound) (id : Identity) :
    Preserves w.Suspended (Suspended { w with keys := (eraseSubject id w.keys).2 })
      (fun owner => Spares owner w (.erase id)) w.keys (eraseSubject id w.keys).2 := by
  by_cases erasable : id.1 = globalSubject
  · have refused : (eraseSubject id w.keys).2 = w.keys := by
      unfold eraseSubject
      rw [if_pos erasable]
    rw [refused]
    exact .refl sound.keys
  · rw [eraseSubject_state erasable]
    refine .shrink sound.keys ?_ ?_ fun other same => by refine suspended_congr ?_ same; rfl
    · intro other row held
      rw [Table.get_remove] at held
      split at held
      · cases held
      · exact held
    · intro owner other spared _ reached
      rw [Table.get_remove, if_neg]
      rintro rfl
      exact spared ⟨erasable, reached⟩

theorem pending_of_read {adoption : Nat} {masters : MasterKeys} {id parentId : Identity}
    {above : List Identity} {row : SubjectKey} {secret : Secret}
    (found : w.adoptions.get adoption = some ⟨masters, id, parentId, above, .read row secret⟩)
    (adopting : Adopting) (there : w.adoptions.get adoption = some adopting) :
    adopting.pending = none := by
  rw [found] at there
  cases there
  rfl

/-- A step that meets the condition leaves dead what is dead, and readable what it
spares, up to the rows in custody. -/
theorem step_preserves {act : RaceAct} (sound : w.Sound) (unraced : w.Unraced act)
    (taken : w.step act = some w') :
    Preserves w.Suspended w'.Suspended (fun owner => Spares owner w act) w.keys w'.keys := by
  have all {spares : Identity → Prop}
      (preserves : Preserves w.Suspended w'.Suspended everyone w.keys w'.keys) :
      Preserves w.Suspended w'.Suspended spares w.keys w'.keys :=
    { preserves with holds := fun id secret _ => preserves.holds id secret trivial }
  have raced := unraced.2
  cases act with
  | encrypt masters chain field plaintext =>
      cases taken
      dsimp only at all ⊢
      rw [encryptSubjectIn_state] at all ⊢
      exact all (preserves_mintSecretIn sound raced)
  | existing masters id field plaintext =>
      cases taken
      exact .refl sound.keys
  | erase id =>
      cases taken
      exact preserves_erase sound id
  | sweep picked =>
      cases taken
      exact preserves_sweep sound raced
  | rotateRead rotation masters =>
      simp only [step] at taken
      split at taken
      · cases taken
      · split at taken
        · next failed keys read =>
            cases taken
            obtain ⟨rows, grows, -⟩ := rotateRead_spec read
            have equal : w.Suspended = Suspended { w with keys } :=
              suspended_eq rfl fun id => congrArg (fun rows => Table.get rows id) rows
            rw [← equal]
            exact .of_rows sound.keys rows grows
        · next updates keys read =>
            cases taken
            obtain ⟨rows, grows, -⟩ := rotateRead_spec read
            have equal : w.Suspended = Suspended { w with
                keys, rotations := w.rotations.set rotation ⟨masters, updates⟩ } :=
              suspended_eq rfl fun id => congrArg (fun rows => Table.get rows id) rows
            rw [← equal]
            exact .of_rows sound.keys rows grows
  | rotateWrite rotation =>
      simp only [step] at taken
      split at taken
      · next rotating found =>
          cases taken
          have snapshot := sound.rotations rotation rotating found
          exact .rotateWrite sound.keys (fun update member => (snapshot update member).1)
            (fun update member => (snapshot update member).2)
            (suspended_of_rotateWrite sound (fun update member => (snapshot update member).1)
              fun update member => (snapshot update member).2)
      · cases taken
  | adoptRead adoption masters id parentId above =>
      simp only [step] at taken
      split at taken
      · cases taken
      · next absent =>
          split at taken
          · next row secret read =>
              cases taken
              have equal : w.Suspended = Suspended { w with
                  adoptions :=
                    w.adoptions.set adoption ⟨masters, id, parentId, above, .read row secret⟩ } := by
                refine suspended_of_unpending adoption ?_ ?_ ?_ rfl
                · intro other apart
                  rw [Table.get_set, if_neg apart]
                · intro adopting there
                  cases absent.symm.trans there
                · intro adopting there
                  rw [Table.get_set, if_pos rfl] at there
                  cases there
                  rfl
              rw [← equal]
              exact .refl sound.keys
          · cases taken
            exact .refl sound.keys
  | adoptMint adoption =>
      simp only [step] at taken
      split at taken
      · next masters id parentId above row secret found =>
          have settled : w.MintsSettled (parentId :: above) := raced _ found
          have mints : Preserves w.Suspended
              (Suspended { w with keys := (mintSecretIn masters (parentId :: above) w.keys).2 })
              everyone w.keys (mintSecretIn masters (parentId :: above) w.keys).2 :=
            preserves_mintSecretIn sound settled
          have removed (other : Nat) (apart : other ≠ adoption) :
              (w.adoptions.remove adoption).get other = w.adoptions.get other := by
            rw [Table.get_remove, if_neg apart]
          split at taken
          · next parent keys made =>
              cases taken
              rw [made] at mints
              have equal : Suspended { w with keys } = Suspended { w with
                  keys
                  adoptions := w.adoptions.set adoption
                    ⟨masters, id, parentId, above, .minted row secret parent⟩ } := by
                refine suspended_of_unpending adoption ?_ (pending_of_read found) ?_ rfl
                · intro other apart
                  rw [Table.get_set, if_neg apart]
                · intro adopting there
                  rw [Table.get_set, if_pos rfl] at there
                  cases there
                  rfl
              rw [← equal]
              exact { mints with holds := fun id secret _ => mints.holds id secret trivial }
          · next keys _ made =>
              cases taken
              rw [made] at mints
              have equal : Suspended { w with keys } =
                  Suspended { w with keys, adoptions := w.adoptions.remove adoption } := by
                refine suspended_of_unpending adoption removed (pending_of_read found) ?_ rfl
                intro adopting there
                rw [Table.get_remove, if_pos rfl] at there
                cases there
              rw [← equal]
              exact { mints with holds := fun id secret _ => mints.holds id secret trivial }
      · cases taken
  | adoptWrite adoption =>
      have whole := taken
      simp only [step] at taken
      split at taken
      · next found => exact preserves_adoptWrite sound found whole
      · cases taken
  | adoptReadBack adoption => exact preserves_adoptReadBack sound raced taken
  | adoptRestore adoption => exact preserves_adoptRestore sound taken

/-- A covering erase below which nothing is in custody kills what it covers. -/
theorem dead_of_covers {act : RaceAct} {owner : Identity} {secret : Secret} (sound : w.Sound)
    (unraced : w.Unraced act) (taken : w.step act = some w') (covers : Covers owner w act)
    (bound : Bound w.keys.rows.forest secret owner) :
    Dead w'.keys.rows.forest w'.Suspended secret := by
  cases act with
  | erase id =>
      obtain ⟨erasable, reached⟩ := covers
      cases taken
      dsimp only
      rw [eraseSubject_state erasable]
      have dead : Dead (KeyTable.forest (w.keys.rows.remove id)) w.Suspended secret :=
        dead_of_erased sound.keys unraced.2 reached bound
      refine dead.mono ?_
      rintro other ⟨adoption, adopting, wrapped, row, found, pending, here, held, bytes⟩
      rw [Table.get_remove] at held
      split at held
      · cases held
      · exact ⟨adoption, adopting, wrapped, row, found, pending, here, held, bytes⟩
  | encrypt | existing | sweep | rotateRead | rotateWrite | adoptRead | adoptMint | adoptWrite
    | adoptReadBack | adoptRestore => exact covers.elim

/-! ## Whole runs -/

/-- The step answers with content sealed under the identity. -/
inductive Seals (w : Races) (owner : Identity) (field plaintext : String)
    (ciphertext : Ciphertext) : RaceAct → Prop where
  | encrypt {masters : MasterKeys} {above : List Identity}
      (sealed : (encryptSubjectIn masters (owner :: above) field plaintext w.keys).1 =
        .ok ciphertext) :
      Seals w owner field plaintext ciphertext (.encrypt masters (owner :: above) field plaintext)
  | existing {masters : MasterKeys}
      (sealed : (encryptSubjectExisting masters owner field plaintext w.keys).1 =
        .ok (some ciphertext)) :
      Seals w owner field plaintext ciphertext (.existing masters owner field plaintext)

theorem Seals.holds {act : RaceAct} {owner : Identity} {field plaintext : String}
    {ciphertext : Ciphertext} (sealed : w.Seals owner field plaintext ciphertext act)
    (sound : w.Sound) (taken : w.step act = some w') :
    ∃ secret, ciphertext = encryptWith secret field plaintext ∧ Holds owner w'.keys secret := by
  cases sealed with
  | encrypt sealed =>
      cases taken
      exact encryptSubjectIn_holds sound.keys sealed
  | @existing masters sealed =>
      cases taken
      exact KeyOp.seals_holds sound.keys (.existing sealed)

/-- Along a run that meets the condition, content is readable up to custody as
long as nothing covers it, and dead from the first time something does. -/
theorem fate {acts : List RaceAct} {owner : Identity} {secret : Secret} (sound : w.Sound)
    (drawn : secret < w.keys.entropy) (bound : Bound w.keys.rows.forest secret owner)
    (unraced : Guarded step Unraced w acts) (ran : run step w acts = some w') :
    (HoldsBut w.Suspended owner w.keys secret → Guarded step (Spares owner) w acts →
        HoldsBut w'.Suspended owner w'.keys secret) ∧
      (Dead w.keys.rows.forest w.Suspended secret ∨ ¬Guarded step (Spares owner) w acts →
        Dead w'.keys.rows.forest w'.Suspended secret) := by
  induction acts generalizing w with
  | nil =>
      cases ran
      refine ⟨fun holds _ => holds, ?_⟩
      rintro (dead | unguarded)
      · exact dead
      · exact absurd trivial unguarded
  | cons act rest ih =>
      obtain ⟨next, taken, ranOn⟩ := run_cons.mp ran
      obtain ⟨here, later⟩ := Guarded.cons unraced
      have preserves := step_preserves sound here taken
      obtain ⟨readable, dies⟩ := ih (sound.step here.1 taken)
        (drawn.trans_le preserves.grows) (preserves.bound secret owner drawn bound)
        (later next taken) ranOn
      constructor
      · intro holds guarded
        obtain ⟨spared, guardedLater⟩ := Guarded.cons guarded
        exact readable (preserves.holds owner secret spared holds) (guardedLater next taken)
      · rintro (dead | unguarded)
        · exact dies (.inl (preserves.dead secret drawn dead))
        · by_cases covers : Covers owner w act
          · exact dies (.inl (dead_of_covers sound here taken covers bound))
          · refine dies (.inr fun guarded => unguarded ⟨covers, ?_⟩)
            intro other takenOther
            exact Option.some.inj (taken.symm.trans takenOther) ▸ guarded

/-- With no adoption in flight nothing is in custody. -/
theorem not_suspended_of_quiet (quiet : w.adoptions = ∅) (id : Identity) : ¬w.Suspended id := by
  rintro ⟨adoption, adopting, wrapped, row, found, -⟩
  rw [quiet, Table.get_empty] at found
  cases found

/-- In every run whose steps meet the condition, content that no erase has covered
is readable once the adoptions have finished, and content that one has covered is
never readable again. -/
theorem adoption_safe {before after : List RaceAct} {act : RaceAct} {start final : Races}
    {owner : Identity} {field plaintext : String} {ciphertext : Ciphertext}
    (ran : run step {} before = some w) (unraced : Guarded step Unraced {} before)
    (sealed : w.Seals owner field plaintext ciphertext act) (here : w.Unraced act)
    (taken : w.step act = some start) (later : run step start after = some final)
    (unracedLater : Guarded step Unraced start after) :
    (final.adoptions = ∅ → Guarded step (Spares owner) start after →
        ∀ masters, verifyMastersPresent masters final.keys.rows = true →
          Within final.keys.rows.forest (maxSubjectDepth + 1) owner →
            decryptSubject masters final.keys.rows owner field ciphertext =
              .ok (some plaintext)) ∧
      ∀ masters reader reading text,
        decryptSubject masters final.keys.rows reader reading ciphertext = .ok (some text) →
          text = plaintext ∧ Guarded step (Spares owner) start after := by
  have keeps {acts : List RaceAct} {from_w : Races} (unraced : Guarded step Unraced from_w acts) :
      Guarded step KeepsSnapshots from_w acts := Guarded.imp (fun _ _ unraced => unraced.1) unraced
  have sound := sound_of_run ran (keeps unraced)
  have soundThen := sound.step here.1 taken
  obtain ⟨secret, rfl, intact, stands⟩ := sealed.holds sound taken
  have fated := fate soundThen (soundThen.keys.stands_drawn stands)
    (soundThen.keys.stands_bound stands) unracedLater later
  have soundFinal : final.Sound := run_invariant_of_guarded Sound
    (fun _ _ _ sound keeps taken => sound.step keeps taken) soundThen (keeps unracedLater) later
  refine ⟨?_, ?_⟩
  · intro quiet guarded masters verified within
    obtain ⟨intactFinal, standsFinal⟩ := fated.1 ⟨Intact.but intact, stands⟩ guarded
    have freed : Intact final.keys.rows.forest owner := intactFinal.release fun other holding =>
      absurd holding (not_suspended_of_quiet quiet other)
    exact decryptSubject_of_intact soundFinal.keys verified within freed standsFinal
  · intro masters reader reading text reads
    obtain ⟨same, intactFinal, standsFinal⟩ := plaintext_of_decryptSubject reads
    refine ⟨same, ?_⟩
    by_contra unguarded
    exact intactFinal.not_dead standsFinal (fated.2 (.inr unguarded))

/-- A customer's content, sealed under a root. -/
def sealCustomer : RaceAct := .encrypt KeyOp.oneMaster [KeyOp.customer] "email" "a@b.c"

/-- The shop is erased between its mint and the conditional write, and the
adoption puts the customer's row back. -/
def erasedBeforeWrite : List RaceAct :=
  [.adoptRead 0 KeyOp.oneMaster KeyOp.customer KeyOp.shop [], .adoptMint 0, .erase KeyOp.shop,
    .adoptWrite 0, .adoptReadBack 0, .adoptRestore 0]

/-- The shop is erased once the customer's row hangs from it. -/
def adoptedByShop : List RaceAct :=
  [sealCustomer, .adoptRead 0 KeyOp.oneMaster KeyOp.customer KeyOp.shop [], .adoptMint 0,
    .adoptWrite 0]

/-- A step that meets the condition because no rotation is in flight and nothing
is pending where it matters. -/
def calm (w : Races) (act : RaceAct) : Bool :=
  let pending := w.adoptions.any fun _ adopting => adopting.pending.isSome
  (!w.rotations.any fun _ _ => true) &&
    match act with
    | .encrypt _ _ _ _ | .adoptMint _ | .erase _ => !pending
    | .sweep _ => false
    | .adoptReadBack adoption =>
        match w.adoptions.get adoption with
        | some adopting =>
            match loadSecret adopting.masters w.keys.rows adopting.id with
            | .error _ => false
            | .ok _ => true
        | none => true
    | _ => true

theorem unraced_of_calm {act : RaceAct} (calm : w.calm act = true) : w.Unraced act := by
  unfold Races.calm at calm
  obtain ⟨still, rest⟩ := Bool.and_eq_true_iff.mp calm
  rw [Bool.not_eq_true', Bool.eq_false_iff] at still
  have none_rotating (rotation : Nat) (rotating : Rotating) :
      w.rotations.get rotation ≠ some rotating := fun found =>
    still ((Table.any_eq_true _ _).mpr ⟨rotation, rotating, found, rfl⟩)
  have awaits (id : Identity) (master : String) : ¬w.Awaits id master := by
    rintro ⟨rotation, rotating, update, found, -⟩
    exact none_rotating rotation rotating found
  have free (quiet : (!w.adoptions.any fun _ adopting => adopting.pending.isSome) = true)
      (id : Identity) : ¬w.Suspended id := by
    rintro ⟨adoption, adopting, wrapped, row, found, pending, -⟩
    rw [Bool.not_eq_true', Bool.eq_false_iff] at quiet
    exact quiet ((Table.any_eq_true _ _).mpr ⟨adoption, adopting, found, pending ▸ rfl⟩)
  have settled (quiet : (!w.adoptions.any fun _ adopting => adopting.pending.isSome) = true)
      (chain : List Identity) : w.MintsSettled chain := fun id _ intact =>
    intact.release fun other holding => absurd holding (free quiet other)
  cases act with
  | encrypt masters chain field plaintext =>
      exact ⟨fun id _ waiting => absurd waiting (awaits _ _), settled rest chain⟩
  | adoptMint adoption =>
      exact ⟨fun _ _ id _ waiting => absurd waiting (awaits _ _), fun _ _ => settled rest _⟩
  | erase id => exact ⟨trivial, fun other holding => absurd holding (free rest other)⟩
  | sweep picked => cases rest
  | adoptReadBack adoption =>
      refine ⟨trivial, ?_⟩
      intro adopting found message failed
      dsimp only at rest
      rw [found] at rest
      dsimp only at rest
      rw [failed] at rest
      cases rest
  | rotateWrite rotation =>
      exact ⟨fun rotating found => absurd found (none_rotating rotation rotating), trivial⟩
  | adoptRestore adoption => exact ⟨fun _ _ => awaits _ _, trivial⟩
  | existing | rotateRead | adoptRead | adoptWrite => exact ⟨trivial, trivial⟩

theorem adoption_safe_of_erasedBeforeWrite :
    ∃ start final, step {} sealCustomer = some start ∧
      run step start erasedBeforeWrite = some final ∧
      decryptSubject KeyOp.oneMaster final.keys.rows KeyOp.customer "email"
        (encryptWith 0 "email" "a@b.c") = .ok (some "a@b.c") ∧
      Guarded step (Spares KeyOp.customer) start erasedBeforeWrite := by
  have started : (step {} sealCustomer).any (fun start =>
      (run step start erasedBeforeWrite).any (fun final =>
        (match decryptSubject KeyOp.oneMaster final.keys.rows KeyOp.customer "email"
            (encryptWith 0 "email" "a@b.c") with
          | .ok read => read == some "a@b.c"
          | .error _ => false)) &&
        decide (Guarded step (fun w act => calm w act = true) start erasedBeforeWrite)) = true := by
    decide
  obtain ⟨start, taken, held⟩ := (Option.any_eq_true _ _).mp started
  obtain ⟨ended, calmly⟩ := Bool.and_eq_true_iff.mp held
  obtain ⟨final, ran, read⟩ := (Option.any_eq_true _ _).mp ended
  have reads : decryptSubject KeyOp.oneMaster final.keys.rows KeyOp.customer "email"
      (encryptWith 0 "email" "a@b.c") = .ok (some "a@b.c") := by
    split at read
    · next loaded => rw [loaded, eq_of_beq read]
    · cases read
  have here : Unraced {} sealCustomer := unraced_of_calm (by decide)
  have unraced := Guarded.imp (fun _ _ => unraced_of_calm) (of_decide_eq_true calmly)
  have sealed : Seals {} KeyOp.customer "email" "a@b.c" (encryptWith 0 "email" "a@b.c")
      sealCustomer := .encrypt rfl
  have began : run step {} [] = some ({} : Races) := rfl
  have unracedBefore : Guarded step Unraced {} [] := trivial
  have safe := adoption_safe began unracedBefore sealed here taken ran unraced
  exact ⟨start, final, taken, ran, reads, (safe.2 _ _ _ _ reads).2⟩

/-- The customer's row hangs from the shop when the shop is erased, and the
adoption then puts it back. -/
theorem adoption_restores_erased :
    ∃ w erased final, run step {} adoptedByShop = some w ∧
      Covers KeyOp.customer w (.erase KeyOp.shop) ∧ w.step (.erase KeyOp.shop) = some erased ∧
      run step erased [.adoptReadBack 0, .adoptRestore 0] = some final ∧
      final.adoptions = ∅ ∧
      decryptSubject KeyOp.oneMaster final.keys.rows KeyOp.customer "email"
        (encryptWith 0 "email" "a@b.c") = .ok (some "a@b.c") := by
  have ended : (run step {} adoptedByShop).any (fun w =>
      decide ((w.keys.rows.get KeyOp.customer).any (fun row =>
        row.parent.any fun ref => ref.identity == KeyOp.shop) = true) &&
      (w.step (.erase KeyOp.shop)).any fun erased =>
        (run step erased [.adoptReadBack 0, .adoptRestore 0]).any fun final =>
          decide (final.adoptions.entries.length = 0) &&
          (match decryptSubject KeyOp.oneMaster final.keys.rows KeyOp.customer "email"
              (encryptWith 0 "email" "a@b.c") with
            | .ok read => read == some "a@b.c"
            | .error _ => false)) = true := by
    decide
  obtain ⟨w, ran, held⟩ := (Option.any_eq_true _ _).mp ended
  obtain ⟨hanging, onwards⟩ := Bool.and_eq_true_iff.mp held
  obtain ⟨erased, taken, later⟩ := (Option.any_eq_true _ _).mp onwards
  obtain ⟨final, ranOn, after⟩ := (Option.any_eq_true _ _).mp later
  obtain ⟨quiet, read⟩ := Bool.and_eq_true_iff.mp after
  obtain ⟨row, found, hung⟩ := (Option.any_eq_true _ _).mp (of_decide_eq_true hanging)
  obtain ⟨ref, parent, same⟩ := (Option.any_eq_true _ _).mp hung
  have hangs : Hangs w.keys.rows.forest KeyOp.customer KeyOp.shop :=
    eq_of_beq same ▸ KeyTable.hangs_of_get found parent
  refine ⟨w, erased, final, ran, ⟨by decide, .single hangs⟩, taken, ranOn, ?_, ?_⟩
  · exact AList.ext (List.length_eq_zero_iff.mp (of_decide_eq_true quiet))
  · split at read
    · next loaded => rw [loaded, eq_of_beq read]
    · cases read

end Hekla.Keys.Races
