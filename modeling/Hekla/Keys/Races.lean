import Hekla.Keys.Erasure

/-!
# Key stores that race

Several holders of one table, each with its own masters.  A rotation is a
snapshot and a write; an adoption is five accesses, the last of which puts its
row back when the parent has gone.  Anything may happen between them.
-/

namespace Hekla.Keys

open Hekla.Library Forest

/-- Where an adoption stands between its accesses. -/
inductive AdoptPhase where
  | read (row : SubjectKey) (secret : Secret)
  | minted (row : SubjectKey) (secret parent : Secret)
  | written (wrapped : Wrapped) (secret : Secret)
  | restoring (wrapped : Wrapped) (secret : Secret)

structure Adopting where
  masters : MasterKeys
  id : Identity
  parentId : Identity
  above : List Identity
  phase : AdoptPhase

/-- The bytes an adoption has written, and may yet put back under a master. -/
def Adopting.pending (adopting : Adopting) : Option Wrapped :=
  match adopting.phase with
  | .read _ _ | .minted _ _ _ => none
  | .written wrapped _ | .restoring wrapped _ => some wrapped

structure Rotating where
  masters : MasterKeys
  updates : List RewrapUpdate

structure Races where
  keys : KeyState := {}
  rotations : Table Nat Rotating := ∅
  adoptions : Table Nat Adopting := ∅

inductive RaceAct where
  | encrypt (masters : MasterKeys) (chain : List Identity) (field plaintext : String)
  | existing (masters : MasterKeys) (id : Identity) (field plaintext : String)
  | erase (id : Identity)
  | sweep (picked : List Identity)
  | rotateRead (rotation : Nat) (masters : MasterKeys)
  | rotateWrite (rotation : Nat)
  | adoptRead (adoption : Nat) (masters : MasterKeys) (id parentId : Identity)
      (above : List Identity)
  | adoptMint (adoption : Nat)
  | adoptWrite (adoption : Nat)
  | adoptReadBack (adoption : Nat)
  | adoptRestore (adoption : Nat)

namespace Races

def step (w : Races) : RaceAct → Option Races
  | .encrypt masters chain field plaintext =>
      some { w with keys := (encryptSubjectIn masters chain field plaintext w.keys).2 }
  | .existing masters id field plaintext =>
      some { w with keys := (encryptSubjectExisting masters id field plaintext w.keys).2 }
  | .erase id => some { w with keys := (eraseSubject id w.keys).2 }
  | .sweep picked =>
      some { w with keys := { w.keys with rows := w.keys.rows.sweepOrphanSubjectKeys picked } }
  | .rotateRead rotation masters =>
      match w.rotations.get rotation with
      | some _ => none
      | none =>
          match Keys.rotateRead masters w.keys with
          | (.error _, keys) => some { w with keys }
          | (.ok updates, keys) =>
              some { w with keys, rotations := w.rotations.set rotation ⟨masters, updates⟩ }
  | .rotateWrite rotation =>
      match w.rotations.get rotation with
      | some rotating =>
          some { w with
            keys := (Keys.rotateWrite rotating.updates w.keys).2
            rotations := w.rotations.remove rotation }
      | none => none
  | .adoptRead adoption masters id parentId above =>
      match w.adoptions.get adoption with
      | some _ => none
      | none =>
          match Keys.adoptRead masters id w.keys with
          | .ok (some (row, secret)) =>
              some { w with
                adoptions := w.adoptions.set adoption ⟨masters, id, parentId, above, .read row secret⟩ }
          | _ => some w
  | .adoptMint adoption =>
      match w.adoptions.get adoption with
      | some ⟨masters, id, parentId, above, .read row secret⟩ =>
          match mintSecretIn masters (parentId :: above) w.keys with
          | (.ok (some parent), keys) =>
              some { w with
                keys
                adoptions :=
                  w.adoptions.set adoption ⟨masters, id, parentId, above, .minted row secret parent⟩ }
          | (_, keys) => some { w with keys, adoptions := w.adoptions.remove adoption }
      | _ => none
  | .adoptWrite adoption =>
      match w.adoptions.get adoption with
      | some ⟨masters, id, parentId, above, .minted row secret parent⟩ =>
          match Keys.adoptWrite id parentId row.wrapped secret parent w.keys with
          | ((wrapped, true), keys) =>
              some { w with
                keys
                adoptions :=
                  w.adoptions.set adoption ⟨masters, id, parentId, above, .written wrapped secret⟩ }
          | ((_, false), keys) => some { w with keys, adoptions := w.adoptions.remove adoption }
      | _ => none
  | .adoptReadBack adoption =>
      match w.adoptions.get adoption with
      | some ⟨masters, id, parentId, above, .written wrapped secret⟩ =>
          match loadSecret masters w.keys.rows id with
          | .ok none =>
              some { w with
                adoptions :=
                  w.adoptions.set adoption ⟨masters, id, parentId, above, .restoring wrapped secret⟩ }
          | _ => some { w with adoptions := w.adoptions.remove adoption }
      | _ => none
  | .adoptRestore adoption =>
      match w.adoptions.get adoption with
      | some ⟨masters, id, _, _, .restoring wrapped secret⟩ =>
          some { w with
            keys := (Keys.adoptRestore masters id wrapped secret w.keys).2
            adoptions := w.adoptions.remove adoption }
      | _ => none

/-! ## What a race keeps -/

/-- A snapshot that is not yet written has the identity under the master. -/
def Awaits (w : Races) (id : Identity) (master : String) : Prop :=
  ∃ rotation rotating update, w.rotations.get rotation = some rotating ∧
    update ∈ rotating.updates ∧ update.id = id ∧ update.expected = master

/-- A chain whose root is in a snapshot, under the master the minting store
would use, still opens there, so that the mint leaves the row alone. -/
def MintsClear (w : Races) (masters : MasterKeys) (chain : List Identity) : Prop :=
  ∀ id, chain.getLast? = some id → w.Awaits id masters.primary → Intact w.keys.rows.forest id

/-- Nothing puts an identity of an unwritten snapshot back under the master it
was read under. -/
def KeepsSnapshots (w : Races) : RaceAct → Prop
  | .encrypt masters chain _ _ => w.MintsClear masters chain
  | .adoptMint adoption => ∀ adopting, w.adoptions.get adoption = some adopting →
      w.MintsClear adopting.masters (adopting.parentId :: adopting.above)
  | .rotateWrite rotation => ∀ rotating, w.rotations.get rotation = some rotating →
      ∀ other awaiting, other ≠ rotation → w.rotations.get other = some awaiting →
        ∀ update ∈ rotating.updates, ∀ later ∈ awaiting.updates,
          later.id = update.id → later.expected ≠ update.master
  | .adoptRestore adoption => ∀ adopting, w.adoptions.get adoption = some adopting →
      ¬w.Awaits adopting.id adopting.masters.primary
  | _ => True

/-- The bytes of a root that was read, and its secret. -/
structure ReadRoot (id : Identity) (row : SubjectKey) (secret : Secret) : Prop where
  wraps : row.Wraps id
  root : row.parent = none
  secret : row.secret = secret

/-- What an adoption knows at each of its accesses. -/
inductive Knows (keys : KeyState) (adopting : Adopting) : Prop where
  | read {row : SubjectKey} {secret : Secret} (phase : adopting.phase = .read row secret)
      (root : ReadRoot adopting.id row secret)
  | minted {row : SubjectKey} {secret parent : Secret}
      (phase : adopting.phase = .minted row secret parent)
      (root : ReadRoot adopting.id row secret) (drawn : parent < keys.entropy)
      (bound : Bound keys.rows.forest parent adopting.parentId)
  | pending {wrapped : Wrapped} {secret parent : Secret}
      (phase : adopting.phase = .written wrapped secret ∨
        adopting.phase = .restoring wrapped secret)
      (message : wrapped.box.message = secret) (key : wrapped.box.key = .child parent)

structure Sound (w : Races) : Prop where
  keys : w.keys.Sound
  rotations : ∀ rotation rotating, w.rotations.get rotation = some rotating →
    ∀ update ∈ rotating.updates,
      update.Formed rotating.masters.primary ∧ update.Current w.keys.rows
  adoptions : ∀ adoption adopting, w.adoptions.get adoption = some adopting →
    Knows w.keys adopting

/-- The row has the bytes of an adoption that has not ended. -/
def Suspended (w : Races) (id : Identity) : Prop :=
  ∃ adoption adopting wrapped row, w.adoptions.get adoption = some adopting ∧
    adopting.pending = some wrapped ∧ adopting.id = id ∧ w.keys.rows.get id = some row ∧
      row.wrapped = wrapped

theorem sound_start : ({} : Races).Sound where
  keys := KeyState.Sound.start
  rotations rotation rotating held := by
    rw [Table.get_empty] at held
    cases held
  adoptions adoption adopting held := by
    rw [Table.get_empty] at held
    cases held

variable {w w' : Races} {held held' spares : Identity → Prop}

theorem Knows.preserves {keys keys' : KeyState} {adopting : Adopting}
    (knows : Knows keys adopting) (preserves : Preserves held held' spares keys keys') :
    Knows keys' adopting := by
  cases knows with
  | read phase root => exact .read phase root
  | minted phase root drawn bound =>
      exact .minted phase root (drawn.trans_le preserves.grows)
        (preserves.bound _ _ drawn bound)
  | pending phase message key => exact .pending phase message key

/-- A step that only ends what is in flight, and puts no row back under a master. -/
theorem Sound.preserves (sound : w.Sound)
    (preserves : Preserves held held' spares w.keys w'.keys)
    (rotations : ∀ rotation rotating, w'.rotations.get rotation = some rotating →
      w.rotations.get rotation = some rotating)
    (current : ∀ rotation rotating update, w'.rotations.get rotation = some rotating →
      update ∈ rotating.updates → update.Current w.keys.rows → update.Current w'.keys.rows)
    (adoptions : ∀ adoption adopting, w'.adoptions.get adoption = some adopting →
      w.adoptions.get adoption = some adopting ∨ Knows w'.keys adopting) : w'.Sound where
  keys := preserves.sound
  rotations rotation rotating found update member := by
    obtain ⟨formed, was⟩ := sound.rotations rotation rotating (rotations _ _ found) update member
    exact ⟨formed, current rotation rotating update found member was⟩
  adoptions adoption adopting found := by
    rcases adoptions adoption adopting found with before | knows
    · exact (sound.adoptions adoption adopting before).preserves preserves
    · exact knows

/-! ## Snapshots stay current -/

theorem current_of_same {rows rows' : KeyTable} {update : RewrapUpdate}
    (current : update.Current rows)
    (same : ∀ row, rows'.get update.id = some row → row.wrapping = .master update.expected →
      rows.get update.id = some row) : update.Current rows' :=
  fun row held columns => current row (same row held columns) columns

/-- A mint puts no row under a master but the last of its chain, where none is intact. -/
theorem current_of_mints {masters : MasterKeys} {chain : List Identity} {st st' : KeyState}
    {update : RewrapUpdate} (mints : Mints masters chain st st')
    (clear : ∀ id, chain.getLast? = some id → update.id = id →
      update.expected = masters.primary → Intact st.rows.forest id)
    (current : update.Current st.rows) : update.Current st'.rows := by
  induction mints with
  | refl => exact current
  | @tail middle last mints mint ih =>
      refine current_of_same ih fun row held columns => ?_
      cases mint with
      | draw drawn grows => exact held
      | plant planted new drawn named broken wraps fresh grows place =>
          rw [Table.get_set] at held
          split at held
          · next here =>
              cases held
              rcases place with ⟨root, last⟩ | ⟨ref, child, -⟩
              · rw [root] at columns
                injection columns with same
                have intact := clear planted last here same.symm
                obtain ⟨node, found⟩ := intact.found
                exact absurd (Mints.intact mints intact ⟨node, found, rfl⟩).1 broken
              · rw [child] at columns
                cases columns
          · exact held

theorem current_of_mintSecretIn {masters : MasterKeys} {chain : List Identity}
    {update : RewrapUpdate} {rotation : Nat} {rotating : Rotating} (sound : w.Sound)
    (clear : w.MintsClear masters chain) (found : w.rotations.get rotation = some rotating)
    (member : update ∈ rotating.updates) :
    update.Current (mintSecretIn masters chain w.keys).2.rows := by
  have current := (sound.rotations rotation rotating found update member).2
  cases chain with
  | nil =>
      rw [mintSecretIn_nil]
      exact current
  | cons id above =>
      refine current_of_mints (mintSecretIn_spec masters id above sound.keys).mints ?_ current
      intro last named here expected
      exact clear last named ⟨rotation, rotating, update, found, member, here, expected⟩

/-! ## The conditional writes of an adoption -/

/-- The bytes an adoption writes. -/
def adoptedBytes (keys : KeyState) (id parentId : Identity) (secret parent : Secret) : Wrapped :=
  ⟨keys.entropy, ⟨childKek parent, childAad id parentId, secret⟩⟩

theorem adoptWrite_cases (id parentId : Identity) (read : Wrapped) (secret parent : Secret)
    (keys : KeyState) :
    Keys.adoptWrite id parentId read secret parent keys =
        ((adoptedBytes keys id parentId secret parent, false),
          { keys with entropy := keys.entropy + 1 }) ∨
      ∃ old, keys.rows.get id = some old ∧ old.wrapped = read ∧
        Keys.adoptWrite id parentId read secret parent keys =
          ((adoptedBytes keys id parentId secret parent, true),
            ⟨keys.rows.set id ⟨adoptedBytes keys id parentId secret parent,
              .parent ⟨parentId, parentFingerprint parent⟩⟩, keys.entropy + 1⟩) := by
  unfold Keys.adoptWrite KeyState.wrapKeyUnder KeyTable.adoptSubjectKey
  dsimp only
  rcases compareAndSet_cases keys.rows id read ⟨adoptedBytes keys id parentId secret parent,
    .parent ⟨parentId, parentFingerprint parent⟩⟩ with lost | ⟨old, held, same, won⟩
  · refine .inl ?_
    unfold adoptedBytes at lost ⊢
    rw [lost]
  · refine .inr ⟨old, held, same, ?_⟩
    unfold adoptedBytes at won ⊢
    rw [won]

/-- The bytes a restore writes. -/
def restoredBytes (keys : KeyState) (masters : MasterKeys) (secret : Secret) : Wrapped :=
  ⟨keys.entropy, ⟨.master masters.primary, [], secret⟩⟩

theorem adoptRestore_cases (masters : MasterKeys) (id : Identity) (written : Wrapped)
    (secret : Secret) (keys : KeyState) :
    ((∀ row, keys.rows.get id = some row → row.wrapped ≠ written) ∧
        (Keys.adoptRestore masters id written secret keys).2 =
          { keys with entropy := keys.entropy + 1 }) ∨
      ∃ old, keys.rows.get id = some old ∧ old.wrapped = written ∧
        (Keys.adoptRestore masters id written secret keys).2 =
          ⟨keys.rows.set id ⟨restoredBytes keys masters secret, .master masters.primary⟩,
            keys.entropy + 1⟩ := by
  unfold Keys.adoptRestore KeyState.wrapKeyUnder KeyTable.restoreRoot KeyTable.compareAndSet
  dsimp only
  split
  · next old held =>
      split
      · next same => exact .inr ⟨old, held, same, rfl⟩
      · next differs =>
          refine .inl ⟨?_, rfl⟩
          intro row again
          rw [held] at again
          cases again
          exact differs
  · next none =>
      refine .inl ⟨?_, rfl⟩
      intro row held
      rw [none] at held
      cases held

/-- A row written over with its own secret, to be held or to be a root. -/
theorem rewrites_row {keys : KeyState} {id : Identity} {old row : SubjectKey}
    (sound : keys.Sound) (found : keys.rows.get id = some old) (secret : row.secret = old.secret)
    (wraps : row.Wraps id)
    (linked : ∀ ref, row.parent = some ref → ref.fingerprint.preimage < keys.entropy ∧
      Bound keys.rows.forest ref.fingerprint.preimage ref.identity)
    (alive : ¬Dead keys.rows.forest held old.secret) (place : held' id ∨ row.parent = none)
    (others : ∀ other, other ≠ id → (held other ↔ held' other)) :
    Preserves held held' spares keys ⟨keys.rows.set id row, keys.entropy + 1⟩ := by
  have grows : keys.entropy ≤ keys.entropy + 1 := Nat.le_succ _
  refine ⟨(sound.rewrite found secret wraps linked).draw grows, grows, ?_, ?_, ?_⟩
  · rintro owner ownerSecret - ⟨intact, node, standing, rfl⟩
    refine ⟨intact.carry fun other node _ _ there => ?_, ?_⟩
    · by_cases here : other = id
      · subst here
        rw [KeyTable.forest_of_get found] at there
        cases there
        exact ⟨_, KeyTable.forest_set_self, secret,
          place.imp_right fun root => .inl (SubjectKey.node_root root)⟩
      · refine ⟨node, (KeyTable.forest_set_ne here).trans there, rfl, ?_⟩
        by_cases also : held other
        · exact .inl ((others other here).mp also)
        · exact .inr (.inr ⟨also, rfl⟩)
    · by_cases here : owner = id
      · subst here
        rw [KeyTable.forest_of_get found] at standing
        cases standing
        exact ⟨_, KeyTable.forest_set_self, secret⟩
      · exact ⟨node, (KeyTable.forest_set_ne here).trans standing, rfl⟩
  · intro ofSecret drawn dead
    refine Dead.carry sound.links ?_ dead drawn
    intro other node there _ deadHere
    by_cases here : other = id
    · subst here
      rw [KeyTable.forest_set_self] at there
      cases there
      have deadOld : Dead keys.rows.forest held old.secret := secret ▸ deadHere
      exact absurd deadOld alive
    · exact ⟨node, (KeyTable.forest_set_ne here).symm.trans there, rfl, rfl, (others other here).mpr⟩
  · intro ofSecret home _ bound
    exact KeyTable.bound_set_same bound found secret

/-- A secret in custody is not dead. -/
theorem not_dead_of_held {keys : KeyState} {id : Identity} {row : SubjectKey}
    (found : keys.rows.get id = some row) (holding : held id) :
    ¬Dead keys.rows.forest held row.secret := by
  rintro (⟨_, loose, -⟩)
  exact (loose id row.node (KeyTable.forest_of_get found) rfl).1 holding

/-! ## Who is suspended -/

theorem suspended_congr (adoptions : w'.adoptions = w.adoptions) {id : Identity}
    (same : w'.keys.rows.get id = w.keys.rows.get id) : w.Suspended id ↔ w'.Suspended id := by
  unfold Suspended
  rw [adoptions, same]

/-- An adoption that has nothing pending suspends nothing, before or after. -/
theorem suspended_of_quiet (adoption : Nat) {id : Identity}
    (others : ∀ other, other ≠ adoption → w'.adoptions.get other = w.adoptions.get other)
    (quiet : ∀ adopting wrapped, w.adoptions.get adoption = some adopting →
      adopting.pending = some wrapped → adopting.id ≠ id ∨
        ∀ row, w.keys.rows.get id = some row → row.wrapped ≠ wrapped)
    (quiet' : ∀ adopting wrapped, w'.adoptions.get adoption = some adopting →
      adopting.pending = some wrapped → adopting.id ≠ id ∨
        ∀ row, w'.keys.rows.get id = some row → row.wrapped ≠ wrapped)
    (same : w'.keys.rows.get id = w.keys.rows.get id) : w.Suspended id ↔ w'.Suspended id := by
  constructor
  · rintro ⟨other, adopting, wrapped, row, found, pending, here, held, bytes⟩
    by_cases mine : other = adoption
    · subst mine
      rcases quiet adopting wrapped found pending with apart | differs
      · exact absurd here apart
      · exact absurd bytes (differs row held)
    · exact ⟨other, adopting, wrapped, row, (others other mine).trans found, pending, here,
        same.trans held, bytes⟩
  · rintro ⟨other, adopting, wrapped, row, found, pending, here, held, bytes⟩
    by_cases mine : other = adoption
    · subst mine
      rcases quiet' adopting wrapped found pending with apart | differs
      · exact absurd here apart
      · exact absurd bytes (differs row held)
    · exact ⟨other, adopting, wrapped, row, (others other mine).symm.trans found, pending, here,
        same.symm.trans held, bytes⟩

/-- An adoption's write takes the row into custody, or finds another in its place. -/
theorem preserves_adoptWrite {adoption : Nat} {masters : MasterKeys} {id parentId : Identity}
    {above : List Identity} {row : SubjectKey} {secret parent : Secret} (sound : w.Sound)
    (found : w.adoptions.get adoption =
      some ⟨masters, id, parentId, above, .minted row secret parent⟩)
    (taken : w.step (.adoptWrite adoption) = some w') :
    Preserves w.Suspended w'.Suspended spares w.keys w'.keys := by
  simp only [step] at taken
  rw [found] at taken
  dsimp only at taken
  have knows := sound.adoptions adoption _ found
  cases knows with
  | read phase => cases phase
  | pending phase => rcases phase with phase | phase <;> cases phase
  | minted phase root drawn bound =>
      cases phase
      have quiet (adopting : Adopting) (wrapped : Wrapped)
          (held : w.adoptions.get adoption = some adopting)
          (pending : adopting.pending = some wrapped) : False := by
        rw [found] at held
        cases held
        cases pending
      rcases adoptWrite_cases id parentId row.wrapped secret parent w.keys with
        lost | ⟨old, held, same, won⟩
      · rw [lost] at taken
        cases taken
        have equal : w.Suspended = Suspended { w with
            keys := { w.keys with entropy := w.keys.entropy + 1 }
            adoptions := w.adoptions.remove adoption } := by
          funext other
          refine propext (suspended_of_quiet adoption ?_ ?_ ?_ rfl)
          · intro another apart
            rw [Table.get_remove, if_neg apart]
          · exact fun adopting wrapped there pending => (quiet adopting wrapped there pending).elim
          · intro adopting wrapped there
            rw [Table.get_remove, if_pos rfl] at there
            cases there
        rw [← equal]
        exact .draw sound.keys (Nat.le_succ _)
      · rw [won] at taken
        cases taken
        have secretThen : old.secret = secret := by
          rw [← root.secret]
          exact congrArg (fun wrapped => wrapped.box.message) same
        have rootThen := parent_none_of_wrapped_eq (sound.keys.wraps id old held) root.wraps
          root.root same
        refine rewrites_row sound.keys held secretThen.symm ⟨rfl, rfl⟩ ?_
          ((KeyTable.intact_root held rootThen).not_dead (KeyTable.stands_of_get held)) (.inl ?_) ?_
        · rintro ref ⟨⟩
          exact ⟨drawn, bound⟩
        · refine ⟨adoption, ⟨masters, id, parentId, above,
            .written (adoptedBytes w.keys id parentId secret parent) secret⟩, _,
            ⟨adoptedBytes w.keys id parentId secret parent,
              .parent ⟨parentId, parentFingerprint parent⟩⟩, ?_, rfl, rfl, ?_, rfl⟩
          · rw [Table.get_set, if_pos rfl]
          · rw [Table.get_set, if_pos rfl]
        · intro other apart
          refine suspended_of_quiet adoption ?_ ?_ ?_ ?_
          · intro another differs
            rw [Table.get_set, if_neg differs]
          · exact fun adopting wrapped there pending => (quiet adopting wrapped there pending).elim
          · intro adopting wrapped there _
            rw [Table.get_set, if_pos rfl] at there
            cases there
            exact .inl apart.symm
          · rw [Table.get_set, if_neg apart]

/-- An adoption's restore makes a root of the row it wrote, or finds another in its place. -/
theorem preserves_adoptRestore {adoption : Nat} (sound : w.Sound)
    (taken : w.step (.adoptRestore adoption) = some w') :
    Preserves w.Suspended w'.Suspended spares w.keys w'.keys := by
  simp only [step] at taken
  split at taken
  · next masters id parentId above written secret found =>
      cases taken
      have removed (other : Nat) (apart : other ≠ adoption) :
          (w.adoptions.remove adoption).get other = w.adoptions.get other := by
        rw [Table.get_remove, if_neg apart]
      have ended (adopting : Adopting)
          (there : (w.adoptions.remove adoption).get adoption = some adopting) : False := by
        rw [Table.get_remove, if_pos rfl] at there
        cases there
      rcases adoptRestore_cases masters id written secret w.keys with
        ⟨differs, kept⟩ | ⟨old, held, same, put⟩
      · rw [kept]
        have equal : w.Suspended = Suspended { w with
            keys := { w.keys with entropy := w.keys.entropy + 1 }
            adoptions := w.adoptions.remove adoption } := by
          funext other
          refine propext (suspended_of_quiet adoption removed ?_
            (fun adopting _ there _ => (ended adopting there).elim) rfl)
          intro adopting wrapped there pending
          rw [found] at there
          cases there
          cases pending
          by_cases here : id = other
          · subst here
            exact .inr differs
          · exact .inl here
        rw [← equal]
        exact .draw sound.keys (Nat.le_succ _)
      · rw [put]
        have suspended : w.Suspended id := ⟨adoption, _, written, old, found, rfl, rfl, held, same⟩
        have secretThen : old.secret = secret := by
          have knows := sound.adoptions adoption _ found
          cases knows with
          | read phase => cases phase
          | minted phase => cases phase
          | pending phase message key =>
              rcases phase with phase | phase <;> cases phase
              exact (congrArg (fun wrapped => wrapped.box.message) same).trans message
        refine rewrites_row sound.keys held secretThen.symm ⟨rfl, rfl⟩ (fun _ never => by cases never)
          (not_dead_of_held held suspended) (.inr rfl) ?_
        intro other apart
        refine suspended_of_quiet adoption removed ?_ (fun adopting _ there _ => (ended adopting there).elim)
          (by rw [Table.get_set, if_neg apart])
        intro adopting wrapped there _
        rw [found] at there
        cases there
        exact .inl apart.symm
  · cases taken

end Races

end Hekla.Keys
