import Hekla.Keys.Rewrapping
import Hekla.Library.Runs

/-!
# The law of erasure

Content reads as it was sealed until its subject, or an identity its subject's
row hangs from, is erased; from then on it reads as erased, whatever is minted,
rotated, adopted or swept afterwards.
-/

namespace Hekla.Keys

open Hekla.Library Forest

/-- Nothing is held back by an operation that runs by itself. -/
abbrev nobody : Identity → Prop := fun _ => False

section Operations

variable {st st' : KeyState}

theorem Preserves.mints {masters : MasterKeys} {chain : List Identity} (sound : st.Sound)
    (mints : Mints masters chain st st') : Preserves nobody nobody everyone st st' := by
  induction mints with
  | refl => exact .refl sound
  | tail mints mint ih =>
      exact ih.trans (.mint ih.sound mint (fun _ _ intact => intact) fun _ _ => Iff.rfl)

theorem Preserves.mintSecretIn (masters : MasterKeys) (chain : List Identity) (sound : st.Sound) :
    Preserves nobody nobody everyone st (mintSecretIn masters chain st).2 := by
  cases chain with
  | nil =>
      rw [mintSecretIn_nil]
      exact .refl sound
  | cons id above => exact .mints sound (mintSecretIn_spec masters id above sound).mints

theorem encryptSubjectIn_state (masters : MasterKeys) (chain : List Identity)
    (field plaintext : String) (st : KeyState) :
    (encryptSubjectIn masters chain field plaintext st).2 = (mintSecretIn masters chain st).2 := by
  unfold encryptSubjectIn getOrCreateSecretIn
  split
  · next failed =>
      split at failed <;> cases failed
      · next minted => rw [minted]
      · next minted => rw [minted]
  · next made =>
      split at made <;> cases made
      next minted => rw [minted]

/-- Content is sealed under the secret its subject's row holds from then on. -/
theorem encryptSubjectIn_holds {masters : MasterKeys} {owner : Identity} {above : List Identity}
    {field plaintext : String} {ciphertext : Ciphertext} (sound : st.Sound)
    (encrypted : (encryptSubjectIn masters (owner :: above) field plaintext st).1 = .ok ciphertext) :
    ∃ secret, ciphertext = encryptWith secret field plaintext ∧
      Holds owner (encryptSubjectIn masters (owner :: above) field plaintext st).2 secret := by
  rw [encryptSubjectIn_state]
  have minted := mintSecretIn_spec masters owner above sound
  unfold encryptSubjectIn getOrCreateSecretIn at encrypted
  split at encrypted
  · cases encrypted
  · next secret st' made =>
      cases encrypted
      split at made <;> cases made
      next returned =>
        rw [returned] at minted ⊢
        exact ⟨secret, rfl, minted.holds secret rfl⟩

theorem eraseSubject_state {id : Identity} (erasable : id.1 ≠ globalSubject) :
    (eraseSubject id st).2 = { st with rows := st.rows.remove id } := by
  unfold eraseSubject
  rw [if_neg erasable]

/-- Erasing an identity kills the secrets of all that hangs from it. -/
theorem dead_of_erased {held : Identity → Prop} {id owner : Identity} {secret : Secret}
    (sound : st.Sound)
    (free : ∀ other, held other → ¬Relation.TransGen (Hangs st.rows.forest) other id)
    (reached : Reaches st.rows.forest owner id) (bound : Bound st.rows.forest secret owner) :
    Dead (KeyTable.forest (st.rows.remove id)) held secret := by
  refine Dead.of_pruned ?_ ?_ ?_ free reached bound
  · unfold KeyTable.forest
    rw [Table.get_remove, if_pos rfl]
    rfl
  · intro other apart
    unfold KeyTable.forest
    rw [Table.get_remove, if_neg apart]
  · intro other node upper gen found above
    obtain ⟨row, heldRow, rfl⟩ := KeyTable.get_of_forest found
    obtain ⟨ref, hung, rfl, rfl⟩ := SubjectKey.node_above above
    exact sound.homes other row ref heldRow hung

theorem Preserves.erase (sound : st.Sound) (id : Identity) :
    Preserves nobody nobody (fun owner => ¬(id.1 ≠ globalSubject ∧ Reaches st.rows.forest owner id))
      st (eraseSubject id st).2 := by
  unfold eraseSubject
  split
  · exact .refl sound
  · next erasable =>
      refine .shrink sound ?_ ?_ fun _ _ => Iff.rfl
      · intro other row held
        rw [Table.get_remove] at held
        split at held
        · cases held
        · exact held
      · intro owner other spared _ reached
        rw [Table.get_remove, if_neg]
        rintro rfl
        exact spared ⟨erasable, reached⟩

theorem sweep_shrunk {rows : KeyTable} {picked : List Identity} {id : Identity} {row : SubjectKey}
    (held : Table.get (rows.sweepOrphanSubjectKeys picked) id = some row) :
    rows.get id = some row := by
  unfold KeyTable.sweepOrphanSubjectKeys at held
  rw [Table.get_retain, Option.filter_eq_some_iff] at held
  exact held.1

/-- A sweep leaves every row that has its parent. -/
theorem sweep_get_of_linked {rows : KeyTable} {picked : List Identity} {id : Identity}
    (linked : ∀ row, rows.get id = some row → rows.isOrphan row = false) :
    Table.get (rows.sweepOrphanSubjectKeys picked) id = rows.get id := by
  unfold KeyTable.sweepOrphanSubjectKeys
  rw [Table.get_retain]
  cases held : rows.get id with
  | none => rfl
  | some row =>
      rw [Option.filter_some, linked row held, Bool.and_false]
      rfl

/-- A row whose link is good has its parent. -/
theorem not_orphan {rows : KeyTable} {row : SubjectKey}
    (links : ∀ ref, row.parent = some ref →
      Stands rows.forest ref.identity ref.fingerprint.preimage) : rows.isOrphan row = false := by
  unfold KeyTable.isOrphan
  split
  · rfl
  · next ref columns =>
      have hung : row.parent = some ref := by
        unfold SubjectKey.parent
        rw [columns]
      obtain ⟨above, held, -⟩ := KeyTable.get_of_stands (links ref hung)
      rw [held]
      rfl

theorem Preserves.sweep (sound : st.Sound) (picked : List Identity) :
    Preserves nobody nobody everyone st
      { st with rows := st.rows.sweepOrphanSubjectKeys picked } := by
  refine .shrink sound (fun _ _ => sweep_shrunk) ?_ fun _ _ => Iff.rfl
  intro _ other _ intact _
  refine sweep_get_of_linked fun row held => not_orphan fun ref hung => ?_
  exact (KeyTable.intact_parent intact held hung).2

/-! ### Adoption -/

theorem adoptRead_some {masters : MasterKeys} {id : Identity} {row : SubjectKey} {secret : Secret}
    (read : adoptRead masters id st = .ok (some (row, secret))) :
    st.rows.get id = some row ∧ row.parent = none ∧ row.secret = secret := by
  unfold adoptRead at read
  split at read
  · cases read
  · next found held =>
      split at read
      · cases read
      · next master columns =>
          have root : found.parent = none := by
            unfold SubjectKey.parent
            rw [columns]
          split at read
          · cases read
          · next key _ =>
              cases opened : unwrapKeyUnder key found.wrapped [] with
              | error message =>
                  rw [opened] at read
                  cases read
              | ok message =>
                  rw [opened] at read
                  cases read
                  exact ⟨held, root, ((unwrapKeyUnder_eq_ok_iff _ _ _ _).mp opened).2.2⟩

/-- A row with the bytes of a root is a root. -/
theorem parent_none_of_wrapped_eq {id : Identity} {row root : SubjectKey} (wraps : row.Wraps id)
    (rootWraps : root.Wraps id) (unhung : root.parent = none) (same : row.wrapped = root.wrapped) :
    row.parent = none := by
  unfold SubjectKey.parent at unhung ⊢
  unfold SubjectKey.Wraps at wraps rootWraps
  cases columns : row.wrapping with
  | master _ => rfl
  | parent ref =>
      cases rootColumns : root.wrapping with
      | parent _ =>
          rw [rootColumns] at unhung
          cases unhung
      | master _ =>
          rw [columns] at wraps
          rw [rootColumns, ← same] at rootWraps
          cases wraps.1.symm.trans rootWraps.1

theorem compareAndSet_cases (rows : KeyTable) (id : Identity) (expected : Wrapped)
    (row : SubjectKey) :
    rows.compareAndSet id expected row = (rows, false) ∨
      ∃ old, rows.get id = some old ∧ old.wrapped = expected ∧
        rows.compareAndSet id expected row = (rows.set id row, true) := by
  unfold KeyTable.compareAndSet
  split
  · next old held =>
      split
      · next same => exact .inr ⟨old, held, same, rfl⟩
      · exact .inl rfl
  · exact .inl rfl

/-- Hanging a root from a parent whose secret it is wrapped under. -/
theorem Preserves.adopt {id parentId : Identity} {old : SubjectKey} {parent : Secret}
    (wrapped : Wrapped) {drawn : Nat} (sound : st.Sound) (held : st.rows.get id = some old)
    (root : old.parent = none) (parentHolds : Holds parentId st parent)
    (box : wrapped.box = ⟨childKek parent, childAad id parentId, old.secret⟩)
    (grows : st.entropy ≤ drawn) :
    Preserves nobody nobody everyone st
      ⟨st.rows.set id ⟨wrapped, .parent ⟨parentId, parentFingerprint parent⟩⟩, drawn⟩ := by
  obtain ⟨intactParent, stands⟩ := parentHolds
  have secret : SubjectKey.secret ⟨wrapped, .parent ⟨parentId, parentFingerprint parent⟩⟩ =
      old.secret := by
    unfold SubjectKey.secret
    dsimp only
    rw [box]
    rfl
  have wraps : SubjectKey.Wraps id ⟨wrapped, .parent ⟨parentId, parentFingerprint parent⟩⟩ := by
    unfold SubjectKey.Wraps
    dsimp only
    rw [box]
    exact ⟨rfl, rfl⟩
  have rewritten := sound.rewrite held secret wraps (by
    rintro ref ⟨⟩
    exact ⟨sound.stands_drawn stands, sound.stands_bound stands⟩)
  refine ⟨rewritten.draw grows, grows, ?_, ?_, ?_⟩
  · rintro other otherSecret - ⟨intact, node, found, rfl⟩
    refine ⟨?_, ?_⟩
    · refine Intact.rehang (fun other => KeyTable.forest_set_ne) (KeyTable.forest_of_get held) ?_
        intactParent stands intact
      rw [KeyTable.forest_set_self]
      exact congrArg some (congrArg (fun gen => Node.mk gen _) secret)
    · by_cases here : other = id
      · subst here
        rw [KeyTable.forest_of_get held] at found
        cases found
        exact ⟨_, KeyTable.forest_set_self, secret⟩
      · exact ⟨node, (KeyTable.forest_set_ne here).trans found, rfl⟩
  · intro secretThere earlier dead
    refine Dead.carry sound.links ?_ dead earlier
    intro other node found _ dead
    by_cases here : other = id
    · subst here
      rw [KeyTable.forest_set_self] at found
      cases found
      have intact := KeyTable.intact_root held root
      have deadRoot : Dead st.rows.forest nobody old.secret := secret ▸ dead
      exact absurd deadRoot (intact.not_dead (KeyTable.stands_of_get held))
    · exact ⟨node, (KeyTable.forest_set_ne here).symm.trans found, rfl, rfl, fun never => never⟩
  · intro secretThere home _ bound
    exact KeyTable.bound_set_same bound held secret

/-- An adoption that runs by itself. -/
theorem Preserves.adoptIn (masters : MasterKeys) (chain : List Identity) (sound : st.Sound) :
    Preserves nobody nobody everyone st (adoptIn masters chain st).2 := by
  unfold Keys.adoptIn
  split
  · exact .refl sound
  · exact .refl sound
  · next id parentId above =>
      split
      · exact .refl sound
      · exact .refl sound
      · next row secret read =>
          obtain ⟨held, root, rfl⟩ := adoptRead_some read
          have minted := mintSecretIn_spec masters parentId above sound
          have mints := Preserves.mints sound minted.mints
          split
          · next made =>
              rw [made] at mints
              exact mints
          · next made =>
              rw [made] at mints
              exact mints
          · next parent st' made =>
              rw [made] at minted mints
              have parentHolds := minted.holds parent rfl
              dsimp only at parentHolds mints
              unfold adoptWrite KeyState.wrapKeyUnder KeyTable.adoptSubjectKey
              dsimp only
              rcases compareAndSet_cases st'.rows id row.wrapped
                ⟨⟨st'.entropy, ⟨childKek parent, childAad id parentId, row.secret⟩⟩,
                  .parent ⟨parentId, parentFingerprint parent⟩⟩ with lost | ⟨old, heldThen, same, won⟩
              · rw [lost]
                exact mints.trans (.draw mints.sound (Nat.le_succ _))
              · rw [won]
                have secret : row.secret = old.secret :=
                  congrArg (fun wrapped => wrapped.box.message) same.symm
                have rootThen := parent_none_of_wrapped_eq (mints.sound.wraps id old heldThen)
                  (sound.wraps id row held) root same
                have adopted := Preserves.adopt
                  ⟨st'.entropy, ⟨childKek parent, childAad id parentId, row.secret⟩⟩ mints.sound
                  heldThen rootThen parentHolds (congrArg (Box.mk _ _) secret)
                  (Nat.le_succ st'.entropy)
                have whole := mints.trans adopted
                split
                · next lost => cases lost
                · next written st'' wrote =>
                    cases wrote
                    split
                    · exact whole
                    · exact whole
                    · next unread =>
                        -- The row has been hung from an intact parent, so it opens.
                        obtain ⟨intact, stands⟩ := adopted.holds id old.secret trivial
                          ⟨KeyTable.intact_root heldThen rootThen, KeyTable.stands_of_get heldThen⟩
                        exact absurd unread (loadSecret_ne_none masters intact stands)

end Operations

/-! ## Runs of operations -/

/-- The operations of any number of stores over one table. -/
inductive KeyOp where
  | encrypt (masters : MasterKeys) (chain : List Identity) (field plaintext : String)
  | existing (masters : MasterKeys) (id : Identity) (field plaintext : String)
  | erase (id : Identity)
  | rotate (masters : MasterKeys)
  | adopt (masters : MasterKeys) (chain : List Identity)
  | sweep (picked : List Identity)

namespace KeyOp

/-- The state an operation leaves, whether it answers or fails. -/
def perform (st : KeyState) : KeyOp → KeyState
  | .encrypt masters chain field plaintext => (encryptSubjectIn masters chain field plaintext st).2
  | .existing masters id field plaintext => (encryptSubjectExisting masters id field plaintext st).2
  | .erase id => (eraseSubject id st).2
  | .rotate masters => (Keys.rotate masters st).2
  | .adopt masters chain => (adoptIn masters chain st).2
  | .sweep picked => { st with rows := st.rows.sweepOrphanSubjectKeys picked }

def step (st : KeyState) (op : KeyOp) : Option KeyState := some (perform st op)

/-- The operation erases the identity, or one its row hangs from. -/
def Covers (owner : Identity) (st : KeyState) : KeyOp → Prop
  | .erase id => id.1 ≠ globalSubject ∧ Reaches st.rows.forest owner id
  | _ => False

/-- Nothing covers the identity. -/
def Spares (owner : Identity) (st : KeyState) (op : KeyOp) : Prop := ¬Covers owner st op

/-- The operation answers with content sealed under the identity. -/
inductive Seals (st : KeyState) (owner : Identity) (field plaintext : String)
    (ciphertext : Ciphertext) : KeyOp → Prop where
  | encrypt {masters : MasterKeys} {above : List Identity}
      (sealed : (encryptSubjectIn masters (owner :: above) field plaintext st).1 =
        .ok ciphertext) :
      Seals st owner field plaintext ciphertext
        (.encrypt masters (owner :: above) field plaintext)
  | existing {masters : MasterKeys}
      (sealed : (encryptSubjectExisting masters owner field plaintext st).1 =
        .ok (some ciphertext)) :
      Seals st owner field plaintext ciphertext (.existing masters owner field plaintext)

theorem perform_preserves {st : KeyState} (sound : st.Sound) (op : KeyOp) :
    Preserves nobody nobody (fun owner => Spares owner st op) st (perform st op) := by
  have all {st' : KeyState} (preserves : Preserves nobody nobody everyone st st') :
      Preserves nobody nobody (fun owner => Spares owner st op) st st' :=
    { preserves with holds := fun id secret _ => preserves.holds id secret trivial }
  cases op with
  | encrypt masters chain field plaintext =>
      refine all ?_
      unfold perform
      dsimp only
      rw [encryptSubjectIn_state]
      exact .mintSecretIn masters chain sound
  | existing masters id field plaintext => exact .refl sound
  | erase id => exact .erase sound id
  | rotate masters => exact all (.rotate masters sound)
  | adopt masters chain => exact all (.adoptIn masters chain sound)
  | sweep picked => exact all (.sweep sound picked)

theorem sound_of_run {ops : List KeyOp} {st st' : KeyState} (sound : st.Sound)
    (ran : run step st ops = some st') : st'.Sound := by
  refine run_invariant KeyState.Sound ?_ sound ran
  rintro st op next sound ⟨⟩
  exact (perform_preserves sound op).sound

theorem seals_holds {st : KeyState} {owner : Identity} {field plaintext : String}
    {ciphertext : Ciphertext} {op : KeyOp} (sound : st.Sound)
    (sealed : Seals st owner field plaintext ciphertext op) :
    ∃ secret, ciphertext = encryptWith secret field plaintext ∧
      Holds owner (perform st op) secret := by
  cases sealed with
  | encrypt sealed => exact encryptSubjectIn_holds sound sealed
  | @existing masters sealed =>
      unfold encryptSubjectExisting at sealed
      cases loaded : loadSecret masters st.rows owner with
      | error message =>
          rw [loaded] at sealed
          cases sealed
      | ok found =>
          rw [loaded] at sealed
          cases found with
          | none => cases sealed
          | some secret =>
              cases sealed
              exact ⟨secret, rfl, loadSecretAt_some loaded⟩

/-- A covering erase kills the secrets of those it covers. -/
theorem dead_of_covers {st : KeyState} {owner : Identity} {op : KeyOp} {secret : Secret}
    (sound : st.Sound) (covers : Covers owner st op) (bound : Bound st.rows.forest secret owner) :
    Dead (perform st op).rows.forest nobody secret := by
  cases op with
  | erase id =>
      obtain ⟨erasable, reached⟩ := covers
      unfold perform
      dsimp only
      rw [eraseSubject_state erasable]
      exact dead_of_erased sound (fun _ never => never.elim) reached bound
  | encrypt | existing | rotate | adopt | sweep => exact covers.elim

/-- Along a run, content is readable as long as nothing covers it, and dead from
the first time something does. -/
theorem fate {ops : List KeyOp} {st st' : KeyState} {owner : Identity} {secret : Secret}
    (sound : st.Sound) (drawn : secret < st.entropy) (bound : Bound st.rows.forest secret owner)
    (ran : run step st ops = some st') :
    (Holds owner st secret → Guarded step (Spares owner) st ops → Holds owner st' secret) ∧
      (Dead st.rows.forest nobody secret ∨ ¬Guarded step (Spares owner) st ops →
        Dead st'.rows.forest nobody secret) := by
  induction ops generalizing st with
  | nil =>
      cases ran
      refine ⟨fun holds _ => holds, ?_⟩
      rintro (dead | unguarded)
      · exact dead
      · exact absurd trivial unguarded
  | cons op rest ih =>
      obtain ⟨next, taken, ranOn⟩ := run_cons.mp ran
      cases taken
      have preserves := perform_preserves sound op
      obtain ⟨readable, dies⟩ := ih preserves.sound (drawn.trans_le preserves.grows)
        (preserves.bound secret owner drawn bound) ranOn
      constructor
      · intro holds guarded
        obtain ⟨spared, later⟩ := Guarded.cons guarded
        exact readable (preserves.holds owner secret spared holds) (later _ rfl)
      · rintro (dead | unguarded)
        · exact dies (.inl (preserves.dead secret drawn dead))
        · by_cases covers : Covers owner st op
          · exact dies (.inl (dead_of_covers sound covers bound))
          · refine dies (.inr fun guarded => unguarded ⟨covers, ?_⟩)
            rintro next ⟨⟩
            exact guarded

/-- Content sealed under a subject reads as it was sealed until the subject, or
an identity its row then hangs from, is erased, and as erased ever after; the
walk up the parents has to stay within the depth the store allows.  Nothing ever
reads as another text, and looking a key up makes none. -/
theorem erasure_law {before after : List KeyOp} {op : KeyOp} {st sealed_st final : KeyState}
    {owner : Identity} {field plaintext : String} {ciphertext : Ciphertext}
    (ran : run step {} before = some st) (sealed : Seals st owner field plaintext ciphertext op)
    (taken : step st op = some sealed_st) (later : run step sealed_st after = some final) :
    (∀ masters, verifyMastersPresent masters final.rows = true →
      Within final.rows.forest (maxSubjectDepth + 1) owner →
        (Guarded step (Spares owner) sealed_st after →
          decryptSubject masters final.rows owner field ciphertext = .ok (some plaintext)) ∧
        (¬Guarded step (Spares owner) sealed_st after →
          decryptSubject masters final.rows owner field ciphertext = .ok none)) ∧
      (∀ masters reader reading text,
        decryptSubject masters final.rows reader reading ciphertext = .ok (some text) →
          text = plaintext ∧ Guarded step (Spares owner) sealed_st after) ∧
      ∀ masters id looking text,
        (encryptSubjectExisting masters id looking text final).2 = final := by
  have sound := sound_of_run KeyState.Sound.start ran
  obtain ⟨secret, rfl, holds⟩ := seals_holds sound sealed
  cases taken
  have soundThen := (perform_preserves sound op).sound
  have drawn := soundThen.stands_drawn holds.2
  have fated := fate soundThen drawn (soundThen.stands_bound holds.2) later
  have soundFinal := sound_of_run soundThen later
  refine ⟨?_, ?_, fun _ _ _ _ => rfl⟩
  · intro masters verified within
    constructor
    · intro guarded
      obtain ⟨intact, stands⟩ := fated.1 holds guarded
      exact decryptSubject_of_intact soundFinal verified within intact stands
    · intro unguarded
      exact decryptSubject_of_dead soundFinal verified (fated.2 (.inr unguarded)) owner field within
  · intro masters reader reading text reads
    obtain ⟨same, intact, stands⟩ := plaintext_of_decryptSubject reads
    refine ⟨same, ?_⟩
    by_contra unguarded
    exact intact.not_dead stands (fated.2 (.inr unguarded))

/-- One master, and a customer of a shop. -/
def oneMaster : MasterKeys := ⟨"A", []⟩

def customer : Identity := ("Customer", "88")

def shop : Identity := ("Shop", "7")

/-- A customer's key, sealed under and then adopted by the shop. -/
theorem erasure_law_of_adopted :
    decryptSubject oneMaster
        (perform (perform {} (.encrypt oneMaster [customer] "email" "a@b.c"))
          (.adopt oneMaster [customer, shop])).rows customer "email"
        (encryptWith 0 "email" "a@b.c") = .ok (some "a@b.c") ∧
      Guarded step (Spares customer) (perform {} (.encrypt oneMaster [customer] "email" "a@b.c"))
        [.adopt oneMaster [customer, shop]] := by
  have reads : decryptSubject oneMaster
      (perform (perform {} (.encrypt oneMaster [customer] "email" "a@b.c"))
        (.adopt oneMaster [customer, shop])).rows customer "email"
      (encryptWith 0 "email" "a@b.c") = .ok (some "a@b.c") := by rfl
  have ran : run step {} [] = some ({} : KeyState) := rfl
  have sealed : Seals {} customer "email" "a@b.c" (encryptWith 0 "email" "a@b.c")
      (.encrypt oneMaster [customer] "email" "a@b.c") := .encrypt rfl
  have later : run step (perform {} (.encrypt oneMaster [customer] "email" "a@b.c"))
      [.adopt oneMaster [customer, shop]] =
        some (perform (perform {} (.encrypt oneMaster [customer] "email" "a@b.c"))
          (.adopt oneMaster [customer, shop])) := rfl
  have law := erasure_law ran sealed rfl later
  exact ⟨reads, (law.2.1 oneMaster customer "email" "a@b.c" reads).2⟩

/-- A chain of thirty-four subjects, each under the next. -/
def deepChain : List Identity :=
  (List.range 34).map fun level => (String.ofList (List.replicate (level + 1) 's'), "1")

/-- Content sealed at the foot of such a chain is refused, and nothing was erased. -/
theorem deep_content_refused :
    Seals {} ("s", "1") "email" "a@b.c" (encryptWith 66 "email" "a@b.c")
        (.encrypt oneMaster deepChain "email" "a@b.c") ∧
      verifyMastersPresent oneMaster
        (perform {} (.encrypt oneMaster deepChain "email" "a@b.c")).rows = true ∧
      decryptSubject oneMaster (perform {} (.encrypt oneMaster deepChain "email" "a@b.c")).rows
        ("s", "1") "email" (encryptWith 66 "email" "a@b.c") ≠ .ok (some "a@b.c") := by
  have refused : (match decryptSubject oneMaster
      (perform {} (.encrypt oneMaster deepChain "email" "a@b.c")).rows ("s", "1") "email"
      (encryptWith 66 "email" "a@b.c") with
      | .error _ => true
      | .ok _ => false) = true := by decide
  refine ⟨.encrypt rfl, by decide, ?_⟩
  intro reads
  rw [reads] at refused
  cases refused

end KeyOp

end Hekla.Keys
