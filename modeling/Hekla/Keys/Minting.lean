import Hekla.Keys.Chains

/-!
# What a mint does

A mint plants fresh rows, and only at identities of its chain whose rows no
longer open.  The secret it returns is the one the row that persisted holds.
-/

namespace Hekla.Keys

open Hekla.Library Forest

/-! ## Writing rows -/

namespace KeyTable

variable {rows rows' : KeyTable} {id other : Identity} {row : SubjectKey}

theorem forest_set_ne (apart : other ≠ id) :
    KeyTable.forest (rows.set id row) other = rows.forest other := by
  unfold forest
  rw [Table.get_set, if_neg apart]

theorem forest_set_self : KeyTable.forest (rows.set id row) id = some row.node :=
  forest_of_get (by rw [Table.get_set, if_pos rfl])

theorem stands_set {secret : Secret} (stands : Stands (KeyTable.forest (rows.set id row)) other secret) :
    Stands rows.forest other secret ∨ other = id ∧ row.secret = secret := by
  obtain ⟨held, found, rfl⟩ := get_of_stands stands
  rw [Table.get_set] at found
  split at found
  · next same =>
      cases found
      exact .inr ⟨same, rfl⟩
  · exact .inl (stands_of_get found)

/-- A fresh secret does not move the ones there are. -/
theorem bound_set_fresh {secret : Secret} {home : Identity} (bound : Bound rows.forest secret home)
    (fresh : row.secret ≠ secret) : Bound (KeyTable.forest (rows.set id row)) secret home := by
  refine bound.carry fun other stands => ?_
  rcases stands_set stands with before | ⟨-, same⟩
  · exact before
  · exact absurd same fresh

/-- A row written over by one with the same secret moves none. -/
theorem bound_set_same {secret : Secret} {home : Identity} {old : SubjectKey}
    (bound : Bound rows.forest secret home) (held : rows.get id = some old)
    (same : row.secret = old.secret) : Bound (KeyTable.forest (rows.set id row)) secret home := by
  refine bound.carry fun other stands => ?_
  rcases stands_set stands with before | ⟨rfl, here⟩
  · exact before
  · exact here ▸ same ▸ stands_of_get held

theorem bound_of_shrunk {secret : Secret} {home : Identity} (bound : Bound rows.forest secret home)
    (shrunk : ∀ id row, rows'.get id = some row → rows.get id = some row) :
    Bound rows'.forest secret home := by
  refine bound.carry fun other stands => ?_
  obtain ⟨row, held, rfl⟩ := get_of_stands stands
  exact stands_of_get (shrunk other row held)

end KeyTable

namespace KeyState.Sound

variable {st : KeyState}

theorem start : ({} : KeyState).Sound where
  wraps id row held := by
    rw [Table.get_empty] at held
    cases held
  drawn id row held := by
    rw [Table.get_empty] at held
    cases held
  linked id row ref held := by
    rw [Table.get_empty] at held
    cases held
  own id row held := by
    rw [Table.get_empty] at held
    cases held
  homes id row ref held := by
    rw [Table.get_empty] at held
    cases held

theorem stands_drawn (sound : st.Sound) {id : Identity} {secret : Secret}
    (stands : Stands st.rows.forest id secret) : secret < st.entropy := by
  obtain ⟨row, held, rfl⟩ := KeyTable.get_of_stands stands
  exact sound.drawn id row held

theorem stands_bound (sound : st.Sound) {id : Identity} {secret : Secret}
    (stands : Stands st.rows.forest id secret) : Bound st.rows.forest secret id := by
  obtain ⟨row, held, rfl⟩ := KeyTable.get_of_stands stands
  exact sound.own id row held

theorem draw (sound : st.Sound) {drawn : Nat} (grows : st.entropy ≤ drawn) :
    ({ st with entropy := drawn } : KeyState).Sound where
  wraps := sound.wraps
  drawn id row held := (sound.drawn id row held).trans_le grows
  linked id row ref held hung := (sound.linked id row ref held hung).trans_le grows
  own := sound.own
  homes := sound.homes

/-- Deleting rows keeps a state sound. -/
theorem shrink (sound : st.Sound) {rows : KeyTable}
    (shrunk : ∀ id row, rows.get id = some row → st.rows.get id = some row) :
    ({ st with rows } : KeyState).Sound where
  wraps id row held := sound.wraps id row (shrunk id row held)
  drawn id row held := sound.drawn id row (shrunk id row held)
  linked id row ref held := sound.linked id row ref (shrunk id row held)
  own id row held := KeyTable.bound_of_shrunk (sound.own id row (shrunk id row held)) shrunk
  homes id row ref held hung :=
    KeyTable.bound_of_shrunk (sound.homes id row ref (shrunk id row held) hung) shrunk

/-- Writing a row over with its own secret keeps a state sound. -/
theorem rewrite (sound : st.Sound) {id : Identity} {old row : SubjectKey}
    (held : st.rows.get id = some old) (same : row.secret = old.secret) (wraps : row.Wraps id)
    (linked : ∀ ref, row.parent = some ref → ref.fingerprint.preimage < st.entropy ∧
      Bound st.rows.forest ref.fingerprint.preimage ref.identity) :
    ({ st with rows := st.rows.set id row } : KeyState).Sound where
  wraps other found at_other := by
    rw [Table.get_set] at at_other
    split at at_other
    · next here =>
        cases at_other
        exact here ▸ wraps
    · exact sound.wraps other found at_other
  drawn other found at_other := by
    rw [Table.get_set] at at_other
    split at at_other
    · cases at_other
      exact same ▸ sound.drawn id old held
    · exact sound.drawn other found at_other
  linked other found ref at_other hung := by
    rw [Table.get_set] at at_other
    split at at_other
    · cases at_other
      exact (linked ref hung).1
    · exact sound.linked other found ref at_other hung
  own other found at_other := by
    rw [Table.get_set] at at_other
    split at at_other
    · next here =>
        cases at_other
        exact KeyTable.bound_set_same (here ▸ same ▸ sound.own id old held) held same
    · exact KeyTable.bound_set_same (sound.own other found at_other) held same
  homes other found ref at_other hung := by
    rw [Table.get_set] at at_other
    split at at_other
    · cases at_other
      exact KeyTable.bound_set_same (linked ref hung).2 held same
    · exact KeyTable.bound_set_same (sound.homes other found ref at_other hung) held same

end KeyState.Sound

/-! ## Planting -/

/-- A step of a mint: something drawn, or a fresh row where no intact one stands. -/
inductive Mint (masters : MasterKeys) (chain : List Identity) : KeyState → KeyState → Prop where
  | draw (st : KeyState) (drawn : Nat) (grows : st.entropy ≤ drawn) :
      Mint masters chain st { st with entropy := drawn }
  | plant (st : KeyState) (id : Identity) (row : SubjectKey) (drawn : Nat) (named : id ∈ chain)
      (broken : ¬Intact st.rows.forest id) (wraps : row.Wraps id)
      (fresh : row.secret = st.entropy) (grows : st.entropy < drawn)
      (place : (row.wrapping = .master masters.primary ∧ chain.getLast? = some id) ∨
        ∃ ref, row.wrapping = .parent ref ∧ Intact st.rows.forest ref.identity ∧
          Stands st.rows.forest ref.identity ref.fingerprint.preimage) :
      Mint masters chain st ⟨st.rows.set id row, drawn⟩

abbrev Mints (masters : MasterKeys) (chain : List Identity) : KeyState → KeyState → Prop :=
  Relation.ReflTransGen (Mint masters chain)

section Planting

variable {masters : MasterKeys} {chain : List Identity} {st st' : KeyState}

theorem Mint.sound (mint : Mint masters chain st st') (sound : st.Sound) : st'.Sound := by
  cases mint with
  | draw drawn grows => exact sound.draw grows
  | plant id row drawn named broken wraps fresh grows place =>
      have apart {secret : Secret} (earlier : secret < st.entropy) : row.secret ≠ secret :=
        fresh ▸ earlier.ne'
      have hangs (ref : ParentRef) (hung : row.parent = some ref) :
          Stands st.rows.forest ref.identity ref.fingerprint.preimage := by
        unfold SubjectKey.parent at hung
        rcases place with ⟨root, -⟩ | ⟨ref', columns, -, stands⟩
        · rw [root] at hung
          cases hung
        · rw [columns] at hung
          cases hung
          exact stands
      refine ⟨?_, ?_, ?_, ?_, ?_⟩
      · intro other found held
        rw [Table.get_set] at held
        split at held
        · next here =>
            cases held
            exact here ▸ wraps
        · exact sound.wraps other found held
      · intro other found held
        rw [Table.get_set] at held
        split at held
        · cases held
          exact fresh ▸ grows
        · exact (sound.drawn other found held).trans grows
      · intro other found ref held hung
        rw [Table.get_set] at held
        split at held
        · cases held
          exact (sound.stands_drawn (hangs ref hung)).trans grows
        · exact (sound.linked other found ref held hung).trans grows
      · intro other found held
        rw [Table.get_set] at held
        split at held
        · next here =>
            cases held
            intro another stands
            rcases KeyTable.stands_set stands with before | ⟨same, -⟩
            · exact absurd rfl (apart (sound.stands_drawn before))
            · exact same.trans here.symm
        · exact KeyTable.bound_set_fresh (sound.own other found held)
            (apart (sound.drawn other found held))
      · intro other found ref held hung
        rw [Table.get_set] at held
        split at held
        · cases held
          exact KeyTable.bound_set_fresh (sound.stands_bound (hangs ref hung))
            (apart (sound.stands_drawn (hangs ref hung)))
        · exact KeyTable.bound_set_fresh (sound.homes other found ref held hung)
            (apart (sound.linked other found ref held hung))

theorem Mint.grows (mint : Mint masters chain st st') : st.entropy ≤ st'.entropy := by
  cases mint with
  | draw drawn grows => exact grows
  | plant id row drawn named broken wraps fresh grows place => exact grows.le

/-- A mint for the ancestors is one for the whole chain. -/
theorem Mint.cons {id parentId : Identity} {above : List Identity}
    (mint : Mint masters (parentId :: above) st st') :
    Mint masters (id :: parentId :: above) st st' := by
  cases mint with
  | draw drawn grows => exact .draw st drawn grows
  | plant planted row drawn named broken wraps fresh grows place =>
      exact .plant st planted row drawn (List.mem_cons_of_mem id named) broken wraps fresh grows place

theorem Mints.cons {id parentId : Identity} {above : List Identity}
    (mints : Mints masters (parentId :: above) st st') :
    Mints masters (id :: parentId :: above) st st' :=
  mints.lift (fun st => st) fun _ _ mint => mint.cons

theorem Mints.sound (mints : Mints masters chain st st') (sound : st.Sound) : st'.Sound := by
  induction mints with
  | refl => exact sound
  | tail _ mint ih => exact mint.sound ih

theorem Mints.grows (mints : Mints masters chain st st') : st.entropy ≤ st'.entropy := by
  induction mints with
  | refl => exact le_rfl
  | tail _ mint ih => exact ih.trans mint.grows

/-- A row with an earlier secret was there before, and no mint has made it intact. -/
theorem Mint.row_before (mint : Mint masters chain st st') (sound : st.Sound) {id : Identity}
    {row : SubjectKey} (held : st'.rows.get id = some row) (earlier : row.secret < st.entropy) :
    st.rows.get id = some row ∧ (Intact st'.rows.forest id → Intact st.rows.forest id) := by
  cases mint with
  | draw drawn grows => exact ⟨held, fun intact => intact⟩
  | plant planted new drawn named broken wraps fresh grows place =>
      rw [Table.get_set] at held
      split at held
      · cases held
        exact absurd fresh earlier.ne
      · next apart =>
          refine ⟨held, fun intact => ?_⟩
          refine intact.of_planted (fun other => KeyTable.forest_set_ne) KeyTable.forest_set_self
            ?_ (fun _ _ never => never) apart
          intro other node upper found above
          obtain ⟨otherRow, otherHeld, rfl⟩ := KeyTable.get_of_forest found
          obtain ⟨ref, hung, -, gen⟩ := SubjectKey.node_above above
          have linked := sound.linked other otherRow ref otherHeld hung
          exact linked.ne (gen.trans fresh)

theorem Mints.row_before (mints : Mints masters chain st st') (sound : st.Sound) {id : Identity}
    {row : SubjectKey} (held : st'.rows.get id = some row) (earlier : row.secret < st.entropy) :
    st.rows.get id = some row ∧ (Intact st'.rows.forest id → Intact st.rows.forest id) := by
  induction mints with
  | refl => exact ⟨held, fun intact => intact⟩
  | tail mints mint ih =>
      obtain ⟨heldBefore, intactBefore⟩ :=
        mint.row_before (Mints.sound mints sound) held (earlier.trans_le (Mints.grows mints))
      obtain ⟨heldFirst, intactFirst⟩ := ih heldBefore
      exact ⟨heldFirst, fun intact => intactFirst (intactBefore intact)⟩

/-- What is intact stays intact, with its secret. -/
theorem Mint.intact (mint : Mint masters chain st st') {id : Identity} {secret : Secret}
    (intact : Intact st.rows.forest id) (stands : Stands st.rows.forest id secret) :
    Intact st'.rows.forest id ∧ Stands st'.rows.forest id secret := by
  cases mint with
  | draw drawn grows => exact ⟨intact, stands⟩
  | plant planted row drawn named broken wraps fresh grows place =>
      have apart : id ≠ planted := by
        rintro rfl
        exact broken intact
      obtain ⟨node, found, same⟩ := stands
      exact ⟨intact.away broken (fun other => KeyTable.forest_set_ne) (fun _ _ never => never),
        node, (KeyTable.forest_set_ne apart).trans found, same⟩

theorem Mints.intact (mints : Mints masters chain st st') {id : Identity} {secret : Secret}
    (intact : Intact st.rows.forest id) (stands : Stands st.rows.forest id secret) :
    Intact st'.rows.forest id ∧ Stands st'.rows.forest id secret := by
  induction mints with
  | refl => exact ⟨intact, stands⟩
  | tail _ mint ih => exact mint.intact ih.1 ih.2

end Planting

/-! ## The mint's own steps -/

/-- The identity's row holds the secret, and is intact up to the rows that are held. -/
def HoldsBut (held : Identity → Prop) (id : Identity) (st : KeyState) (secret : Secret) : Prop :=
  IntactBut st.rows.forest held id ∧ Stands st.rows.forest id secret

abbrev Holds : Identity → KeyState → Secret → Prop := HoldsBut fun _ => False

/-- A mint plants along its chain, and returns the secret of an intact row. -/
structure Minted (masters : MasterKeys) (chain : List Identity) (id : Identity) (st : KeyState)
    (result : Except String (Option Secret) × KeyState) : Prop where
  mints : Mints masters chain st result.2
  holds : ∀ secret, result.1 = .ok (some secret) → Holds id result.2 secret

section Specs

variable {masters : MasterKeys} {chain : List Identity} {st : KeyState} {id : Identity}

/-- The parent a row is to hang from, with the secret its mint has returned. -/
def ParentAt (st : KeyState) (parent : Option (Identity × Secret)) : Prop :=
  ∀ parentId gen, parent = some (parentId, gen) → Holds parentId st gen

theorem candidate_spec (st : KeyState) (masters : MasterKeys) (id : Identity)
    (parent : Option (Identity × Secret)) :
    ∃ row, st.candidate masters id parent = (row, { st with entropy := st.entropy + 2 }) ∧
      row.secret = st.entropy ∧ row.Wraps id ∧
      (parent = none ∧ row.wrapping = .master masters.primary ∨
        ∃ parentId gen, parent = some (parentId, gen) ∧
          row.wrapping = .parent ⟨parentId, parentFingerprint gen⟩) := by
  cases parent with
  | none => exact ⟨_, rfl, rfl, ⟨rfl, rfl⟩, .inl ⟨rfl, rfl⟩⟩
  | some link =>
      obtain ⟨parentId, gen⟩ := link
      exact ⟨_, rfl, rfl, ⟨rfl, rfl⟩, .inr ⟨parentId, gen, rfl, rfl⟩⟩

/-- A row is inserted where there was none, or in the place of the one to be replaced. -/
theorem getOrInsert_cases (rows : KeyTable) (id : Identity) (candidate : SubjectKey)
    (replacing : Option SubjectKey) :
    (rows.getOrInsertSubjectKey id candidate replacing = (rows.set id candidate, candidate) ∧
      ∀ row, rows.get id = some row → ∃ stale, replacing = some stale ∧
        row.wrapped = stale.wrapped) ∨
      ∃ row, rows.get id = some row ∧
        rows.getOrInsertSubjectKey id candidate replacing = (rows, row) := by
  unfold KeyTable.getOrInsertSubjectKey
  cases held : rows.get id with
  | none => exact .inl ⟨rfl, nofun⟩
  | some row =>
      cases replacing with
      | none => exact .inr ⟨row, rfl, rfl⟩
      | some stale =>
          dsimp only
          split
          · next same =>
              refine .inl ⟨rfl, ?_⟩
              rintro found ⟨⟩
              exact ⟨stale, rfl, same⟩
          · exact .inr ⟨row, rfl, rfl⟩

theorem openPersisted_some {row : SubjectKey} {parent : Option (Identity × Secret)}
    {secret : Secret} (hung : ParentAt st parent) (held : st.rows.get id = some row)
    (opens : st.openPersisted masters id row parent = .ok (some secret)) :
    Holds id st secret := by
  have stands := KeyTable.stands_of_get held
  unfold KeyState.openPersisted at opens
  split at opens
  · next columns =>
      have root : row.parent = none := by
        unfold SubjectKey.parent
        rw [columns]
      split at opens
      · cases opens
      · have same : row.secret = secret := message_of_map_unwrapKeyUnder opens
        exact ⟨KeyTable.intact_root held root, same ▸ stands⟩
  · next ref parentId gen columns =>
      split at opens
      · next matching =>
          have linked : row.parent = some ref := by
            unfold SubjectKey.parent
            rw [columns]
          have same : row.secret = secret := message_of_map_unwrapKeyUnder opens
          obtain ⟨intact, parentStands⟩ := hung parentId gen rfl
          have fingerprint : ref.fingerprint.preimage = gen :=
            congrArg Fingerprint.preimage matching.2
          rw [← matching.1] at intact parentStands
          rw [← fingerprint] at parentStands
          exact ⟨KeyTable.intact_child held linked intact parentStands, same ▸ stands⟩
      · exact loadSecretAt_some opens
  · exact loadSecretAt_some opens

theorem insertFresh_spec {stale : Option SubjectKey} {parent : Option (Identity × Secret)}
    (named : id ∈ chain) (last : parent = none → chain.getLast? = some id)
    (hung : ParentAt st parent)
    (broken : ∀ row old, st.rows.get id = some row → stale = some old →
      row.wrapped = old.wrapped → ¬Intact st.rows.forest id) :
    Minted masters chain id st (st.insertFresh masters id stale parent) := by
  obtain ⟨fresh, drawn, secret, wraps, columns⟩ := candidate_spec st masters id parent
  unfold KeyState.insertFresh
  rw [drawn]
  dsimp only
  rcases getOrInsert_cases st.rows id fresh stale with ⟨inserted, replacing⟩ | ⟨row, held, kept⟩
  · rw [inserted]
    have mint : Mint masters chain st ⟨st.rows.set id fresh, st.entropy + 2⟩ := by
      refine .plant st id fresh _ named ?_ wraps secret (by omega) ?_
      · intro intact
        obtain ⟨node, found⟩ := intact.found
        obtain ⟨row, held, -⟩ := KeyTable.get_of_forest found
        obtain ⟨old, replaced, same⟩ := replacing row held
        exact broken row old held replaced same intact
      · rcases columns with ⟨none, root⟩ | ⟨parentId, gen, linked, child⟩
        · exact .inl ⟨root, last none⟩
        · obtain ⟨intact, stands⟩ := hung parentId gen linked
          exact .inr ⟨_, child, intact, stands⟩
    refine ⟨.single mint, ?_⟩
    intro opened opens
    refine openPersisted_some ?_ (by rw [Table.get_set, if_pos rfl]) opens
    intro parentId gen linked
    obtain ⟨intact, stands⟩ := hung parentId gen linked
    exact mint.intact intact stands
  · rw [kept]
    refine ⟨.single (.draw st _ (by omega)), ?_⟩
    intro opened opens
    have hungStill : ParentAt { st with entropy := st.entropy + 2 } parent := hung
    exact openPersisted_some hungStill held opens

theorem openExisting_some {secret : Secret}
    (opens : st.openExisting masters id (st.rows.get id) = .ok (some secret)) :
    Holds id st secret := by
  cases held : st.rows.get id with
  | none =>
      rw [held] at opens
      cases opens
  | some row =>
      rw [held] at opens
      exact openRow_some (fun _ _ => loadSecretAt_some) held opens

theorem openExisting_none (opens : st.openExisting masters id (st.rows.get id) = .ok none) :
    ¬Intact st.rows.forest id := by
  intro intact
  obtain ⟨node, found⟩ := intact.found
  obtain ⟨row, held, -⟩ := KeyTable.get_of_forest found
  rw [held] at opens
  unfold KeyState.openExisting at opens
  dsimp only at opens
  have loads (parent : Identity) (gen : Secret) (intact : Intact st.rows.forest parent)
      (stands : Stands st.rows.forest parent gen) :
      loadSecretAt masters st.rows maxSubjectDepth parent = .ok (some gen) ∨
        ∃ message, loadSecretAt masters st.rows maxSubjectDepth parent = .error message :=
    loadSecretAt_of_intact intact stands
  rcases openRow_of_intact loads intact held with loaded | ⟨message, failed⟩
  · cases loaded.symm.trans opens
  · cases failed.symm.trans opens

/-- What every attempt does and returns, they do and return one after the other. -/
theorem retryMint_spec {attempt : KeyState → Except String (Option Secret) × KeyState}
    (spec : ∀ st : KeyState, st.Sound → Minted masters chain id st (attempt st))
    (attempts : Nat) (sound : st.Sound) :
    Minted masters chain id st (retryMint attempt attempts st) := by
  induction attempts generalizing st with
  | zero => exact ⟨.refl, nofun⟩
  | succ attempts ih =>
      obtain ⟨mints, holds⟩ := spec st sound
      unfold retryMint
      split
      · next message st' tried =>
          rw [tried] at mints
          exact ⟨mints, nofun⟩
      · next secret st' tried =>
          rw [tried] at mints holds
          refine ⟨mints, ?_⟩
          rintro found ⟨⟩
          exact holds secret rfl
      · next st' tried =>
          rw [tried] at mints
          obtain ⟨later, holds⟩ := ih (Mints.sound mints sound)
          exact ⟨mints.trans later, holds⟩

theorem tryMintIn_spec (masters : MasterKeys) (above : List Identity) (id : Identity)
    {st : KeyState} (sound : st.Sound) :
    Minted masters (id :: above) id st (tryMintIn masters (id :: above) st) := by
  induction above generalizing id st with
  | nil =>
      unfold tryMintIn
      dsimp only
      split
      · exact ⟨.refl, nofun⟩
      · next found opens =>
          refine ⟨.refl, ?_⟩
          rintro secret ⟨⟩
          exact openExisting_some opens
      · next opens =>
          refine insertFresh_spec List.mem_cons_self (fun _ => rfl) nofun ?_
          intro row old held stale same
          exact openExisting_none opens
  | cons parentId above ih =>
      unfold tryMintIn
      dsimp only
      split
      · exact ⟨.refl, nofun⟩
      · next found opens =>
          refine ⟨.refl, ?_⟩
          rintro secret ⟨⟩
          exact openExisting_some opens
      · next opens =>
          have ancestors := retryMint_spec (fun st sound => ih parentId sound) mintAttempts sound
          split
          · next message st' minted =>
              rw [minted] at ancestors
              exact ⟨Mints.cons ancestors.mints, nofun⟩
          · next st' minted =>
              rw [minted] at ancestors
              exact ⟨Mints.cons ancestors.mints, nofun⟩
          · next parent st' minted =>
              rw [minted] at ancestors
              have whole : Mints masters (id :: parentId :: above) st st' :=
                Mints.cons ancestors.mints
              have inserted : Minted masters (id :: parentId :: above) id st'
                  (st'.insertFresh masters id (st.rows.get id) (some (parentId, parent))) := by
                refine insertFresh_spec List.mem_cons_self nofun ?_ ?_
                · rintro _ _ ⟨⟩
                  exact ancestors.holds parent rfl
                · -- The row that was read has not become intact while its parent was minted.
                  intro row old held stale same intact
                  have secret : row.secret = old.secret :=
                    congrArg (fun wrapped => wrapped.box.message) same
                  obtain ⟨-, before⟩ := Mints.row_before whole sound held
                    (secret ▸ sound.drawn id old stale)
                  exact openExisting_none opens (before intact)
              exact ⟨whole.trans inserted.mints, inserted.holds⟩

theorem mintSecretIn_spec (masters : MasterKeys) (id : Identity) (above : List Identity)
    (sound : st.Sound) :
    Minted masters (id :: above) id st (mintSecretIn masters (id :: above) st) :=
  retryMint_spec (fun _ sound => tryMintIn_spec masters above id sound) mintAttempts sound

/-- A mint without a chain leaves the store as it is. -/
theorem mintSecretIn_nil (masters : MasterKeys) (st : KeyState) :
    mintSecretIn masters [] st = (.error "a subject chain cannot be empty", st) := rfl

end Specs

end Hekla.Keys
