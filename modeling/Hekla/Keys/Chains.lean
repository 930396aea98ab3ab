import Hekla.Keys.Store
import Hekla.Library.Forest
import Mathlib.Data.List.Dedup

/-!
# Key rows as chains of generations

A row is a node whose generation is its secret, hung from the generation its
fingerprint names.  A secret loads exactly from an intact row, as long as the
walk stays within the depth the store allows and the masters are configured.
-/

namespace Hekla.Keys

open Hekla.Library Forest

/-! ## Rows as nodes -/

namespace SubjectKey

/-- What the row holds. -/
def secret (row : SubjectKey) : Secret := row.wrapped.box.message

def parent (row : SubjectKey) : Option ParentRef :=
  match row.wrapping with
  | .master _ => none
  | .parent ref => some ref

def node (row : SubjectKey) : Node Identity Secret :=
  ⟨row.secret, row.parent.map fun ref => (ref.identity, ref.fingerprint.preimage)⟩

/-- The bytes are wrapped the way the columns say. -/
def Wraps (id : Identity) (row : SubjectKey) : Prop :=
  match row.wrapping with
  | .master master => row.wrapped.box.key = .master master ∧ row.wrapped.box.bound = []
  | .parent ref =>
      row.wrapped.box.key = childKek ref.fingerprint.preimage ∧
        row.wrapped.box.bound = childAad id ref.identity

theorem node_above {row : SubjectKey} {upper : Identity} {gen : Secret}
    (above : row.node.above = some (upper, gen)) :
    ∃ ref, row.parent = some ref ∧ ref.identity = upper ∧ ref.fingerprint.preimage = gen := by
  obtain ⟨ref, hung, same⟩ := Option.map_eq_some_iff.mp above
  cases same
  exact ⟨ref, hung, rfl, rfl⟩

theorem node_above_of_parent {row : SubjectKey} {ref : ParentRef} (hung : row.parent = some ref) :
    row.node.above = some (ref.identity, ref.fingerprint.preimage) := by
  unfold node
  rw [hung]
  rfl

theorem node_root {row : SubjectKey} (root : row.parent = none) : row.node.above = none := by
  unfold node
  rw [root]
  rfl

end SubjectKey

namespace KeyTable

def forest (rows : KeyTable) : Forest Identity Secret := fun id => (rows.get id).map SubjectKey.node

variable {rows : KeyTable} {id : Identity} {row : SubjectKey}

theorem forest_of_get (held : rows.get id = some row) : rows.forest id = some row.node := by
  unfold forest
  rw [held]
  rfl

theorem get_of_forest {node : Node Identity Secret} (found : rows.forest id = some node) :
    ∃ row, rows.get id = some row ∧ row.node = node :=
  Option.map_eq_some_iff.mp found

theorem stands_of_get (held : rows.get id = some row) : Stands rows.forest id row.secret :=
  ⟨row.node, forest_of_get held, rfl⟩

theorem get_of_stands {secret : Secret} (stands : Stands rows.forest id secret) :
    ∃ row, rows.get id = some row ∧ row.secret = secret := by
  obtain ⟨node, found, rfl⟩ := stands
  obtain ⟨row, held, rfl⟩ := get_of_forest found
  exact ⟨row, held, rfl⟩

theorem stands_unique {first second : Secret} (one : Stands rows.forest id first)
    (other : Stands rows.forest id second) : first = second := by
  obtain ⟨row, held, rfl⟩ := get_of_stands one
  obtain ⟨row', held', rfl⟩ := get_of_stands other
  rw [held] at held'
  cases held'
  rfl

theorem hangs_of_get {ref : ParentRef} (held : rows.get id = some row)
    (hung : row.parent = some ref) : Hangs rows.forest id ref.identity :=
  ⟨row.node, _, forest_of_get held, SubjectKey.node_above_of_parent hung⟩

theorem intact_root (held : rows.get id = some row) (root : row.parent = none) :
    Intact rows.forest id := by
  refine .of_links (forest_of_get held) (.inr ?_)
  intro upper gen above
  rw [SubjectKey.node_root root] at above
  cases above

theorem intact_child {ref : ParentRef} (held : rows.get id = some row)
    (hung : row.parent = some ref) (intact : Intact rows.forest ref.identity)
    (stands : Stands rows.forest ref.identity ref.fingerprint.preimage) :
    Intact rows.forest id := by
  refine .of_links (forest_of_get held) (.inr ?_)
  intro upper gen above
  rw [SubjectKey.node_above_of_parent hung] at above
  cases above
  exact ⟨intact, stands⟩

theorem intact_parent {ref : ParentRef} (intact : Intact rows.forest id)
    (held : rows.get id = some row) (hung : row.parent = some ref) :
    Intact rows.forest ref.identity ∧
      Stands rows.forest ref.identity ref.fingerprint.preimage := by
  obtain ⟨node, found, never | links⟩ := IntactBut.standing id intact
  · cases never
  · rw [forest_of_get held] at found
    cases found
    exact links _ _ (SubjectKey.node_above_of_parent hung)

end KeyTable

/-! ## Sound states -/

/-- Every row is wrapped the way it says, under generations drawn before; no two
rows have one secret, and a fingerprint names a secret of the parent's own. -/
structure KeyState.Sound (st : KeyState) : Prop where
  wraps : ∀ id row, st.rows.get id = some row → row.Wraps id
  drawn : ∀ id row, st.rows.get id = some row → row.secret < st.entropy
  linked : ∀ id row ref, st.rows.get id = some row → row.parent = some ref →
    ref.fingerprint.preimage < st.entropy
  own : ∀ id row, st.rows.get id = some row → Bound st.rows.forest row.secret id
  homes : ∀ id row ref, st.rows.get id = some row → row.parent = some ref →
    Bound st.rows.forest ref.fingerprint.preimage ref.identity

/-! ## Loading -/

/-- The refusal of a walk that has come as far up as it may. -/
def tooDeep (id : Identity) : String :=
  s!"subject `{id.1}` is more than {maxSubjectDepth} levels deep, which a " ++
    "declared hierarchy cannot be: the key store has a cycle in its parent pointers"

section Loading

variable {masters : MasterKeys} {rows : KeyTable}

theorem unwrapKeyUnder_eq_ok_iff (key : WrappingKey) (wrapped : Wrapped) (aad : List String)
    (secret : Secret) :
    unwrapKeyUnder key wrapped aad = .ok secret ↔
      wrapped.box.key = key ∧ wrapped.box.bound = aad ∧ wrapped.box.message = secret := by
  rw [← Box.openWith_eq_some_iff]
  unfold unwrapKeyUnder
  cases wrapped.box.openWith key aad with
  | none => simp
  | some opened => simp

theorem map_unwrapKeyUnder {key : WrappingKey} {wrapped : Wrapped} {aad : List String}
    (keyed : wrapped.box.key = key) (bound : wrapped.box.bound = aad) :
    (unwrapKeyUnder key wrapped aad).map some = .ok (some wrapped.box.message) := by
  rw [(unwrapKeyUnder_eq_ok_iff key wrapped aad _).mpr ⟨keyed, bound, rfl⟩]
  rfl

theorem message_of_map_unwrapKeyUnder {key : WrappingKey} {wrapped : Wrapped} {aad : List String}
    {secret : Secret} (opens : (unwrapKeyUnder key wrapped aad).map some = .ok (some secret)) :
    wrapped.box.message = secret := by
  cases opened : unwrapKeyUnder key wrapped aad with
  | error message =>
      rw [opened] at opens
      cases opens
  | ok found =>
      rw [opened] at opens
      cases opens
      exact ((unwrapKeyUnder_eq_ok_iff _ _ _ _).mp opened).2.2

/-- A row opens when it is intact, and yields the secret it holds. -/
theorem openRow_some {load : Identity → Except String (Option Secret)} {id : Identity}
    {row : SubjectKey} {secret : Secret}
    (loads : ∀ parent gen, load parent = .ok (some gen) →
      Intact rows.forest parent ∧ Stands rows.forest parent gen)
    (held : rows.get id = some row) (opens : openRow masters load id row = .ok (some secret)) :
    Intact rows.forest id ∧ Stands rows.forest id secret := by
  have stands := KeyTable.stands_of_get held
  unfold openRow at opens
  split at opens
  · next master columns =>
      have root : row.parent = none := by
        unfold SubjectKey.parent
        rw [columns]
      split at opens
      · cases opens
      · have same : row.secret = secret := message_of_map_unwrapKeyUnder opens
        exact ⟨KeyTable.intact_root held root, same ▸ stands⟩
  · next ref columns =>
      have hung : row.parent = some ref := by
        unfold SubjectKey.parent
        rw [columns]
      split at opens
      · cases opens
      · cases opens
      · next parent loaded =>
          split at opens
          · cases opens
          · next generation =>
              have same : row.secret = secret := message_of_map_unwrapKeyUnder opens
              obtain ⟨intact, parentStands⟩ := loads ref.identity parent loaded
              have fingerprint : ref.fingerprint.preimage = parent :=
                congrArg Fingerprint.preimage (not_not.mp generation)
              exact ⟨KeyTable.intact_child held hung intact (fingerprint ▸ parentStands),
                same ▸ stands⟩

theorem loadSecretAt_some {levels : Nat} {id : Identity} {secret : Secret}
    (loaded : loadSecretAt masters rows levels id = .ok (some secret)) :
    Intact rows.forest id ∧ Stands rows.forest id secret := by
  induction levels generalizing id secret with
  | zero => cases loaded
  | succ levels ih =>
      unfold loadSecretAt at loaded
      split at loaded
      · cases loaded
      · next row held => exact openRow_some (fun _ _ => ih) held loaded

/-- An intact row is never read as erased, nor as holding another secret. -/
theorem openRow_of_intact {load : Identity → Except String (Option Secret)} {id : Identity}
    {row : SubjectKey}
    (loads : ∀ parent gen, Intact rows.forest parent → Stands rows.forest parent gen →
      load parent = .ok (some gen) ∨ ∃ message, load parent = .error message)
    (intact : Intact rows.forest id) (held : rows.get id = some row) :
    openRow masters load id row = .ok (some row.secret) ∨
      ∃ message, openRow masters load id row = .error message := by
  have opening (key : WrappingKey) (aad : List String) :
      (unwrapKeyUnder key row.wrapped aad).map some = .ok (some row.secret) ∨
        ∃ message, (unwrapKeyUnder key row.wrapped aad).map some = .error message := by
    cases opened : unwrapKeyUnder key row.wrapped aad with
    | error message => exact .inr ⟨message, rfl⟩
    | ok found =>
        have same : row.secret = found := ((unwrapKeyUnder_eq_ok_iff _ _ _ _).mp opened).2.2
        rw [same]
        exact .inl rfl
  unfold openRow
  split
  · split
    · next message _ => exact .inr ⟨message, rfl⟩
    · exact opening _ _
  · next ref columns =>
      have hung : row.parent = some ref := by
        unfold SubjectKey.parent
        rw [columns]
      obtain ⟨intactParent, stands⟩ := KeyTable.intact_parent intact held hung
      rcases loads ref.identity _ intactParent stands with loaded | ⟨message, failed⟩
      · rw [loaded]
        have generation :
            ¬ref.fingerprint ≠ parentFingerprint ref.fingerprint.preimage := fun differs => differs rfl
        dsimp only
        rw [if_neg generation]
        exact opening _ _
      · rw [failed]
        exact .inr ⟨message, rfl⟩

theorem loadSecretAt_of_intact {levels : Nat} {id : Identity} {secret : Secret}
    (intact : Intact rows.forest id) (stands : Stands rows.forest id secret) :
    loadSecretAt masters rows levels id = .ok (some secret) ∨
      ∃ message, loadSecretAt masters rows levels id = .error message := by
  induction levels generalizing id secret with
  | zero => exact .inr ⟨_, rfl⟩
  | succ levels ih =>
      obtain ⟨row, held, rfl⟩ := KeyTable.get_of_stands stands
      unfold loadSecretAt
      rw [held]
      exact openRow_of_intact (fun _ _ => ih) intact held

/-- Loading from an intact row never answers that there is no secret. -/
theorem loadSecret_ne_none (masters : MasterKeys) {id : Identity} {secret : Secret}
    (intact : Intact rows.forest id) (stands : Stands rows.forest id secret) :
    loadSecret masters rows id ≠ .ok none := by
  intro absent
  have loads : loadSecret masters rows id = .ok (some secret) ∨
      ∃ message, loadSecret masters rows id = .error message :=
    loadSecretAt_of_intact intact stands
  rcases loads with loaded | ⟨message, failed⟩
  · cases loaded.symm.trans absent
  · cases failed.symm.trans absent

/-- Within the depth, with the masters at hand, loading does not fail. -/
theorem loadSecretAt_ne_error (wraps : ∀ id row, rows.get id = some row → row.Wraps id)
    (masters_held : ∀ id row master, rows.get id = some row → row.wrapping = .master master →
      masters.holds master = true)
    {levels : Nat} {id : Identity} (within : Within rows.forest levels id) (message : String) :
    loadSecretAt masters rows levels id ≠ .error message := by
  induction levels generalizing id message with
  | zero => exact within.elim
  | succ levels ih =>
      unfold loadSecretAt
      split
      · exact nofun
      · next row held =>
          have wrapped := wraps id row held
          unfold openRow
          unfold SubjectKey.Wraps at wrapped
          split
          · next master columns =>
              rw [columns] at wrapped
              have configured := masters_held id row master held columns
              unfold MasterKeys.masterFor
              rw [if_pos configured]
              dsimp only
              rw [map_unwrapKeyUnder wrapped.1 wrapped.2]
              exact nofun
          · next ref columns =>
              rw [columns] at wrapped
              dsimp only at wrapped
              have hung : row.parent = some ref := by
                unfold SubjectKey.parent
                rw [columns]
              have above := within ref.identity (KeyTable.hangs_of_get held hung)
              split
              · next failed _ => exact absurd ‹_› (ih above _)
              · exact nofun
              · next parent _ =>
                  split
                  · exact nofun
                  · next generation =>
                      have fingerprint : ref.fingerprint.preimage = parent :=
                        congrArg Fingerprint.preimage (not_not.mp generation)
                      rw [fingerprint] at wrapped
                      rw [map_unwrapKeyUnder wrapped.1 wrapped.2]
                      exact nofun

theorem masters_held_of_verified (verified : verifyMastersPresent masters rows = true)
    (id : Identity) (row : SubjectKey) (master : String) (held : rows.get id = some row)
    (columns : row.wrapping = .master master) : masters.holds master = true := by
  refine List.all_eq_true.mp verified master ?_
  unfold KeyTable.distinctMasterKeyIds KeyTable.allSubjectKeys
  rw [List.mem_dedup, List.mem_map]
  refine ⟨(id, row.wrapped, master), List.mem_filterMap.mpr ?_, rfl⟩
  refine ⟨⟨id, row⟩, (Table.get_eq_some_iff rows id row).mp held, ?_⟩
  dsimp only
  rw [columns]

end Loading

/-! ## Reading content -/

section Reading

variable {masters : MasterKeys} {st : KeyState} {id : Identity} {field plaintext : String}
  {secret : Secret}

/-- What an intact row has sealed reads as it was sealed. -/
theorem decryptSubject_of_intact (sound : st.Sound)
    (verified : verifyMastersPresent masters st.rows = true)
    (within : Within st.rows.forest (maxSubjectDepth + 1) id)
    (intact : Intact st.rows.forest id) (stands : Stands st.rows.forest id secret) :
    decryptSubject masters st.rows id field (encryptWith secret field plaintext) =
      .ok (some plaintext) := by
  unfold decryptSubject loadSecret
  rcases loadSecretAt_of_intact intact stands with loaded | ⟨message, failed⟩
  · rw [loaded]
    dsimp only
    exact congrArg Except.ok (Box.openWith_self (encryptWith secret field plaintext))
  · exact absurd failed (loadSecretAt_ne_error sound.wraps
      (masters_held_of_verified verified) within message)

/-- What reads at all reads as it was sealed. -/
theorem plaintext_of_decryptSubject {reader : Identity} {reading text : String}
    {ciphertext : Ciphertext}
    (reads : decryptSubject masters st.rows reader reading ciphertext = .ok (some text)) :
    text = ciphertext.message ∧ Intact st.rows.forest reader ∧
      Stands st.rows.forest reader ciphertext.key := by
  unfold decryptSubject at reads
  split at reads
  · cases reads
  · cases reads
  · next loaded found =>
      injection reads with opens
      obtain ⟨keyed, -, same⟩ := (Box.openWith_eq_some_iff _ _ _ _).mp opens
      obtain ⟨intact, stands⟩ := loadSecretAt_some found
      exact ⟨same.symm, intact, keyed ▸ stands⟩

/-- Content under a dead secret reads as erased, wherever a walk can be finished. -/
theorem decryptSubject_of_dead (sound : st.Sound)
    (verified : verifyMastersPresent masters st.rows = true) {held : Identity → Prop}
    (dead : Dead st.rows.forest held secret) (reader : Identity) (reading : String)
    (within : Within st.rows.forest (maxSubjectDepth + 1) reader) :
    decryptSubject masters st.rows reader reading (encryptWith secret field plaintext) =
      .ok none := by
  cases read : decryptSubject masters st.rows reader reading
      (encryptWith secret field plaintext) with
  | error message =>
      unfold decryptSubject at read
      split at read
      · next failed _ =>
          exact absurd ‹_› (loadSecretAt_ne_error sound.wraps
            (masters_held_of_verified verified) within _)
      · cases read
      · cases read
  | ok found =>
      cases found with
      | none => rfl
      | some text =>
          obtain ⟨-, intact, stands⟩ := plaintext_of_decryptSubject read
          exact absurd dead (intact.not_dead stands)

end Reading

end Hekla.Keys
