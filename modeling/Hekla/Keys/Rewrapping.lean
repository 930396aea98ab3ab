import Hekla.Keys.Preserving

/-!
# What a rotation writes

The snapshot of a rotation holds each root under another master, rewrapped.
Its write changes a row only if the row is under the master it was read under;
where that row still has the secret that was read, every row keeps its secret.
-/

namespace Hekla.Keys

open Hekla.Library Forest

namespace RewrapUpdate

/-- Wrapped under the new master, which is not the one the row was read under. -/
structure Formed (primary : String) (update : RewrapUpdate) : Prop where
  key : update.wrapped.box.key = .master primary
  bound : update.wrapped.box.bound = []
  master : update.master = primary
  moves : update.expected ≠ primary

/-- If the row is under the master it was read under, it has the secret that was read. -/
def Current (rows : KeyTable) (update : RewrapUpdate) : Prop :=
  ∀ row, rows.get update.id = some row → row.wrapping = .master update.expected →
    update.wrapped.box.message = row.secret

end RewrapUpdate

theorem mem_allSubjectKeys {rows : KeyTable} {id : Identity} {wrapped : Wrapped} {master : String}
    (listed : (id, wrapped, master) ∈ rows.allSubjectKeys) :
    ∃ row, rows.get id = some row ∧ row.wrapped = wrapped ∧ row.wrapping = .master master := by
  unfold KeyTable.allSubjectKeys at listed
  obtain ⟨⟨other, row⟩, entry, picked⟩ := List.mem_filterMap.mp listed
  dsimp only at picked
  split at picked
  · next columns =>
      cases picked
      exact ⟨row, (Table.get_eq_some_iff rows _ row).mpr entry, rfl, columns⟩
  · cases picked

/-- The snapshot's updates, each of a row it lists. -/
theorem rewraps_spec {masters : MasterKeys} {listed : List (Identity × Wrapped × String)}
    {st st' : KeyState} {result : Except String (List RewrapUpdate)}
    (rewrapped : rewraps masters listed st = (result, st')) :
    st'.rows = st.rows ∧ st.entropy ≤ st'.entropy ∧
      ∀ updates, result = .ok updates → ∀ update ∈ updates,
        update.Formed masters.primary ∧ ∃ wrapped, (update.id, wrapped, update.expected) ∈ listed ∧
          wrapped.box.message = update.wrapped.box.message := by
  induction listed generalizing st st' result with
  | nil =>
      cases rewrapped
      refine ⟨rfl, le_rfl, ?_⟩
      rintro updates ⟨⟩ update member
      cases member
  | cons first rest ih =>
      obtain ⟨id, wrapped, master⟩ := first
      simp only [rewraps] at rewrapped
      split at rewrapped
      · obtain ⟨rows, grows, spec⟩ := ih rewrapped
        refine ⟨rows, grows, fun updates done update member => ?_⟩
        obtain ⟨formed, other, listed, same⟩ := spec updates done update member
        exact ⟨formed, other, List.mem_cons_of_mem _ listed, same⟩
      · next moves =>
          split at rewrapped
          · split at rewrapped
            · cases rewrapped
              exact ⟨rfl, le_rfl, nofun⟩
            · next secret unwrapped =>
                have message : wrapped.box.message = secret :=
                  ((unwrapKeyUnder_eq_ok_iff _ _ _ _).mp unwrapped).2.2
                split at rewrapped
                · next failed rested =>
                    cases rewrapped
                    obtain ⟨rows, grows, -⟩ := ih rested
                    exact ⟨rows, (Nat.le_succ _).trans grows, nofun⟩
                · next later st'' rested =>
                    cases rewrapped
                    obtain ⟨rows, grows, spec⟩ := ih rested
                    refine ⟨rows, (Nat.le_succ _).trans grows, ?_⟩
                    rintro updates ⟨⟩ update member
                    rcases List.mem_cons.mp member with rfl | member
                    · exact ⟨⟨rfl, rfl, rfl, moves⟩, wrapped, List.mem_cons_self, message⟩
                    · obtain ⟨formed, other, listed, same⟩ := spec later rfl update member
                      exact ⟨formed, other, List.mem_cons_of_mem _ listed, same⟩
          · cases rewrapped
            exact ⟨rfl, le_rfl, nofun⟩

/-- A snapshot is current when it is taken. -/
theorem rotateRead_spec {masters : MasterKeys} {st st' : KeyState}
    {result : Except String (List RewrapUpdate)} (read : rotateRead masters st = (result, st')) :
    st'.rows = st.rows ∧ st.entropy ≤ st'.entropy ∧
      ∀ updates, result = .ok updates → ∀ update ∈ updates,
        update.Formed masters.primary ∧ update.Current st.rows := by
  obtain ⟨rows, grows, spec⟩ := rewraps_spec read
  refine ⟨rows, grows, fun updates done update member => ?_⟩
  obtain ⟨formed, wrapped, listed, same⟩ := spec updates done update member
  refine ⟨formed, fun row held columns => ?_⟩
  obtain ⟨found, heldThen, bytes, -⟩ := mem_allSubjectKeys listed
  rw [held] at heldThen
  cases heldThen
  rw [← same, ← bytes]
  rfl

/-! ## The write -/

/-- A row after the write: as it was, or one of the updates in its place. -/
inductive RewrittenTo (updates : List RewrapUpdate) (id : Identity) (row : SubjectKey) :
    SubjectKey → Prop where
  | kept : RewrittenTo updates id row row
  | moved (update : RewrapUpdate) (member : update ∈ updates) (here : update.id = id)
      (columns : row.wrapping = .master update.expected)
      (secret : update.wrapped.box.message = row.secret) :
      RewrittenTo updates id row ⟨update.wrapped, .master update.master⟩

section Writes

variable {primary : String} {updates : List RewrapUpdate} {rows : KeyTable} {id : Identity}

/-- One row of the write. -/
theorem rewrapSubjectKey_get (rows : KeyTable) (update : RewrapUpdate) (id : Identity) :
    (rows.rewrapSubjectKey update).1.get id = rows.get id ∨
      ∃ row, update.id = id ∧ rows.get id = some row ∧ row.wrapping = .master update.expected ∧
        (rows.rewrapSubjectKey update).1.get id = some ⟨update.wrapped, .master update.master⟩ := by
  unfold KeyTable.rewrapSubjectKey
  split
  · next row held =>
      split
      · next columns =>
          dsimp only
          rw [Table.get_set]
          split
          · next here =>
              subst here
              exact .inr ⟨row, rfl, held, columns, rfl⟩
          · exact .inl rfl
      · exact .inl rfl
  · exact .inl rfl

theorem rewrapSubjectKeys_get (formed : ∀ update ∈ updates, update.Formed primary)
    (current : ∀ update ∈ updates, update.Current rows) (id : Identity) :
    (rows.get id = none ∧ (rows.rewrapSubjectKeys updates).1.get id = none) ∨
      ∃ row row', rows.get id = some row ∧
        (rows.rewrapSubjectKeys updates).1.get id = some row' ∧
        RewrittenTo updates id row row' := by
  induction updates generalizing rows with
  | nil =>
      cases held : rows.get id with
      | none => exact .inl ⟨rfl, held⟩
      | some row => exact .inr ⟨row, row, rfl, held, .kept⟩
  | cons update rest ih =>
      have formedHere := formed update List.mem_cons_self
      have formedRest (other : RewrapUpdate) (member : other ∈ rest) : other.Formed primary :=
        formed other (List.mem_cons_of_mem _ member)
      have currentRest (other : RewrapUpdate) (member : other ∈ rest) :
          other.Current (rows.rewrapSubjectKey update).1 := by
        intro row held columns
        rcases rewrapSubjectKey_get rows update other.id with same | ⟨_, _, _, _, written⟩
        · exact current other (List.mem_cons_of_mem _ member) row (same ▸ held) columns
        · -- A row already moved is under the new master, which no update was read under.
          rw [written] at held
          cases held
          injection columns with same
          exact absurd (same.symm.trans formedHere.master) (formedRest other member).moves
      have weaken {row row' : SubjectKey} (rewritten : RewrittenTo rest id row row') :
          RewrittenTo (update :: rest) id row row' := by
        cases rewritten with
        | kept => exact .kept
        | moved other member here columns secret =>
            exact .moved other (List.mem_cons_of_mem _ member) here columns secret
      have later := ih formedRest currentRest
      rcases rewrapSubjectKey_get rows update id with same | ⟨row, here, held, columns, written⟩
      · rw [same] at later
        rcases later with ⟨none, gone⟩ | ⟨row, row', held, held', rewritten⟩
        · exact .inl ⟨none, gone⟩
        · exact .inr ⟨row, row', held, held', weaken rewritten⟩
      · have secret : update.wrapped.box.message = row.secret := by
          subst here
          exact current update List.mem_cons_self row held columns
        rw [written] at later
        rcases later with ⟨none, -⟩ | ⟨_, row', ⟨⟩, held', rewritten⟩
        · cases none
        · refine .inr ⟨row, row', held, held', ?_⟩
          cases rewritten with
          | kept => exact .moved update List.mem_cons_self here columns secret
          | moved other member _ columns' _ =>
              injection columns' with same
              exact absurd (same.symm.trans formedHere.master) (formedRest other member).moves

theorem RewrittenTo.secret_eq {row row' : SubjectKey} (rewritten : RewrittenTo updates id row row') :
    row'.secret = row.secret ∧ row'.parent = row.parent := by
  cases rewritten with
  | kept => exact ⟨rfl, rfl⟩
  | moved update _ _ columns secret =>
      refine ⟨secret, ?_⟩
      unfold SubjectKey.parent
      rw [columns]

theorem rewrapSubjectKeys_rewrapped (formed : ∀ update ∈ updates, update.Formed primary)
    (current : ∀ update ∈ updates, update.Current rows) :
    Rewrapped rows (rows.rewrapSubjectKeys updates).1 where
  kept id row held := by
    rcases rewrapSubjectKeys_get formed current id with ⟨none, -⟩ | ⟨_, row', same, held', rewritten⟩
    · rw [held] at none
      cases none
    · rw [held] at same
      cases same
      exact ⟨row', held', rewritten.secret_eq⟩
  before id row' held' := by
    rcases rewrapSubjectKeys_get formed current id with ⟨-, gone⟩ | ⟨row, _, held, same, rewritten⟩
    · rw [held'] at gone
      cases gone
    · rw [held'] at same
      cases same
      exact ⟨row, held, rewritten.secret_eq⟩

theorem rewrapSubjectKeys_wraps (formed : ∀ update ∈ updates, update.Formed primary)
    (current : ∀ update ∈ updates, update.Current rows)
    (wraps : ∀ id row, rows.get id = some row → row.Wraps id) (id : Identity) (row : SubjectKey)
    (held : (rows.rewrapSubjectKeys updates).1.get id = some row) : row.Wraps id := by
  rcases rewrapSubjectKeys_get formed current id with ⟨-, gone⟩ | ⟨old, _, before, same, rewritten⟩
  · rw [held] at gone
    cases gone
  · rw [held] at same
    cases same
    cases rewritten with
    | kept => exact wraps id row before
    | moved update member =>
        have shape := formed update member
        exact ⟨shape.key.trans (congrArg WrappingKey.master shape.master.symm), shape.bound⟩

end Writes

/-- Writing a current snapshot leaves every secret where it is. -/
theorem Preserves.rotateWrite {primary : String} {updates : List RewrapUpdate} {st : KeyState}
    {held held' spares : Identity → Prop} (sound : st.Sound)
    (formed : ∀ update ∈ updates, update.Formed primary)
    (current : ∀ update ∈ updates, update.Current st.rows) (same : ∀ id, held id ↔ held' id) :
    Preserves held held' spares st (rotateWrite updates st).2 :=
  .rewrap sound (rewrapSubjectKeys_rewrapped formed current) le_rfl
    (rewrapSubjectKeys_wraps formed current sound.wraps) same

/-- A whole rotation, with nothing between its snapshot and its write. -/
theorem Preserves.rotate (masters : MasterKeys) {st : KeyState} (sound : st.Sound) :
    Preserves (fun _ => False) (fun _ => False) everyone st (rotate masters st).2 := by
  unfold Keys.rotate
  split
  · next message st' read =>
      obtain ⟨rows, grows, -⟩ := rotateRead_spec read
      exact .of_rows sound rows grows
  · next updates st' read =>
      obtain ⟨rows, grows, spec⟩ := rotateRead_spec read
      have drawn : Preserves (fun _ => False) (fun _ => False) everyone st st' :=
        .of_rows sound rows grows
      split
      · exact drawn
      · refine drawn.trans (.rotateWrite drawn.sound
          (fun update member => (spec updates rfl update member).1) ?_ fun _ => Iff.rfl)
        intro update member
        rw [rows]
        exact (spec updates rfl update member).2

end Hekla.Keys
