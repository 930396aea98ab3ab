import Hekla.Keys.Minting

/-!
# What the store's writes preserve

Each write of the store is one of a few changes to the rows: fresh rows where
none is intact, rows gone, or rows rewrapped with the secret they hold.  None of
them brings a dead secret back, and each leaves readable what it spares.
-/

namespace Hekla.Keys

open Hekla.Library Forest

/-- A change that leaves dead what is dead, and intact what it spares, up to the
rows held before and after it. -/
structure Preserves (held held' : Identity → Prop) (spares : Identity → Prop)
    (st st' : KeyState) : Prop where
  sound : st'.Sound
  grows : st.entropy ≤ st'.entropy
  holds : ∀ id secret, spares id → HoldsBut held id st secret → HoldsBut held' id st' secret
  dead : ∀ secret, secret < st.entropy → Dead st.rows.forest held secret →
    Dead st'.rows.forest held' secret
  bound : ∀ secret home, secret < st.entropy → Bound st.rows.forest secret home →
    Bound st'.rows.forest secret home

def everyone : Identity → Prop := fun _ => True

section Changes

variable {held held' held'' spares : Identity → Prop} {st st' st'' : KeyState}

theorem Preserves.refl (sound : st.Sound) : Preserves held held spares st st :=
  ⟨sound, le_rfl, fun _ _ _ holds => holds, fun _ _ dead => dead, fun _ _ _ bound => bound⟩

theorem Preserves.trans (first : Preserves held held' everyone st st')
    (second : Preserves held' held'' everyone st' st'') :
    Preserves held held'' everyone st st'' where
  sound := second.sound
  grows := first.grows.trans second.grows
  holds id secret _ holds := second.holds id secret trivial (first.holds id secret trivial holds)
  dead secret drawn dead :=
    second.dead secret (drawn.trans_le first.grows) (first.dead secret drawn dead)
  bound secret home drawn bound :=
    second.bound secret home (drawn.trans_le first.grows) (first.bound secret home drawn bound)

/-- The links of a sound state name secrets drawn before. -/
theorem KeyState.Sound.links (sound : st.Sound) (other : Identity) (node : Node Identity Secret)
    (upper : Identity) (gen : Secret) (found : st.rows.forest other = some node)
    (above : node.above = some (upper, gen)) : gen < st.entropy := by
  obtain ⟨row, heldRow, rfl⟩ := KeyTable.get_of_forest found
  obtain ⟨ref, hung, -, rfl⟩ := SubjectKey.node_above above
  exact sound.linked other row ref heldRow hung

theorem Preserves.draw (sound : st.Sound) {drawn : Nat} (grows : st.entropy ≤ drawn) :
    Preserves held held spares st { st with entropy := drawn } :=
  ⟨sound.draw grows, grows, fun _ _ _ holds => holds, fun _ _ dead => dead, fun _ _ _ bound => bound⟩

/-- The same rows, with more drawn. -/
theorem Preserves.of_rows (sound : st.Sound) (rows : st'.rows = st.rows)
    (grows : st.entropy ≤ st'.entropy) : Preserves held held spares st st' := by
  obtain ⟨rows', drawn⟩ := st'
  have same : rows' = st.rows := rows
  subst same
  exact .draw sound grows

/-- Planting a fresh row where nothing intact stands. -/
theorem Preserves.mint {masters : MasterKeys} {chain : List Identity} (sound : st.Sound)
    (mint : Mint masters chain st st')
    (guarded : ∀ id ∈ chain, IntactBut st.rows.forest held id → Intact st.rows.forest id)
    (same : ∀ id, st'.rows.get id = st.rows.get id → (held id ↔ held' id)) :
    Preserves held held' everyone st st' := by
  have sound' := mint.sound sound
  cases mint with
  | draw drawn grows =>
      have equal : held = held' := funext fun id => propext (same id rfl)
      exact equal ▸ .draw sound grows
  | plant planted row drawn named broken wraps fresh grows place =>
      have others (other : Identity) (apart : other ≠ planted) :
          (held other ↔ held' other) := same other (by rw [Table.get_set, if_neg apart])
      have notBut : ¬IntactBut st.rows.forest held planted :=
        fun intact => broken (guarded planted named intact)
      refine ⟨sound', grows.le, ?_, ?_, ?_⟩
      · rintro id secret - ⟨intact, node, found, gen⟩
        have apart : id ≠ planted := by
          rintro rfl
          exact notBut intact
        exact ⟨intact.away notBut (fun other => KeyTable.forest_set_ne)
          fun other apart => (others other apart).mp,
          node, (KeyTable.forest_set_ne apart).trans found, gen⟩
      · intro secret drawn dead
        refine Dead.carry sound.links ?_ dead drawn
        intro other node found earlier _
        by_cases here : other = planted
        · subst here
          rw [KeyTable.forest_set_self] at found
          cases found
          exact absurd fresh earlier.ne
        · rw [KeyTable.forest_set_ne here] at found
          exact ⟨node, found, rfl, rfl, (others other here).mpr⟩
      · intro secret home drawn bound
        exact KeyTable.bound_set_fresh bound (fresh ▸ drawn.ne')

/-- Deleting rows, where what is spared rests on none of them. -/
theorem Preserves.shrink (sound : st.Sound) {rows : KeyTable}
    (shrunk : ∀ id row, rows.get id = some row → st.rows.get id = some row)
    (spared : ∀ id other, spares id → IntactBut st.rows.forest held other →
      Reaches st.rows.forest id other → rows.get other = st.rows.get other)
    (same : ∀ id, rows.get id = st.rows.get id → (held id ↔ held' id)) :
    Preserves held held' spares st { st with rows } where
  sound := sound.shrink shrunk
  grows := le_rfl
  holds id secret spare holds := by
    obtain ⟨intact, stands⟩ := holds
    have stays (other : Identity) (intact : IntactBut st.rows.forest held other)
        (reached : Reaches st.rows.forest id other) : rows.forest other = st.rows.forest other :=
      congrArg (Option.map SubjectKey.node) (spared id other spare intact reached)
    refine ⟨intact.carry fun other node intact reached found => ?_, ?_⟩
    · refine ⟨node, (stays other intact reached).trans found, rfl, ?_⟩
      by_cases holding : held other
      · exact .inl ((same other (spared id other spare intact reached)).mp holding)
      · exact .inr (.inr ⟨holding, rfl⟩)
    · obtain ⟨node, found, gen⟩ := stands
      exact ⟨node, (stays id intact .refl).trans found, gen⟩
  dead secret drawn dead := by
    refine Dead.carry sound.links ?_ dead drawn
    intro other node found _ _
    obtain ⟨row, heldRow, rfl⟩ := KeyTable.get_of_forest found
    have before := shrunk other row heldRow
    exact ⟨_, KeyTable.forest_of_get before, rfl, rfl,
      (same other (heldRow.trans before.symm)).mpr⟩
  bound secret home _ bound := KeyTable.bound_of_shrunk bound shrunk

/-- Every row has the secret it had; it is a root now, or hangs where it hung. -/
structure Rewrapped (rows rows' : KeyTable) : Prop where
  kept : ∀ id row, rows.get id = some row → ∃ row', rows'.get id = some row' ∧
    row'.secret = row.secret ∧ row'.parent = row.parent
  before : ∀ id row', rows'.get id = some row' → ∃ row, rows.get id = some row ∧
    row'.secret = row.secret ∧ row'.parent = row.parent

theorem SubjectKey.node_eq {row row' : SubjectKey} (secret : row'.secret = row.secret)
    (parent : row'.parent = row.parent) : row'.node = row.node := by
  unfold SubjectKey.node
  rw [secret, parent]

/-- Rows rewrapped are the same nodes. -/
theorem Rewrapped.forest_eq {rows rows' : KeyTable} (rewrapped : Rewrapped rows rows') :
    rows'.forest = rows.forest := by
  funext id
  unfold KeyTable.forest
  cases held : rows.get id with
  | some row =>
      obtain ⟨row', held', secret, parent⟩ := rewrapped.kept id row held
      rw [held']
      exact congrArg some (SubjectKey.node_eq secret parent)
  | none =>
      cases held' : rows'.get id with
      | none => rfl
      | some row' =>
          obtain ⟨row, before, -⟩ := rewrapped.before id row' held'
          rw [held] at before
          cases before

/-- Wrapping rows anew, under other masters, with the secrets they hold. -/
theorem Preserves.rewrap (sound : st.Sound) {rows : KeyTable} {drawn : Nat}
    (rewrapped : Rewrapped st.rows rows) (grows : st.entropy ≤ drawn)
    (wraps : ∀ id row, rows.get id = some row → row.Wraps id)
    (same : ∀ id, held id ↔ held' id) : Preserves held held' spares st ⟨rows, drawn⟩ := by
  have forest := rewrapped.forest_eq
  have equal : held = held' := funext fun id => propext (same id)
  subst equal
  refine ⟨⟨wraps, ?_, ?_, ?_, ?_⟩, grows, ?_, ?_, ?_⟩
  · intro id row heldRow
    obtain ⟨old, before, secret, -⟩ := rewrapped.before id row heldRow
    exact secret ▸ (sound.drawn id old before).trans_le grows
  · intro id row ref heldRow hung
    obtain ⟨old, before, -, parent⟩ := rewrapped.before id row heldRow
    exact (sound.linked id old ref before (parent ▸ hung)).trans_le grows
  · intro id row heldRow
    obtain ⟨old, before, secret, -⟩ := rewrapped.before id row heldRow
    dsimp only
    rw [forest, secret]
    exact sound.own id old before
  · intro id row ref heldRow hung
    obtain ⟨old, before, -, parent⟩ := rewrapped.before id row heldRow
    dsimp only
    rw [forest]
    exact sound.homes id old ref before (parent ▸ hung)
  · intro id secret _ holds
    unfold HoldsBut
    dsimp only
    rw [forest]
    exact holds
  · intro secret _ dead
    dsimp only
    rw [forest]
    exact dead
  · intro secret home _ bound
    dsimp only
    rw [forest]
    exact bound

end Changes

end Hekla.Keys
