import Hekla.Keys.Calls
import Hekla.Keys.Erasure

/-!
# What a pending access withstands

Between the accesses of a sealed write others mint, sweep and erase.  A walk up
the parents notices every erase above where it has got to; what it has to be
spared is an erase of a row it has already read, or of one above the parent
whose secret it is about to wrap a child under.
-/

namespace Hekla.Keys

open Hekla.Library Forest

/-! ## The changes of others -/

namespace KeyAccess

/-- The rows that have been read and must not go before the access is made. -/
def RestsOn (st : KeyState) : KeyAccess → Identity → Prop
  | .get opening _, id => ∃ row, (id, row) ∈ opening ∧ st.rows.get id = some row
  | .insert _ _ _ (some (parentId, _)), id => Reaches st.rows.forest parentId id
  | .insert _ _ _ none, _ => False

/-- What others may do while an access is pending. -/
inductive Allows (request : KeyAccess) : KeyState → KeyState → Prop where
  | mint {masters : MasterKeys} {chain : List Identity} {st st' : KeyState}
      (mint : Mint masters chain st st') : Allows request st st'
  | sweep (st : KeyState) (picked : List Identity) :
      Allows request st { st with rows := st.rows.sweepOrphanSubjectKeys picked }
  | erase (st : KeyState) (id : Identity)
      (clear : id.1 ≠ globalSubject → ¬request.RestsOn st id) :
      Allows request st (eraseSubject id st).2

end KeyAccess

/-- A later state: sound, with the dead still dead and no earlier secret anew. -/
structure Later (st st' : KeyState) : Prop where
  sound : st'.Sound
  grows : st.entropy ≤ st'.entropy
  dead : ∀ secret, secret < st.entropy → Dead st.rows.forest nobody secret →
    Dead st'.rows.forest nobody secret
  bound : ∀ secret home, secret < st.entropy → Bound st.rows.forest secret home →
    Bound st'.rows.forest secret home
  old : ∀ id row, st'.rows.get id = some row → row.secret < st.entropy →
    st.rows.get id = some row

section Changes

variable {st st' st'' : KeyState} {request : KeyAccess}

theorem Later.refl (sound : st.Sound) : Later st st :=
  ⟨sound, le_rfl, fun _ _ dead => dead, fun _ _ _ bound => bound, fun _ _ held _ => held⟩

theorem Later.trans (first : Later st st') (second : Later st' st'') : Later st st'' where
  sound := second.sound
  grows := first.grows.trans second.grows
  dead secret drawn dead :=
    second.dead secret (drawn.trans_le first.grows) (first.dead secret drawn dead)
  bound secret home drawn bound :=
    second.bound secret home (drawn.trans_le first.grows) (first.bound secret home drawn bound)
  old id row held drawn :=
    first.old id row (second.old id row held (drawn.trans_le first.grows)) drawn

theorem Preserves.later {spares : Identity → Prop}
    (preserves : Preserves nobody nobody spares st st')
    (old : ∀ id row, st'.rows.get id = some row → row.secret < st.entropy →
      st.rows.get id = some row) : Later st st' :=
  ⟨preserves.sound, preserves.grows, preserves.dead, preserves.bound, old⟩

theorem Later.of_mints {masters : MasterKeys} {chain : List Identity} (sound : st.Sound)
    (mints : Mints masters chain st st') : Later st st' :=
  (Preserves.mints sound mints).later fun _ _ held earlier =>
    (Mints.row_before mints sound held earlier).1

theorem Later.of_allows (sound : st.Sound) (allows : request.Allows st st') : Later st st' := by
  cases allows with
  | mint mint => exact .of_mints sound (.single mint)
  | sweep _ picked => exact (Preserves.sweep sound picked).later fun _ _ held _ => sweep_shrunk held
  | erase _ id clear =>
      refine (Preserves.erase sound id).later ?_
      intro other row held _
      unfold eraseSubject at held
      split at held
      · exact held
      · dsimp only at held
        rw [Table.get_remove] at held
        split at held
        · cases held
        · exact held

theorem Later.of_interference (sound : st.Sound)
    (others : Relation.ReflTransGen request.Allows st st') : Later st st' := by
  induction others with
  | refl => exact .refl sound
  | tail _ allows ih => exact ih.trans (.of_allows ih.sound allows)

/-! ## Rows that have been read -/

/-- The row hangs from a generation that will never open again. -/
def Condemned (st : KeyState) (row : SubjectKey) : Prop :=
  ∃ ref, row.parent = some ref ∧ Dead st.rows.forest nobody ref.fingerprint.preimage

theorem own_of_sound (sound : st.Sound) (other : Identity) (node : Node Identity Secret)
    (found : st.rows.forest other = some node) : Bound st.rows.forest node.gen other := by
  obtain ⟨row, held, rfl⟩ := KeyTable.get_of_forest found
  exact sound.own other row held

theorem homes_of_sound (sound : st.Sound) (other : Identity) (node : Node Identity Secret)
    (upper : Identity) (gen : Secret) (found : st.rows.forest other = some node)
    (above : node.above = some (upper, gen)) : Bound st.rows.forest gen upper := by
  obtain ⟨row, held, rfl⟩ := KeyTable.get_of_forest found
  obtain ⟨ref, hung, rfl, rfl⟩ := SubjectKey.node_above above
  exact sound.homes other row ref held hung

/-- A generation whose home has another, or none, is dead. -/
theorem dead_of_not_stands {secret : Secret} {home : Identity}
    (bound : Bound st.rows.forest secret home) (absent : ¬Stands st.rows.forest home secret) :
    Dead st.rows.forest nobody secret := by
  have nowhere (other : Identity) (node : Node Identity Secret)
      (found : st.rows.forest other = some node) (same : node.gen = secret) : False := by
    obtain rfl := bound other ⟨node, found, same⟩
    exact absent ⟨node, found, same⟩
  exact .intro secret (fun _ _ found same => (nowhere _ _ found same).elim)
    fun _ _ _ _ found same _ => (nowhere _ _ found same).elim

theorem condemned_of_broken {id : Identity} {row : SubjectKey} (sound : st.Sound)
    (held : st.rows.get id = some row) (broken : ¬Intact st.rows.forest id) :
    Condemned st row := by
  have dead : Dead st.rows.forest nobody row.secret := by
    by_contra alive
    exact broken (.of_not_dead (own_of_sound sound) (homes_of_sound sound)
      (KeyTable.stands_of_get held) alive)
  cases dead with
  | intro _ loose above =>
      have found := KeyTable.forest_of_get held
      cases hung : row.parent with
      | none => exact absurd (SubjectKey.node_root hung) (loose id row.node found rfl).2
      | some ref =>
          exact ⟨ref, hung, above id row.node _ _ found rfl (SubjectKey.node_above_of_parent hung)⟩

theorem condemned_of_orphan {id : Identity} {row : SubjectKey} (sound : st.Sound)
    (held : st.rows.get id = some row) (orphan : st.rows.isOrphan row = true) :
    Condemned st row := by
  unfold KeyTable.isOrphan at orphan
  split at orphan
  · cases orphan
  · next ref columns =>
      have hung : row.parent = some ref := by
        unfold SubjectKey.parent
        rw [columns]
      refine ⟨ref, hung, dead_of_not_stands (sound.homes id row ref held hung) ?_⟩
      intro stands
      obtain ⟨above, heldAbove, -⟩ := KeyTable.get_of_stands stands
      rw [heldAbove] at orphan
      cases orphan

/-- A row that was read is still in place, or condemned. -/
structure Framed (st : KeyState) (frame : Identity × SubjectKey) : Prop where
  drawn : frame.2.secret < st.entropy
  linked : ∀ ref, frame.2.parent = some ref → ref.fingerprint.preimage < st.entropy ∧
    Bound st.rows.forest ref.fingerprint.preimage ref.identity
  place : st.rows.get frame.1 = some frame.2 ∨ Condemned st frame.2

theorem Framed.of_get {id : Identity} {row : SubjectKey} (sound : st.Sound)
    (held : st.rows.get id = some row) : Framed st (id, row) :=
  ⟨sound.drawn id row held,
    fun ref hung => ⟨sound.linked id row ref held hung, sound.homes id row ref held hung⟩, .inl held⟩

theorem Framed.later {frame : Identity × SubjectKey} (framed : Framed st frame)
    (later : Later st st') (place : st'.rows.get frame.1 = some frame.2 ∨ Condemned st frame.2) :
    Framed st' frame where
  drawn := framed.drawn.trans_le later.grows
  linked ref hung := by
    obtain ⟨drawn, bound⟩ := framed.linked ref hung
    exact ⟨drawn.trans_le later.grows, later.bound _ _ drawn bound⟩
  place := by
    refine place.imp_right ?_
    rintro ⟨ref, hung, dead⟩
    exact ⟨ref, hung, later.dead _ (framed.linked ref hung).1 dead⟩

/-- A row being opened withstands what the next read allows. -/
theorem Framed.of_allows {opening : List (Identity × SubjectKey)} {next : Identity}
    {frame : Identity × SubjectKey} (framed : Framed st frame) (sound : st.Sound)
    (member : frame ∈ opening) (allows : (KeyAccess.get opening next).Allows st st') :
    Framed st' frame := by
  refine framed.later (.of_allows sound allows) ?_
  rcases framed.place with held | condemned
  · cases allows with
    | mint mint =>
        cases mint with
        | draw drawn grows => exact .inl held
        | plant planted row drawn named broken wraps fresh grows place =>
            by_cases here : frame.1 = planted
            · subst here
              exact .inr (condemned_of_broken sound held broken)
            · refine .inl ?_
              rw [Table.get_set, if_neg here]
              exact held
    | sweep _ picked =>
        by_cases orphan : st.rows.isOrphan frame.2 = true
        · exact .inr (condemned_of_orphan sound held orphan)
        · refine .inl ((sweep_get_of_linked ?_).trans held)
          intro row found
          cases held.symm.trans found
          exact Bool.eq_false_iff.mpr orphan
    | erase _ id clear =>
        refine .inl ?_
        unfold eraseSubject
        split
        · exact held
        · next erasable =>
            dsimp only
            rw [Table.get_remove, if_neg]
            · exact held
            · rintro rfl
              exact clear erasable ⟨frame.2, member, held⟩
  · exact .inr condemned

theorem Framed.of_interference {opening : List (Identity × SubjectKey)} {next : Identity}
    {frame : Identity × SubjectKey} (framed : Framed st frame) (sound : st.Sound)
    (member : frame ∈ opening)
    (others : Relation.ReflTransGen (KeyAccess.get opening next).Allows st st') :
    Framed st' frame := by
  induction others with
  | refl => exact framed
  | tail others allows ih =>
      exact ih.of_allows (Later.of_interference sound others).sound member allows

/-- A parent in hand withstands what the insert of its child allows. -/
theorem holds_of_interference {masters : MasterKeys} {id parentId : Identity}
    {stale : Option SubjectKey} {secret gen : Secret} (sound : st.Sound)
    (holds : Holds parentId st gen)
    (others : Relation.ReflTransGen
      (KeyAccess.insert masters id stale (some (parentId, secret))).Allows st st') :
    Holds parentId st' gen := by
  induction others with
  | refl => exact holds
  | tail others allows ih =>
      have soundThen := (Later.of_interference sound others).sound
      cases allows with
      | mint mint => exact mint.intact ih.1 ih.2
      | sweep _ picked => exact (Preserves.sweep soundThen picked).holds parentId gen trivial ih
      | erase _ erased clear =>
          refine (Preserves.erase soundThen erased).holds parentId gen ?_ ih
          rintro ⟨erasable, reached⟩
          exact clear erasable reached

end Changes

end Hekla.Keys
