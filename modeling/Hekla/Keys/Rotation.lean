import Hekla.Keys.Races

/-!
# Rotation under races

The write of a rotation keeps every secret where it is, as long as nothing put a
row of its snapshot back under the old master in between.  The compare-and-set
is on the master alone, so that a subject erased and minted again under the same
master is written over.
-/

namespace Hekla.Keys.Races

open Hekla.Library Forest

variable {w w' : Races}

theorem current_of_adoptWrite {update : RewrapUpdate} {id parentId : Identity} {read : Wrapped}
    {secret parent : Secret} {keys : KeyState} (current : update.Current keys.rows) :
    update.Current (Keys.adoptWrite id parentId read secret parent keys).2.rows := by
  rcases adoptWrite_cases id parentId read secret parent keys with lost | ⟨old, held, same, won⟩
  · rw [lost]
    exact current
  · rw [won]
    refine current_of_same current fun row there columns => ?_
    rw [Table.get_set] at there
    split at there
    · cases there
      cases columns
    · exact there

theorem current_of_adoptRestore {update : RewrapUpdate} {masters : MasterKeys} {id : Identity}
    {written : Wrapped} {secret : Secret} {keys : KeyState} (current : update.Current keys.rows)
    (clear : update.id = id → update.expected ≠ masters.primary) :
    update.Current (Keys.adoptRestore masters id written secret keys).2.rows := by
  rcases adoptRestore_cases masters id written secret keys with ⟨-, kept⟩ | ⟨old, held, same, put⟩
  · rw [kept]
    exact current
  · rw [put]
    refine current_of_same current fun row there columns => ?_
    rw [Table.get_set] at there
    split at there
    · next here =>
        cases there
        injection columns with primary
        exact absurd primary.symm (clear here)
    · exact there

/-- Another rotation's write leaves a snapshot current, unless it moves one of
its rows to the master the snapshot read it under. -/
theorem current_of_rotateWrite {update : RewrapUpdate} {primary : String}
    {updates : List RewrapUpdate} {keys : KeyState} (current : update.Current keys.rows)
    (formed : ∀ written ∈ updates, written.Formed primary)
    (currents : ∀ written ∈ updates, written.Current keys.rows)
    (clear : ∀ written ∈ updates, update.id = written.id → update.expected ≠ written.master) :
    update.Current (Keys.rotateWrite updates keys).2.rows := by
  refine current_of_same current fun row there columns => ?_
  unfold Keys.rotateWrite at there
  rcases rewrapSubjectKeys_get formed currents update.id with ⟨-, gone⟩ | ⟨old, row', held, held', moved⟩
  · rw [there] at gone
    cases gone
  · rw [there] at held'
    cases held'
    cases moved with
    | kept => exact held
    | moved written member here =>
        injection columns with same
        exact absurd same.symm (clear written member here.symm)

theorem adoptRead_knows {masters : MasterKeys} {id parentId : Identity} {above : List Identity}
    {row : SubjectKey} {secret : Secret} (sound : w.Sound)
    (read : Keys.adoptRead masters id w.keys = .ok (some (row, secret))) :
    Knows w.keys ⟨masters, id, parentId, above, .read row secret⟩ := by
  obtain ⟨held, root, same⟩ := adoptRead_some read
  exact .read rfl ⟨sound.keys.wraps id row held, root, same⟩

/-- One step of a race. -/
theorem Sound.step {act : RaceAct} (sound : w.Sound) (keeps : w.KeepsSnapshots act)
    (taken : w.step act = some w') : w'.Sound := by
  have unmoved (rotation : Nat) (rotating : Rotating) (update : RewrapUpdate)
      (_ : w.rotations.get rotation = some rotating) (_ : update ∈ rotating.updates)
      (current : update.Current w.keys.rows) : update.Current w.keys.rows := current
  have unchanged : Preserves nobody nobody nobody w.keys w.keys := .refl sound.keys
  cases act with
  | encrypt masters chain field plaintext =>
      cases taken
      rw [encryptSubjectIn_state]
      refine sound.preserves (.mintSecretIn masters chain sound.keys) (fun _ _ found => found) ?_
        fun _ _ found => .inl found
      intro rotation rotating update found member _
      exact current_of_mintSecretIn sound keeps found member
  | existing masters id field plaintext =>
      cases taken
      exact sound
  | erase id =>
      cases taken
      refine sound.preserves (.erase sound.keys id) (fun _ _ found => found) ?_
        fun _ _ found => .inl found
      intro rotation rotating update found member current
      refine current_of_same current fun row held _ => ?_
      unfold eraseSubject at held
      split at held
      · exact held
      · dsimp only at held
        rw [Table.get_remove] at held
        split at held
        · cases held
        · exact held
  | sweep picked =>
      cases taken
      refine sound.preserves (.sweep sound.keys picked) (fun _ _ found => found) ?_
        fun _ _ found => .inl found
      intro rotation rotating update found member current
      exact current_of_same current fun row held _ => sweep_shrunk held
  | rotateRead rotation masters =>
      simp only [Races.step] at taken
      split at taken
      · cases taken
      · split at taken
        · next failed keys read =>
            cases taken
            obtain ⟨rows, grows, -⟩ := rotateRead_spec read
            have preserves : Preserves nobody nobody nobody w.keys keys :=
              .of_rows sound.keys rows grows
            refine sound.preserves preserves (fun _ _ found => found) ?_ fun _ _ found => .inl found
            intro _ _ update _ _ current
            dsimp only
            rw [rows]
            exact current
        · next updates keys read =>
            cases taken
            obtain ⟨rows, grows, spec⟩ := rotateRead_spec read
            have preserves : Preserves nobody nobody nobody w.keys keys :=
              .of_rows sound.keys rows grows
            refine ⟨preserves.sound, ?_, fun adoption adopting found =>
              (sound.adoptions adoption adopting found).preserves preserves⟩
            intro other rotating found update member
            dsimp only
            rw [rows]
            dsimp only at found
            rw [Table.get_set] at found
            split at found
            · cases found
              exact spec updates rfl update member
            · exact sound.rotations other rotating found update member
  | rotateWrite rotation =>
      simp only [Races.step] at taken
      split at taken
      · next rotating found =>
          cases taken
          have formed (update : RewrapUpdate) (member : update ∈ rotating.updates) :=
            (sound.rotations rotation rotating found update member).1
          have currents (update : RewrapUpdate) (member : update ∈ rotating.updates) :=
            (sound.rotations rotation rotating found update member).2
          have others (other : Nat) (awaiting : Rotating)
              (there : (w.rotations.remove rotation).get other = some awaiting) :
              other ≠ rotation ∧ w.rotations.get other = some awaiting := by
            rw [Table.get_remove] at there
            split at there
            · cases there
            · next apart => exact ⟨apart, there⟩
          have preserves : Preserves nobody nobody nobody w.keys
              (Keys.rotateWrite rotating.updates w.keys).2 :=
            .rotateWrite sound.keys formed currents fun _ => Iff.rfl
          refine sound.preserves preserves
            (fun other awaiting there => (others other awaiting there).2) ?_
            fun _ _ found => .inl found
          intro other awaiting update there member current
          obtain ⟨apart, before⟩ := others other awaiting there
          refine current_of_rotateWrite current formed currents fun written wrote here => ?_
          exact keeps rotating found other awaiting apart before written wrote update member here
      · cases taken
  | adoptRead adoption masters id parentId above =>
      simp only [Races.step] at taken
      split at taken
      · cases taken
      · split at taken
        · next row secret read =>
            cases taken
            have knows : Knows w.keys ⟨masters, id, parentId, above, .read row secret⟩ :=
              adoptRead_knows sound read
            refine sound.preserves unchanged
              (fun _ _ found => found) unmoved ?_
            intro other adopting found
            rw [Table.get_set] at found
            split at found
            · cases found
              exact .inr knows
            · exact .inl found
        · cases taken
          exact sound
  | adoptMint adoption =>
      simp only [Races.step] at taken
      split at taken
      · next masters id parentId above row secret found =>
          have preserves := Preserves.mintSecretIn masters (parentId :: above) sound.keys
          have minted := mintSecretIn_spec masters parentId above sound.keys
          have clear := keeps _ found
          have current (rotation : Nat) (rotating : Rotating) (update : RewrapUpdate)
              (there : w.rotations.get rotation = some rotating)
              (member : update ∈ rotating.updates) (_ : update.Current w.keys.rows) :
              update.Current (mintSecretIn masters (parentId :: above) w.keys).2.rows :=
            current_of_mintSecretIn sound clear there member
          have knows := sound.adoptions adoption _ found
          split at taken
          · next parent keys made =>
              cases taken
              rw [made] at preserves minted current
              refine sound.preserves preserves (fun _ _ found => found) current ?_
              intro other adopting there
              rw [Table.get_set] at there
              split at there
              · cases there
                obtain ⟨-, stands⟩ := minted.holds parent rfl
                cases knows with
                | minted phase => cases phase
                | pending phase => rcases phase with phase | phase <;> cases phase
                | read phase root =>
                    cases phase
                    exact .inr (.minted rfl root (preserves.sound.stands_drawn stands)
                      (preserves.sound.stands_bound stands))
              · exact .inl there
          · next result keys _ made =>
              cases taken
              rw [made] at preserves current
              refine sound.preserves preserves (fun _ _ found => found) current ?_
              intro other adopting there
              rw [Table.get_remove] at there
              split at there
              · cases there
              · exact .inl there
      · cases taken
  | adoptWrite adoption =>
      have whole := taken
      simp only [Races.step] at taken
      split at taken
      · next masters id parentId above row secret parent found =>
          have preserves : Preserves w.Suspended w'.Suspended nobody w.keys w'.keys :=
            preserves_adoptWrite sound found whole
          have current (rotation : Nat) (rotating : Rotating) (update : RewrapUpdate)
              (_ : w.rotations.get rotation = some rotating) (_ : update ∈ rotating.updates)
              (current : update.Current w.keys.rows) :
              update.Current
                (Keys.adoptWrite id parentId row.wrapped secret parent w.keys).2.rows :=
            current_of_adoptWrite current
          rcases adoptWrite_cases id parentId row.wrapped secret parent w.keys with
            lost | ⟨old, held, same, won⟩
          · rw [lost] at taken current
            cases taken
            refine sound.preserves preserves (fun _ _ found => found) current ?_
            intro other adopting there
            rw [Table.get_remove] at there
            split at there
            · cases there
            · exact .inl there
          · rw [won] at taken current
            cases taken
            refine sound.preserves preserves (fun _ _ found => found) current ?_
            intro other adopting there
            rw [Table.get_set] at there
            split at there
            · cases there
              exact .inr (.pending (.inl rfl) rfl rfl)
            · exact .inl there
      · cases taken
  | adoptReadBack adoption =>
      simp only [Races.step] at taken
      split at taken
      · next masters id parentId above wrapped secret found =>
          have knows := sound.adoptions adoption _ found
          split at taken
          · cases taken
            refine sound.preserves unchanged
              (fun _ _ found => found) unmoved ?_
            intro other adopting there
            rw [Table.get_set] at there
            split at there
            · cases there
              cases knows with
              | read phase => cases phase
              | minted phase => cases phase
              | pending phase message key =>
                  rcases phase with phase | phase <;> cases phase
                  exact .inr (.pending (.inr rfl) message key)
            · exact .inl there
          · cases taken
            refine sound.preserves unchanged
              (fun _ _ found => found) unmoved ?_
            intro other adopting there
            rw [Table.get_remove] at there
            split at there
            · cases there
            · exact .inl there
      · cases taken
  | adoptRestore adoption =>
      have preserves : Preserves w.Suspended w'.Suspended nobody w.keys w'.keys :=
        preserves_adoptRestore sound taken
      simp only [Races.step] at taken
      split at taken
      · next masters id parentId above written secret found =>
          cases taken
          refine sound.preserves preserves (fun _ _ found => found) ?_ ?_
          · intro rotation rotating update there member current
            refine current_of_adoptRestore current fun here expected => ?_
            exact keeps _ found ⟨rotation, rotating, update, there, member, here, expected⟩
          · intro other adopting there
            rw [Table.get_remove] at there
            split at there
            · cases there
            · exact .inl there
      · cases taken

theorem sound_of_run {acts : List RaceAct} (ran : run step {} acts = some w)
    (keeps : Guarded step KeepsSnapshots {} acts) : w.Sound :=
  run_invariant_of_guarded Sound (fun _ _ _ sound keeps taken => sound.step keeps taken)
    sound_start keeps ran

/-- In every run that puts no row of an unwritten snapshot back under the master
it was read under, the write of a rotation leaves every row with the secret and
the parent it had: no secret is revived, and none is destroyed. -/
theorem rotation_keeps_secrets {acts : List RaceAct} {rotation : Nat}
    (ran : run step {} acts = some w) (keeps : Guarded step KeepsSnapshots {} acts)
    (wrote : w.step (.rotateWrite rotation) = some w') :
    (∀ id row', w'.keys.rows.get id = some row' → ∃ row, w.keys.rows.get id = some row ∧
        row'.secret = row.secret ∧ row'.parent = row.parent) ∧
      ∀ id row, w.keys.rows.get id = some row → ∃ row', w'.keys.rows.get id = some row' ∧
        row'.secret = row.secret ∧ row'.parent = row.parent := by
  have sound := sound_of_run ran keeps
  simp only [Races.step] at wrote
  split at wrote
  · next rotating found =>
      cases wrote
      have rewrapped : Rewrapped w.keys.rows (w.keys.rows.rewrapSubjectKeys rotating.updates).1 :=
        rewrapSubjectKeys_rewrapped
          (fun update member => (sound.rotations rotation rotating found update member).1)
          fun update member => (sound.rotations rotation rotating found update member).2
      exact ⟨rewrapped.before, rewrapped.kept⟩
  · cases wrote

def oldMaster : MasterKeys := ⟨"A", []⟩

/-- The new master, with the old one kept for a rotation. -/
def newMaster : MasterKeys := ⟨"B", ["A"]⟩

/-- A customer is erased and minted again, by the new store, before the write. -/
def remintedUnderNew : List RaceAct :=
  [.encrypt oldMaster [KeyOp.customer] "email" "a@b.c", .rotateRead 0 newMaster,
    .erase KeyOp.customer, .encrypt newMaster [KeyOp.customer] "email" "d@e.f"]

/-- A customer is erased and minted again, by a store that still has the old master. -/
def remintedUnderOld : List RaceAct :=
  [.encrypt oldMaster [KeyOp.customer] "email" "a@b.c", .rotateRead 0 newMaster,
    .erase KeyOp.customer, .encrypt oldMaster [KeyOp.customer] "email" "d@e.f"]

/-- A mint at the root of whose chain no snapshot waits. -/
def mintsApart (w : Races) : RaceAct → Bool
  | .encrypt masters chain _ _ =>
      !w.rotations.any fun _ rotating => rotating.updates.any fun update =>
        chain.getLast? == some update.id && update.expected == masters.primary
  | .erase _ | .rotateRead _ _ => true
  | _ => false

theorem keepsSnapshots_of_mintsApart {act : RaceAct} (apart : w.mintsApart act = true) :
    w.KeepsSnapshots act := by
  cases act with
  | encrypt masters chain field plaintext =>
      rintro id last ⟨rotation, rotating, update, found, member, here, expected⟩
      unfold mintsApart at apart
      rw [Bool.not_eq_true', Bool.eq_false_iff] at apart
      refine absurd ?_ apart
      refine (Table.any_eq_true _ _).mpr ⟨rotation, rotating, found, ?_⟩
      refine List.any_eq_true.mpr ⟨update, member, ?_⟩
      rw [last, here, expected]
      simp
  | erase | rotateRead => trivial
  | existing | sweep | rotateWrite | adoptRead | adoptMint | adoptWrite | adoptReadBack
    | adoptRestore => cases apart

theorem rotation_keeps_secrets_of_remintedUnderNew :
    ∃ w w', run step {} remintedUnderNew = some w ∧ w.step (.rotateWrite 0) = some w' ∧
      ∀ id row, w.keys.rows.get id = some row → ∃ row', w'.keys.rows.get id = some row' ∧
        row'.secret = row.secret ∧ row'.parent = row.parent := by
  have ended : (run step {} remintedUnderNew).any (fun w =>
      (w.step (.rotateWrite 0)).isSome) = true := by decide
  obtain ⟨w, ran, writes⟩ := (Option.any_eq_true _ _).mp ended
  obtain ⟨w', wrote⟩ := Option.isSome_iff_exists.mp writes
  have apart : Guarded step (fun w act => mintsApart w act = true) {} remintedUnderNew := by decide
  have keeps := Guarded.imp (fun _ _ => keepsSnapshots_of_mintsApart) apart
  exact ⟨w, w', ran, wrote, (rotation_keeps_secrets ran keeps wrote).2⟩

/-- The write puts the secret that was erased in the place of the one minted since. -/
theorem rotation_writes_over :
    ∃ w w', run step {} remintedUnderOld = some w ∧ w.step (.rotateWrite 0) = some w' ∧
      ∃ row row', w.keys.rows.get KeyOp.customer = some row ∧
        w'.keys.rows.get KeyOp.customer = some row' ∧ row.secret = 3 ∧ row'.secret = 0 := by
  have ended : (run step {} remintedUnderOld).any (fun w =>
      (w.step (.rotateWrite 0)).any fun w' =>
        decide ((w.keys.rows.get KeyOp.customer).map SubjectKey.secret = some 3) &&
          decide ((w'.keys.rows.get KeyOp.customer).map SubjectKey.secret = some 0)) = true := by
    decide
  obtain ⟨w, ran, writes⟩ := (Option.any_eq_true _ _).mp ended
  obtain ⟨w', wrote, held⟩ := (Option.any_eq_true _ _).mp writes
  obtain ⟨before, after⟩ := Bool.and_eq_true_iff.mp held
  obtain ⟨row, found, secret⟩ := Option.map_eq_some_iff.mp (of_decide_eq_true before)
  obtain ⟨row', found', secret'⟩ := Option.map_eq_some_iff.mp (of_decide_eq_true after)
  exact ⟨w, w', ran, wrote, row, row', found, found', secret, secret'⟩

end Hekla.Keys.Races
