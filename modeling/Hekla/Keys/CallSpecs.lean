import Hekla.Keys.Interference

/-!
# What a sealed write does among others

A walk up the parents that yields a secret yields one that holds when it ends,
and one that yields none has seen a dead generation.  A mint only ever plants,
and returns a secret that holds when its last access is made.
-/

namespace Hekla.Keys

open Hekla.Library Forest

/-- The changes a mint makes to the rows. -/
def Plants : KeyState → KeyState → Prop :=
  Relation.ReflTransGen fun st st' => ∃ masters chain, Mint masters chain st st'

theorem Plants.interference {st st' : KeyState} (plants : Plants st st') (request : KeyAccess) :
    Relation.ReflTransGen request.Allows st st' :=
  plants.lift (fun st => st) fun _ _ ⟨_, _, mint⟩ => .mint mint

/-- A call does its part whatever its pending accesses allow others to do. -/
abbrev Kept {α : Type} (promised : Except String α → KeyState → Prop) :
    Call α → KeyState → Prop :=
  Prog.Keeps KeyAccess.perform KeyAccess.Allows Plants promised

theorem andThen_kept {α β : Type} {first : Except String α → KeyState → Prop}
    {promised : Except String β → KeyState → Prop} {call : Call α} {rest : α → Call β}
    {st : KeyState} (kept : Kept first call st)
    (failed : ∀ message st, first (.error message) st → promised (.error message) st)
    (onwards : ∀ result st, first (.ok result) st → Kept promised (rest result) st) :
    Kept promised (call.andThen rest) st := by
  refine Prog.Keeps.bind (kept.mono fun result st held => ?_)
  cases result with
  | error message => exact failed message st held
  | ok result => exact onwards result st held

/-! ## Loading -/

/-- Where a walk up the parents of an identity has ended. -/
structure Loaded (start : KeyState) (opening : List (Identity × SubjectKey)) (id : Identity)
    (result : Except String (Option Secret)) (st : KeyState) : Prop where
  later : Later start st
  frames : ∀ frame ∈ opening, Framed st frame
  opened : ∀ secret, result = .ok (some secret) → Holds id st secret
  lost : result = .ok none → ∀ secret, secret < start.entropy →
    Bound start.rows.forest secret id → Dead st.rows.forest nobody secret

section Loading

variable {start st : KeyState} {opening : List (Identity × SubjectKey)} {id : Identity}
  {result : Except String (Option Secret)}

theorem Loaded.after {middle : KeyState} (later : Later start middle)
    (loaded : Loaded middle opening id result st) : Loaded start opening id result st where
  later := later.trans loaded.later
  frames := loaded.frames
  opened := loaded.opened
  lost absent secret drawn bound :=
    loaded.lost absent secret (drawn.trans_le later.grows) (later.bound secret id drawn bound)

theorem Loaded.failed (message : String) (later : Later start st)
    (frames : ∀ frame ∈ opening, Framed st frame) :
    Loaded start opening id (.error message) st :=
  ⟨later, frames, nofun, nofun⟩

/-- Once the link of the row that was read is dead, so is all the identity held. -/
theorem dead_of_condemned {row : SubjectKey} {secret : Secret} (later : Later start st)
    (held : start.rows.get id = some row) (condemned : Condemned st row)
    (drawn : secret < start.entropy) (bound : Bound start.rows.forest secret id) :
    Dead st.rows.forest nobody secret := by
  obtain ⟨ref, hung, dead⟩ := condemned
  have only (other : Identity) (node : Node Identity Secret)
      (found : st.rows.forest other = some node) (same : node.gen = secret) : node = row.node := by
    obtain rfl := later.bound secret id drawn bound other ⟨node, found, same⟩
    obtain ⟨row', held', rfl⟩ := KeyTable.get_of_forest found
    have earlier : row'.secret < start.entropy := lt_of_eq_of_lt same drawn
    have before := later.old _ row' held' earlier
    cases held.symm.trans before
    rfl
  refine .intro secret ?_ ?_
  · intro other node found same
    rw [only other node found same, SubjectKey.node_above_of_parent hung]
    exact ⟨fun never => never, nofun⟩
  · intro other node upper linked found same above
    rw [only other node found same, SubjectKey.node_above_of_parent hung] at above
    cases above
    exact dead

theorem openRow_kept {masters : MasterKeys}
    {load : List (Identity × SubjectKey) → Identity → Call (Option Secret)} {row : SubjectKey}
    (loads : ∀ opening id st, st.Sound → (∀ frame ∈ opening, Framed st frame) →
      Kept (Loaded st opening id) (load opening id) st)
    (sound : st.Sound) (frames : ∀ frame ∈ opening, Framed st frame)
    (held : st.rows.get id = some row) :
    Kept (Loaded st opening id) (Call.openRow masters load opening id row) st := by
  unfold Call.openRow
  cases columns : row.wrapping with
  | master master =>
      have root : row.parent = none := by
        unfold SubjectKey.parent
        rw [columns]
      refine ⟨.refl sound, frames, ?_, ?_⟩
      · intro secret opens
        split at opens
        · cases opens
        · have same : row.secret = secret := message_of_map_unwrapKeyUnder opens
          exact ⟨KeyTable.intact_root held root, same ▸ KeyTable.stands_of_get held⟩
      · intro opens
        split at opens
        · cases opens
        · next key _ =>
            cases opened : unwrapKeyUnder key row.wrapped [] with
            | error message =>
                rw [opened] at opens
                cases opens
            | ok secret =>
                rw [opened] at opens
                cases opens
  | parent ref =>
      have hung : row.parent = some ref := by
        unfold SubjectKey.parent
        rw [columns]
      have framed := Framed.of_get sound held
      obtain ⟨linkDrawn, linkBound⟩ := framed.linked ref hung
      have parentLoads := loads ((id, row) :: opening) ref.identity st sound (by
        intro frame member
        rcases List.mem_cons.mp member with rfl | before
        · exact framed
        · exact frames frame before)
      refine andThen_kept parentLoads ?_ ?_
      · intro message st' loaded
        exact .failed message loaded.later fun frame member =>
          loaded.frames frame (List.mem_cons_of_mem _ member)
      · intro found st' loaded
        have framesThen (frame : Identity × SubjectKey) (member : frame ∈ opening) :
            Framed st' frame := loaded.frames frame (List.mem_cons_of_mem _ member)
        have lost (dead : Dead st'.rows.forest nobody ref.fingerprint.preimage) :
            Loaded st opening id (.ok none) st' :=
          ⟨loaded.later, framesThen, nofun, fun _ _ drawn bound =>
            dead_of_condemned loaded.later held ⟨ref, hung, dead⟩ drawn bound⟩
        cases found with
        | none => exact lost (loaded.lost rfl _ linkDrawn linkBound)
        | some parent =>
            obtain ⟨intact, stands⟩ := loaded.opened parent rfl
            dsimp only
            split
            · next differs =>
                refine lost (dead_of_not_stands (loaded.later.bound _ _ linkDrawn linkBound) ?_)
                intro standsLink
                exact differs (congrArg Fingerprint.mk (KeyTable.stands_unique standsLink stands))
            · next matching =>
                have generation : ref.fingerprint.preimage = parent :=
                  congrArg Fingerprint.preimage (not_not.mp matching)
                refine ⟨loaded.later, framesThen, ?_, ?_⟩
                · intro secret opens
                  have same : row.secret = secret := message_of_map_unwrapKeyUnder opens
                  have place := (loaded.frames (id, row) List.mem_cons_self).place
                  rcases place with heldStill | ⟨ref', hung', dead⟩
                  · exact ⟨KeyTable.intact_child heldStill hung intact (generation ▸ stands),
                      same ▸ KeyTable.stands_of_get heldStill⟩
                  · cases hung.symm.trans hung'
                    exact absurd (generation ▸ dead) (Intact.not_dead intact stands)
                · intro opens
                  cases opened : unwrapKeyUnder (childKek parent) row.wrapped
                      (childAad id ref.identity) with
                  | error message =>
                      rw [opened] at opens
                      cases opens
                  | ok secret =>
                      rw [opened] at opens
                      cases opens

theorem loadSecretAt_kept (masters : MasterKeys) (levels : Nat)
    (opening : List (Identity × SubjectKey)) (id : Identity) (st : KeyState) (sound : st.Sound)
    (frames : ∀ frame ∈ opening, Framed st frame) :
    Kept (Loaded st opening id) (Call.loadSecretAt masters levels opening id) st := by
  induction levels generalizing opening id st with
  | zero => exact .failed _ (.refl sound) frames
  | succ levels ih =>
      unfold Call.loadSecretAt
      intro st' others
      have later := Later.of_interference sound others
      have framesThen (frame : Identity × SubjectKey) (member : frame ∈ opening) :
          Framed st' frame := (frames frame member).of_interference sound member others
      refine ⟨.refl, ?_⟩
      unfold KeyAccess.perform
      dsimp only
      cases held : st'.rows.get id with
      | none =>
          refine ⟨later, framesThen, fun _ never => (by cases never), ?_⟩
          intro _ secret drawn bound
          refine dead_of_not_stands (later.bound secret id drawn bound) ?_
          intro stands
          obtain ⟨row, there, -⟩ := KeyTable.get_of_stands stands
          cases held.symm.trans there
      | some row =>
          exact (openRow_kept ih later.sound framesThen held).mono
            fun _ _ loaded => loaded.after later

theorem openExisting_kept (masters : MasterKeys) (sound : st.Sound) :
    Kept (Loaded st [] id) (Call.openExisting masters id (st.rows.get id)) st := by
  cases held : st.rows.get id with
  | none =>
      refine ⟨.refl sound, nofun, nofun, ?_⟩
      intro _ secret drawn bound
      refine dead_of_not_stands bound ?_
      intro stands
      obtain ⟨row, there, -⟩ := KeyTable.get_of_stands stands
      cases held.symm.trans there
  | some row => exact openRow_kept (loadSecretAt_kept masters _) sound nofun held

end Loading

/-! ## Minting -/

/-- Where a mint for an identity has ended. -/
structure Ready (start : KeyState) (id : Identity) (result : Except String (Option Secret))
    (st : KeyState) : Prop where
  later : Later start st
  holds : ∀ secret, result = .ok (some secret) → Holds id st secret

section Minting

variable {start st : KeyState} {id : Identity} {result : Except String (Option Secret)}

theorem Ready.failed (message : String) (later : Later start st) :
    Ready start id (.error message) st :=
  ⟨later, fun _ never => by cases never⟩

theorem Ready.absent (later : Later start st) : Ready start id (.ok none) st :=
  ⟨later, fun _ never => by cases never⟩

theorem Ready.after {middle : KeyState} (later : Later start middle)
    (ready : Ready middle id result st) : Ready start id result st :=
  ⟨later.trans ready.later, ready.holds⟩

theorem Loaded.ready (loaded : Loaded start [] id result st) : Ready start id result st :=
  ⟨loaded.later, loaded.opened⟩

/-- The row that was read, if there was one, has a secret that is dead. -/
def Stale (st : KeyState) (stale : Option SubjectKey) : Prop :=
  ∀ old, stale = some old → old.secret < st.entropy ∧ Dead st.rows.forest nobody old.secret

theorem Stale.later {stale : Option SubjectKey} {st' : KeyState} (lost : Stale st stale)
    (later : Later st st') : Stale st' stale := by
  intro old replaced
  obtain ⟨drawn, dead⟩ := lost old replaced
  exact ⟨drawn.trans_le later.grows, later.dead _ drawn dead⟩

theorem Loaded.stale (sound : start.Sound) (loaded : Loaded start [] id (.ok none) st) :
    Stale st (start.rows.get id) := by
  intro old held
  have drawn := sound.drawn id old held
  exact ⟨drawn.trans_le loaded.later.grows, loaded.lost rfl _ drawn (sound.own id old held)⟩

theorem insertFresh_kept (masters : MasterKeys) {stale : Option SubjectKey}
    {parent : Option (Identity × Secret)} (sound : st.Sound) (hung : ParentAt st parent)
    (lost : Stale st stale) :
    Kept (Ready st id) (Call.insertFresh masters id stale parent) st := by
  unfold Call.insertFresh
  intro st' others
  have later := Later.of_interference sound others
  have hungThen : ParentAt st' parent := by
    rintro parentId gen rfl
    exact holds_of_interference sound (hung parentId gen rfl) others
  have minted : Minted masters [id] id st' (st'.insertFresh masters id stale parent) := by
    refine insertFresh_spec (List.mem_singleton.mpr rfl) (fun _ => rfl) hungThen ?_
    intro row old held replaced same intact
    have secret : row.secret = old.secret := congrArg (fun wrapped => wrapped.box.message) same
    have dead := (lost.later later old replaced).2
    exact intact.not_dead (KeyTable.stands_of_get held) (secret ▸ dead)
  refine ⟨minted.mints.lift (fun st => st) fun _ _ mint => ⟨_, _, mint⟩, ?_⟩
  have laterThen : Later st' (KeyAccess.perform (.insert masters id stale parent) st').2 :=
    .of_mints later.sound minted.mints
  have holds (secret : Secret) (opens : (KeyAccess.perform (.insert masters id stale parent)
      st').2.openPersisted masters id (KeyAccess.perform (.insert masters id stale parent) st').1
        parent = .ok (some secret)) :
      Holds id (KeyAccess.perform (.insert masters id stale parent) st').2 secret :=
    minted.holds secret opens
  revert holds laterThen
  generalize KeyAccess.perform (.insert masters id stale parent) st' = performed
  intro laterThen holds
  obtain ⟨persisted, next⟩ := performed
  have whole : Later st next := later.trans laterThen
  have reload : Kept (Ready st id) (Call.loadSecret masters id) next :=
    (loadSecretAt_kept masters _ [] id next whole.sound nofun).mono
      fun _ _ loaded => loaded.ready.after whole
  unfold KeyState.openPersisted at holds
  unfold Call.openPersisted
  dsimp only at holds ⊢
  cases columns : persisted.wrapping with
  | master master =>
      rw [columns] at holds
      exact ⟨whole, holds⟩
  | parent ref =>
      rw [columns] at holds
      cases parent with
      | none => exact reload
      | some link =>
          obtain ⟨parentId, gen⟩ := link
          dsimp only at holds ⊢
          split
          · next matching =>
              rw [if_pos matching] at holds
              exact ⟨whole, holds⟩
          · exact reload

theorem retryMint_kept {attempt : Call (Option Secret)}
    (tries : ∀ st, st.Sound → Kept (Ready st id) attempt st) (attempts : Nat) (st : KeyState)
    (sound : st.Sound) : Kept (Ready st id) (Call.retryMint attempt attempts) st := by
  induction attempts generalizing st with
  | zero => exact .absent (.refl sound)
  | succ attempts ih =>
      unfold Call.retryMint
      refine andThen_kept (tries st sound) (fun _ _ ready => .failed _ ready.later) ?_
      intro found st' ready
      cases found with
      | some secret => exact ready
      | none => exact (ih st' ready.later.sound).mono fun _ _ again => again.after ready.later

theorem tryMintIn_kept (masters : MasterKeys) (above : List Identity) (id : Identity)
    (st : KeyState) (sound : st.Sound) :
    Kept (Ready st id) (Call.tryMintIn masters (id :: above)) st := by
  induction above generalizing id st with
  | nil =>
      unfold Call.tryMintIn
      intro st' others
      have later := Later.of_interference sound others
      refine ⟨.refl, ?_⟩
      unfold KeyAccess.perform
      dsimp only
      refine andThen_kept (openExisting_kept masters later.sound)
        (fun _ _ loaded => .failed _ (later.trans loaded.later)) ?_
      intro found st'' loaded
      have whole := later.trans loaded.later
      cases found with
      | some secret => exact loaded.ready.after later
      | none =>
          have unhung : ParentAt st'' none := by
            intro _ _ never
            cases never
          exact (insertFresh_kept masters whole.sound unhung (loaded.stale later.sound)).mono
            fun _ _ ready => ready.after whole
  | cons parentId above ih =>
      unfold Call.tryMintIn
      intro st' others
      have later := Later.of_interference sound others
      refine ⟨.refl, ?_⟩
      unfold KeyAccess.perform
      dsimp only
      refine andThen_kept (openExisting_kept masters later.sound)
        (fun _ _ loaded => .failed _ (later.trans loaded.later)) ?_
      intro found st'' loaded
      have whole := later.trans loaded.later
      cases found with
      | some secret => exact loaded.ready.after later
      | none =>
          refine andThen_kept (retryMint_kept (ih parentId) mintAttempts st'' whole.sound)
            (fun _ _ ready => .failed _ (whole.trans ready.later)) ?_
          intro minted last ready
          have wholeThen := whole.trans ready.later
          cases minted with
          | none => exact .absent wholeThen
          | some parent =>
              have hung : ParentAt last (some (parentId, parent)) := by
                rintro _ _ ⟨⟩
                exact ready.holds parent rfl
              -- The row that was judged at the start is still judged right.
              have lost := (loaded.stale later.sound).later ready.later
              exact (insertFresh_kept masters wholeThen.sound hung lost).mono
                fun _ _ inserted => inserted.after wholeThen

theorem mintSecretIn_kept (masters : MasterKeys) (id : Identity) (above : List Identity)
    (st : KeyState) (sound : st.Sound) :
    Kept (Ready st id) (Call.mintSecretIn masters (id :: above)) st :=
  retryMint_kept (tryMintIn_kept masters above id) mintAttempts st sound

end Minting

end Hekla.Keys
