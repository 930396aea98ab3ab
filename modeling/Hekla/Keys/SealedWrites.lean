import Hekla.Keys.CallSpecs

/-!
# Sealed writes that race

Any number of sealed writes are under way at once, one access at a time, among
erases and sweeps.  A write that has returned is readable as long as no erase
has hit what it rested on while it was under way, and none covers its subject
afterwards.
-/

namespace Hekla.Keys

open Hekla.Library Forest

/-- A sealed write that is under way. -/
structure Calling where
  chain : List Identity
  field : String
  plaintext : String
  rest : Call (Option Secret)

def Calling.answer (calling : Calling) : Except String (Option Secret) → Except String Ciphertext
  | .error message => .error message
  | .ok (some secret) => .ok (encryptWith secret calling.field calling.plaintext)
  | .ok none =>
      .error (named calling.chain ++
        " is being erased and recreated faster than a key can be minted for it")

structure Calls where
  keys : KeyState := {}
  calls : Table Nat Calling := ∅

inductive CallAct where
  | encrypt (call : Nat) (masters : MasterKeys) (chain : List Identity) (field plaintext : String)
  | access (call : Nat)
  | erase (id : Identity)
  | sweep (picked : List Identity)

namespace Calls

/-- Make the next access of a call; the call answers with its last. -/
def accessed (w : Calls) (call : Nat) : Option (Calls × Option (Except String Ciphertext)) :=
  match w.calls.get call with
  | none => none
  | some calling =>
      match calling.rest with
      | .done _ => none
      | .access request next =>
          let performed := request.perform w.keys
          match next performed.1 with
          | .done result =>
              some (⟨performed.2, w.calls.remove call⟩, some (calling.answer result))
          | .access later onwards =>
              some (⟨performed.2, w.calls.set call { calling with rest := .access later onwards }⟩,
                none)

def step (w : Calls) : CallAct → Option Calls
  | .encrypt call masters chain field plaintext =>
      match w.calls.get call with
      | some _ => none
      | none =>
          match Call.mintSecretIn masters chain with
          | .done _ => some w
          | .access request next =>
              some { w with
                calls := w.calls.set call ⟨chain, field, plaintext, .access request next⟩ }
  | .access call => (w.accessed call).map Prod.fst
  | .erase id => some { w with keys := (eraseSubject id w.keys).2 }
  | .sweep picked =>
      some { w with keys := { w.keys with rows := w.keys.rows.sweepOrphanSubjectKeys picked } }

/-- The access is the last of a call, which returns content sealed under the identity. -/
structure Returns (w : Calls) (call : Nat) (w' : Calls) (owner : Identity)
    (field plaintext : String) (ciphertext : Ciphertext) : Prop where
  last : w.accessed call = some (w', some (.ok ciphertext))
  calling : ∃ calling above, w.calls.get call = some calling ∧ calling.chain = owner :: above ∧
    calling.field = field ∧ calling.plaintext = plaintext

/-- An erase hits no row that the pending access of a call rests on. -/
def Clear (w : Calls) : CallAct → Prop
  | .erase id => id.1 ≠ globalSubject → ∀ call calling request next,
      w.calls.get call = some calling → calling.rest = .access request next →
        ¬request.RestsOn w.keys id
  | _ => True

/-- The step erases the identity, or one its row hangs from. -/
def Covers (owner : Identity) (w : Calls) : CallAct → Prop
  | .erase id => id.1 ≠ globalSubject ∧ Reaches w.keys.rows.forest owner id
  | _ => False

def Spares (owner : Identity) (w : Calls) (act : CallAct) : Prop := ¬Covers owner w act

/-! ## What a run keeps -/

/-- The sound states: every call will do its part. -/
structure Sound (w : Calls) : Prop where
  keys : w.keys.Sound
  calls : ∀ call calling, w.calls.get call = some calling →
    ∃ owner above request next start, calling.chain = owner :: above ∧
      calling.rest = .access request next ∧ Kept (Ready start owner) calling.rest w.keys

theorem sound_start : ({} : Calls).Sound where
  keys := KeyState.Sound.start
  calls call calling held := by
    rw [Table.get_empty] at held
    cases held

variable {w w' : Calls} {owner : Identity} {secret : Secret}

theorem plants_sound {st st' : KeyState} (sound : st.Sound) (plants : Plants st st') :
    st'.Sound := by
  induction plants with
  | refl => exact sound
  | tail _ mint ih =>
      obtain ⟨_, _, mint⟩ := mint
      exact mint.sound ih

theorem plants_holds {st st' : KeyState} (plants : Plants st st') (holds : Holds owner st secret) :
    Holds owner st' secret := by
  induction plants with
  | refl => exact holds
  | tail _ mint ih =>
      obtain ⟨_, _, mint⟩ := mint
      exact mint.intact ih.1 ih.2

/-- A mint leaves the row of every identity that is intact. -/
theorem plants_row {st st' : KeyState} {id : Identity} {row : SubjectKey} (plants : Plants st st')
    (intact : Intact st.rows.forest id) (held : st.rows.get id = some row) :
    Intact st'.rows.forest id ∧ st'.rows.get id = some row := by
  induction plants with
  | refl => exact ⟨intact, held⟩
  | tail _ mint ih =>
      obtain ⟨_, _, mint⟩ := mint
      obtain ⟨intact, held⟩ := ih
      refine ⟨(mint.intact intact (KeyTable.stands_of_get held)).1, ?_⟩
      cases mint with
      | draw drawn grows => exact held
      | plant planted row drawn named broken wraps fresh grows place =>
          rw [Table.get_set, if_neg]
          · exact held
          · rintro rfl
            exact broken intact

/-- What an access of a call does, and what the call goes on with. -/
theorem accessed_cases {call : Nat} {answer : Option (Except String Ciphertext)} (sound : w.Sound)
    (taken : w.accessed call = some (w', answer)) :
    Plants w.keys w'.keys ∧ ∃ calling owner above start, w.calls.get call = some calling ∧
      calling.chain = owner :: above ∧
      ((∃ result, w'.calls = w.calls.remove call ∧ answer = some (calling.answer result) ∧
          Ready start owner result w'.keys) ∨
        ∃ later onwards, answer = none ∧
          w'.calls = w.calls.set call { calling with rest := .access later onwards } ∧
          Kept (Ready start owner) (.access later onwards) w'.keys) := by
  unfold accessed at taken
  split at taken
  · cases taken
  · next calling found =>
      obtain ⟨owner, above, request, next, start, chain, pending, kept⟩ :=
        sound.calls call calling found
      rw [pending] at taken kept
      dsimp only at taken
      obtain ⟨plants, onwards⟩ := kept w.keys .refl
      split at taken
      · next result ended =>
          cases taken
          rw [ended] at onwards
          exact ⟨plants, calling, owner, above, start, found, chain, .inl ⟨result, rfl, rfl, onwards⟩⟩
      · next later rest pendingThen =>
          cases taken
          rw [pendingThen] at onwards
          exact ⟨plants, calling, owner, above, start, found, chain,
            .inr ⟨later, rest, rfl, rfl, onwards⟩⟩

/-- A change every pending access allows leaves the calls sound. -/
theorem Sound.interfere {keys : KeyState} (sound : w.Sound) (soundThen : keys.Sound)
    (allowed : ∀ call calling request next, w.calls.get call = some calling →
      calling.rest = .access request next →
        Relation.ReflTransGen request.Allows w.keys keys) :
    ({ w with keys } : Calls).Sound where
  keys := soundThen
  calls call calling found := by
    obtain ⟨owner, above, request, next, start, chain, pending, kept⟩ :=
      sound.calls call calling found
    refine ⟨owner, above, request, next, start, chain, pending, ?_⟩
    have others := allowed call calling request next found pending
    rw [pending] at kept ⊢
    exact kept.interfere others

/-- One step of a race. -/
theorem Sound.step {act : CallAct} (sound : w.Sound) (clear : w.Clear act)
    (taken : w.step act = some w') : w'.Sound := by
  cases act with
  | encrypt call masters chain field plaintext =>
      simp only [Calls.step] at taken
      split at taken
      · cases taken
      · split at taken
        · cases taken
          exact sound
        · next request next program =>
            cases taken
            refine ⟨sound.keys, ?_⟩
            intro other calling found
            dsimp only at found
            rw [Table.get_set] at found
            split at found
            · cases found
              cases chain with
              | nil => cases program
              | cons owner above =>
                  refine ⟨owner, above, request, next, w.keys, rfl, rfl, ?_⟩
                  dsimp only
                  rw [← program]
                  exact mintSecretIn_kept masters owner above w.keys sound.keys
            · exact sound.calls other calling found
  | access call =>
      obtain ⟨⟨next, answer⟩, accessed, rfl⟩ := Option.map_eq_some_iff.mp taken
      obtain ⟨plants, calling, owner, above, start, found, chain, ended | going⟩ :=
        accessed_cases sound accessed
      · obtain ⟨result, calls, -, -⟩ := ended
        have others := sound.interfere (plants_sound sound.keys plants)
          fun _ _ request _ _ _ => plants.interference request
        refine ⟨others.keys, ?_⟩
        intro other later there
        dsimp only at there
        rw [calls, Table.get_remove] at there
        split at there
        · cases there
        · exact others.calls other later there
      · obtain ⟨request, onwards, -, calls, kept⟩ := going
        have others := sound.interfere (plants_sound sound.keys plants)
          fun _ _ request _ _ _ => plants.interference request
        refine ⟨others.keys, ?_⟩
        intro other later there
        dsimp only at there
        rw [calls, Table.get_set] at there
        split at there
        · cases there
          exact ⟨owner, above, request, onwards, start, chain, rfl, kept⟩
        · exact others.calls other later there
  | erase id =>
      cases taken
      refine sound.interfere (Preserves.erase sound.keys id).sound ?_
      intro call calling request next found pending
      exact .single (.erase w.keys id fun erasable =>
        clear erasable call calling request next found pending)
  | sweep picked =>
      cases taken
      exact sound.interfere (Preserves.sweep sound.keys picked).sound
        fun _ _ _ _ _ _ => .single (.sweep w.keys picked)

/-- What is sealed stays readable through a step that does not cover it. -/
theorem holds_of_step {act : CallAct} (sound : w.Sound) (spared : Spares owner w act)
    (taken : w.step act = some w') (holds : Holds owner w.keys secret) :
    Holds owner w'.keys secret := by
  cases act with
  | encrypt call masters chain field plaintext =>
      simp only [step] at taken
      split at taken
      · cases taken
      · split at taken <;> cases taken <;> exact holds
  | access call =>
      obtain ⟨⟨next, answer⟩, accessed, rfl⟩ := Option.map_eq_some_iff.mp taken
      exact plants_holds (accessed_cases sound accessed).1 holds
  | erase id =>
      cases taken
      exact (Preserves.erase sound.keys id).holds owner secret spared holds
  | sweep picked =>
      cases taken
      exact (Preserves.sweep sound.keys picked).holds owner secret trivial holds

theorem holds_of_run {acts : List CallAct} (sound : w.Sound) (clear : Guarded step Clear w acts)
    (spared : Guarded step (Spares owner) w acts) (ran : run step w acts = some w')
    (holds : Holds owner w.keys secret) : w'.Sound ∧ Holds owner w'.keys secret := by
  induction acts generalizing w with
  | nil =>
      cases ran
      exact ⟨sound, holds⟩
  | cons act rest ih =>
      obtain ⟨next, taken, ranOn⟩ := run_cons.mp ran
      obtain ⟨clearHere, clearLater⟩ := Guarded.cons clear
      obtain ⟨sparedHere, sparedLater⟩ := Guarded.cons spared
      exact ih (sound.step clearHere taken) (clearLater next taken) (sparedLater next taken) ranOn
        (holds_of_step sound sparedHere taken holds)

theorem sound_of_run {acts : List CallAct} (sound : w.Sound) (clear : Guarded step Clear w acts)
    (ran : run step w acts = some w') : w'.Sound :=
  run_invariant_of_guarded Sound (fun _ _ _ sound clear taken => sound.step clear taken)
    sound clear ran

theorem Returns.taken {call : Nat} {field plaintext : String} {ciphertext : Ciphertext}
    (returns : Returns w call w' owner field plaintext ciphertext) :
    w.step (.access call) = some w' :=
  congrArg (Option.map Prod.fst) returns.last

/-- A call returns content under the secret its subject's row holds then. -/
theorem Returns.holds {call : Nat} {field plaintext : String} {ciphertext : Ciphertext}
    (returns : Returns w call w' owner field plaintext ciphertext) (sound : w.Sound) :
    w'.Sound ∧ ciphertext = encryptWith ciphertext.key field plaintext ∧
      Holds owner w'.keys ciphertext.key := by
  have clear : w.Clear (.access call) := trivial
  refine ⟨sound.step clear returns.taken, ?_⟩
  obtain ⟨calling, above, held, chain, field, plaintext⟩ := returns.calling
  obtain ⟨-, found, other, others, start, there, chainThere, ended | going⟩ :=
    accessed_cases sound returns.last
  · rw [held] at there
    cases there
    rw [chain] at chainThere
    cases chainThere
    obtain ⟨result, -, answer, ready⟩ := ended
    have answered : Except.ok ciphertext = calling.answer result := Option.some.inj answer
    unfold Calling.answer at answered
    split at answered
    · cases answered
    · next secret =>
        cases answered
        rw [← field, ← plaintext]
        exact ⟨rfl, ready.holds secret rfl⟩
    · cases answered
  · obtain ⟨_, _, never, -⟩ := going
    cases never

/-- No step but an erase replaces or deletes the row of an identity that opens. -/
theorem row_kept {act : CallAct} {id : Identity} {row : SubjectKey} (sound : w.Sound)
    (apart : ∀ erased, act ≠ .erase erased) (taken : w.step act = some w')
    (intact : Intact w.keys.rows.forest id) (held : w.keys.rows.get id = some row) :
    w'.keys.rows.get id = some row := by
  cases act with
  | encrypt call masters chain field plaintext =>
      simp only [step] at taken
      split at taken
      · cases taken
      · split at taken <;> cases taken <;> exact held
  | access call =>
      obtain ⟨⟨next, answer⟩, accessed, rfl⟩ := Option.map_eq_some_iff.mp taken
      exact (plants_row (accessed_cases sound accessed).1 intact held).2
  | erase erased => exact absurd rfl (apart erased)
  | sweep picked =>
      cases taken
      refine (sweep_get_of_linked fun row held => not_orphan fun ref hung => ?_).trans held
      exact (KeyTable.intact_parent intact held hung).2

/-- In every run whose erases hit nothing a write under way rests on, what a
write returns is readable until an erase covers its subject; until then every
other write of the subject returns content under the same secret; and no row
that opens is ever replaced or swept. -/
theorem sealed_write_readable {before after : List CallAct} {final : Calls} {call : Nat}
    {field plaintext : String} {ciphertext : Ciphertext}
    (ran : run step {} before = some w) (clear : Guarded step Clear {} before)
    (returns : Returns w call w' owner field plaintext ciphertext)
    (later : run step w' after = some final) (clearLater : Guarded step Clear w' after) :
    (Guarded step (Spares owner) w' after →
        (∀ masters, verifyMastersPresent masters final.keys.rows = true →
          Within final.keys.rows.forest (maxSubjectDepth + 1) owner →
            decryptSubject masters final.keys.rows owner field ciphertext =
              .ok (some plaintext)) ∧
          ∀ other last field' plaintext' ciphertext',
            Returns final other last owner field' plaintext' ciphertext' →
              ciphertext'.key = ciphertext.key ∧
                Stands last.keys.rows.forest owner ciphertext.key) ∧
      ∀ act next id row, (∀ erased, act ≠ .erase erased) → final.step act = some next →
        Intact final.keys.rows.forest id → final.keys.rows.get id = some row →
          next.keys.rows.get id = some row := by
  have sound := sound_of_run sound_start clear ran
  obtain ⟨soundThen, sealed, holds⟩ := returns.holds sound
  have soundFinal := sound_of_run soundThen clearLater later
  refine ⟨?_, fun act next id row => row_kept soundFinal⟩
  intro spared
  obtain ⟨-, intact, stands⟩ := holds_of_run soundThen clearLater spared later holds
  refine ⟨?_, ?_⟩
  · intro masters verified within
    rw [sealed]
    exact decryptSubject_of_intact soundFinal.keys verified within intact stands
  · intro other last field' plaintext' ciphertext' returned
    obtain ⟨-, -, -, standsOther⟩ := returned.holds soundFinal
    have spares : Spares owner final (.access other) := fun covers => covers.elim
    obtain ⟨-, standsLast⟩ := holds_of_step soundFinal spares returned.taken ⟨intact, stands⟩
    exact ⟨KeyTable.stands_unique standsOther standsLast, standsLast⟩

/-- Two writes for one customer of a shop, each from the first read to the last
access but one; the shop is erased while neither has read it. -/
def sideBySide : List CallAct :=
  [.encrypt 0 KeyOp.oneMaster [KeyOp.customer, KeyOp.shop] "email" "a@b.c",
    .encrypt 1 KeyOp.oneMaster [KeyOp.customer, KeyOp.shop] "phone" "555",
    .access 0, .access 1, .access 0, .erase KeyOp.shop, .access 0, .access 1]

/-- The shop is erased between its own insert and its customer's. -/
def erasedBetween : List CallAct :=
  [.encrypt 0 KeyOp.oneMaster [KeyOp.customer, KeyOp.shop] "email" "a@b.c",
    .access 0, .access 0, .access 0, .erase KeyOp.shop]

/-- An erase while no pending access has anything in hand. -/
def unhit (w : Calls) : CallAct → Bool
  | .erase _ =>
      !w.calls.any fun _ calling =>
        match calling.rest with
        | .done _ | .access (.get [] _) _ | .access (.insert _ _ _ none) _ => false
        | _ => true
  | _ => true

theorem clear_of_unhit {act : CallAct} (unhit : w.unhit act = true) : w.Clear act := by
  cases act with
  | encrypt | access | sweep => trivial
  | erase id =>
      rintro - call calling request next found pending rests
      unfold Calls.unhit at unhit
      rw [Bool.not_eq_true', Bool.eq_false_iff] at unhit
      refine unhit ((Table.any_eq_true _ _).mpr ⟨call, calling, found, ?_⟩)
      rw [pending]
      match request, rests with
      | .get (_ :: _) _, _ => rfl
      | .insert _ _ _ (some _), _ => rfl

/-- The state a call leaves when it returns the content, sealed under the identity. -/
def returned (w : Calls) (call : Nat) (owner : Identity) (field plaintext : String)
    (ciphertext : Ciphertext) : Option Calls :=
  match w.accessed call, w.calls.get call with
  | some (w', some (.ok sealed)), some calling =>
      if sealed = ciphertext ∧ calling.chain.head? = some owner ∧ calling.field = field ∧
          calling.plaintext = plaintext then some w'
      else none
  | _, _ => none

theorem returns_of_returned {call : Nat} {field plaintext : String} {ciphertext : Ciphertext}
    (returned : w.returned call owner field plaintext ciphertext = some w') :
    Returns w call w' owner field plaintext ciphertext := by
  unfold Calls.returned at returned
  split at returned
  · next next sealed calling last found =>
      split at returned
      · next same =>
          obtain ⟨rfl, head, field, plaintext⟩ := same
          cases returned
          obtain ⟨above, chain⟩ := List.head?_eq_some_iff.mp head
          exact ⟨last, calling, above, found, chain, field, plaintext⟩
      · cases returned
  · cases returned

theorem sealed_write_readable_of_sideBySide :
    ∃ w w' last, run step {} sideBySide = some w ∧
      Returns w 0 w' KeyOp.customer "email" "a@b.c" (encryptWith 2 "email" "a@b.c") ∧
      Returns w' 1 last KeyOp.customer "phone" "555" (encryptWith 2 "phone" "555") ∧
      Stands last.keys.rows.forest KeyOp.customer 2 := by
  have ended : (run step {} sideBySide).any (fun w =>
      (w.returned 0 KeyOp.customer "email" "a@b.c" (encryptWith 2 "email" "a@b.c")).any fun w' =>
        (w'.returned 1 KeyOp.customer "phone" "555" (encryptWith 2 "phone" "555")).isSome) =
      true := by
    decide
  obtain ⟨w, ran, held⟩ := (Option.any_eq_true _ _).mp ended
  obtain ⟨w', first, then_returned⟩ := (Option.any_eq_true _ _).mp held
  obtain ⟨last, second⟩ := Option.isSome_iff_exists.mp then_returned
  have unhits : Guarded step (fun w act => unhit w act = true) {} sideBySide := by decide
  have clear := Guarded.imp (fun _ _ => clear_of_unhit) unhits
  have later : run step w' [] = some w' := rfl
  have clearLater : Guarded step Clear w' [] := trivial
  have readable := sealed_write_readable ran clear (returns_of_returned first) later clearLater
  have again := (readable.1 trivial).2 1 last "phone" "555" _ (returns_of_returned second)
  exact ⟨w, w', last, ran, returns_of_returned first, returns_of_returned second, again.2⟩

/-- The write returns though the shop has gone, and what it returns reads as erased. -/
theorem sealed_write_unreadable :
    ∃ w w', run step {} erasedBetween = some w ∧
      Returns w 0 w' KeyOp.customer "email" "a@b.c" (encryptWith 2 "email" "a@b.c") ∧
      decryptSubject KeyOp.oneMaster w'.keys.rows KeyOp.customer "email"
        (encryptWith 2 "email" "a@b.c") = .ok none := by
  have ended : (run step {} erasedBetween).any (fun w =>
      (w.returned 0 KeyOp.customer "email" "a@b.c" (encryptWith 2 "email" "a@b.c")).any fun w' =>
        decide (decryptSubject KeyOp.oneMaster w'.keys.rows KeyOp.customer "email"
          (encryptWith 2 "email" "a@b.c") = .ok none)) = true := by
    decide
  obtain ⟨w, ran, held⟩ := (Option.any_eq_true _ _).mp ended
  obtain ⟨w', first, read⟩ := (Option.any_eq_true _ _).mp held
  exact ⟨w, w', ran, returns_of_returned first, of_decide_eq_true read⟩

end Calls

end Hekla.Keys
