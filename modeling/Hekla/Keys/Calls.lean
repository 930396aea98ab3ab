import Hekla.Keys.Store
import Hekla.Library.Access

/-!
# Sealed writes, access by access

A sealed write takes the store's lock for one row at a time.  Here it is the
program of those accesses: every read on the way up the parents, and the insert
of each row it mints.  Run by itself, it is the mint of the store.
-/

namespace Hekla.Keys

open Hekla.Library

/-! ## Accesses -/

/-- One access to the store, with what is in hand while it is made: the rows a walk
up the parents is opening, or the parent a row is about to be wrapped under. -/
inductive KeyAccess where
  | get (opening : List (Identity × SubjectKey)) (id : Identity)
  | insert (masters : MasterKeys) (id : Identity) (stale : Option SubjectKey)
      (parent : Option (Identity × Secret))

namespace KeyAccess

abbrev Answer : KeyAccess → Type
  | .get _ _ => Option SubjectKey
  | .insert _ _ _ _ => SubjectKey

/-- The access itself, under the lock.  An insert draws the row it inserts. -/
def perform : (request : KeyAccess) → KeyState → request.Answer × KeyState
  | .get _ id, st => (st.rows.get id, st)
  | .insert masters id stale parent, st =>
      let (fresh, st) := st.candidate masters id parent
      let (rows, persisted) := st.rows.getOrInsertSubjectKey id fresh stale
      (persisted, { st with rows })

end KeyAccess

/-- A call of the store: what is left of its accesses. -/
abbrev Call (α : Type) := Prog KeyAccess KeyAccess.Answer (Except String α)

namespace Call

def andThen {α β : Type} (call : Call α) (rest : α → Call β) : Call β :=
  call.bind fun
    | .error message => .done (.error message)
    | .ok result => rest result

/-- Open a row that has been read, with the rows that wait for it to be opened. -/
def openRow (masters : MasterKeys)
    (load : List (Identity × SubjectKey) → Identity → Call (Option Secret))
    (opening : List (Identity × SubjectKey)) (id : Identity) (row : SubjectKey) :
    Call (Option Secret) :=
  match row.wrapping with
  | .master master =>
      .done <|
        match masters.masterFor master id.1 with
        | .error message => .error message
        | .ok key => (unwrapKeyUnder key row.wrapped []).map some
  | .parent ref =>
      (load ((id, row) :: opening) ref.identity).andThen fun
        | none => .done (.ok none)
        | some parent =>
            .done <|
              -- The generation first: a row of an earlier one reads as erased.
              if ref.fingerprint ≠ parentFingerprint parent then .ok none
              else (unwrapKeyUnder (childKek parent) row.wrapped (childAad id ref.identity)).map some

/-- Walk up the parents, a read a level. -/
def loadSecretAt (masters : MasterKeys) :
    Nat → List (Identity × SubjectKey) → Identity → Call (Option Secret)
  | 0, _, id =>
      .done (.error (s!"subject `{id.1}` is more than {maxSubjectDepth} levels deep, which a " ++
        "declared hierarchy cannot be: the key store has a cycle in its parent pointers"))
  | levels + 1, opening, id =>
      .access (.get opening id) fun
        | none => .done (.ok none)
        | some row => openRow masters (loadSecretAt masters levels) opening id row

def loadSecret (masters : MasterKeys) (id : Identity) : Call (Option Secret) :=
  loadSecretAt masters (maxSubjectDepth + 1) [] id

/-- Look again while an attempt ends with nothing to return. -/
def retryMint (attempt : Call (Option Secret)) : Nat → Call (Option Secret)
  | 0 => .done (.ok none)
  | attempts + 1 =>
      attempt.andThen fun
        | some secret => .done (.ok (some secret))
        | none => retryMint attempt attempts

/-- The secret in the row that was read, if there was one and it opens. -/
def openExisting (masters : MasterKeys) (id : Identity) :
    Option SubjectKey → Call (Option Secret)
  | none => .done (.ok none)
  | some row => openRow masters (loadSecretAt masters maxSubjectDepth) [] id row

/-- Open the row that persisted, with the parent's secret where it is its own. -/
def openPersisted (masters : MasterKeys) (id : Identity) (row : SubjectKey)
    (parent : Option (Identity × Secret)) : Call (Option Secret) :=
  match row.wrapping, parent with
  | .master master, _ =>
      .done <|
        match masters.masterFor master id.1 with
        | .error message => .error message
        | .ok key => (unwrapKeyUnder key row.wrapped []).map some
  | .parent ref, some (parentId, secret) =>
      if ref.identity = parentId ∧ ref.fingerprint = parentFingerprint secret then
        .done ((unwrapKeyUnder (childKek secret) row.wrapped (childAad id ref.identity)).map some)
      else loadSecret masters id
  | .parent _, none => loadSecret masters id

/-- Insert a fresh row in the place of the one that was read, and use whichever persists. -/
def insertFresh (masters : MasterKeys) (id : Identity) (stale : Option SubjectKey)
    (parent : Option (Identity × Secret)) : Call (Option Secret) :=
  .access (.insert masters id stale parent) fun persisted =>
    openPersisted masters id persisted parent

def tryMintIn (masters : MasterKeys) : List Identity → Call (Option Secret)
  | [] => .done (.error "a subject chain cannot be empty")
  | [id] =>
      -- One read: the row that is judged is the row that is replaced.
      .access (.get [] id) fun existing =>
        (openExisting masters id existing).andThen fun
          | some secret => .done (.ok (some secret))
          | none => insertFresh masters id existing none
  | id :: parentId :: above =>
      .access (.get [] id) fun existing =>
        (openExisting masters id existing).andThen fun
          | some secret => .done (.ok (some secret))
          | none =>
              (retryMint (tryMintIn masters (parentId :: above)) mintAttempts).andThen fun
                | none => .done (.ok none)
                | some parent => insertFresh masters id existing (some (parentId, parent))

def mintSecretIn (masters : MasterKeys) (chain : List Identity) : Call (Option Secret) :=
  retryMint (tryMintIn masters chain) mintAttempts

/-! ## Run by itself -/

/-- What a call does to a store it has to itself. -/
abbrev alone {α : Type} (call : Call α) (st : KeyState) : Except String α × KeyState :=
  Prog.alone KeyAccess.perform call st

theorem alone_andThen {α β : Type} (call : Call α) (rest : α → Call β) (st : KeyState) :
    (call.andThen rest).alone st =
      match call.alone st with
      | (.error message, st) => (.error message, st)
      | (.ok result, st) => (rest result).alone st := by
  unfold alone andThen
  rw [Prog.alone_bind]
  rcases Prog.alone KeyAccess.perform call st with ⟨failed | result, after⟩ <;> rfl

theorem openRow_alone {masters : MasterKeys} {opening : List (Identity × SubjectKey)}
    {load : List (Identity × SubjectKey) → Identity → Call (Option Secret)} {st : KeyState}
    {loads : Identity → Except String (Option Secret)}
    (same : ∀ opening id, (load opening id).alone st = (loads id, st)) (id : Identity)
    (row : SubjectKey) :
    (openRow masters load opening id row).alone st = (Keys.openRow masters loads id row, st) := by
  unfold openRow Keys.openRow
  cases row.wrapping with
  | master master => rfl
  | parent ref =>
      dsimp only
      rw [alone_andThen, same]
      rcases loads ref.identity with message | found
      · rfl
      · cases found with
        | none => rfl
        | some parent => rfl

theorem loadSecretAt_alone (masters : MasterKeys) (levels : Nat)
    (opening : List (Identity × SubjectKey)) (id : Identity) (st : KeyState) :
    (loadSecretAt masters levels opening id).alone st =
      (Keys.loadSecretAt masters st.rows levels id, st) := by
  induction levels generalizing opening id with
  | zero => rfl
  | succ levels ih =>
      simp only [loadSecretAt, Keys.loadSecretAt, alone, Prog.alone, KeyAccess.perform]
      cases st.rows.get id with
      | none => rfl
      | some row => exact openRow_alone ih id row

theorem openExisting_alone (masters : MasterKeys) (id : Identity) (existing : Option SubjectKey)
    (st : KeyState) :
    (openExisting masters id existing).alone st = (st.openExisting masters id existing, st) := by
  cases existing with
  | none => rfl
  | some row =>
      exact openRow_alone (fun opening id => loadSecretAt_alone masters _ opening id st) id row

theorem openPersisted_alone (masters : MasterKeys) (id : Identity) (row : SubjectKey)
    (parent : Option (Identity × Secret)) (st : KeyState) :
    (openPersisted masters id row parent).alone st =
      (st.openPersisted masters id row parent, st) := by
  unfold openPersisted KeyState.openPersisted
  cases row.wrapping with
  | master master => rfl
  | parent ref =>
      cases parent with
      | none => exact loadSecretAt_alone masters _ [] id st
      | some link =>
          obtain ⟨parentId, secret⟩ := link
          dsimp only
          split
          · rfl
          · exact loadSecretAt_alone masters _ [] id st

theorem insertFresh_alone (masters : MasterKeys) (id : Identity) (stale : Option SubjectKey)
    (parent : Option (Identity × Secret)) (st : KeyState) :
    (insertFresh masters id stale parent).alone st = st.insertFresh masters id stale parent :=
  openPersisted_alone masters id _ parent _

theorem retryMint_alone {attempt : Call (Option Secret)}
    {own : KeyState → Except String (Option Secret) × KeyState}
    (same : ∀ st, attempt.alone st = own st) (attempts : Nat) (st : KeyState) :
    (retryMint attempt attempts).alone st = Keys.retryMint own attempts st := by
  induction attempts generalizing st with
  | zero => rfl
  | succ attempts ih =>
      unfold retryMint Keys.retryMint
      rw [alone_andThen, same]
      rcases own st with ⟨message | found, after⟩
      · rfl
      · cases found with
        | none => exact ih after
        | some secret => rfl

theorem get_alone {α : Type} (opening : List (Identity × SubjectKey)) (id : Identity)
    (next : Option SubjectKey → Call α) (st : KeyState) :
    alone (.access (.get opening id) next) st = (next (st.rows.get id)).alone st := rfl

theorem tryMintIn_alone (masters : MasterKeys) (chain : List Identity) (st : KeyState) :
    (tryMintIn masters chain).alone st = Keys.tryMintIn masters chain st := by
  induction chain generalizing st with
  | nil => rfl
  | cons id above ih =>
      cases above with
      | nil =>
          unfold tryMintIn Keys.tryMintIn
          rw [get_alone, alone_andThen, openExisting_alone]
          dsimp only
          rcases st.openExisting masters id (st.rows.get id) with message | found
          · rfl
          · cases found with
            | none => exact insertFresh_alone masters id _ none st
            | some secret => rfl
      | cons parentId above =>
          unfold tryMintIn Keys.tryMintIn
          rw [get_alone, alone_andThen, openExisting_alone]
          dsimp only
          rcases st.openExisting masters id (st.rows.get id) with message | found
          · rfl
          · cases found with
            | some secret => rfl
            | none =>
                dsimp only
                rw [alone_andThen, retryMint_alone ih]
                rcases Keys.retryMint (Keys.tryMintIn masters (parentId :: above)) mintAttempts st
                  with ⟨message | found, after⟩
                · rfl
                · cases found with
                  | none => rfl
                  | some parent => exact insertFresh_alone masters id _ _ after

/-- A mint that nothing interferes with is the store's own. -/
theorem mintSecretIn_alone (masters : MasterKeys) (chain : List Identity) (st : KeyState) :
    (mintSecretIn masters chain).alone st = Keys.mintSecretIn masters chain st :=
  retryMint_alone (tryMintIn_alone masters chain) mintAttempts st

end Call

end Hekla.Keys
