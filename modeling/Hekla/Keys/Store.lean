import Hekla.Library.Sealing
import Hekla.Library.Table

/-!
# The key store

A subject's content is sealed under a secret of its own.  The secret is kept in
one row, wrapped under a master key or under the secret of another subject, and
erasing the subject is deleting the row.

Sealing is ideal: a box opens with its own key and associated data alone, and
what is drawn from the entropy source was not drawn before.  A master key is
named by the digest of its bytes, and stands for them.
-/

namespace Hekla.Keys

open Hekla.Library

/-! ## Rows -/

/-- A subject and the id of one of its members. -/
abbrev Identity := String × String

/-- The subject of the secret that is never deleted. -/
def globalSubject : String := "_hekla_global"

/-- A random key of a subject, by its draw. -/
abbrev Secret := Nat

/-- What a secret is wrapped under: a master, or a key derived from a parent's secret. -/
inductive WrappingKey where
  | master (id : String)
  | child (parent : Secret)
  deriving DecidableEq

/-- The digest of a parent's secret. -/
structure Fingerprint where
  preimage : Secret
  deriving DecidableEq

/-- A nonce and what was encrypted under it. -/
structure Wrapped where
  nonce : Nat
  box : Box WrappingKey (List String) Secret
  deriving DecidableEq

structure ParentRef where
  identity : Identity
  fingerprint : Fingerprint
  deriving DecidableEq

/-- How a row is wrapped; the table's check leaves no third way. -/
inductive Wrapping where
  | master (id : String)
  | parent (ref : ParentRef)
  deriving DecidableEq

structure SubjectKey where
  wrapped : Wrapped
  wrapping : Wrapping
  deriving DecidableEq

abbrev KeyTable := Table Identity SubjectKey

structure MasterKeys where
  primary : String
  previous : List String := []

namespace MasterKeys

def holds (masters : MasterKeys) (id : String) : Bool :=
  id == masters.primary || masters.previous.contains id

def masterFor (masters : MasterKeys) (id subject : String) : Except String WrappingKey :=
  if masters.holds id then .ok (.master id)
  else .error (s!"cannot unwrap subject `{subject}`: master key `{id}` is not configured " ++
    "(was HEKLA_MASTER_KEY rotated away without keeping the previous key?)")

end MasterKeys

/-- The rows, and how much has been drawn from the entropy source. -/
structure KeyState where
  rows : KeyTable := ∅
  entropy : Nat := 0

/-! ## Sealing -/

def childKek (parent : Secret) : WrappingKey := .child parent

def parentFingerprint (parent : Secret) : Fingerprint := ⟨parent⟩

/-- The data a child's wrapping binds: both identities, length-prefixed. -/
def childAad (child parent : Identity) : List String := [child.1, child.2, parent.1, parent.2]

def unwrapKeyUnder (key : WrappingKey) (wrapped : Wrapped) (aad : List String) :
    Except String Secret :=
  match wrapped.box.openWith key aad with
  | some secret => .ok secret
  | none => .error "unwrapping a subject key failed (wrong key?)"

namespace KeyState

def randomSecret (st : KeyState) : Secret × KeyState :=
  (st.entropy, { st with entropy := st.entropy + 1 })

def wrapKeyUnder (st : KeyState) (key : WrappingKey) (secret : Secret) (aad : List String) :
    Wrapped × KeyState :=
  (⟨st.entropy, ⟨key, aad, secret⟩⟩, { st with entropy := st.entropy + 1 })

end KeyState

/-- A field's content under a subject's secret. -/
abbrev Ciphertext := Box Secret String String

def encryptWith (secret : Secret) (field plaintext : String) : Ciphertext :=
  ⟨secret, field, plaintext⟩

def plaintextUnder (secret : Secret) (field : String) (ciphertext : Ciphertext) : Option String :=
  ciphertext.openWith secret field

/-! ## The table of rows -/

namespace KeyTable

variable (rows : KeyTable)

/-- Insert a row unless there is one, and answer with the row there is.  A row
the caller means to replace goes first, if it still has the bytes the caller read. -/
def getOrInsertSubjectKey (id : Identity) (candidate : SubjectKey)
    (replacing : Option SubjectKey) : KeyTable × SubjectKey :=
  match rows.get id with
  | none => (rows.set id candidate, candidate)
  | some row =>
      match replacing with
      | none => (rows, row)
      | some stale =>
          if row.wrapped = stale.wrapped then (rows.set id candidate, candidate) else (rows, row)

/-- A child's row whose parent has none. -/
def isOrphan (row : SubjectKey) : Bool :=
  match row.wrapping with
  | .master _ => false
  | .parent ref => (rows.get ref.identity).isNone

/-- Delete orphans.  Which ones a limit leaves is the database's choice, `picked`. -/
def sweepOrphanSubjectKeys (picked : List Identity) : KeyTable :=
  rows.retain fun id row => !(picked.contains id && isOrphan rows row)

/-- Every root: its identity, its wrapped key and its master. -/
def allSubjectKeys : List (Identity × Wrapped × String) :=
  rows.entries.filterMap fun entry =>
    match entry.2.wrapping with
    | .master id => some (entry.1, entry.2.wrapped, id)
    | .parent _ => none

/-- Every master named by a row. -/
def distinctMasterKeyIds : List String := (rows.allSubjectKeys.map fun row => row.2.2).dedup

end KeyTable

/-- One row a rotation means to write, and the master it read the row under. -/
structure RewrapUpdate where
  id : Identity
  wrapped : Wrapped
  master : String
  expected : String

namespace KeyTable

variable (rows : KeyTable)

/-- Write one row of a rotation, if it is under the master it was read under. -/
def rewrapSubjectKey (update : RewrapUpdate) : KeyTable × Nat :=
  match rows.get update.id with
  | some row =>
      if row.wrapping = .master update.expected then
        (rows.set update.id ⟨update.wrapped, .master update.master⟩, 1)
      else (rows, 0)
  | none => (rows, 0)

def rewrapSubjectKeys : KeyTable → List RewrapUpdate → KeyTable × Nat
  | rows, [] => (rows, 0)
  | rows, update :: rest =>
      let first := rewrapSubjectKey rows update
      let others := rewrapSubjectKeys first.1 rest
      (others.1, first.2 + others.2)

/-- Write a row of given bytes over, and tell whether it was there. -/
def compareAndSet (id : Identity) (expected : Wrapped) (row : SubjectKey) : KeyTable × Bool :=
  match rows.get id with
  | some held => if held.wrapped = expected then (rows.set id row, true) else (rows, false)
  | none => (rows, false)

/-- Move a root under a parent, if it has the bytes that were read. -/
def adoptSubjectKey (id : Identity) (wrapped : Wrapped) (ref : ParentRef) (expected : Wrapped) :
    KeyTable × Bool :=
  rows.compareAndSet id expected ⟨wrapped, .parent ref⟩

/-- Put an adopted row back under a master, if it has the bytes the adoption wrote. -/
def restoreRoot (id : Identity) (wrapped : Wrapped) (master : String) (expected : Wrapped) :
    KeyTable × Bool :=
  rows.compareAndSet id expected ⟨wrapped, .master master⟩

end KeyTable

/-! ## Loading a secret -/

/-- How far a walk up the parents goes. -/
def maxSubjectDepth : Nat := 32

/-- Open a row that has been read; `load` finds the secret of its parent. -/
def openRow (masters : MasterKeys) (load : Identity → Except String (Option Secret))
    (id : Identity) (row : SubjectKey) : Except String (Option Secret) :=
  match row.wrapping with
  | .master master =>
      match masters.masterFor master id.1 with
      | .error message => .error message
      | .ok key => (unwrapKeyUnder key row.wrapped []).map some
  | .parent ref =>
      match load ref.identity with
      | .error message => .error message
      | .ok none => .ok none
      | .ok (some parent) =>
          -- The generation first: a row of an earlier one reads as erased.
          if ref.fingerprint ≠ parentFingerprint parent then .ok none
          else (unwrapKeyUnder (childKek parent) row.wrapped (childAad id ref.identity)).map some

/-- Walk up the parents, so many levels at most. -/
def loadSecretAt (masters : MasterKeys) (rows : KeyTable) :
    Nat → Identity → Except String (Option Secret)
  | 0, id => .error (s!"subject `{id.1}` is more than {maxSubjectDepth} levels deep, which a " ++
      "declared hierarchy cannot be: the key store has a cycle in its parent pointers")
  | levels + 1, id =>
      match rows.get id with
      | none => .ok none
      | some row => openRow masters (loadSecretAt masters rows levels) id row

def loadSecret (masters : MasterKeys) (rows : KeyTable) (id : Identity) :
    Except String (Option Secret) :=
  loadSecretAt masters rows (maxSubjectDepth + 1) id

/-- Whether every master a row names is configured, which a boot makes sure of. -/
def verifyMastersPresent (masters : MasterKeys) (rows : KeyTable) : Bool :=
  rows.distinctMasterKeyIds.all masters.holds

/-! ## Minting -/

/-- How often a mint looks again. -/
def mintAttempts : Nat := 32

/-- Look again while an attempt ends with nothing to return. -/
def retryMint (attempt : KeyState → Except String (Option Secret) × KeyState) :
    Nat → KeyState → Except String (Option Secret) × KeyState
  | 0, st => (.ok none, st)
  | attempts + 1, st =>
      match attempt st with
      | (.error message, st) => (.error message, st)
      | (.ok (some secret), st) => (.ok (some secret), st)
      | (.ok none, st) => retryMint attempt attempts st

namespace KeyState

/-- A fresh row, under the primary or under a parent whose secret is at hand. -/
def candidate (st : KeyState) (masters : MasterKeys) (id : Identity) :
    Option (Identity × Secret) → SubjectKey × KeyState
  | none =>
      let (fresh, st) := st.randomSecret
      let (wrapped, st) := st.wrapKeyUnder (.master masters.primary) fresh []
      (⟨wrapped, .master masters.primary⟩, st)
  | some (parentId, parent) =>
      let (fresh, st) := st.randomSecret
      let (wrapped, st) := st.wrapKeyUnder (childKek parent) fresh (childAad id parentId)
      (⟨wrapped, .parent ⟨parentId, parentFingerprint parent⟩⟩, st)

/-- Open the row that persisted, with the parent's secret where it is its own. -/
def openPersisted (st : KeyState) (masters : MasterKeys) (id : Identity) (row : SubjectKey)
    (parent : Option (Identity × Secret)) : Except String (Option Secret) :=
  match row.wrapping, parent with
  | .master master, _ =>
      match masters.masterFor master id.1 with
      | .error message => .error message
      | .ok key => (unwrapKeyUnder key row.wrapped []).map some
  | .parent ref, some (parentId, secret) =>
      if ref.identity = parentId ∧ ref.fingerprint = parentFingerprint secret then
        (unwrapKeyUnder (childKek secret) row.wrapped (childAad id ref.identity)).map some
      else loadSecret masters st.rows id
  | .parent _, none => loadSecret masters st.rows id

/-- Insert a fresh row in the place of the one that was read, and use whichever persists. -/
def insertFresh (st : KeyState) (masters : MasterKeys) (id : Identity)
    (stale : Option SubjectKey) (parent : Option (Identity × Secret)) :
    Except String (Option Secret) × KeyState :=
  let (fresh, st) := st.candidate masters id parent
  let (rows, persisted) := st.rows.getOrInsertSubjectKey id fresh stale
  let st := { st with rows }
  (st.openPersisted masters id persisted parent, st)

/-- The secret in the row that was read, if there was one and it opens. -/
def openExisting (st : KeyState) (masters : MasterKeys) (id : Identity) :
    Option SubjectKey → Except String (Option Secret)
  | none => .ok none
  | some row => openRow masters (loadSecretAt masters st.rows maxSubjectDepth) id row

end KeyState

/-- One attempt at the secret of the first identity of a chain, which is an
identity and its ancestors, nearest first. -/
def tryMintIn (masters : MasterKeys) :
    List Identity → KeyState → Except String (Option Secret) × KeyState
  | [], st => (.error "a subject chain cannot be empty", st)
  | [id], st =>
      -- One read: the row that is judged is the row that is replaced.
      let existing := st.rows.get id
      match st.openExisting masters id existing with
      | .error message => (.error message, st)
      | .ok (some secret) => (.ok (some secret), st)
      | .ok none => st.insertFresh masters id existing none
  | id :: parentId :: above, st =>
      let existing := st.rows.get id
      match st.openExisting masters id existing with
      | .error message => (.error message, st)
      | .ok (some secret) => (.ok (some secret), st)
      | .ok none =>
          match retryMint (tryMintIn masters (parentId :: above)) mintAttempts st with
          | (.error message, st) => (.error message, st)
          | (.ok none, st) => (.ok none, st)
          | (.ok (some parent), st) => st.insertFresh masters id existing (some (parentId, parent))

def mintSecretIn (masters : MasterKeys) (chain : List Identity) (st : KeyState) :
    Except String (Option Secret) × KeyState :=
  retryMint (tryMintIn masters chain) mintAttempts st

def named (chain : List Identity) : String :=
  " under ".intercalate (chain.map fun id => s!"`{id.1}` = `{id.2}`")

def getOrCreateSecretIn (masters : MasterKeys) (chain : List Identity) (st : KeyState) :
    Except String Secret × KeyState :=
  match mintSecretIn masters chain st with
  | (.error message, st) => (.error message, st)
  | (.ok (some secret), st) => (.ok secret, st)
  | (.ok none, st) =>
      (.error (named chain ++
        " is being erased and recreated faster than a key can be minted for it"), st)

/-! ## Operations -/

/-- Encrypt under the first identity of a chain, minting what keys are missing. -/
def encryptSubjectIn (masters : MasterKeys) (chain : List Identity) (field plaintext : String)
    (st : KeyState) : Except String Ciphertext × KeyState :=
  match getOrCreateSecretIn masters chain st with
  | (.error message, st) => (.error message, st)
  | (.ok secret, st) => (.ok (encryptWith secret field plaintext), st)

/-- Encrypt under a key there is, or answer that there is none. -/
def encryptSubjectExisting (masters : MasterKeys) (id : Identity) (field plaintext : String)
    (st : KeyState) : Except String (Option Ciphertext) × KeyState :=
  ((loadSecret masters st.rows id).map fun loaded =>
    loaded.map fun secret => encryptWith secret field plaintext, st)

def decryptSubject (masters : MasterKeys) (rows : KeyTable) (id : Identity) (field : String)
    (ciphertext : Ciphertext) : Except String (Option String) :=
  match loadSecret masters rows id with
  | .error message => .error message
  | .ok none => .ok none
  | .ok (some secret) => .ok (plaintextUnder secret field ciphertext)

/-- Delete an identity's row, and tell whether there was one. -/
def eraseSubject (id : Identity) (st : KeyState) : Except String Bool × KeyState :=
  if id.1 = globalSubject then (.error "the global uniqueness secret cannot be erased", st)
  else (.ok (st.rows.get id).isSome, { st with rows := st.rows.remove id })

/-- Rewrap the rows of a snapshot that are not under the primary. -/
def rewraps (masters : MasterKeys) :
    List (Identity × Wrapped × String) → KeyState → Except String (List RewrapUpdate) × KeyState
  | [], st => (.ok [], st)
  | (id, wrapped, master) :: rest, st =>
      if master = masters.primary then rewraps masters rest st
      else if masters.holds master then
        match unwrapKeyUnder (.master master) wrapped [] with
        | .error message => (.error message, st)
        | .ok secret =>
            let (rewrapped, st) := st.wrapKeyUnder (.master masters.primary) secret []
            match rewraps masters rest st with
            | (.error message, st) => (.error message, st)
            | (.ok updates, st) => (.ok (⟨id, rewrapped, masters.primary, master⟩ :: updates), st)
      else (.error s!"no master `{master}` to unwrap subject `{id.1}`", st)

/-- The snapshot of a rotation: every root not under the primary, rewrapped. -/
def rotateRead (masters : MasterKeys) (st : KeyState) :
    Except String (List RewrapUpdate) × KeyState :=
  rewraps masters st.rows.allSubjectKeys st

/-- The writes of a rotation, in one transaction. -/
def rotateWrite (updates : List RewrapUpdate) (st : KeyState) : Nat × KeyState :=
  let written := st.rows.rewrapSubjectKeys updates
  (written.2, { st with rows := written.1 })

def rotate (masters : MasterKeys) (st : KeyState) : Except String Nat × KeyState :=
  match rotateRead masters st with
  | (.error message, st) => (.error message, st)
  | (.ok updates, st) =>
      if updates.isEmpty then (.ok 0, st)
      else
        let written := rotateWrite updates st
        (.ok written.1, written.2)

/-! ## Adoption -/

inductive Adopted where
  | moved
  | settled
  | contended
  | undone
  deriving DecidableEq

/-- The root an adoption starts from and its secret, unless there is none. -/
def adoptRead (masters : MasterKeys) (id : Identity) (st : KeyState) :
    Except String (Option (SubjectKey × Secret)) :=
  match st.rows.get id with
  | none => .ok none
  | some row =>
      match row.wrapping with
      | .parent _ => .ok none
      | .master master =>
          match masters.masterFor master id.1 with
          | .error message => .error message
          | .ok key => (unwrapKeyUnder key row.wrapped []).map fun secret => some (row, secret)

/-- The conditional re-wrap: the bytes it writes, and whether the row still had those read. -/
def adoptWrite (id parentId : Identity) (read : Wrapped) (secret parent : Secret)
    (st : KeyState) : (Wrapped × Bool) × KeyState :=
  let (wrapped, st) := st.wrapKeyUnder (childKek parent) secret (childAad id parentId)
  let written := st.rows.adoptSubjectKey id wrapped ⟨parentId, parentFingerprint parent⟩ read
  ((wrapped, written.2), { st with rows := written.1 })

/-- Put the secret back under the primary, in the row the adoption wrote. -/
def adoptRestore (masters : MasterKeys) (id : Identity) (written : Wrapped) (secret : Secret)
    (st : KeyState) : Bool × KeyState :=
  let (wrapped, st) := st.wrapKeyUnder (.master masters.primary) secret []
  let restored := st.rows.restoreRoot id wrapped masters.primary written
  (restored.2, { st with rows := restored.1 })

/-- Move a subject's key under the parent its chain names, keeping the secret. -/
def adoptIn (masters : MasterKeys) (chain : List Identity) (st : KeyState) :
    Except String Adopted × KeyState :=
  match chain with
  | [] => (.error "a subject chain cannot be empty", st)
  | [id] => (.error s!"subject `{id.1}` declares no parent to be adopted under", st)
  | id :: parentId :: above =>
      match adoptRead masters id st with
      | .error message => (.error message, st)
      | .ok none => (.ok .settled, st)
      | .ok (some (row, secret)) =>
          match mintSecretIn masters (parentId :: above) st with
          | (.error message, st) => (.error message, st)
          | (.ok none, st) => (.ok .contended, st)
          | (.ok (some parent), st) =>
              match adoptWrite id parentId row.wrapped secret parent st with
              | ((_, false), st) => (.ok .contended, st)
              | ((written, true), st) =>
                  match loadSecret masters st.rows id with
                  | .error message => (.error message, st)
                  | .ok (some _) => (.ok .moved, st)
                  | .ok none => (.ok .undone, (adoptRestore masters id written secret st).2)

end Hekla.Keys
