import Hekla.Keys.Erasure

/-!
# The row decryptor

A page of rows is decrypted through a cache of the secrets, and of the absences,
found at every link of the chains walked.  A cached link may stand in for more
levels than a walk may go, so what is refused for its depth without the cache may
be found with it; everything else reads the same.
-/

namespace Hekla.Keys

open Hekla.Library Forest

abbrev SecretCache := Table Identity (Option Secret)

/-- Answer from the cache, or load and remember what was found, absence too. -/
def remembering (load : Identity → SecretCache → Except String (Option Secret) × SecretCache)
    (id : Identity) (cache : SecretCache) : Except String (Option Secret) × SecretCache :=
  match cache.get id with
  | some cached => (.ok cached, cache)
  | none =>
      match load id cache with
      | (.error message, cache) => (.error message, cache)
      | (.ok loaded, cache) => (.ok loaded, cache.set id loaded)

/-- Open a row that has been read; `load` finds its parent through the cache. -/
def openRowCached (masters : MasterKeys)
    (load : Identity → SecretCache → Except String (Option Secret) × SecretCache)
    (id : Identity) (row : SubjectKey) (cache : SecretCache) :
    Except String (Option Secret) × SecretCache :=
  match row.wrapping with
  | .master master =>
      match masters.masterFor master id.1 with
      | .error message => (.error message, cache)
      | .ok key => ((unwrapKeyUnder key row.wrapped []).map some, cache)
  | .parent ref =>
      match load ref.identity cache with
      | (.error message, cache) => (.error message, cache)
      | (.ok none, cache) => (.ok none, cache)
      | (.ok (some parent), cache) =>
          if ref.fingerprint ≠ parentFingerprint parent then (.ok none, cache)
          else
            ((unwrapKeyUnder (childKek parent) row.wrapped (childAad id ref.identity)).map some,
              cache)

/-- Walk up the parents through the cache, so many levels at most. -/
def loadSecretCachedAt (masters : MasterKeys) (rows : KeyTable) :
    Nat → Identity → SecretCache → Except String (Option Secret) × SecretCache
  | 0, id, cache => (.error (tooDeep id), cache)
  | levels + 1, id, cache =>
      match rows.get id with
      | none => (.ok none, cache)
      | some row =>
          openRowCached masters (remembering (loadSecretCachedAt masters rows levels)) id row cache

def cachedSecret (masters : MasterKeys) (rows : KeyTable) (levels : Nat) :
    Identity → SecretCache → Except String (Option Secret) × SecretCache :=
  remembering (loadSecretCachedAt masters rows levels)

/-- What a secret that was loaded, or not, makes of a ciphertext. -/
def decryptUnder (loaded : Except String (Option Secret)) (field : String)
    (ciphertext : Ciphertext) : Except String (Option String) :=
  match loaded with
  | .error message => .error message
  | .ok none => .ok none
  | .ok (some secret) => .ok (plaintextUnder secret field ciphertext)

/-- The secrets one request has loaded. -/
structure RowDecryptor where
  secrets : SecretCache := ∅

/-- One value a request means to read. -/
structure Reading where
  id : Identity
  field : String
  ciphertext : Ciphertext

namespace RowDecryptor

def decrypt (masters : MasterKeys) (rows : KeyTable) (decryptor : RowDecryptor)
    (reading : Reading) : Except String (Option String) × RowDecryptor :=
  let (secret, secrets) :=
    cachedSecret masters rows (maxSubjectDepth + 1) reading.id decryptor.secrets
  (decryptUnder secret reading.field reading.ciphertext, ⟨secrets⟩)

/-- The answers of a request to what it reads, in the order it reads. -/
def decryptAll (masters : MasterKeys) (rows : KeyTable) :
    RowDecryptor → List Reading → List (Except String (Option String))
  | _, [] => []
  | decryptor, reading :: rest =>
      let (answer, decryptor) := decrypt masters rows decryptor reading
      answer :: decryptAll masters rows decryptor rest

end RowDecryptor

/-! ## Walks of more and of fewer levels -/

section Levels

variable {masters : MasterKeys} {rows : KeyTable} {id : Identity} {row : SubjectKey}

/-- The longer walk answers what the shorter does, unless that is refused for its depth. -/
def Extends {α : Type} (longer shorter : Except String α) : Prop :=
  longer = shorter ∨ ∃ deep, shorter = .error (tooDeep deep)

theorem openRow_extends {longer shorter : Identity → Except String (Option Secret)}
    (parents : ∀ parent, Extends (longer parent) (shorter parent)) :
    Extends (openRow masters longer id row) (openRow masters shorter id row) := by
  unfold openRow
  split
  · exact .inl rfl
  · next ref _ =>
      rcases parents ref.identity with same | ⟨deep, refused⟩
      · rw [same]
        exact .inl rfl
      · rw [refused]
        exact .inr ⟨deep, rfl⟩

theorem loadSecretAt_extends {levels more : Nat} (le : levels ≤ more) :
    Extends (loadSecretAt masters rows more id) (loadSecretAt masters rows levels id) := by
  induction levels generalizing more id with
  | zero => exact .inr ⟨id, rfl⟩
  | succ levels ih =>
      obtain ⟨more, rfl⟩ : ∃ fewer, more = fewer + 1 := ⟨more - 1, by omega⟩
      unfold loadSecretAt
      cases rows.get id with
      | none => exact .inl rfl
      | some row => exact openRow_extends fun _ => ih (Nat.le_of_succ_le_succ le)

theorem loadSecretAt_of_le {levels more : Nat} {loaded : Option Secret} (le : levels ≤ more)
    (loads : loadSecretAt masters rows levels id = .ok loaded) :
    loadSecretAt masters rows more id = .ok loaded := by
  have walks : Extends (loadSecretAt masters rows more id) (loadSecretAt masters rows levels id) :=
    loadSecretAt_extends le
  rcases walks with same | ⟨deep, refused⟩
  · exact same.trans loads
  · cases refused.symm.trans loads

theorem decryptUnder_extends {longer shorter : Except String (Option Secret)}
    (loads : Extends longer shorter) (field : String) (ciphertext : Ciphertext) :
    Extends (decryptUnder longer field ciphertext) (decryptUnder shorter field ciphertext) := by
  rcases loads with rfl | ⟨deep, rfl⟩
  · exact .inl rfl
  · exact .inr ⟨deep, rfl⟩

theorem decryptSubject_eq (masters : MasterKeys) (rows : KeyTable) (id : Identity) (field : String)
    (ciphertext : Ciphertext) :
    decryptSubject masters rows id field ciphertext =
      decryptUnder (loadSecret masters rows id) field ciphertext := rfl

end Levels

/-! ## The cache -/

/-- Every cached entry is what a walk of some number of levels finds. -/
def Cached (masters : MasterKeys) (rows : KeyTable) (cache : SecretCache) : Prop :=
  ∀ id loaded, cache.get id = some loaded →
    ∃ levels, loadSecretAt masters rows levels id = .ok loaded

/-- The answer is that of a walk of so many levels or more, and the cache stays sound. -/
structure Finds (masters : MasterKeys) (rows : KeyTable) (levels : Nat) (id : Identity)
    (answer : Except String (Option Secret) × SecretCache) : Prop where
  cached : Cached masters rows answer.2
  walked : ∃ more, levels ≤ more ∧ answer.1 = loadSecretAt masters rows more id

section Cache

variable {masters : MasterKeys} {rows : KeyTable} {id : Identity} {cache : SecretCache}
  {levels : Nat}

theorem Cached.empty (masters : MasterKeys) (rows : KeyTable) : Cached masters rows ∅ := by
  intro id loaded found
  rw [Table.get_empty] at found
  cases found

theorem Cached.set {loaded : Option Secret} (cached : Cached masters rows cache)
    (loads : loadSecretAt masters rows levels id = .ok loaded) :
    Cached masters rows (cache.set id loaded) := by
  intro other entry found
  rw [Table.get_set] at found
  split at found
  · next here =>
      subst here
      cases found
      exact ⟨levels, loads⟩
  · exact cached other entry found

/-- A cached entry is what every long enough walk finds. -/
theorem Cached.beyond {loaded : Option Secret} (cached : Cached masters rows cache)
    (found : cache.get id = some loaded) (levels : Nat) :
    ∃ more, levels ≤ more ∧ loadSecretAt masters rows more id = .ok loaded := by
  obtain ⟨walked, loads⟩ := cached id loaded found
  exact ⟨max levels walked, Nat.le_max_left _ _, loadSecretAt_of_le (Nat.le_max_right _ _) loads⟩

theorem Finds.remembering
    {load : Identity → SecretCache → Except String (Option Secret) × SecretCache}
    (finds : ∀ cache, Cached masters rows cache → Finds masters rows levels id (load id cache))
    (cached : Cached masters rows cache) :
    Finds masters rows levels id (remembering load id cache) := by
  unfold Keys.remembering
  cases found : cache.get id with
  | some loaded =>
      obtain ⟨more, enough, loads⟩ := cached.beyond found levels
      exact ⟨cached, more, enough, loads.symm⟩
  | none =>
      have loads := finds cache cached
      cases loaded : load id cache with
      | mk answer after =>
          rw [loaded] at loads
          obtain ⟨more, enough, walked⟩ := loads.walked
          cases answer with
          | error message => exact loads
          | ok secret => exact ⟨loads.cached.set walked.symm, more, enough, walked⟩

theorem openRow_of_root {row : SubjectKey} {master : String}
    (columns : row.wrapping = .master master)
    (load load' : Identity → Except String (Option Secret)) :
    openRow masters load id row = openRow masters load' id row := by
  unfold openRow
  rw [columns]

theorem openRow_congr {row : SubjectKey} {ref : ParentRef} (columns : row.wrapping = .parent ref)
    {load load' : Identity → Except String (Option Secret)}
    (same : load ref.identity = load' ref.identity) :
    openRow masters load id row = openRow masters load' id row := by
  unfold openRow
  rw [columns]
  dsimp only
  rw [same]

/-- Opening a row through the cache is opening it with what the cache gives for
its parent, and leaves what loading the parent left. -/
theorem openRowCached_eq (masters : MasterKeys)
    (load : Identity → SecretCache → Except String (Option Secret) × SecretCache) (id : Identity)
    (row : SubjectKey) (cache : SecretCache) :
    openRowCached masters load id row cache =
      (openRow masters (fun parent => (load parent cache).1) id row,
        match row.wrapping with
        | .master _ => cache
        | .parent ref => (load ref.identity cache).2) := by
  unfold openRowCached openRow
  cases row.wrapping with
  | master master =>
      dsimp only
      cases masters.masterFor master id.1 with
      | error message => rfl
      | ok key => rfl
  | parent ref =>
      dsimp only
      cases load ref.identity cache with
      | mk answer after =>
          cases answer with
          | error message => rfl
          | ok found =>
              cases found with
              | none => rfl
              | some parent =>
                  dsimp only
                  split
                  · rfl
                  · rfl

theorem loadSecretAt_succ {row : SubjectKey} (held : rows.get id = some row) (levels : Nat) :
    loadSecretAt masters rows (levels + 1) id =
      openRow masters (loadSecretAt masters rows levels) id row := by
  conv_lhs => unfold loadSecretAt
  rw [held]

theorem Finds.openRow {row : SubjectKey}
    {load : Identity → SecretCache → Except String (Option Secret) × SecretCache}
    (held : rows.get id = some row)
    (finds : ∀ parent cache, Cached masters rows cache →
      Finds masters rows levels parent (load parent cache))
    (cached : Cached masters rows cache) :
    Finds masters rows (levels + 1) id (openRowCached masters load id row cache) := by
  rw [openRowCached_eq]
  cases columns : row.wrapping with
  | master master =>
      have walked : Keys.openRow masters (fun parent => (load parent cache).1) id row =
          Keys.openRow masters (loadSecretAt masters rows levels) id row :=
        openRow_of_root columns _ _
      exact ⟨cached, levels + 1, Nat.le_refl _,
        walked.trans (loadSecretAt_succ held levels).symm⟩
  | parent ref =>
      have loads := finds ref.identity cache cached
      obtain ⟨more, enough, walked⟩ := loads.walked
      have opened : Keys.openRow masters (fun parent => (load parent cache).1) id row =
          Keys.openRow masters (loadSecretAt masters rows more) id row :=
        openRow_congr columns walked
      exact ⟨loads.cached, more + 1, Nat.succ_le_succ enough,
        opened.trans (loadSecretAt_succ held more).symm⟩

theorem Finds.loadSecretCachedAt (cached : Cached masters rows cache) :
    Finds masters rows levels id (loadSecretCachedAt masters rows levels id cache) := by
  induction levels generalizing id cache with
  | zero => exact ⟨cached, 0, Nat.le_refl 0, rfl⟩
  | succ levels ih =>
      unfold Keys.loadSecretCachedAt
      cases held : rows.get id with
      | none =>
          refine ⟨cached, levels + 1, Nat.le_refl _, ?_⟩
          unfold loadSecretAt
          rw [held]
      | some row =>
          exact .openRow held (fun _ _ cachedThen => .remembering (fun _ => ih) cachedThen) cached

theorem Finds.cachedSecret (cached : Cached masters rows cache) :
    Finds masters rows levels id (cachedSecret masters rows levels id cache) :=
  .remembering (fun _ => .loadSecretCachedAt) cached

end Cache

namespace RowDecryptor

variable {masters : MasterKeys} {rows : KeyTable}

/-- Each answer of a request is that of a walk at least as long as an uncached one. -/
theorem decryptAll_walks {decryptor : RowDecryptor} (cached : Cached masters rows decryptor.secrets)
    (readings : List Reading) :
    List.Forall₂
      (fun reading answer => ∃ levels, maxSubjectDepth < levels ∧
        answer = decryptUnder (loadSecretAt masters rows levels reading.id) reading.field
          reading.ciphertext)
      readings (decryptAll masters rows decryptor readings) := by
  induction readings generalizing decryptor with
  | nil => exact .nil
  | cons reading rest ih =>
      have finds : Finds masters rows (maxSubjectDepth + 1) reading.id
          (cachedSecret masters rows (maxSubjectDepth + 1) reading.id decryptor.secrets) :=
        .cachedSecret cached
      obtain ⟨levels, enough, walked⟩ := finds.walked
      refine .cons ⟨levels, enough, ?_⟩ (ih finds.cached)
      exact congrArg (fun loaded => decryptUnder loaded reading.field reading.ciphertext) walked

/-- Whatever a request has read, in whatever order, each of its answers is what a
walk without a cache finds that may go up at least as far as an uncached reading;
so it is the answer of the uncached reading, unless that refuses its depth. -/
theorem decryptAll_agrees (masters : MasterKeys) (rows : KeyTable) (readings : List Reading) :
    List.Forall₂
      (fun reading answer =>
        (∃ levels, maxSubjectDepth < levels ∧
          answer = decryptUnder (loadSecretAt masters rows levels reading.id) reading.field
            reading.ciphertext) ∧
        Extends answer
          (decryptSubject masters rows reading.id reading.field reading.ciphertext))
      readings (decryptAll masters rows {} readings) := by
  refine (decryptAll_walks (Cached.empty masters rows) readings).imp ?_
  rintro reading answer ⟨levels, enough, walked⟩
  refine ⟨⟨levels, enough, walked⟩, ?_⟩
  rw [walked]
  exact decryptUnder_extends (loadSecretAt_extends enough) _ _

open KeyOp in
/-- The second subject of a chain too deep to read can be read, and once it has
been, so can the first. -/
theorem cached_reading_differs :
    ¬∀ (ops : List KeyOp) (st : KeyState) (masters : MasterKeys) (readings : List Reading),
      run step {} ops = some st →
        decryptAll masters st.rows {} readings = readings.map fun reading =>
          decryptSubject masters st.rows reading.id reading.field reading.ciphertext := by
  intro agrees
  have same := agrees [.encrypt oneMaster deepChain "email" "a@b.c"]
    (perform {} (.encrypt oneMaster deepChain "email" "a@b.c")) oneMaster
    [⟨("ss", "1"), "email", encryptWith 66 "email" "a@b.c"⟩,
      ⟨("s", "1"), "email", encryptWith 66 "email" "a@b.c"⟩] rfl
  have refused : ((([⟨("ss", "1"), "email", encryptWith 66 "email" "a@b.c"⟩,
      ⟨("s", "1"), "email", encryptWith 66 "email" "a@b.c"⟩] : List Reading).map fun reading =>
        decryptSubject oneMaster (perform {} (.encrypt oneMaster deepChain "email" "a@b.c")).rows
          reading.id reading.field reading.ciphertext).all fun answer =>
      match answer with
      | .error _ => false
      | .ok _ => true) = false := by decide
  have answered : ((decryptAll oneMaster
      (perform {} (.encrypt oneMaster deepChain "email" "a@b.c")).rows {}
      [⟨("ss", "1"), "email", encryptWith 66 "email" "a@b.c"⟩,
        ⟨("s", "1"), "email", encryptWith 66 "email" "a@b.c"⟩]).all fun answer =>
      match answer with
      | .error _ => false
      | .ok _ => true) = true := by decide
  rw [same, refused] at answered
  cases answered

end RowDecryptor

end Hekla.Keys
