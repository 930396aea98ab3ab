import Hekla.Library.Passes
import Mathlib.Data.List.Basic

/-!
# What a record does to the derived tables

A fold is a column: its arms say which records change it, at which keys, and to
what.  An arm either names its key or leaves parts of it open, and then ranges
over the keys its table has.  What an arm makes of a cell may look other folds
up.  Storage is a sink with three operations, and a record is applied to any
sink alike; what one sink can follow of another, it follows for whole records.
-/

namespace Hekla.Folds

open Library

/-- The texts of a key, in key order. -/
abbrev Key := List String

/-- A column of the layout: the table of its key signature, its name, and
whether it is a collection, which the side table of the signature holds. -/
structure Column where
  source : String
  name : String
  collection : Bool
  deriving DecidableEq

/-- A table: the main table of a key signature or its side table. -/
structure Held where
  source : String
  side : Bool
  deriving DecidableEq

/-- The table that holds a column. -/
def Column.held (column : Column) : Held := ⟨column.source, column.collection⟩

/-- The main table of a key signature, where every key of it is recorded. -/
def mainOf (source : String) : Held := ⟨source, false⟩

inductive Fault where
  | noColumn (source column : String)
  | noTable (source : String)
  | keyLength (table : Held)
  | noKeyPart (source : String) (part : Nat)
  | cell (message : String)
  | arm (message : String)
  deriving DecidableEq

section Arms

variable {Record Value : Type}

/-- What an arm computes, with the folds it looks up on the way. -/
inductive Update (Value : Type) where
  | result (value : Value)
  | fault (message : String)
  | lookup (column : Column) (key : Key) (next : Value → Update Value)

/-- Whether a column may be looked up. -/
def Update.Reads : Update Value → Column → Prop
  | .result _, _ | .fault _, _ => False
  | .lookup other _ next, column => column = other ∨ ∃ value, (next value).Reads column

/-- The keys an arm is for: the one the record names, or those the table has
that carry the parts the record pins. -/
inductive Reach (Record : Type) where
  | pinned (key : Record → Option Key)
  | ranged (parts : Record → Option (List (Nat × String)))

def Reach.ranges : Reach Record → Bool
  | .pinned _ => false
  | .ranged _ => true

/-- Whether a record is not for the arm at all. -/
def Reach.misses : Reach Record → Record → Bool
  | .pinned key, record => (key record).isNone
  | .ranged parts, record => (parts record).isNone

structure Arm (Record Value : Type) where
  column : Column
  reach : Reach Record
  update : Record → Key → Value → Update Value

def Arm.Reads (arm : Arm Record Value) (column : Column) : Prop :=
  ∃ record key value, (arm.update record key value).Reads column

end Arms

/-- Where the arms of a record land. -/
structure Sink (σ Value : Type) where
  value : σ → Column → Key → Except Fault (Option Value)
  set : σ → Column → Key → Value → Except Fault σ
  keys : σ → String → List (Nat × String) → Except Fault (List Key)

section Apply

variable {σ Record Value : Type} (sink : Sink σ Value) (seed : Column → Value)

/-- A cell, or the seed of its fold where there is none. -/
def Sink.read (state : σ) (column : Column) (key : Key) : Except Fault Value :=
  (sink.value state column key).map fun found => found.getD (seed column)

def Update.run (state : σ) : Update Value → Except Fault Value
  | .result value => .ok value
  | .fault message => .error (.arm message)
  | .lookup column key next => do
      let value ← sink.read seed state column key
      (next value).run state

/-- An arm at one key: the value already there, and what the arm makes of it. -/
def Arm.touch (arm : Arm Record Value) (record : Record) (state : σ) (key : Key) :
    Except Fault σ := do
  let was ← sink.read seed state arm.column key
  let value ← (arm.update record key was).run sink seed state
  sink.set state arm.column key value

def Arm.apply (arm : Arm Record Value) (record : Record) (state : σ) : Except Fault σ :=
  match arm.reach with
  | .pinned key =>
      match key record with
      | none => .ok state
      | some key => arm.touch sink seed record state key
  | .ranged parts =>
      match parts record with
      | none => .ok state
      | some parts => do
          let keys ← sink.keys state arm.column.source parts
          keys.foldlM (arm.touch sink seed record) state

/-- One record: its arms in turn, each over what the ones before it wrote. -/
def applyRecord (arms : List (Arm Record Value)) (state : σ) (record : Record) : Except Fault σ :=
  arms.foldlM (fun state arm => arm.apply sink seed record state) state

def applyAll (arms : List (Arm Record Value)) (records : List Record) (state : σ) :
    Except Fault σ :=
  records.foldlM (applyRecord sink seed arms) state

end Apply

/-! ## One sink follows another -/

section Follows

variable {σ τ Record Value : Type}

/-- Over some columns, and the keys of some tables, whatever the first sink does
the second does too, and the states stay related. -/
structure Follows (first : Sink σ Value) (second : Sink τ Value) (seed : Column → Value)
    (related : σ → τ → Prop) (columns : Column → Bool) (sources : String → Prop) : Prop where
  read : ∀ {state other column key value}, related state other → columns column = true →
    first.read seed state column key = .ok value → second.read seed other column key = .ok value
  keys : ∀ {state other source parts keys}, related state other → sources source →
    first.keys state source parts = .ok keys → second.keys other source parts = .ok keys
  set : ∀ {state next other column key value}, related state other → columns column = true →
    first.set state column key value = .ok next →
    ∃ nextOther, second.set other column key value = .ok nextOther ∧ related next nextOther

variable {first : Sink σ Value} {second : Sink τ Value} {seed : Column → Value}
  {related : σ → τ → Prop} {columns : Column → Bool} {sources : String → Prop}

theorem Follows.run (follows : Follows first second seed related columns sources)
    {state : σ} {other : τ} (here : related state other) {update : Update Value}
    (within : ∀ column, update.Reads column → columns column = true) {value : Value}
    (ran : update.run first seed state = .ok value) : update.run second seed other = .ok value := by
  induction update with
  | result held => exact ran
  | fault message => cases ran
  | lookup column key next ih =>
      obtain ⟨found, read, ran⟩ := bind_ok.mp ran
      refine bind_ok.mpr ⟨found, follows.read here (within column (.inl rfl)) read, ?_⟩
      exact ih found (fun later reads => within later (.inr ⟨found, reads⟩)) ran

/-- An arm the second sink can follow. -/
structure Fits (arm : Arm Record Value) (columns : Column → Bool) (sources : String → Prop) :
    Prop where
  own : columns arm.column = true
  reads : ∀ column, arm.Reads column → columns column = true
  ranges : arm.reach.ranges = true → sources arm.column.source

theorem Follows.touch (follows : Follows first second seed related columns sources)
    {arm : Arm Record Value} (fits : Fits arm columns sources) {record : Record} {state next : σ}
    {other : τ} {key : Key} (here : related state other)
    (touched : arm.touch first seed record state key = .ok next) :
    ∃ nextOther, arm.touch second seed record other key = .ok nextOther ∧
      related next nextOther := by
  obtain ⟨was, read, touched⟩ := bind_ok.mp touched
  obtain ⟨value, ran, set⟩ := bind_ok.mp touched
  obtain ⟨nextOther, setOther, there⟩ := follows.set here fits.own set
  refine ⟨nextOther, ?_, there⟩
  refine bind_ok.mpr ⟨was, follows.read here fits.own read, ?_⟩
  refine bind_ok.mpr ⟨value, follows.run here ?_ ran, setOther⟩
  intro column reads
  exact fits.reads column ⟨record, key, was, reads⟩

theorem Follows.apply (follows : Follows first second seed related columns sources)
    {arm : Arm Record Value} (fits : Fits arm columns sources) {record : Record} {state next : σ}
    {other : τ} (here : related state other)
    (applied : arm.apply first seed record state = .ok next) :
    ∃ nextOther, arm.apply second seed record other = .ok nextOther ∧ related next nextOther := by
  unfold Arm.apply at applied ⊢
  cases reach : arm.reach with
  | pinned keyOf =>
      simp only [reach] at applied ⊢
      cases named : keyOf record with
      | none =>
          simp only [named, Except.ok.injEq] at applied
          exact ⟨other, rfl, applied ▸ here⟩
      | some key =>
          simp only [named] at applied
          exact follows.touch fits here applied
  | ranged parts =>
      simp only [reach] at applied ⊢
      cases named : parts record with
      | none =>
          simp only [named, Except.ok.injEq] at applied
          exact ⟨other, rfl, applied ▸ here⟩
      | some pinned =>
          simp only [named] at applied
          obtain ⟨keys, listed, passed⟩ := bind_ok.mp applied
          have ranges : arm.reach.ranges = true := by rw [reach]; rfl
          have listedOther := follows.keys here (fits.ranges ranges) listed
          have both (keys : List Key) {state : σ} {other : τ} (here : related state other)
              (passed : keys.foldlM (arm.touch first seed record) state = .ok next) :
              ∃ nextOther, keys.foldlM (arm.touch second seed record) other = .ok nextOther ∧
                related next nextOther := by
            induction keys generalizing state other with
            | nil =>
                cases passed
                exact ⟨other, rfl, here⟩
            | cons key rest ih =>
                obtain ⟨middle, touched, passed⟩ := foldlM_cons_ok.mp passed
                obtain ⟨middleOther, touchedOther, there⟩ := follows.touch fits here touched
                obtain ⟨nextOther, passedOther, ends⟩ := ih there passed
                exact ⟨nextOther, foldlM_cons_ok.mpr ⟨middleOther, touchedOther, passedOther⟩, ends⟩
          obtain ⟨nextOther, passedOther, ends⟩ := both keys here passed
          exact ⟨nextOther, bind_ok.mpr ⟨keys, listedOther, passedOther⟩, ends⟩

/-- Whatever the first sink makes of a record, the second makes of it with the
arms it follows alone, where the others leave the states related. -/
theorem Follows.applyRecord (follows : Follows first second seed related columns sources)
    {arms : List (Arm Record Value)}
    (fits : ∀ arm ∈ arms, columns arm.column = true → Fits arm columns sources)
    (idle : ∀ arm ∈ arms, columns arm.column = false → ∀ {record state next other},
      related state other → arm.apply first seed record state = .ok next → related next other)
    {record : Record} {state next : σ} {other : τ} (here : related state other)
    (applied : Folds.applyRecord first seed arms state record = .ok next) :
    ∃ nextOther, Folds.applyRecord second seed (arms.filter fun arm => columns arm.column) other
        record = .ok nextOther ∧ related next nextOther := by
  unfold Folds.applyRecord at applied ⊢
  induction arms generalizing state other with
  | nil =>
      cases applied
      exact ⟨other, rfl, here⟩
  | cons arm rest ih =>
      obtain ⟨middle, started, applied⟩ := foldlM_cons_ok.mp applied
      obtain ⟨fitsArm, fitsRest⟩ := List.forall_mem_cons.mp fits
      obtain ⟨idleArm, idleRest⟩ := List.forall_mem_cons.mp idle
      cases followed : columns arm.column with
      | false =>
          rw [List.filter_cons_of_neg (by simp [followed])]
          exact ih fitsRest idleRest (idleArm followed here started) applied
      | true =>
          rw [List.filter_cons_of_pos (by simp [followed])]
          obtain ⟨middleOther, startedOther, there⟩ := follows.apply (fitsArm followed) here started
          obtain ⟨nextOther, restOther, ends⟩ := ih fitsRest idleRest there applied
          exact ⟨nextOther, foldlM_cons_ok.mpr ⟨middleOther, startedOther, restOther⟩, ends⟩

theorem Follows.applyAll (follows : Follows first second seed related columns sources)
    {arms : List (Arm Record Value)}
    (fits : ∀ arm ∈ arms, columns arm.column = true → Fits arm columns sources)
    (idle : ∀ arm ∈ arms, columns arm.column = false → ∀ {record state next other},
      related state other → arm.apply first seed record state = .ok next → related next other)
    {records : List Record} {state next : σ} {other : τ} (here : related state other)
    (applied : Folds.applyAll first seed arms records state = .ok next) :
    ∃ nextOther, Folds.applyAll second seed (arms.filter fun arm => columns arm.column) records
        other = .ok nextOther ∧ related next nextOther := by
  unfold Folds.applyAll at applied ⊢
  induction records generalizing state other with
  | nil =>
      cases applied
      exact ⟨other, rfl, here⟩
  | cons record rest ih =>
      obtain ⟨middle, started, applied⟩ := foldlM_cons_ok.mp applied
      obtain ⟨middleOther, startedOther, there⟩ := follows.applyRecord fits idle here started
      obtain ⟨nextOther, restOther, ends⟩ := ih there applied
      exact ⟨nextOther, foldlM_cons_ok.mpr ⟨middleOther, startedOther, restOther⟩, ends⟩

/-- A sink that follows every column follows whole programs. -/
theorem Follows.applyAll_of_all
    (follows : Follows first second seed related (fun _ => true) sources)
    {arms : List (Arm Record Value)}
    (ranges : ∀ arm ∈ arms, arm.reach.ranges = true → sources arm.column.source)
    {records : List Record} {state next : σ} {other : τ} (here : related state other)
    (applied : Folds.applyAll first seed arms records state = .ok next) :
    ∃ nextOther, Folds.applyAll second seed arms records other = .ok nextOther ∧
      related next nextOther := by
  have followed := follows.applyAll (fun arm member _ => ⟨rfl, fun _ _ => rfl, ranges arm member⟩)
    (fun _ _ => nofun) here applied
  rwa [List.filter_eq_self.mpr fun _ _ => rfl] at followed

end Follows

end Hekla.Folds
