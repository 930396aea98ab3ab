import Hekla.Reads.TableWalk

/-!
# Parameters in any order

What a parameter asks of a scan does not depend on those before it, which only say
whether it may still be asked.  Parameters of different names ask for different
things, so that a scan is the same in whichever order they are given.
-/

namespace Hekla.Reads.Tables

open Hekla.Library Hekla.Host
open Hekla.Derived (FieldKind IndexDef)

/-! ## What one parameter asks -/

inductive Edit where
  | limit (limit : Nat)
  | cursor (raw : String)
  | orderBy (raw : String)
  | wait
  | pinPart (part text : String)
  | pinFold (column text : String)
  | boundPart (part : String) (lower : Bool) (end_ : Bound × String)
  | boundFold (column : String) (lower : Bool) (end_ : Bound × String)

/-- One end of a range on a column, which is bounded alone and at each end once. -/
def boundAt (held : Option (String × Range)) (column : String) (lower : Bool)
    (end_ : Bound × String) : Option (String × Range) :=
  if (held.getD (column, {})).1 = column then
    (setEnd (held.getD (column, {})).2 "" lower end_).toOption.map fun range => (column, range)
  else none

/-- A column is pinned once. -/
def pinAt (held : List (String × String)) (column text : String) : Option (List (String × String)) :=
  if held.any fun given => given.1 == column then none else some (held ++ [(column, text)])

def Edit.apply (reading : Reading) : Edit → Option Reading
  | .limit most => some { reading with scan := { reading.scan with limit := most } }
  | .cursor raw => some { reading with cursor := some raw }
  | .orderBy raw => some { reading with orderBy := some raw }
  | .wait => some reading
  | .pinPart part text => (pinAt reading.scan.equals part text).map fun equals =>
      { reading with scan := { reading.scan with equals := equals } }
  | .pinFold column text => (pinAt reading.scan.values column text).map fun values =>
      { reading with scan := { reading.scan with values := values } }
  | .boundPart part lower end_ => (boundAt reading.scan.range part lower end_).map fun range =>
      { reading with scan := { reading.scan with range := some range } }
  | .boundFold column lower end_ => (boundAt reading.scan.valueRange column lower end_).map fun range =>
      { reading with scan := { reading.scan with valueRange := some range } }

/-- The names that are neither of a part nor of a fold. -/
def controls : List String := ["limit", "cursor", "order_by"] ++ waitParams

variable (spelling : Spelling) (isUuid : String → Bool)

/-- What a parameter asks, where it reads. -/
inductive Asks (sel : Selection) : String × String → Edit → Prop where
  | limit {raw : String} {limit : Nat} (read : readLimit raw = .ok limit) :
      Asks sel ("limit", raw) (.limit limit)
  | cursor (raw : String) : Asks sel ("cursor", raw) (.cursor raw)
  | orderBy (raw : String) : Asks sel ("order_by", raw) (.orderBy raw)
  | wait {name raw : String} (waits : name ∈ waitParams) : Asks sel (name, raw) .wait
  | pinPart {name value part text : String} (other : name ∉ controls)
      (plain : name.toList.contains '.' = false) (unfolded : filteredFold sel name = .ok none)
      (named : paramPart sel name = .ok part)
      (passed : bound spelling isUuid sel.main part name value = .ok text) :
      Asks sel (name, value) (.pinPart part text)
  | pinFold {name value text : String} {column : ColumnDef} (other : name ∉ controls)
      (plain : name.toList.contains '.' = false) (folded : filteredFold sel name = .ok (some column))
      (passed : boundMeta spelling isUuid column.field name value = .ok text) :
      Asks sel (name, value) (.pinFold column.name text)
  | boundPart {name value param part text : String} {lower : Bool} {kind : Bound}
      (other : name ∉ controls) (dotted : name.toList.contains '.' = true)
      (unfolded : filteredFold sel ((rsplitDot name).elim name Prod.fst) = .ok none)
      (ended : rangeOp name = .ok (param, lower, kind)) (named : paramPart sel param = .ok part)
      (orders : orderablePart sel part param = .ok ())
      (passed : bound spelling isUuid sel.main part param value = .ok text) :
      Asks sel (name, value) (.boundPart part lower (kind, text))
  | boundFold {name value fold text : String} {column : ColumnDef} {lower : Bool} {kind : Bound}
      (other : name ∉ controls) (dotted : name.toList.contains '.' = true)
      (folded : filteredFold sel ((rsplitDot name).elim name Prod.fst) = .ok (some column))
      (ended : rangeOp name = .ok (fold, lower, kind)) (orders : orderable column.field fold = .ok ())
      (passed : boundMeta spelling isUuid column.field fold value = .ok text) :
      Asks sel (name, value) (.boundFold column.name lower (kind, text))

variable {spelling isUuid} {sel : Selection}

theorem setEnd_toOption (range : Range) (named : String) (lower : Bool) (end_ : Bound × String) :
    (setEnd range named lower end_).toOption = (setEnd range "" lower end_).toOption := by
  unfold setEnd
  cases lower with
  | true => cases range.lower <;> rfl
  | false => cases range.upper <;> rfl

theorem pinValue_ok_iff {scan next : Scan} {column : ColumnDef} {param value : String} :
    pinValue spelling isUuid scan column param value = .ok next ↔
      ∃ text, boundMeta spelling isUuid column.field param value = .ok text ∧
        (pinAt scan.values column.name text).map (fun values => { scan with values := values }) = some next := by
  unfold pinValue pinAt
  cases scan.values.any fun given => given.1 == column.name with
  | true => simp
  | false =>
      cases boundMeta spelling isUuid column.field param value with
      | error why => simp [Except.map]
      | ok text => simp [Except.map]

theorem pinPart_ok_iff {scan next : Scan} {param value : String} :
    pinPart spelling isUuid sel scan param value = .ok next ↔
      ∃ part, paramPart sel param = .ok part ∧ ∃ text,
        bound spelling isUuid sel.main part param value = .ok text ∧
        (pinAt scan.equals part text).map (fun equals => { scan with equals := equals }) = some next := by
  unfold pinPart
  rw [bind_ok]
  refine exists_congr fun part => and_congr_right fun _ => ?_
  unfold pinAt
  cases scan.equals.any fun given => given.1 == part with
  | true => simp
  | false =>
      cases bound spelling isUuid sel.main part param value with
      | error why => simp [Except.map]
      | ok text => simp [Except.map]

theorem boundAt_some_iff {held : Option (String × Range)} {column : String} {lower : Bool}
    {end_ : Bound × String} {next : String × Range} (named : String) :
    boundAt held column lower end_ = some next ↔
      (held.getD (column, {})).1 = column ∧
        ∃ range, setEnd (held.getD (column, {})).2 named lower end_ = .ok range ∧ next = (column, range) := by
  unfold boundAt
  by_cases same : (held.getD (column, {})).1 = column
  · rw [if_pos same, ← setEnd_toOption _ named]
    cases setEnd (held.getD (column, {})).2 named lower end_ with
    | error why => simp [Except.toOption]
    | ok range => simp [Except.toOption, same, eq_comm]
  · rw [if_neg same]
    simp [same]

theorem valueBound_ok_iff {scan next : Scan} {column : ColumnDef} {name value : String} :
    valueBound spelling isUuid scan column name value = .ok next ↔
      ∃ fold lower kind, rangeOp name = .ok (fold, lower, kind) ∧ orderable column.field fold = .ok () ∧
        ∃ text, boundMeta spelling isUuid column.field fold value = .ok text ∧
          (boundAt scan.valueRange column.name lower (kind, text)).map
            (fun range => { scan with valueRange := some range }) = some next := by
  unfold valueBound
  rw [bind_ok, Prod.exists]
  refine exists_congr fun fold => ?_
  rw [Prod.exists]
  refine exists_congr fun lower => exists_congr fun kind => and_congr_right fun _ => ?_
  dsimp only
  rw [bind_ok]
  constructor
  · rintro ⟨⟨⟩, orders, made⟩
    refine ⟨orders, ?_⟩
    split at made
    · cases made
    · next same =>
        obtain ⟨text, passed, made⟩ := bind_ok.mp made
        obtain ⟨range, ended, made⟩ := bind_ok.mp made
        refine ⟨text, passed, ?_⟩
        rw [(boundAt_some_iff _).mpr ⟨not_not.mp same, range, ended, rfl⟩, ← Except.ok.inj made, not_not.mp same]
        rfl
  · rintro ⟨orders, text, passed, made⟩
    obtain ⟨range, found, rfl⟩ := Option.map_eq_some_iff.mp made
    obtain ⟨same, range, ended, rfl⟩ := (boundAt_some_iff fold).mp found
    refine ⟨(), orders, ?_⟩
    rw [if_neg (not_not.mpr same)]
    exact bind_ok.mpr ⟨text, passed, bind_ok.mpr ⟨range, ended, by rw [same]⟩⟩

theorem rangedBound_ok_iff {scan next : Scan} {name value : String} :
    rangedBound spelling isUuid sel scan name value = .ok next ↔
      ∃ param lower kind, rangeOp name = .ok (param, lower, kind) ∧ ∃ part,
        paramPart sel param = .ok part ∧ orderablePart sel part param = .ok () ∧
        ∃ text, bound spelling isUuid sel.main part param value = .ok text ∧
          (boundAt scan.range part lower (kind, text)).map
            (fun range => { scan with range := some range }) = some next := by
  unfold rangedBound
  rw [bind_ok, Prod.exists]
  refine exists_congr fun param => ?_
  rw [Prod.exists]
  refine exists_congr fun lower => exists_congr fun kind => and_congr_right fun _ => ?_
  dsimp only
  rw [bind_ok]
  refine exists_congr fun part => and_congr_right fun _ => ?_
  rw [bind_ok]
  constructor
  · rintro ⟨⟨⟩, orders, made⟩
    refine ⟨orders, ?_⟩
    split at made
    · cases made
    · next same =>
        obtain ⟨text, passed, made⟩ := bind_ok.mp made
        obtain ⟨range, ended, made⟩ := bind_ok.mp made
        refine ⟨text, passed, ?_⟩
        rw [(boundAt_some_iff _).mpr ⟨not_not.mp same, range, ended, rfl⟩, ← Except.ok.inj made, not_not.mp same]
        rfl
  · rintro ⟨orders, text, passed, made⟩
    obtain ⟨range, found, rfl⟩ := Option.map_eq_some_iff.mp made
    obtain ⟨same, range, ended, rfl⟩ := (boundAt_some_iff param).mp found
    refine ⟨(), orders, ?_⟩
    rw [if_neg (not_not.mpr same)]
    exact bind_ok.mpr ⟨text, passed, bind_ok.mpr ⟨range, ended, by rw [same]⟩⟩

/-- A parameter of a part or a fold reads where it asks something that may still be asked. -/
theorem readFilter_ok_iff {reading next : Reading} {name value : String} (other : name ∉ controls) :
    (∃ scan, readFilter spelling isUuid sel reading.scan name value = .ok scan ∧
      { reading with scan := scan } = next) ↔
      ∃ edit, Asks spelling isUuid sel (name, value) edit ∧ edit.apply reading = some next := by
  unfold readFilter
  constructor
  · rintro ⟨scan, read, rfl⟩
    split at read
    · next dotted =>
        obtain ⟨column, folded, read⟩ := bind_ok.mp read
        cases column with
        | none =>
            obtain ⟨param, lower, kind, ended, part, named, orders, text, passed, made⟩ := rangedBound_ok_iff.mp read
            refine ⟨_, .boundPart other dotted folded ended named orders passed, ?_⟩
            obtain ⟨range, found, rfl⟩ := Option.map_eq_some_iff.mp made
            exact Option.map_eq_some_iff.mpr ⟨range, found, rfl⟩
        | some column =>
            obtain ⟨fold, lower, kind, ended, orders, text, passed, made⟩ := valueBound_ok_iff.mp read
            refine ⟨_, .boundFold other dotted folded ended orders passed, ?_⟩
            obtain ⟨range, found, rfl⟩ := Option.map_eq_some_iff.mp made
            exact Option.map_eq_some_iff.mpr ⟨range, found, rfl⟩
    · next plain =>
        rw [Bool.not_eq_true] at plain
        obtain ⟨column, folded, read⟩ := bind_ok.mp read
        cases column with
        | none =>
            obtain ⟨part, named, text, passed, made⟩ := pinPart_ok_iff.mp read
            refine ⟨_, .pinPart other plain folded named passed, ?_⟩
            obtain ⟨equals, found, rfl⟩ := Option.map_eq_some_iff.mp made
            exact Option.map_eq_some_iff.mpr ⟨equals, found, rfl⟩
        | some column =>
            obtain ⟨text, passed, made⟩ := pinValue_ok_iff.mp read
            refine ⟨_, .pinFold other plain folded passed, ?_⟩
            obtain ⟨values, found, rfl⟩ := Option.map_eq_some_iff.mp made
            exact Option.map_eq_some_iff.mpr ⟨values, found, rfl⟩
  · rintro ⟨edit, asks, made⟩
    cases asks with
    | limit => exact absurd (by decide) other
    | cursor => exact absurd (by decide) other
    | orderBy => exact absurd (by decide) other
    | wait waits => exact absurd (List.mem_append_right _ waits) other
    | pinPart _ plain unfolded named passed =>
        obtain ⟨equals, found, rfl⟩ := Option.map_eq_some_iff.mp made
        rw [if_neg (by rw [plain]; exact Bool.false_ne_true)]
        exact ⟨_, bind_ok.mpr ⟨none, unfolded, pinPart_ok_iff.mpr ⟨_, named, _, passed,
          Option.map_eq_some_iff.mpr ⟨equals, found, rfl⟩⟩⟩, rfl⟩
    | @pinFold _ _ _ column _ plain folded passed =>
        obtain ⟨values, found, rfl⟩ := Option.map_eq_some_iff.mp made
        rw [if_neg (by rw [plain]; exact Bool.false_ne_true)]
        exact ⟨_, bind_ok.mpr ⟨some column, folded, pinValue_ok_iff.mpr ⟨_, passed,
          Option.map_eq_some_iff.mpr ⟨values, found, rfl⟩⟩⟩, rfl⟩
    | boundPart _ dotted unfolded ended named orders passed =>
        obtain ⟨range, found, rfl⟩ := Option.map_eq_some_iff.mp made
        rw [if_pos dotted]
        exact ⟨_, bind_ok.mpr ⟨none, unfolded, rangedBound_ok_iff.mpr ⟨_, _, _, ended, _, named, orders, _,
          passed, Option.map_eq_some_iff.mpr ⟨range, found, rfl⟩⟩⟩, rfl⟩
    | @boundFold _ _ _ _ column _ _ _ dotted folded ended orders passed =>
        obtain ⟨range, found, rfl⟩ := Option.map_eq_some_iff.mp made
        rw [if_pos dotted]
        exact ⟨_, bind_ok.mpr ⟨some column, folded, valueBound_ok_iff.mpr ⟨_, _, _, ended, orders, _,
          passed, Option.map_eq_some_iff.mpr ⟨range, found, rfl⟩⟩⟩, rfl⟩

/-- Which names ask for what. -/
def Edit.Named (name value : String) : Edit → Prop
  | .limit most => name = "limit" ∧ readLimit value = .ok most
  | .cursor raw => name = "cursor" ∧ raw = value
  | .orderBy raw => name = "order_by" ∧ raw = value
  | .wait => name ∈ waitParams
  | _ => name ∉ controls

theorem Asks.named {name value : String} {edit : Edit} (asks : Asks spelling isUuid sel (name, value) edit) :
    edit.Named name value := by
  cases asks with
  | limit read => exact ⟨rfl, read⟩
  | cursor => exact ⟨rfl, rfl⟩
  | orderBy => exact ⟨rfl, rfl⟩
  | wait waits => exact waits
  | pinPart other => exact other
  | pinFold other => exact other
  | boundPart other => exact other
  | boundFold other => exact other

/-- A name that is a control asks for nothing else. -/
theorem Edit.Named.control {name value : String} {edit : Edit} (named : edit.Named name value)
    (control : name ∈ controls) :
    (∃ most, edit = .limit most ∧ name = "limit" ∧ readLimit value = .ok most) ∨
      edit = .cursor value ∧ name = "cursor" ∨ edit = .orderBy value ∧ name = "order_by" ∨
      edit = .wait ∧ name ∈ waitParams := by
  cases edit with
  | limit most => exact .inl ⟨most, rfl, named⟩
  | cursor raw => exact .inr (.inl ⟨congrArg _ named.2, named.1⟩)
  | orderBy raw => exact .inr (.inr (.inl ⟨congrArg _ named.2, named.1⟩))
  | wait => exact .inr (.inr (.inr ⟨rfl, named⟩))
  | _ => exact absurd control named

/-- A parameter reads where it asks something that may still be asked. -/
theorem readParam_ok_iff {reading next : Reading} {param : String × String} :
    readParam spelling isUuid sel reading param = .ok next ↔
      ∃ edit, Asks spelling isUuid sel param edit ∧ edit.apply reading = some next := by
  obtain ⟨name, value⟩ := param
  unfold readParam
  dsimp only
  by_cases limited : name = "limit"
  · subst limited
    rw [if_pos rfl, map_ok]
    constructor
    · rintro ⟨most, read, rfl⟩
      exact ⟨_, .limit read, rfl⟩
    · rintro ⟨edit, asks, made⟩
      rcases asks.named.control (by decide) with ⟨most, rfl, -, read⟩ | ⟨-, no⟩ | ⟨-, no⟩ | ⟨-, no⟩
      · exact ⟨most, read, Option.some.inj made⟩
      · exact absurd no (by decide)
      · exact absurd no (by decide)
      · exact absurd no (by decide)
  rw [if_neg limited]
  by_cases resumed : name = "cursor"
  · subst resumed
    rw [if_pos rfl, Except.ok.injEq]
    constructor
    · rintro rfl
      exact ⟨_, .cursor value, rfl⟩
    · rintro ⟨edit, asks, made⟩
      rcases asks.named.control (by decide) with ⟨_, -, no, -⟩ | ⟨rfl, -⟩ | ⟨-, no⟩ | ⟨-, no⟩
      · exact absurd no (by decide)
      · exact Option.some.inj made
      · exact absurd no (by decide)
      · exact absurd no (by decide)
  rw [if_neg resumed]
  by_cases sorted : name = "order_by"
  · subst sorted
    rw [if_pos rfl, Except.ok.injEq]
    constructor
    · rintro rfl
      exact ⟨_, .orderBy value, rfl⟩
    · rintro ⟨edit, asks, made⟩
      rcases asks.named.control (by decide) with ⟨_, -, no, -⟩ | ⟨-, no⟩ | ⟨rfl, -⟩ | ⟨-, no⟩
      · exact absurd no (by decide)
      · exact absurd no (by decide)
      · exact Option.some.inj made
      · exact absurd no (by decide)
  rw [if_neg sorted]
  by_cases waits : name ∈ waitParams
  · rw [if_pos (by simpa using waits), Except.ok.injEq]
    constructor
    · rintro rfl
      exact ⟨_, .wait waits, rfl⟩
    · rintro ⟨edit, asks, made⟩
      rcases asks.named.control (List.mem_append_right _ waits) with ⟨_, -, no, -⟩ | ⟨-, no⟩ | ⟨-, no⟩ | ⟨rfl, -⟩
      · exact absurd no limited
      · exact absurd no resumed
      · exact absurd no sorted
      · exact Option.some.inj made
  · have other : name ∉ controls := by
      unfold controls
      simp [limited, resumed, sorted, waits]
    rw [if_neg (by simpa using waits), map_ok]
    exact readFilter_ok_iff other

/-! ## Two that are given in either order -/

/-- A reading without what it pins. -/
def Reading.bare (reading : Reading) : Reading :=
  { reading with scan := { reading.scan with equals := [], values := [] } }

/-- Two readings that ask for the same, in whichever order they pin it. -/
structure Alike (one other : Reading) : Prop where
  equals : one.scan.equals.Perm other.scan.equals
  values : one.scan.values.Perm other.scan.values
  bare : one.bare = other.bare

theorem Alike.refl (reading : Reading) : Alike reading reading := ⟨.refl _, .refl _, rfl⟩

theorem Alike.trans {one middle other : Reading} (first : Alike one middle) (second : Alike middle other) :
    Alike one other :=
  ⟨first.equals.trans second.equals, first.values.trans second.values, first.bare.trans second.bare⟩

/-- What two edits both set, of which the last one counts. -/
def Edit.Clash : Edit → Edit → Prop
  | .limit _, .limit _ => True
  | .cursor _, .cursor _ => True
  | .orderBy _, .orderBy _ => True
  | _, _ => False

theorem not_clash {name other value value' : String} {one two : Edit} (apart : name ≠ other)
    (named : one.Named name value) (named' : two.Named other value') : ¬ one.Clash two := by
  intro clash
  cases one <;> cases two <;> first
    | exact clash
    | exact apart (named.1.trans named'.1.symm)

theorem pinAt_perm {held other next : List (String × String)} {column text : String}
    (perm : held.Perm other) (pinned : pinAt held column text = some next) :
    ∃ reached, pinAt other column text = some reached ∧ next.Perm reached := by
  unfold pinAt at pinned ⊢
  rw [perm.any_eq] at pinned
  split at pinned
  · cases pinned
  · next free =>
      rw [if_neg free]
      obtain rfl := Option.some.inj pinned
      exact ⟨_, rfl, perm.append_right _⟩

theorem pinAt_swap {held middle final : List (String × String)} {column text column' text' : String}
    (first : pinAt held column text = some middle) (second : pinAt middle column' text' = some final) :
    ∃ next reached, pinAt held column' text' = some next ∧ pinAt next column text = some reached ∧
      final.Perm reached := by
  unfold pinAt at first second ⊢
  split at first
  · cases first
  · next free =>
      obtain rfl := Option.some.inj first
      split at second
      · cases second
      · next free' =>
          obtain rfl := Option.some.inj second
          rw [List.any_append, Bool.or_eq_true, not_or] at free'
          refine ⟨held ++ [(column', text')], held ++ [(column', text')] ++ [(column, text)], ?_, ?_, ?_⟩
          · rw [if_neg free'.1]
          · rw [if_neg]
            rw [List.any_append, Bool.or_eq_true, not_or]
            refine ⟨free, ?_⟩
            intro same
            refine free'.2 ?_
            rw [List.any_cons, List.any_nil, Bool.or_false, beq_iff_eq] at same ⊢
            exact same.symm
          · rw [List.append_assoc, List.append_assoc]
            exact (List.Perm.swap _ _ []).append_left held

theorem setEnd_swap {range middle final : Range} {lower lower' : Bool} {end_ end' : Bound × String}
    (first : (setEnd range "" lower end_).toOption = some middle)
    (second : (setEnd middle "" lower' end').toOption = some final) :
    ∃ next, (setEnd range "" lower' end').toOption = some next ∧
      (setEnd next "" lower end_).toOption = some final := by
  obtain ⟨below, above⟩ := range
  cases lower <;> cases lower' <;> cases below <;> cases above <;>
    simp_all [setEnd, Except.toOption] <;> subst first <;> simp_all

theorem boundAt_swap {held : Option (String × Range)} {middle final : String × Range}
    {column column' : String} {lower lower' : Bool} {end_ end' : Bound × String}
    (first : boundAt held column lower end_ = some middle)
    (second : boundAt (some middle) column' lower' end' = some final) :
    ∃ next, boundAt held column' lower' end' = some next ∧
      boundAt (some next) column lower end_ = some final := by
  unfold boundAt at first second ⊢
  rw [Option.getD_some] at second
  split at first
  · next same =>
      obtain ⟨range, ended, rfl⟩ := Option.map_eq_some_iff.mp first
      split at second
      · next same' =>
          dsimp only at same'
          subst same'
          obtain ⟨range', ended', rfl⟩ := Option.map_eq_some_iff.mp second
          obtain ⟨next, swapped, swapped'⟩ := setEnd_swap ended ended'
          refine ⟨(column, next), ?_, ?_⟩
          · rw [if_pos same, swapped]
            rfl
          · rw [Option.getD_some, if_pos rfl, swapped']
            rfl
      · cases second
  · cases first

/-- The part of a reading that an edit is of. -/
inductive Slot where
  | limit
  | cursor
  | order
  | parts
  | folds
  | part
  | fold
  | none
  deriving DecidableEq

def Edit.slot : Edit → Slot
  | .limit _ => .limit
  | .cursor _ => .cursor
  | .orderBy _ => .order
  | .wait => .none
  | .pinPart _ _ => .parts
  | .pinFold _ _ => .folds
  | .boundPart _ _ _ => .part
  | .boundFold _ _ _ => .fold

/-- Edits of different parts of a reading can be made in either order. -/
theorem apply_comm {one two : Edit} (apart : one.slot ≠ two.slot) (reading : Reading) :
    (one.apply reading).bind two.apply = (two.apply reading).bind one.apply := by
  cases one <;> cases two <;> first
    | exact absurd rfl apart
    | rfl
    | (simp only [Edit.apply, Option.bind_some, Option.map_eq_bind, Option.bind_assoc, Function.comp_def]
       done)
    | (simp only [Edit.apply, Option.bind_some, Option.map_eq_bind, Option.bind_assoc, Function.comp_def]
       exact Option.bind_comm _ _)

/-- Edits that can both be made can be made in either order. -/
theorem apply_swap {one two : Edit} (apart : ¬ one.Clash two) {reading middle final : Reading}
    (first : one.apply reading = some middle) (second : two.apply middle = some final) :
    ∃ next reached, two.apply reading = some next ∧ one.apply next = some reached ∧ Alike final reached := by
  by_cases other : one.slot = two.slot
  · cases one <;> cases two <;> try (cases other; done)
    case limit.limit => exact absurd trivial apart
    case cursor.cursor => exact absurd trivial apart
    case orderBy.orderBy => exact absurd trivial apart
    case wait.wait =>
      cases first
      cases second
      exact ⟨_, _, rfl, rfl, .refl _⟩
    case pinPart.pinPart =>
      obtain ⟨equals, pinned, rfl⟩ := Option.map_eq_some_iff.mp first
      obtain ⟨equals', pinned', rfl⟩ := Option.map_eq_some_iff.mp second
      obtain ⟨next, reached, swapped, swapped', perm⟩ := pinAt_swap pinned pinned'
      exact ⟨_, _, Option.map_eq_some_iff.mpr ⟨next, swapped, rfl⟩,
        Option.map_eq_some_iff.mpr ⟨reached, swapped', rfl⟩, perm, .refl _, rfl⟩
    case pinFold.pinFold =>
      obtain ⟨values, pinned, rfl⟩ := Option.map_eq_some_iff.mp first
      obtain ⟨values', pinned', rfl⟩ := Option.map_eq_some_iff.mp second
      obtain ⟨next, reached, swapped, swapped', perm⟩ := pinAt_swap pinned pinned'
      exact ⟨_, _, Option.map_eq_some_iff.mpr ⟨next, swapped, rfl⟩,
        Option.map_eq_some_iff.mpr ⟨reached, swapped', rfl⟩, .refl _, perm, rfl⟩
    case boundPart.boundPart =>
      obtain ⟨range, bounded, rfl⟩ := Option.map_eq_some_iff.mp first
      obtain ⟨range', bounded', rfl⟩ := Option.map_eq_some_iff.mp second
      obtain ⟨next, swapped, swapped'⟩ := boundAt_swap bounded bounded'
      exact ⟨_, _, Option.map_eq_some_iff.mpr ⟨next, swapped, rfl⟩,
        Option.map_eq_some_iff.mpr ⟨range', swapped', rfl⟩, .refl _⟩
    case boundFold.boundFold =>
      obtain ⟨range, bounded, rfl⟩ := Option.map_eq_some_iff.mp first
      obtain ⟨range', bounded', rfl⟩ := Option.map_eq_some_iff.mp second
      obtain ⟨next, swapped, swapped'⟩ := boundAt_swap bounded bounded'
      exact ⟨_, _, Option.map_eq_some_iff.mpr ⟨next, swapped, rfl⟩,
        Option.map_eq_some_iff.mpr ⟨range', swapped', rfl⟩, .refl _⟩
  · have same := apply_comm other reading
    rw [first, Option.bind_some, second] at same
    obtain ⟨next, swapped, swapped'⟩ := Option.bind_eq_some_iff.mp same.symm
    exact ⟨next, final, swapped, swapped', .refl _⟩

/-- What is asked of alike readings may be asked of both, and leaves them alike. -/
theorem apply_alike {edit : Edit} {reading other next : Reading} (alike : Alike reading other)
    (made : edit.apply reading = some next) : ∃ reached, edit.apply other = some reached ∧ Alike next reached := by
  obtain ⟨⟨equals, range, values, valueRange, order, after, limit⟩, cursor, orderBy⟩ := reading
  obtain ⟨⟨equals', range', values', valueRange', order', after', limit'⟩, cursor', orderBy'⟩ := other
  obtain ⟨parts, folds, bare⟩ := alike
  cases bare
  cases edit with
  | limit most =>
      cases made
      exact ⟨_, rfl, parts, folds, rfl⟩
  | cursor raw =>
      cases made
      exact ⟨_, rfl, parts, folds, rfl⟩
  | orderBy raw =>
      cases made
      exact ⟨_, rfl, parts, folds, rfl⟩
  | wait =>
      cases made
      exact ⟨_, rfl, parts, folds, rfl⟩
  | pinPart part text =>
      obtain ⟨pins, pinned, rfl⟩ := Option.map_eq_some_iff.mp made
      obtain ⟨reached, pinned', perm⟩ := pinAt_perm parts pinned
      exact ⟨_, Option.map_eq_some_iff.mpr ⟨reached, pinned', rfl⟩, perm, folds, rfl⟩
  | pinFold column text =>
      obtain ⟨pins, pinned, rfl⟩ := Option.map_eq_some_iff.mp made
      obtain ⟨reached, pinned', perm⟩ := pinAt_perm folds pinned
      exact ⟨_, Option.map_eq_some_iff.mpr ⟨reached, pinned', rfl⟩, parts, perm, rfl⟩
  | boundPart part lower end_ =>
      obtain ⟨range, bounded, rfl⟩ := Option.map_eq_some_iff.mp made
      exact ⟨_, Option.map_eq_some_iff.mpr ⟨range, bounded, rfl⟩, parts, folds, rfl⟩
  | boundFold column lower end_ =>
      obtain ⟨range, bounded, rfl⟩ := Option.map_eq_some_iff.mp made
      exact ⟨_, Option.map_eq_some_iff.mpr ⟨range, bounded, rfl⟩, parts, folds, rfl⟩

/-- Parameters of different names are read alike in every order. -/
theorem read_perm {params others : List (String × String)} (perm : params.Perm others)
    (distinct : (params.map Prod.fst).Nodup) {reading : Reading}
    (read : params.foldlM (readParam spelling isUuid sel) {} = .ok reading) :
    ∃ reached, others.foldlM (readParam spelling isUuid sel) {} = .ok reached ∧ Alike reading reached := by
  have apart : params.Pairwise fun one other => one.1 ≠ other.1 := List.pairwise_map.mp distinct
  refine pass_perm Alike.refl Alike.trans Ne.symm ?_ ?_ perm apart (Alike.refl _) read
  · intro state other next param alike stepped
    obtain ⟨edit, asks, made⟩ := readParam_ok_iff.mp stepped
    obtain ⟨reached, made', alike⟩ := apply_alike alike made
    exact ⟨reached, readParam_ok_iff.mpr ⟨edit, asks, made'⟩, alike⟩
  · intro state middle final one other apart first second
    obtain ⟨edit, asks, made⟩ := readParam_ok_iff.mp first
    obtain ⟨edit', asks', made'⟩ := readParam_ok_iff.mp second
    obtain ⟨next, reached, swapped, swapped', alike⟩ :=
      apply_swap (not_clash apart asks.named asks'.named) made made'
    exact ⟨next, reached, readParam_ok_iff.mpr ⟨edit', asks', swapped⟩,
      readParam_ok_iff.mpr ⟨edit, asks, swapped'⟩, alike⟩

/-- Nothing is pinned twice. -/
theorem pins_nodup {params : List (String × String)} {reading : Reading}
    (read : params.foldlM (readParam spelling isUuid sel) {} = .ok reading) :
    (reading.scan.equals.map Prod.fst).Nodup ∧ (reading.scan.values.map Prod.fst).Nodup := by
  have pinned {held next : List (String × String)} {column text : String}
      (once : (held.map Prod.fst).Nodup) (made : pinAt held column text = some next) :
      (next.map Prod.fst).Nodup := by
    unfold pinAt at made
    split at made
    · cases made
    · next free =>
        obtain rfl := Option.some.inj made
        rw [List.map_append, List.nodup_append]
        refine ⟨once, List.nodup_singleton _, ?_⟩
        intro name held other last same
        obtain ⟨given, member, rfl⟩ := List.mem_map.mp held
        obtain rfl := List.mem_singleton.mp last
        exact free (List.any_eq_true.mpr ⟨given, member, beq_iff_eq.mpr same⟩)
  refine pass_keeps (fun _ => True) (fun reading => (reading.scan.equals.map Prod.fst).Nodup ∧
    (reading.scan.values.map Prod.fst).Nodup) ?_ (fun _ _ => trivial) ⟨List.nodup_nil, List.nodup_nil⟩ read
  intro state next param _ once stepped
  obtain ⟨edit, -, made⟩ := readParam_ok_iff.mp stepped
  cases edit with
  | limit => cases made; exact once
  | cursor => cases made; exact once
  | orderBy => cases made; exact once
  | wait => cases made; exact once
  | pinPart part text =>
      obtain ⟨equals, found, rfl⟩ := Option.map_eq_some_iff.mp made
      exact ⟨pinned once.1 found, once.2⟩
  | pinFold column text =>
      obtain ⟨values, found, rfl⟩ := Option.map_eq_some_iff.mp made
      exact ⟨once.1, pinned once.2 found⟩
  | boundPart =>
      obtain ⟨range, -, rfl⟩ := Option.map_eq_some_iff.mp made
      exact once
  | boundFold =>
      obtain ⟨range, -, rfl⟩ := Option.map_eq_some_iff.mp made
      exact once

end Hekla.Reads.Tables
