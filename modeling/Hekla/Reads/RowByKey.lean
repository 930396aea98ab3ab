import Hekla.Reads.TablePages
import Hekla.Reads.TableParams

/-!
# A row by its key

A row is named by every parameter of the first fold, each once, and read by the
statement that pins the whole key.  What a page lists is found again under the key
that it shows.
-/

namespace Hekla.Reads.Tables

open Hekla.Library Hekla.Host
open Hekla.Derived (FieldKind oneRow)

/-! ## The request -/

section Request

variable (spelling : Spelling) (isUuid : String → Bool)

def notAKeyPart (sel : Selection) (name : String) : Refusal :=
  let first := sel.first
  let params := ", ".intercalate sel.params
  .invalid (s!"`{name}` is not one of `{first}`'s parameters ({params}), which are all it is named " ++
    "by")

/-- One parameter of a key, filed at its place. -/
def givePart (sel : Selection) (given : List (Option String)) (param : String × String) :
    Except Refusal (List (Option String)) :=
  if waitParams.contains param.1 then .ok given
  else
    match sel.params.idxOf? param.1 with
    | none => .error (notAKeyPart sel param.1)
    | some index =>
        if (given.getD index none).isSome then
          let name := param.1
          .error (.invalid s!"`{name}` is given twice")
        else
          match sel.main.key[index]? with
          | none => .error (.invalid "index out of bounds")
          | some part =>
              (bound spelling isUuid sel.main part.1 param.1 param.2).map fun text =>
                given.set index (some text)

def givenPart (sel : Selection) : Option String × String → Except Refusal String
  | (some text, _) => .ok text
  | (none, name) =>
      let first := sel.first
      let params := ", ".intercalate sel.params
      .error (.invalid s!"`{first}` is named by all of ({params}), and `{name}` is missing")

/-- Read a whole key off a query string: every parameter of the first fold, once. -/
def parseKey (sel : Selection) (params : List (String × String)) : Except Refusal (List String) := do
  let given ← params.foldlM (givePart spelling isUuid sel) (List.replicate sel.params.length none)
  (given.zip sel.params).mapM (givenPart sel)

/-- The scan that pins a whole key. -/
def keyScan (table : TableDef) (key : List String) : Scan :=
  { equals := (table.key.map Prod.fst).zip key, limit := 1 }

variable {tables : List TableDef} (store : Store spelling tables) (sel : Selection)
  (keystore : Option KeyStore)

/-- One row by its whole key, with the position it was read at. -/
def getOne (key : List String) : Except String (Option Json × Nat) :=
  (select spelling store sel (keyScan sel.main key) keystore).map fun rows =>
    (rows.getLast?.map Prod.fst, store.position)

/-- One fold's value for one key. -/
def getFold (key : List String) : Except String (Option Json × Nat) :=
  (getOne spelling store sel keystore key).map fun found =>
    (found.1.map fun row => (row.get sel.first).getD .null, found.2)

def readRow (params : List (String × String)) : Except Failed (Option Json × Nat) := do
  let key ← (parseKey spelling isUuid sel params).mapError Failed.refused
  (getOne spelling store sel keystore key).mapError Failed.internal

def readFold (params : List (String × String)) : Except Failed (Option Json × Nat) := do
  let key ← (parseKey spelling isUuid sel params).mapError Failed.refused
  (getFold spelling store sel keystore key).mapError Failed.internal

end Request

/-! ## The key a row shows -/

/-- A served scalar as a query string spells it. -/
def spokenText : Json → String
  | .bool true => "true"
  | .bool false => "false"
  | json => (scalarString json).getD ""

/-- The parameters that name a row which was listed. -/
def keyParams (sel : Selection) (item : Json) : List (String × String) :=
  sel.params.map fun param => (param, spokenText ((item.get param).getD .null))

/-- What heklang gives a key: its parts are not sealed, and each is of a kind that has an
order, or a flag. -/
def Keyable (field : FieldMeta) : Prop :=
  field.sealedUnder = none ∧ (field.kind.isKeyable = true ∨ field.kind = .bool)

/-- What heklang gives the names of a selection.  Parameters are told apart from each other and
from the folds, and are not capitalised. -/
structure Nameable (sel : Selection) : Prop where
  distinct : (sel.params ++ sel.folds.map ColumnDef.fold).Nodup
  plain : ∀ param ∈ sel.params, startsUpper param = false ∧ '.' ∉ param.toList
  keyed : ∀ part ∈ sel.main.key, Keyable part.2

variable {spelling : Spelling} {isUuid : String → Bool} {codec : Codec Cursor}
  {tables : List TableDef} {sel : Selection}

/-- The text a key part is served as is the stored one, unless it names an instant or a flag. -/
theorem spokenText_fromSql {field : FieldMeta} {cell : Cell} (held : Held spelling field.kind cell)
    (plain : field.sealedUnder = none) (keyable : field.kind.isKeyable = true)
    (untimed : field.kind ≠ .timestamp) : spokenText (fromSql spelling field cell) = keyText cell := by
  obtain ⟨text, named⟩ := held
  cases kind : field.kind with
  | i64 =>
      simp only [kind, coerceValue, FieldKind.base] at named
      cases read : parseI64 text with
      | none => simp [read] at named
      | some number =>
          rw [read] at named
          cases named
          simp [fromSql, plain, kind, FieldKind.base, spokenText, scalarString, keyText]
  | timestamp => exact absurd kind untimed
  | text most =>
      rw [kind] at named
      cases named
      simp [fromSql, plain, kind, FieldKind.base, spokenText, scalarString, keyText]
  | uuid =>
      rw [kind] at named
      cases named
      simp [fromSql, plain, kind, FieldKind.base, spokenText, scalarString, keyText]
  | oneOf variants =>
      rw [kind] at named
      cases named
      simp [fromSql, plain, kind, FieldKind.base, spokenText, scalarString, keyText]
  | _ =>
      rw [kind] at keyable
      cases keyable

/-- A flag is served as the word that names it. -/
theorem boundMeta_flag {field : FieldMeta} {cell : Cell} (held : Held spelling field.kind cell)
    (plain : field.sealedUnder = none) (kind : field.kind = .bool) (named : String) :
    ∃ text, boundMeta spelling isUuid field named (spokenText (fromSql spelling field cell)) = .ok text ∧
      coerceValue spelling field.kind text = .ok cell := by
  obtain ⟨text, read⟩ := held
  have flag : cell = .integer 1 ∨ cell = .integer 0 := by
    rw [kind] at read
    simp only [coerceValue, FieldKind.base] at read
    split at read
    · exact .inl (Except.ok.inj read).symm
    · split at read
      · exact .inr (Except.ok.inj read).symm
      · cases read
  rcases flag with rfl | rfl
  · exact ⟨"true", by simp [boundMeta, kind, FieldKind.base, fromSql, plain, spokenText, coerceValue],
      by rw [kind]; rfl⟩
  · exact ⟨"false", by simp [boundMeta, kind, FieldKind.base, fromSql, plain, spokenText, coerceValue],
      by rw [kind]; rfl⟩

/-- An instant is served in the spelling a filter takes. -/
theorem boundMeta_instant (lawful : spelling.Lawful) {field : FieldMeta} {cell : Cell}
    (held : Held spelling field.kind cell) (plain : field.sealedUnder = none)
    (kind : field.kind = .timestamp) (named : String) :
    ∃ text, boundMeta spelling isUuid field named (spokenText (fromSql spelling field cell)) = .ok text ∧
      coerceValue spelling field.kind text = .ok cell := by
  have base : field.kind.base = .timestamp := by
    rw [kind]
    rfl
  obtain ⟨given, read⟩ := held
  rw [coerceValue_timestamp base] at read
  cases instant : (spelling.timestamp given).bind spelling.storedTimestamp with
  | none =>
      rw [instant] at read
      cases read
  | some stored =>
      rw [instant] at read
      obtain rfl := Except.ok.inj read
      obtain ⟨micros, -, spelt⟩ := Option.bind_eq_some_iff.mp instant
      have range := lawful.same_range micros
      rw [spelt] at range
      obtain ⟨served, shown⟩ := Option.isSome_iff_exists.mp range
      have text : spokenText (fromSql spelling field (.text stored)) = served := by
        simp [fromSql, plain, base, servedTimestamp, lawful.stored_reads spelt, shown, spokenText,
          scalarString]
      obtain ⟨again, same, bound⟩ := coerce_served lawful base shown
      obtain rfl := Option.some.inj (spelt.symm.trans same)
      refine ⟨served, ?_, bound⟩
      rw [text, boundMeta_timestamp base, lawful.served_reads shown, Option.bind_some, shown]
      rfl

/-- The text a key part is served as passes its check exactly where the stored one does, and
what the check gives back binds the same cell. -/
theorem boundMeta_served (lawful : spelling.Lawful) {field : FieldMeta} {cell : Cell}
    (held : Held spelling field.kind cell) (keyable : Keyable field) (named : String) :
    (Passes spelling isUuid field.kind (keyText cell) →
      ∃ text, boundMeta spelling isUuid field named (spokenText (fromSql spelling field cell)) = .ok text ∧
        coerceValue spelling field.kind text = .ok cell) ∧
    (¬ Passes spelling isUuid field.kind (keyText cell) → ∃ why,
      boundMeta spelling isUuid field named (spokenText (fromSql spelling field cell)) = .error why) := by
  obtain ⟨plain, ordered | flag⟩ := keyable
  · by_cases timed : field.kind = .timestamp
    · refine ⟨fun _ => boundMeta_instant lawful held plain timed named, fun barred => absurd ?_ barred⟩
      rw [timed]
      trivial
    · rw [spokenText_fromSql held plain ordered timed]
      exact boundMeta_keyText lawful held named
  · refine ⟨fun _ => boundMeta_flag held plain flag named, fun barred => absurd ?_ barred⟩
    rw [flag]
    trivial

/-! ## What is given -/

/-- A parameter that fills a place of the key, and the text that it is bound as. -/
def Fills (spelling : Spelling) (isUuid : String → Bool) (sel : Selection) (param : String × String)
    (index : Nat) (text : String) : Prop :=
  param.1 ∉ waitParams ∧ sel.params.idxOf? param.1 = some index ∧
    ∃ part, sel.main.key[index]? = some part ∧
      bound spelling isUuid sel.main part.1 param.1 param.2 = .ok text

variable {given next final : List (Option String)} {param : String × String} {params : List (String × String)}

theorem givePart_ok_iff : givePart spelling isUuid sel given param = .ok next ↔
    (param.1 ∈ waitParams ∧ next = given) ∨
      ∃ index text, Fills spelling isUuid sel param index text ∧ given.getD index none = none ∧
        next = given.set index (some text) := by
  unfold givePart Fills
  by_cases waits : param.1 ∈ waitParams
  · simp [waits, eq_comm]
  · rw [if_neg (by simpa using waits)]
    simp only [waits, false_and, not_false_eq_true, true_and, false_or]
    cases place : sel.params.idxOf? param.1 with
    | none => simp
    | some index =>
        cases filled : given.getD index none with
        | some text =>
            simp only [filled, Option.isSome_some, if_true, reduceCtorEq, Option.some.injEq, false_iff]
            rintro ⟨other, text', ⟨rfl, -⟩, empty, -⟩
            rw [filled] at empty
            cases empty
        | none =>
            simp only [filled, Option.isSome_none, Bool.false_eq_true, if_false, Option.some.injEq]
            cases part : sel.main.key[index]? with
            | none =>
                simp only [reduceCtorEq, false_iff]
                rintro ⟨other, text, ⟨rfl, known, found, -⟩, -⟩
                rw [part] at found
                cases found
            | some known =>
                cases passed : bound spelling isUuid sel.main known.1 param.1 param.2 with
                | error why =>
                    simp only [passed, Except.map, reduceCtorEq, false_iff]
                    rintro ⟨other, text, ⟨rfl, known', found, read⟩, -⟩
                    cases part.symm.trans found
                    rw [passed] at read
                    cases read
                | ok text =>
                    simp only [passed, Except.map, Except.ok.injEq]
                    constructor
                    · rintro rfl
                      exact ⟨index, text, ⟨rfl, known, part, passed⟩, filled, rfl⟩
                    · rintro ⟨other, text', ⟨rfl, known', found, read⟩, -, rfl⟩
                      cases part.symm.trans found
                      rw [passed] at read
                      cases read
                      rfl

theorem Fills.lt {index : Nat} {text : String} (fills : Fills spelling isUuid sel param index text) :
    index < sel.params.length := by
  obtain ⟨found, -⟩ := List.idxOf?_eq_some_iff.mp fills.2.1
  exact found

/-- A place of the key holds what was given for it. -/
theorem mem_filed (wide : given.length = sel.params.length)
    (read : params.foldlM (givePart spelling isUuid sel) given = .ok final) :
    final.length = sel.params.length ∧ ∀ index text, final.getD index none = some text ↔
      given.getD index none = some text ∨ ∃ param ∈ params, Fills spelling isUuid sel param index text := by
  induction params generalizing given with
  | nil =>
      cases read
      simp [wide]
  | cons param params ih =>
      rw [List.foldlM_cons] at read
      obtain ⟨next, one, rest⟩ := bind_ok.mp read
      rcases givePart_ok_iff.mp one with ⟨waits, rfl⟩ | ⟨place, filled, fills, empty, rfl⟩
      · obtain ⟨wide', held⟩ := ih wide rest
        refine ⟨wide', fun index text => ?_⟩
        rw [held, List.exists_mem_cons_iff]
        have idle : ¬ Fills spelling isUuid sel param index text := fun fills => fills.1 waits
        simp [idle]
      · obtain ⟨wide', held⟩ := ih (by rw [List.length_set, wide]) rest
        refine ⟨wide', fun index text => ?_⟩
        rw [held, List.exists_mem_cons_iff, ← or_assoc]
        refine or_congr_left ?_
        by_cases same : index = place
        · subst same
          have inside : index < given.length := wide ▸ fills.lt
          have put : (given.set index (some filled)).getD index none = some filled := by
            simp [List.getD_eq_getElem?_getD, List.getElem?_set_self inside]
          rw [put, empty]
          constructor
          · intro found
            cases found
            exact .inr fills
          · rintro (never | other)
            · cases never
            · obtain ⟨-, -, part, known, passed⟩ := fills
              obtain ⟨-, -, part', known', passed'⟩ := other
              cases known.symm.trans known'
              exact congrArg some (Except.ok.inj (passed.symm.trans passed'))
        · have apart : (given.set place (some filled)).getD index none = given.getD index none := by
            simp [List.getD_eq_getElem?_getD, List.getElem?_set_ne (Ne.symm same)]
          have other : ¬ Fills spelling isUuid sel param index text := fun other =>
            same (Option.some.inj (other.2.1.symm.trans fills.2.1))
          rw [apart]
          simp [other]

/-- Parameters of different places that each pass fill the key. -/
theorem given_ok (wide : given.length = sel.params.length) (distinct : (params.map Prod.fst).Nodup)
    (each : ∀ param ∈ params, ∃ index text, Fills spelling isUuid sel param index text ∧
      given.getD index none = none) :
    ∃ final, params.foldlM (givePart spelling isUuid sel) given = .ok final := by
  induction params generalizing given with
  | nil => exact ⟨given, rfl⟩
  | cons param params ih =>
      rw [List.map_cons, List.nodup_cons] at distinct
      obtain ⟨place, filled, fills, empty⟩ := each param List.mem_cons_self
      have one : givePart spelling isUuid sel given param = .ok (given.set place (some filled)) :=
        givePart_ok_iff.mpr (.inr ⟨place, filled, fills, empty, rfl⟩)
      rw [List.foldlM_cons, one]
      refine ih (by rw [List.length_set, wide]) distinct.2 fun later member => ?_
      obtain ⟨index, text, other, open_⟩ := each later (List.mem_cons_of_mem _ member)
      refine ⟨index, text, other, ?_⟩
      have apart : place ≠ index := by
        rintro rfl
        obtain ⟨inside, here, -⟩ := List.idxOf?_eq_some_iff.mp fills.2.1
        obtain ⟨_, there, -⟩ := List.idxOf?_eq_some_iff.mp other.2.1
        exact distinct.1 (List.mem_map.mpr ⟨later, member, there.symm.trans here⟩)
      simpa [List.getD_eq_getElem?_getD, List.getElem?_set_ne apart] using open_

theorem givenParts_ok_iff {given : List (Option String)} {names key : List String}
    (wide : given.length = names.length) :
    (given.zip names).mapM (givenPart sel) = .ok key ↔ given = key.map some := by
  induction given generalizing names key with
  | nil =>
      cases key with
      | nil => simp [pure, Except.pure]
      | cons text key => simp [pure, Except.pure]
  | cons part given ih =>
      cases names with
      | nil => cases wide
      | cons name names =>
          rw [List.zip_cons_cons, List.mapM_cons, bind_ok]
          constructor
          · rintro ⟨text, one, rest⟩
            obtain ⟨texts, others, made⟩ := bind_ok.mp rest
            cases made
            cases part with
            | none => cases one
            | some text =>
                cases one
                rw [(ih (Nat.succ.inj wide)).mp others]
                rfl
          · intro same
            cases key with
            | nil => cases same
            | cons text texts =>
                obtain ⟨rfl, rest⟩ := List.cons.inj same
                exact ⟨text, rfl, bind_ok.mpr ⟨texts, (ih (Nat.succ.inj wide)).mpr rest, rfl⟩⟩

/-- A key is read where every one of its places is given, and no other parameter is. -/
theorem parseKey_ok_iff {key : List String} : parseKey spelling isUuid sel params = .ok key ↔
    params.foldlM (givePart spelling isUuid sel) (List.replicate sel.params.length none) =
      .ok (key.map some) := by
  unfold parseKey
  rw [bind_ok]
  constructor
  · rintro ⟨given, read, named⟩
    rwa [(givenParts_ok_iff (mem_filed List.length_replicate read).1).mp named] at read
  · intro read
    exact ⟨_, read, (givenParts_ok_iff (mem_filed List.length_replicate read).1).mpr rfl⟩

theorem mem_key {key : List String} (read : parseKey spelling isUuid sel params = .ok key) :
    key.length = sel.params.length ∧ ∀ index text, key[index]? = some text ↔
      ∃ param ∈ params, Fills spelling isUuid sel param index text := by
  obtain ⟨wide, held⟩ := mem_filed List.length_replicate (parseKey_ok_iff.mp read)
  refine ⟨by rwa [List.length_map] at wide, fun index text => ?_⟩
  have whole := held index text
  have empty : (List.replicate sel.params.length (none : Option String)).getD index none = none := by
    rw [List.getD_eq_getElem?_getD, List.getElem?_replicate]
    split <;> rfl
  rw [empty] at whole
  have same : (key.map some).getD index none = key[index]? := by
    rw [List.getD_eq_getElem?_getD, List.getElem?_map]
    cases key[index]? <;> rfl
  rw [same] at whole
  simpa using whole

/-! ## The list route -/

/-- A scan that pins the places of a key that are given. -/
structure Pins (sel : Selection) (pins : List (String × String)) (given : List (Option String)) : Prop where
  once : (pins.map Prod.fst).Nodup
  given : ∀ pin ∈ pins, ∃ index part, sel.main.key[index]? = some part ∧ part.1 = pin.1 ∧
    given.getD index none = some pin.2

/-- What a parameter pins, where it fills a place of the key. -/
def Pinning (spelling : Spelling) (isUuid : String → Bool) (sel : Selection) (param pin : String × String) :
    Prop :=
  ∃ index part, Fills spelling isUuid sel param index pin.2 ∧ sel.main.key[index]? = some part ∧
    part.1 = pin.1

theorem index_of_part (keys : (sel.main.key.map Prod.fst).Nodup) {one other : Nat}
    {first second : String × FieldMeta} (here : sel.main.key[one]? = some first)
    (there : sel.main.key[other]? = some second) (same : first.1 = second.1) : one = other := by
  have inside : one < (sel.main.key.map Prod.fst).length := by
    simpa using (List.getElem?_eq_some_iff.mp here).1
  exact (List.getElem?_inj inside keys).mp (by simp [here, there, same])

/-- What fills a place of the key is pinned by a scan that is given the same. -/
theorem readParam_of_givePart (named : Nameable sel) (keys : (sel.main.key.map Prod.fst).Nodup)
    (uncontrolled : ∀ param ∈ sel.params, param ∉ ["limit", "cursor", "order_by"])
    {pins : List (String × String)} (pinned : Pins sel pins given) (wide : given.length = sel.params.length)
    (read : givePart spelling isUuid sel given param = .ok next) :
    ∃ pins', readParam spelling isUuid sel { scan := { equals := pins } } param =
        .ok { scan := { equals := pins' } } ∧ Pins sel pins' next ∧
      ∀ pin, pin ∈ pins' ↔ pin ∈ pins ∨ Pinning spelling isUuid sel param pin := by
  obtain ⟨name, value⟩ := param
  rcases givePart_ok_iff.mp read with ⟨waits, rfl⟩ | ⟨index, text, fills, empty, rfl⟩
  · refine ⟨pins, readParam_ok_iff.mpr ⟨.wait, .wait waits, rfl⟩, pinned, fun pin => ?_⟩
    have idle : ¬ Pinning spelling isUuid sel (name, value) pin := fun ⟨_, _, fills, _⟩ => fills.1 waits
    simp [idle]
  · obtain ⟨active, place, part, known, passed⟩ := fills
    obtain ⟨inside, spelt, -⟩ := List.idxOf?_eq_some_iff.mp place
    have member : name ∈ sel.params := List.mem_of_getElem spelt
    obtain ⟨lower, dotless⟩ := named.plain name member
    have other : name ∉ controls := by
      unfold controls
      rw [List.mem_append, not_or]
      exact ⟨uncontrolled name member, active⟩
    have plain : name.toList.contains '.' = false := by simpa using dotless
    have unfolded : filteredFold sel name = .ok none := by
      unfold filteredFold
      rw [lower]
      rfl
    have part_ : paramPart sel name = .ok part.1 := by
      simp [paramPart, Selection.part, place, known]
    have open_ : part.1 ∉ pins.map Prod.fst := by
      intro again
      obtain ⟨pin, held, same⟩ := List.mem_map.mp again
      obtain ⟨index', part', known', same', filled⟩ := pinned.given pin held
      obtain rfl := index_of_part keys known known' (same.symm.trans same'.symm)
      rw [empty] at filled
      cases filled
    have once : pinAt pins part.1 text = some (pins ++ [(part.1, text)]) := by
      unfold pinAt
      rw [if_neg]
      intro again
      obtain ⟨pin, held, same⟩ := List.any_eq_true.mp again
      exact open_ (List.mem_map.mpr ⟨pin, held, beq_iff_eq.mp same⟩)
    refine ⟨pins ++ [(part.1, text)], readParam_ok_iff.mpr ⟨.pinPart part.1 text,
      .pinPart other plain unfolded part_ passed, by simp [Edit.apply, once]⟩, ⟨?_, ?_⟩, fun pin => ?_⟩
    · rw [List.map_append, List.nodup_append]
      refine ⟨pinned.once, List.nodup_singleton _, ?_⟩
      rintro one held two last rfl
      obtain rfl := List.mem_singleton.mp last
      exact open_ held
    · intro pin member
      rcases List.mem_append.mp member with held | last
      · obtain ⟨index', part', known', same', filled⟩ := pinned.given pin held
        have apart : index ≠ index' := by
          rintro rfl
          rw [empty] at filled
          cases filled
        refine ⟨index', part', known', same', ?_⟩
        simpa [List.getD_eq_getElem?_getD, List.getElem?_set_ne apart] using filled
      · obtain rfl := List.mem_singleton.mp last
        refine ⟨index, part, known, rfl, ?_⟩
        simp [List.getD_eq_getElem?_getD, List.getElem?_set_self (wide ▸ inside)]
    · rw [List.mem_append, List.mem_singleton]
      refine or_congr_right ⟨?_, ?_⟩
      · rintro rfl
        exact ⟨index, part, ⟨active, place, part, known, passed⟩, known, rfl⟩
      · rintro ⟨index', part', ⟨-, place', part'', known'', passed'⟩, known', same⟩
        cases place.symm.trans place'
        cases known.symm.trans known'
        cases known.symm.trans known''
        exact Prod.ext same.symm (Except.ok.inj (passed'.symm.trans passed))

/-- A query string that is read as a whole key is read by a scan as the pins of it. -/
theorem reading_of_given (named : Nameable sel) (keys : (sel.main.key.map Prod.fst).Nodup)
    (uncontrolled : ∀ param ∈ sel.params, param ∉ ["limit", "cursor", "order_by"])
    {pins : List (String × String)} (pinned : Pins sel pins given) (wide : given.length = sel.params.length)
    (read : params.foldlM (givePart spelling isUuid sel) given = .ok final) :
    ∃ pins', params.foldlM (readParam spelling isUuid sel) { scan := { equals := pins } } =
        .ok { scan := { equals := pins' } } ∧ Pins sel pins' final ∧
      ∀ pin, pin ∈ pins' ↔ pin ∈ pins ∨ ∃ param ∈ params, Pinning spelling isUuid sel param pin := by
  induction params generalizing given pins with
  | nil =>
      cases read
      exact ⟨pins, rfl, pinned, by simp⟩
  | cons param params ih =>
      rw [List.foldlM_cons] at read
      obtain ⟨next, one, rest⟩ := bind_ok.mp read
      obtain ⟨middle, step, pinned', held⟩ := readParam_of_givePart named keys uncontrolled pinned wide one
      have wide' : next.length = sel.params.length := by
        rcases givePart_ok_iff.mp one with ⟨-, rfl⟩ | ⟨_, _, -, -, rfl⟩
        · exact wide
        · rw [List.length_set, wide]
      obtain ⟨pins', steps, pinned'', held'⟩ := ih pinned' wide' rest
      refine ⟨pins', ?_, pinned'', fun pin => ?_⟩
      · rw [List.foldlM_cons, step]
        exact steps
      · rw [held', held, List.exists_mem_cons_iff, or_assoc]

/-! ## The row that is pinned -/

section Pinned

variable {table : TableDef} {pins : List (String × String)} {rows : List Row} {row : Row}

/-- A row that holds what every pin names. -/
def Pinned (spelling : Spelling) (table : TableDef) (pins : List (String × String)) (row : Row) : Prop :=
  ∀ pin ∈ pins, ∃ kind, partKind table pin.1 = .ok kind ∧
    coerceValue spelling kind pin.2 = .ok (row pin.1)

theorem holds_eq_iff {column : String} {cell : Cell} (present : row column ≠ .null) (bound : cell ≠ .null) :
    (Condition.compares [column] .eq [cell]).holds row = true ↔ cell = row column := by
  simp only [Condition.holds, List.map_cons, List.map_nil, versus, Cell.versus_of_present present bound]
  cases found : compare (row column) cell with
  | eq => simp [Operator.holds, compare_eq_iff_eq.mp found]
  | lt => simp [Operator.holds, (compare_lt_iff_lt.mp found).ne']
  | gt => simp [Operator.holds, (compare_gt_iff_gt.mp found).ne]

/-- The statement of pins alone. -/
theorem conditions_of_pins (names : ∀ pin ∈ pins, Names spelling (partKind table) pin.1 pin.2) (limit : Nat) :
    ∃ conditions, pins.mapM (pinned spelling (partKind table)) = .ok conditions ∧
      filterConditions spelling table { equals := pins, limit } = .ok (conditions ++ presence none) ∧
      conditionsOf spelling table { equals := pins, limit } = conditions := by
  obtain ⟨conditions, bound⟩ := exists_mapM_ok fun pin member => pinned_ok (names pin member)
  have filter : filterConditions spelling table { equals := pins, limit } = .ok (conditions ++ presence none) := by
    refine bind_ok.mpr ⟨_, bound, ?_⟩
    simp [boundedAny, presence, bind, Except.bind, pure, Except.pure]
  refine ⟨conditions, bound, filter, ?_⟩
  unfold conditionsOf selectConditions
  rw [filter]
  simp [presence, afterCondition, bind, Except.bind, Except.toOption]

theorem sound_of_pins (names : ∀ pin ∈ pins, Names spelling (partKind table) pin.1 pin.2) {limit : Nat}
    (positive : 0 < limit) : Sound spelling table { equals := pins, limit } := by
  obtain ⟨conditions, -, filter, -⟩ := conditions_of_pins names limit
  refine ⟨positive, ⟨conditions, filter⟩, fun by_ never => ?_, fun after never => ?_⟩
  · cases never
  · cases never

theorem admits_pins (names : ∀ pin ∈ pins, Names spelling (partKind table) pin.1 pin.2) (limit : Nat)
    (present : ∀ pin ∈ pins, row pin.1 ≠ .null) :
    Statement.admits (conditionsOf spelling table { equals := pins, limit }) row = true ↔
      Pinned spelling table pins row := by
  obtain ⟨conditions, bound, -, same⟩ := conditions_of_pins names limit
  rw [same]
  unfold Statement.admits Pinned
  rw [List.all_eq_true]
  constructor
  · intro held pin member
    obtain ⟨kind, cell, known, read⟩ := names pin member
    have listed : Condition.compares [pin.1] .eq [cell] ∈ conditions :=
      (mem_of_mapM_ok bound _).mpr ⟨pin, member, bind_ok.mpr ⟨kind, known, bind_ok.mpr ⟨cell, read, rfl⟩⟩⟩
    refine ⟨kind, known, ?_⟩
    rw [← (holds_eq_iff (present pin member) (coerceValue_ne_null read)).mp (held _ listed)]
    exact read
  · intro held condition listed
    obtain ⟨pin, member, made⟩ := (mem_of_mapM_ok bound _).mp listed
    obtain ⟨kind, known, made⟩ := bind_ok.mp made
    obtain ⟨cell, read, made⟩ := bind_ok.mp made
    cases made
    obtain ⟨kind', known', read'⟩ := held pin member
    cases known.symm.trans known'
    cases read.symm.trans read'
    exact (holds_eq_iff (present pin member) (present pin member)).mpr rfl

/-- A whole key is pinned by one row at most. -/
theorem matching_pins (names : ∀ pin ∈ pins, Names spelling (partKind table) pin.1 pin.2) (limit : Nat)
    (keyed : ∀ pin ∈ pins, pin.1 ∈ table.key.map Prod.fst) (whole : ∀ part ∈ table.key, part.1 ∈ pins.map Prod.fst)
    (holds : ∀ row ∈ rows, table.Holds spelling row)
    (distinct : (rows.map fun row => table.keyColumns.map row).Nodup) :
    (∃ row ∈ rows, (∀ other ∈ rows, Pinned spelling table pins other ↔ other = row) ∧
      matching spelling table { equals := pins, limit } rows = [row]) ∨
    ((∀ row ∈ rows, ¬ Pinned spelling table pins row) ∧
      matching spelling table { equals := pins, limit } rows = []) := by
  have present (row : Row) (member : row ∈ rows) : ∀ pin ∈ pins, row pin.1 ≠ .null := by
    intro pin held
    obtain ⟨part, known, same⟩ := List.mem_map.mp (keyed pin held)
    exact same ▸ ((holds row member).keyed part known).ne_null
  have mem (row : Row) : row ∈ matching spelling table { equals := pins, limit } rows ↔
      row ∈ rows ∧ Pinned spelling table pins row := by
    unfold matching
    rw [Statement.mem_sorted]
    exact and_congr_right fun member => admits_pins names limit (present row member)
  have same (one other : Row) (first : one ∈ rows ∧ Pinned spelling table pins one)
      (second : other ∈ rows ∧ Pinned spelling table pins other) :
      table.keyColumns.map one = table.keyColumns.map other := by
    unfold TableDef.keyColumns
    split
    · next keyless =>
        have none_ := List.isEmpty_iff.mp keyless
        simp [(holds one first.1).guarded none_, (holds other second.1).guarded none_]
    · rw [List.map_map, List.map_map]
      refine List.map_congr_left fun part member => ?_
      obtain ⟨pin, held, named⟩ := List.mem_map.mp (whole part member)
      obtain ⟨kind, known, read⟩ := first.2 pin held
      obtain ⟨kind', known', read'⟩ := second.2 pin held
      cases known.symm.trans known'
      have cells := Except.ok.inj (read.symm.trans read')
      rwa [named] at cells
  have apart : ((matching spelling table { equals := pins, limit } rows).map
      fun row => table.keyColumns.map row).Nodup :=
    ((ordered_perm _ _ _).map _).nodup_iff.mpr (distinct.sublist (List.filter_sublist.map _))
  cases found : matching spelling table { equals := pins, limit } rows with
  | nil =>
      refine .inr ⟨fun row member held => ?_, rfl⟩
      have listed := (mem row).mpr ⟨member, held⟩
      rw [found] at listed
      cases listed
  | cons row rest =>
      have first := (mem row).mp (found ▸ List.mem_cons_self)
      cases rest with
      | nil =>
          refine .inl ⟨row, first.1, fun other member => ⟨fun held => ?_, ?_⟩, rfl⟩
          · have listed := (mem other).mpr ⟨member, held⟩
            rw [found] at listed
            exact List.mem_singleton.mp listed
          · rintro rfl
            exact first.2
      | cons other rest =>
          have second := (mem other).mp (found ▸ List.mem_cons_of_mem _ List.mem_cons_self)
          rw [found, List.map_cons, List.map_cons, List.nodup_cons] at apart
          exact absurd (List.mem_cons.mpr (.inl (same row other first second))) apart.1

end Pinned

/-! ## What is read off a row -/

variable {store : Store spelling tables} {keystore : Option KeyStore} {row : Row} {item : Json}

@[simp]
theorem get_insertMember (name other : String) (value : Json) (members : List (String × Json)) :
    (insertMember name value (.obj members)).get other =
      if other = name then some value else (Json.obj members).get other := by
  unfold insertMember Json.get
  dsimp only
  rw [List.find?_append, List.find?_filter]
  by_cases same : other = name
  · subst same
    have gone : members.find? (fun _ => false) = none := List.find?_eq_none.mpr fun _ _ => Bool.false_ne_true
    simp [gone]
  · have kept : (fun member : String × Json => decide ((member.1 != name) = true ∧ (member.1 == other) = true)) =
        fun member => member.1 == other := by
      funext member
      by_cases here : member.1 = other <;> simp [here, same]
    rw [kept, if_neg same]
    cases members.find? fun member => member.1 == other with
    | some member => rfl
    | none => simp [Ne.symm same]

/-- One column's part in an item. -/
def showOut (spelling : Spelling) (keystore : Option KeyStore) (row : Alias × String → Cell) (item : Json)
    (out : Out) : Except String Json :=
  match out.shown with
  | none => .ok item
  | some shown =>
      ((rendered spelling out.field (out.cell row) keystore).mapError fun why =>
        s!"reading `{shown}`: {why}").map fun value =>
          if value.isNull then item else insertMember shown value item

theorem itemOf_eq (outs : List Out) (row : Alias × String → Cell) :
    itemOf spelling outs keystore row = outs.foldlM (showOut spelling keystore row) (.obj []) := rfl

/-- An item has the members that are shown of it. -/
theorem get_of_showOut {outs : List Out} {row : Alias × String → Cell} {members : List (String × Json)}
    (distinct : (outs.filterMap Out.shown).Nodup)
    (made : outs.foldlM (showOut spelling keystore row) (.obj members) = .ok item) :
    (∀ name, name ∉ outs.filterMap Out.shown → item.get name = (Json.obj members).get name) ∧
      ∀ out ∈ outs, ∀ name value, out.shown = some name →
        rendered spelling out.field (out.cell row) keystore = .ok value → value.isNull = false →
          item.get name = some value := by
  induction outs generalizing members with
  | nil =>
      cases made
      exact ⟨fun _ _ => rfl, fun out never => absurd never List.not_mem_nil⟩
  | cons out outs ih =>
      rw [List.foldlM_cons] at made
      obtain ⟨next, one, rest⟩ := bind_ok.mp made
      cases shown : out.shown with
      | none =>
          rw [List.filterMap_cons_none shown] at distinct ⊢
          simp only [showOut, shown] at one
          cases one
          obtain ⟨kept, found⟩ := ih distinct rest
          refine ⟨kept, fun other member name value named => ?_⟩
          rcases List.mem_cons.mp member with rfl | later
          · cases shown.symm.trans named
          · exact found other later name value named
      | some name =>
          rw [List.filterMap_cons_some shown, List.nodup_cons] at distinct
          rw [List.filterMap_cons_some shown]
          simp only [showOut, shown] at one
          cases read : rendered spelling out.field (out.cell row) keystore with
          | error why =>
              rw [read] at one
              cases one
          | ok value =>
              rw [read] at one
              have step : (if value.isNull then Json.obj members else insertMember name value (.obj members)) = next :=
                Except.ok.inj one
              obtain ⟨members', same⟩ : ∃ members', next = .obj members' := by
                rw [← step]
                split
                · exact ⟨_, rfl⟩
                · exact ⟨_, rfl⟩
              subst same
              obtain ⟨kept, found⟩ := ih distinct.2 rest
              constructor
              · intro other absent
                rw [List.mem_cons, not_or] at absent
                rw [kept other absent.2, ← step]
                split
                · rfl
                · rw [get_insertMember, if_neg absent.1]
              · intro other member name' value' named read' present
                rcases List.mem_cons.mp member with rfl | later
                · cases shown.symm.trans named
                  cases read.symm.trans read'
                  rw [kept name distinct.1, ← step, present, if_neg Bool.false_ne_true, get_insertMember,
                    if_pos rfl]
                · exact found other later name' value' named read' present

/-- An ordering that no fold asked for is in is read for the cursor alone. -/
theorem itemOf_outsOf {order : Option Order} (orders : Orders sel.main order) (row : Alias × String → Cell) :
    itemOf spelling (outsOf sel order) keystore row = itemOf spelling (outsOf sel none) keystore row := by
  obtain ⟨sorted, found, listed⟩ := sortOuts_ok orders
  have unshown (out : Out) (member : out ∈ sorted) : out.shown = none := by
    unfold sortOuts at found
    split at found
    · cases found
      cases member
    · split at found
      · cases found
      · split at found
        · cases found
          cases member
        · cases found
          rw [List.mem_singleton.mp member]
  have skipped (outs : List Out) (each : ∀ out ∈ outs, out.shown = none) (item : Json) :
      outs.foldlM (showOut spelling keystore row) item = .ok item := by
    induction outs generalizing item with
    | nil => rfl
    | cons out outs ih =>
        rw [List.foldlM_cons]
        simp only [showOut, each out List.mem_cons_self]
        exact ih (fun later member => each later (List.mem_cons_of_mem _ member)) item
  have plain : outsOf sel none = keyOuts sel ++ foldOuts sel := List.append_nil _
  rw [listed, plain, itemOf_eq, itemOf_eq, List.foldlM_append]
  cases made : (keyOuts sel ++ foldOuts sel).foldlM (showOut spelling keystore row) (.obj []) with
  | error why => rfl
  | ok item => exact skipped sorted unshown item

/-! ## The key an item shows -/

theorem fromSql_present {field : FieldMeta} {cell : Cell} (held : Held spelling field.kind cell)
    (keyable : Keyable field) : (fromSql spelling field cell).isNull = false := by
  obtain ⟨plain, kind⟩ := keyable
  have unjson : field.kind.base ≠ .json := by
    intro json
    rcases kind with ordered | flag
    · rw [base_of_keyable ordered] at json
      rw [json] at ordered
      cases ordered
    · rw [flag] at json
      cases json
  have filled : (∃ number, cell = .integer number) ∨ ∃ text, cell = .text text := by
    obtain ⟨text, named⟩ := held
    unfold coerceValue at named
    split at named
    · split at named
      · exact .inl ⟨1, (Except.ok.inj named).symm⟩
      · split at named
        · exact .inl ⟨0, (Except.ok.inj named).symm⟩
        · cases named
    · cases read : parseI64 text with
      | none =>
          rw [read] at named
          cases named
      | some number =>
          rw [read] at named
          exact .inl ⟨number, (Except.ok.inj named).symm⟩
    · cases read : (spelling.timestamp text).bind spelling.storedTimestamp with
      | none =>
          rw [read] at named
          cases named
      | some stored =>
          rw [read] at named
          exact .inr ⟨stored, (Except.ok.inj named).symm⟩
    · exact .inr ⟨text, (Except.ok.inj named).symm⟩
  rcases filled with ⟨number, rfl⟩ | ⟨text, rfl⟩
  · simp only [fromSql, plain, Option.isSome_none, Bool.false_eq_true, if_false]
    split <;> rfl
  · simp only [fromSql, plain, Option.isSome_none, Bool.false_eq_true, if_false]
    split
    · next json => exact absurd json unjson
    · rfl
    · rfl

theorem shown_keyOuts (picked : Picked tables sel) : (keyOuts sel).filterMap Out.shown = sel.params := by
  unfold keyOuts
  rw [List.filterMap_map]
  have whole := List.map_snd_zip (Nat.le_of_eq picked.args)
  conv_rhs => rw [← whole]
  rw [← List.filterMap_eq_map]
  rfl

theorem shown_foldOuts (sel : Selection) :
    (foldOuts sel).filterMap Out.shown = sel.folds.map ColumnDef.fold := by
  unfold foldOuts
  rw [List.filterMap_map, ← List.filterMap_eq_map]
  refine List.filterMap_congr fun fold _ => ?_
  rw [Function.comp_apply]
  split <;> rfl

/-- A row's key is shown under the names the first fold has for its parts. -/
theorem get_param (named : Nameable sel) (picked : Picked tables sel) (holds : sel.main.Holds spelling row)
    (made : itemOf spelling (outsOf sel none) keystore (seen store sel row) = .ok item) {index : Nat}
    {param : String} {part : String × FieldMeta} (place : sel.params[index]? = some param)
    (known : sel.main.key[index]? = some part) :
    item.get param = some (fromSql spelling part.2 (row part.1)) := by
  have plain : outsOf sel none = keyOuts sel ++ foldOuts sel := List.append_nil _
  rw [plain, itemOf_eq] at made
  have distinct : ((keyOuts sel ++ foldOuts sel).filterMap Out.shown).Nodup := by
    rw [List.filterMap_append, shown_keyOuts picked, shown_foldOuts]
    exact named.distinct
  have member : part ∈ sel.main.key := List.mem_of_getElem? known
  have out : (⟨.left, part.1, some param, part.2, true, none⟩ : Out) ∈ keyOuts sel := by
    refine List.mem_map.mpr ⟨(part, param), List.mem_iff_getElem?.mpr ⟨index, ?_⟩, rfl⟩
    rw [List.getElem?_zip_eq_some]
    exact ⟨known, place⟩
  refine (get_of_showOut distinct made).2 _ (List.mem_append_left _ out) param _ rfl ?_
    (fromSql_present (holds.keyed part member) (named.keyed part member))
  unfold rendered
  rw [(named.keyed part member).1]
  rfl

theorem idxOf?_of_nodup {names : List String} {name : String} {index : Nat} (distinct : names.Nodup)
    (place : names[index]? = some name) : names.idxOf? name = some index := by
  obtain ⟨inside, here⟩ := List.getElem?_eq_some_iff.mp place
  refine List.idxOf?_eq_some_iff.mpr ⟨inside, here, fun earlier before same => ?_⟩
  have equal : earlier = index := distinct.getElem_inj_iff.mp (same.trans here.symm)
  exact Nat.lt_irrefl _ (equal ▸ before)

/-- The parameters that name a listed row, each of them at its place of the key. -/
theorem fills_of_listed (lawful : spelling.Lawful) (named : Nameable sel) (picked : Picked tables sel)
    (formed : sel.main.Formed spelling) (holds : sel.main.Holds spelling row)
    (made : itemOf spelling (outsOf sel none) keystore (seen store sel row) = .ok item) {index : Nat}
    {param : String} {part : String × FieldMeta} (place : sel.params[index]? = some param)
    (known : sel.main.key[index]? = some part) (active : param ∉ waitParams) :
    (Passes spelling isUuid part.2.kind (keyText (row part.1)) → ∃ text,
      Fills spelling isUuid sel (param, spokenText ((item.get param).getD .null)) index text ∧
        coerceValue spelling part.2.kind text = .ok (row part.1)) ∧
    (¬ Passes spelling isUuid part.2.kind (keyText (row part.1)) → ∀ at_ text,
      ¬ Fills spelling isUuid sel (param, spokenText ((item.get param).getD .null)) at_ text) := by
  have member : part ∈ sel.main.key := List.mem_of_getElem? known
  have shown := get_param named picked holds made place known
  have checked := @boundMeta_served spelling isUuid lawful part.2 (row part.1) (holds.keyed part member)
    (named.keyed part member) param
  have slot := idxOf?_of_nodup (List.nodup_append.mp named.distinct).1 place
  have value : bound spelling isUuid sel.main part.1 param (spokenText ((item.get param).getD .null)) =
      boundMeta spelling isUuid part.2 param (spokenText (fromSql spelling part.2 (row part.1))) := by
    unfold bound
    rw [part_of_mem formed member, shown]
    rfl
  constructor
  · intro passes
    obtain ⟨text, passed, read⟩ := checked.1 passes
    exact ⟨text, ⟨active, slot, part, known, value.trans passed⟩, read⟩
  · rintro barred at_ text ⟨-, slot', part', known', passed⟩
    cases slot.symm.trans slot'
    cases known.symm.trans known'
    obtain ⟨why, failed⟩ := checked.2 barred
    cases (value.symm.trans passed).symm.trans failed

theorem somes_of_present {parts : List (Option String)} (whole : ∀ part ∈ parts, part ≠ none) :
    ∃ key : List String, parts = key.map some := by
  induction parts with
  | nil => exact ⟨[], rfl⟩
  | cons part parts ih =>
      obtain ⟨text, rfl⟩ := Option.ne_none_iff_exists'.mp (whole part List.mem_cons_self)
      obtain ⟨key, rfl⟩ := ih fun later member => whole later (List.mem_cons_of_mem _ member)
      exact ⟨text :: key, rfl⟩

/-- What a page lists is named by the key that it shows exactly where no parameter is one of a
wait and every part passes its check. -/
theorem parseKey_of_listed (lawful : spelling.Lawful) (named : Nameable sel) (picked : Picked tables sel)
    (formed : sel.main.Formed spelling) (holds : sel.main.Holds spelling row)
    (made : itemOf spelling (outsOf sel none) keystore (seen store sel row) = .ok item) :
    (∃ key, parseKey spelling isUuid sel (keyParams sel item) = .ok key) ↔
      (∀ param ∈ sel.params, param ∉ waitParams) ∧ Accepted spelling isUuid sel.main row := by
  have wide := picked.args
  constructor
  · rintro ⟨key, read⟩
    obtain ⟨width, mem⟩ := mem_key read
    have each {index : Nat} {param : String} (place : sel.params[index]? = some param) :
        param ∉ waitParams ∧ ∃ text, Fills spelling isUuid sel
          (param, spokenText ((item.get param).getD .null)) index text := by
      obtain ⟨inside, here⟩ := List.getElem?_eq_some_iff.mp place
      have some_ : key[index]? = some key[index] := List.getElem?_eq_getElem (width ▸ inside)
      obtain ⟨param', given, fills⟩ := (mem index _).mp some_
      obtain ⟨name, known, rfl⟩ := List.mem_map.mp given
      obtain ⟨_, there, -⟩ := List.idxOf?_eq_some_iff.mp fills.2.1
      have same : name = param := there.symm.trans here
      subst same
      exact ⟨fills.1, _, fills⟩
    constructor
    · intro param member
      obtain ⟨index, place⟩ := List.mem_iff_getElem?.mp member
      exact (each place).1
    · intro part member
      obtain ⟨index, known⟩ := List.mem_iff_getElem?.mp member
      obtain ⟨inside, -⟩ := List.getElem?_eq_some_iff.mp known
      have place : sel.params[index]? = some sel.params[index] := List.getElem?_eq_getElem (wide ▸ inside)
      obtain ⟨active, text, fills⟩ := each place
      by_contra barred
      exact (fills_of_listed lawful named picked formed holds made place known active).2 barred _ _ fills
  · rintro ⟨active, accepted⟩
    have each {index : Nat} {param : String} (place : sel.params[index]? = some param) :
        ∃ text, Fills spelling isUuid sel (param, spokenText ((item.get param).getD .null)) index text := by
      obtain ⟨inside, -⟩ := List.getElem?_eq_some_iff.mp place
      have known : sel.main.key[index]? = some sel.main.key[index] := List.getElem?_eq_getElem (wide ▸ inside)
      obtain ⟨text, fills, -⟩ := (fills_of_listed lawful named picked formed holds made place known
        (active param (List.mem_of_getElem? place))).1 (accepted _ (List.mem_of_getElem? known))
      exact ⟨text, fills⟩
    have empty (index : Nat) :
        (List.replicate sel.params.length (none : Option String)).getD index none = none := by
      rw [List.getD_eq_getElem?_getD, List.getElem?_replicate]
      split <;> rfl
    have once : ((keyParams sel item).map Prod.fst).Nodup := by
      unfold keyParams
      rw [List.map_map]
      exact (List.map_id _).symm ▸ (List.nodup_append.mp named.distinct).1
    obtain ⟨final, read⟩ := given_ok List.length_replicate once fun param member => by
      obtain ⟨name, known, rfl⟩ := List.mem_map.mp member
      obtain ⟨index, place⟩ := List.mem_iff_getElem?.mp known
      obtain ⟨text, fills⟩ := each place
      exact ⟨index, text, fills, empty index⟩
    obtain ⟨width, held⟩ := mem_filed List.length_replicate read
    have whole : ∀ part ∈ final, part ≠ none := by
      intro part member
      obtain ⟨index, here⟩ := List.mem_iff_getElem?.mp member
      obtain ⟨inside, -⟩ := List.getElem?_eq_some_iff.mp here
      have place : sel.params[index]? = some sel.params[index] := List.getElem?_eq_getElem (width ▸ inside)
      obtain ⟨text, fills⟩ := each place
      have filled := (held index text).mpr (.inr ⟨_, List.mem_map_of_mem (List.mem_of_getElem? place), fills⟩)
      rw [List.getD_eq_getElem?_getD, here] at filled
      rintro rfl
      cases filled
    obtain ⟨key, rfl⟩ := somes_of_present whole
    exact ⟨key, parseKey_ok_iff.mpr read⟩

/-! ## The two routes -/

/-- A statement without an ordering reads the items of the rows it matches. -/
theorem select_of_matching (laid : Laid spelling tables) (picked : Picked tables sel) {scan : Scan}
    (sound : Sound spelling sel.main scan) (store : Store spelling tables) (keystore : Option KeyStore) :
    select spelling store sel scan keystore =
      ((matching spelling sel.main scan (store.rows sel.main.name)).take scan.limit).mapM fun row =>
        (itemOf spelling (outsOf sel none) keystore (seen store sel row)).map fun item =>
          (item, markAfter sel.main scan.order row) := by
  unfold select
  rw [outs_eq sound.orders, (conditionsOf_eq sound).1]
  change List.mapM _ (Statement.select _ _) = _
  rw [select_eq laid picked, List.mapM_map]
  refine congrArg (List.mapM · _) (funext fun row => ?_)
  rw [Function.comp_apply, itemOf_outsOf sound.orders, afterAt_eq picked sound.orders]

/-- The pins of a key that was read name cells of its parts, and pin all of them. -/
theorem pins_of_key (lawful : spelling.Lawful) (picked : Picked tables sel) {key : List String}
    (read : parseKey spelling isUuid sel params = .ok key) {pins : List (String × String)}
    (mem : ∀ pin, pin ∈ pins ↔ ∃ param ∈ params, Pinning spelling isUuid sel param pin) :
    (∀ pin ∈ pins, Names spelling (partKind sel.main) pin.1 pin.2) ∧
      (∀ pin ∈ pins, pin.1 ∈ sel.main.key.map Prod.fst) ∧
      ∀ part ∈ sel.main.key, part.1 ∈ pins.map Prod.fst := by
  refine ⟨fun pin member => ?_, fun pin member => ?_, fun part member => ?_⟩
  · obtain ⟨param, -, index, part, ⟨-, -, part', known', passed⟩, known, same⟩ := (mem pin).mp member
    cases known.symm.trans known'
    exact same ▸ names_of_part lawful passed
  · obtain ⟨param, -, index, part, -, known, same⟩ := (mem pin).mp member
    exact List.mem_map.mpr ⟨part, List.mem_of_getElem? known, same⟩
  · obtain ⟨width, held⟩ := mem_key read
    obtain ⟨index, known⟩ := List.mem_iff_getElem?.mp member
    obtain ⟨inside, -⟩ := List.getElem?_eq_some_iff.mp known
    have filled : index < key.length := by
      rw [width, picked.args]
      exact inside
    obtain ⟨param, given, fills⟩ := (held index _).mp (List.getElem?_eq_getElem filled)
    exact List.mem_map.mpr ⟨(part.1, _), (mem _).mpr ⟨param, given, index, part, fills, known, rfl⟩, rfl⟩

theorem mem_keyScan {key : List String}
    (read : parseKey spelling isUuid sel params = .ok key) (pin : String × String) :
    pin ∈ (keyScan sel.main key).equals ↔ ∃ param ∈ params, Pinning spelling isUuid sel param pin := by
  obtain ⟨width, held⟩ := mem_key read
  unfold keyScan
  dsimp only
  rw [List.mem_iff_getElem?]
  constructor
  · rintro ⟨index, place⟩
    obtain ⟨name, text⟩ := List.getElem?_zip_eq_some.mp place
    rw [List.getElem?_map] at name
    obtain ⟨part, known, same⟩ := Option.map_eq_some_iff.mp name
    obtain ⟨param, given, fills⟩ := (held index _).mp text
    exact ⟨param, given, index, part, fills, known, same⟩
  · rintro ⟨param, given, index, part, fills, known, same⟩
    refine ⟨index, List.getElem?_zip_eq_some.mpr ⟨?_, (held index _).mpr ⟨param, given, fills⟩⟩⟩
    rw [List.getElem?_map, known, Option.map_some, same]

/-- The row that a key names, or none. -/
theorem getOne_cases (lawful : spelling.Lawful) (laid : Laid spelling tables) (picked : Picked tables sel)
    (store : Store spelling tables) (keystore : Option KeyStore) {key : List String}
    (read : parseKey spelling isUuid sel params = .ok key) {pins : List (String × String)}
    (mem : ∀ pin, pin ∈ pins ↔ ∃ param ∈ params, Pinning spelling isUuid sel param pin) (limit : Nat) :
    (∃ row ∈ store.rows sel.main.name,
      (∀ other ∈ store.rows sel.main.name, Pinned spelling sel.main pins other ↔ other = row) ∧
      matching spelling sel.main { equals := pins, limit } (store.rows sel.main.name) = [row] ∧
      getOne spelling store sel keystore key =
        (itemOf spelling (outsOf sel none) keystore (seen store sel row)).map fun item =>
          (some item, store.position)) ∨
    (matching spelling sel.main { equals := pins, limit } (store.rows sel.main.name) = [] ∧
      (∀ row ∈ store.rows sel.main.name, ¬ Pinned spelling sel.main pins row) ∧
      getOne spelling store sel keystore key = .ok (none, store.position)) := by
  have holds := store.holds sel.main picked.main
  have distinct := store.distinct sel.main picked.main
  obtain ⟨names, keyed, whole⟩ := pins_of_key lawful picked read mem
  have mem' := mem_keyScan read
  obtain ⟨names', keyed', whole'⟩ := pins_of_key lawful picked read mem'
  have same (row : Row) : Pinned spelling sel.main (keyScan sel.main key).equals row ↔
      Pinned spelling sel.main pins row := by
    unfold Pinned
    simp only [mem, mem']
  have one : select spelling store sel (keyScan sel.main key) keystore =
      ((matching spelling sel.main { equals := (keyScan sel.main key).equals, limit := 1 }
        (store.rows sel.main.name)).take 1).mapM fun row =>
          (itemOf spelling (outsOf sel none) keystore (seen store sel row)).map fun item =>
            (item, markAfter sel.main none row) :=
    select_of_matching laid picked (sound_of_pins names' Nat.one_pos) store keystore
  rcases matching_pins names limit keyed whole holds distinct with
    ⟨row, member, only, found⟩ | ⟨absent, found⟩
  · refine .inl ⟨row, member, only, found, ?_⟩
    rcases matching_pins names' 1 keyed' whole' holds distinct with
      ⟨row', member', only', found'⟩ | ⟨absent', -⟩
    · obtain rfl := (only row' member').mp ((same row').mp ((only' row' member').mpr rfl))
      unfold getOne
      rw [one, found']
      cases made : itemOf spelling (outsOf sel none) keystore (seen store sel row') with
      | error why => simp [made, Except.map, bind, Except.bind]
      | ok item => simp [made, Except.map, bind, Except.bind, pure, Except.pure]
    · exact absurd ((same row).mpr ((only row member).mpr rfl)) (absent' row member)
  · refine .inr ⟨found, absent, ?_⟩
    rcases matching_pins names' 1 keyed' whole' holds distinct with
      ⟨row', member', only', -⟩ | ⟨-, found'⟩
    · exact absurd ((same row').mp ((only' row' member').mpr rfl)) (absent row' member')
    · unfold getOne
      rw [one, found']
      rfl

/-- A query string that is read as a whole key is accepted as a scan that pins it. -/
theorem parseScan_of_key (named : Nameable sel) (formed : sel.main.Formed spelling)
    (uncontrolled : ∀ param ∈ sel.params, param ∉ ["limit", "cursor", "order_by"]) {key : List String}
    (lawful : spelling.Lawful) (picked : Picked tables sel)
    (read : parseKey spelling isUuid sel params = .ok key) :
    ∃ pins, parseScan spelling isUuid codec sel params = .ok { equals := pins } ∧
      ∀ pin, pin ∈ pins ↔ ∃ param ∈ params, Pinning spelling isUuid sel param pin := by
  have keys : (sel.main.key.map Prod.fst).Nodup := by
    cases keyless : sel.main.key with
    | nil => exact List.nodup_nil
    | cons part rest =>
        have whole := (List.nodup_append.mp formed.distinct).1
        unfold TableDef.keyColumns at whole
        rw [keyless] at whole
        exact whole
  have nothing : Pins sel [] (List.replicate sel.params.length (none : Option String)) :=
    ⟨List.nodup_nil, fun pin never => absurd never List.not_mem_nil⟩
  obtain ⟨pins, steps, pinned, mem⟩ := reading_of_given named keys uncontrolled nothing
    List.length_replicate (parseKey_ok_iff.mp read)
  have mem' (pin : String × String) : pin ∈ pins ↔ ∃ param ∈ params, Pinning spelling isUuid sel param pin := by
    rw [mem, or_iff_right List.not_mem_nil]
  refine ⟨pins, ?_, mem'⟩
  obtain ⟨-, keyed, whole⟩ := pins_of_key lawful picked read mem'
  have perm : (pins.map Prod.fst).Perm (sel.main.key.map Prod.fst) := by
    refine (List.perm_ext_iff_of_nodup pinned.once keys).mpr fun name => ⟨?_, ?_⟩
    · intro member
      obtain ⟨pin, held, rfl⟩ := List.mem_map.mp member
      exact keyed pin held
    · intro member
      obtain ⟨part, held, rfl⟩ := List.mem_map.mp member
      exact whole part held
  have width : pins.length = sel.main.key.length := by simpa using perm.length_eq
  have served : servable sel.main pins none = true := by
    unfold servable leads
    rw [List.any_cons, Bool.or_eq_true]
    refine .inl ?_
    rw [width]
    simp only [List.length_map, le_refl, decide_true, Bool.true_and, Option.all_none, Bool.and_true,
      List.all_eq_true, List.contains_iff_mem]
    intro name member
    exact perm.mem_iff.mpr (List.mem_of_mem_take member)
  refine bind_ok.mpr ⟨_, steps, bind_ok.mpr ⟨none, ?_, rfl⟩⟩
  simp [settle, checkValueRange, checkRange, checkServable, served, orderOf, impliedOrder, bind, Except.bind]

/-- The list that is pinned to a key and the row of that key are one answer. -/
theorem readRows_of_key (lawful : spelling.Lawful) (laid : Laid spelling tables) (picked : Picked tables sel)
    (named : Nameable sel) (store : Store spelling tables) (keystore : Option KeyStore)
    (uncontrolled : ∀ param ∈ sel.params, param ∉ ["limit", "cursor", "order_by"]) {key : List String}
    (read : parseKey spelling isUuid sel params = .ok key) :
    readRows spelling codec isUuid store sel keystore params =
      (readRow spelling isUuid store sel keystore params).map fun found =>
        ⟨⟨found.1.toList, none⟩, found.2⟩ := by
  have formed := laid.formed sel.main picked.main
  obtain ⟨pins, parsed, mem⟩ :=
    @parseScan_of_key spelling isUuid codec tables sel params named formed uncontrolled key lawful picked read
  obtain ⟨names, -, -⟩ := pins_of_key lawful picked read mem
  have fetched : select spelling store sel { equals := pins, limit := defaultLimit + 1 } keystore =
      ((matching spelling sel.main { equals := pins, limit := defaultLimit + 1 }
        (store.rows sel.main.name)).take (defaultLimit + 1)).mapM fun row =>
          (itemOf spelling (outsOf sel none) keystore (seen store sel row)).map fun item =>
            (item, markAfter sel.main none row) :=
    select_of_matching laid picked (sound_of_pins names (Nat.succ_pos _)) store keystore
  have list : readRows spelling codec isUuid store sel keystore params =
      (scanPage spelling codec store sel { equals := pins } keystore).mapError Failed.internal := by
    unfold readRows
    rw [parsed]
    rfl
  have one : readRow spelling isUuid store sel keystore params =
      (getOne spelling store sel keystore key).mapError Failed.internal := by
    unfold readRow
    rw [read]
    rfl
  rw [list, one]
  unfold scanPage
  dsimp only
  rw [fetched]
  rcases getOne_cases lawful laid picked store keystore read mem (defaultLimit + 1) with
    ⟨row, -, -, found, answer⟩ | ⟨found, -, answer⟩
  · rw [found, answer]
    cases made : itemOf spelling (outsOf sel none) keystore (seen store sel row) with
    | error why => simp [made, Except.map, Except.mapError, bind, Except.bind]
    | ok item =>
        simp [made, Except.map, Except.mapError, bind, Except.bind, pure, Except.pure, defaultLimit]
  · rw [found, answer]
    simp [Except.map, Except.mapError, bind, Except.bind, pure, Except.pure]

/-- What a page lists is read off rows of the table. -/
theorem listed_of_readRows (lawful : spelling.Lawful) (laid : Laid spelling tables) (picked : Picked tables sel)
    {served : Served} (answered : readRows spelling codec isUuid store sel keystore params = .ok served)
    (listed : item ∈ served.page.items) : ∃ row ∈ store.rows sel.main.name,
      itemOf spelling (outsOf sel none) keystore (seen store sel row) = .ok item := by
  obtain ⟨scan, parsed, paged⟩ := bind_ok.mp answered
  have sound := sound_of_parseScan lawful (laid.formed sel.main picked.main) (mapError_ok.mp parsed)
  obtain ⟨fetched, selected, made⟩ := bind_ok.mp (mapError_ok.mp paged)
  cases made
  obtain ⟨entry, taken, rfl⟩ := List.mem_map.mp listed
  have probe : Sound spelling sel.main { scan with limit := scan.limit + 1 } :=
    ⟨Nat.succ_pos _, sound.filter, sound.orders, sound.after⟩
  rw [select_of_matching laid picked probe store keystore] at selected
  obtain ⟨row, member, read⟩ := (mem_of_mapM_ok selected entry).mp (List.mem_of_mem_take taken)
  obtain ⟨item, opened, rfl⟩ := map_ok.mp read
  exact ⟨row, (Statement.mem_sorted.mp (List.mem_of_mem_take member)).1, opened⟩

/-- The key an item shows names the row it was read off. -/
theorem readRow_of_listed (lawful : spelling.Lawful) (laid : Laid spelling tables) (picked : Picked tables sel)
    (named : Nameable sel) (store : Store spelling tables) (keystore : Option KeyStore) {row : Row}
    (member : row ∈ store.rows sel.main.name)
    (made : itemOf spelling (outsOf sel none) keystore (seen store sel row) = .ok item) {key : List String}
    (read : parseKey spelling isUuid sel (keyParams sel item) = .ok key) :
    getOne spelling store sel keystore key = .ok (some item, store.position) := by
  have formed := laid.formed sel.main picked.main
  have holds := store.holds sel.main picked.main row member
  obtain ⟨active, accepted⟩ := (parseKey_of_listed lawful named picked formed holds made).mp ⟨key, read⟩
  have mem := mem_keyScan read
  have pinned : Pinned spelling sel.main (keyScan sel.main key).equals row := by
    intro pin held
    obtain ⟨param, given, index, part, fills, known, same⟩ := (mem pin).mp held
    have part_ := List.mem_of_getElem? known
    obtain ⟨name, listed, rfl⟩ := List.mem_map.mp given
    obtain ⟨inside, here, -⟩ := List.idxOf?_eq_some_iff.mp fills.2.1
    have place : sel.params[index]? = some name := List.getElem?_eq_some_iff.mpr ⟨inside, here⟩
    obtain ⟨text, fills', coerced⟩ := (fills_of_listed lawful named picked formed holds made place known
      (active name listed)).1 (accepted part part_)
    obtain ⟨-, -, part', known', passed⟩ := fills
    obtain ⟨-, -, part'', known'', passed'⟩ := fills'
    cases known.symm.trans known'
    cases known.symm.trans known''
    refine ⟨part.2.kind, ?_, ?_⟩
    · rw [← same]
      unfold partKind
      rw [part_of_mem formed part_]
      rfl
    · rw [Except.ok.inj (passed.symm.trans passed'), ← same]
      exact coerced
  rcases getOne_cases lawful laid picked store keystore read mem 1 with
    ⟨row', -, only, -, answer⟩ | ⟨-, absent, -⟩
  · obtain rfl := (only row member).mp pinned
    rw [answer, made]
    rfl
  · exact absurd pinned (absent row member)

/-! ## The first fold by itself -/

theorem foldlM_showOut_congr {outs : List Out} {row row' : Alias × String → Cell}
    (same : ∀ out ∈ outs, out.cell row = out.cell row') (item : Json) :
    outs.foldlM (showOut spelling keystore row) item = outs.foldlM (showOut spelling keystore row') item := by
  induction outs generalizing item with
  | nil => rfl
  | cons out outs ih =>
      have here : showOut spelling keystore row item out = showOut spelling keystore row' item out := by
        unfold showOut
        rw [same out List.mem_cons_self]
      rw [List.foldlM_cons, List.foldlM_cons, here]
      exact congrArg _ (funext fun next => ih (fun later member => same later (List.mem_cons_of_mem _ member)) next)

theorem obj_of_showOut {outs : List Out} {row : Alias × String → Cell} {members : List (String × Json)}
    (made : outs.foldlM (showOut spelling keystore row) (.obj members) = .ok item) :
    ∃ members', item = .obj members' := by
  refine pass_keeps (fun _ => True) (fun item : Json => ∃ members', item = .obj members') ?_ (fun _ _ => trivial)
    ⟨members, rfl⟩ made
  rintro _ next out - ⟨members, rfl⟩ shown
  unfold showOut at shown
  split at shown
  · cases shown
    exact ⟨members, rfl⟩
  · obtain ⟨value, -, shown⟩ := map_ok.mp shown
    subst shown
    split
    · exact ⟨members, rfl⟩
    · exact ⟨_, rfl⟩

/-- The first fold's own selection shows the key of a row, and the fold, as the whole one does. -/
theorem itemOf_alone (named : Nameable sel) {row : Row}
    (made : itemOf spelling (outsOf sel none) keystore (seen store sel row) = .ok item) :
    ∃ own, itemOf spelling (outsOf sel.alone none) keystore (seen store sel.alone row) = .ok own ∧
      keyParams sel.alone own = keyParams sel item ∧ own.get sel.first = item.get sel.first := by
  have folds : foldOuts sel = foldOuts sel.alone ++ (foldOuts sel).tail := rfl
  have plain : outsOf sel none = (keyOuts sel ++ foldOuts sel.alone) ++ (foldOuts sel).tail := by
    rw [List.append_assoc, ← folds]
    exact List.append_nil _
  rw [plain, itemOf_eq, List.foldlM_append] at made
  obtain ⟨own, front, rest⟩ := bind_ok.mp made
  -- A row of the side table is joined in for the first fold if it is for any.
  have alike : ∀ out ∈ keyOuts sel ++ foldOuts sel.alone,
      out.cell (seen store sel row) = out.cell (seen store sel.alone row) := by
    intro out member
    rcases List.mem_append.mp member with key | fold
    · obtain ⟨part, -, rfl⟩ := List.mem_map.mp key
      rfl
    · obtain ⟨only, listed, rfl⟩ := List.mem_map.mp fold
      obtain rfl : only = sel.opening := List.mem_singleton.mp listed
      by_cases inside : inMain sel.alone sel.opening = true
      · rw [if_pos inside]
        rfl
      · have outside : (!inMain sel sel.opening) = true := by
          rw [Bool.not_eq_true']
          exact Bool.eq_false_iff.mpr inside
        have joins : (sel.folds.any fun fold => !inMain sel fold) = true :=
          List.any_eq_true.mpr ⟨sel.opening, List.mem_cons_self, outside⟩
        have joins' : (sel.alone.folds.any fun fold => !inMain sel.alone fold) = true :=
          List.any_eq_true.mpr ⟨sel.opening, List.mem_cons_self, outside⟩
        have same : seen store sel row = seen store sel.alone row := by
          unfold seen sideRow
          rw [if_pos joins, if_pos joins']
          rfl
        rw [same]
  rw [foldlM_showOut_congr alike] at front
  obtain ⟨members, rfl⟩ := obj_of_showOut front
  have later : ((foldOuts sel).tail.filterMap Out.shown) = sel.others.map ColumnDef.fold := by
    have shown := shown_foldOuts sel
    rw [folds, List.filterMap_append, shown_foldOuts sel.alone] at shown
    exact List.append_cancel_left shown
  obtain ⟨distinct, apart, others⟩ := List.nodup_append.mp named.distinct
  have unnamed := (List.nodup_cons.mp apart).1
  have kept := (get_of_showOut (later ▸ (List.nodup_cons.mp apart).2) rest).1
  rw [later] at kept
  refine ⟨.obj members, ?_, ?_, (kept sel.first unnamed).symm⟩
  · have plain' : outsOf sel.alone none = keyOuts sel ++ foldOuts sel.alone := List.append_nil _
    rw [plain', itemOf_eq]
    exact front
  · refine List.map_congr_left fun param member => ?_
    rw [kept param fun other => others param member param (List.mem_cons_of_mem _ other) rfl]

/-- The fold route, which selects the first fold alone, answers what a whole selection lists. -/
theorem readFold_alone (lawful : spelling.Lawful) (laid : Laid spelling tables) (picked : Picked tables sel)
    (named : Nameable sel) (store : Store spelling tables) (keystore : Option KeyStore) {row : Row}
    (member : row ∈ store.rows sel.main.name)
    (made : itemOf spelling (outsOf sel none) keystore (seen store sel row) = .ok item) {key : List String}
    (read : parseKey spelling isUuid sel (keyParams sel item) = .ok key) :
    readFold spelling isUuid store sel.alone keystore (keyParams sel item) =
      .ok (some ((item.get sel.first).getD .null), store.position) := by
  obtain ⟨own, made', params, shown⟩ := itemOf_alone named made
  have picked' : Picked tables sel.alone := ⟨picked.main, picked.source, picked.args⟩
  have sublist : (sel.params ++ [sel.first]).Sublist (sel.params ++ sel.folds.map ColumnDef.fold) :=
    (List.Sublist.refl _).append (List.singleton_sublist.mpr List.mem_cons_self)
  have named' : Nameable sel.alone := ⟨named.distinct.sublist sublist, named.plain, named.keyed⟩
  have read' : parseKey spelling isUuid sel.alone (keyParams sel.alone own) = .ok key := by
    rw [params]
    exact read
  have found := readRow_of_listed lawful laid picked' named' store keystore member made' read'
  unfold readFold getFold
  rw [← params, read']
  change Except.mapError _ (Except.map _ (getOne _ _ _ _ _)) = _
  rw [found, ← shown]
  rfl

/-- The row route answers a whole key as the list that is pinned to it does, errors included.
And what a page lists, under whatever filter, ordering and cursor, is what the row and the fold
routes answer for the key that it shows, which they accept unless a parameter has the name of one
of a wait or a part no longer passes its check.  The fold route answers so too where it picks
the first fold alone. -/
theorem rows_read_back (lawful : spelling.Lawful) (laid : Laid spelling tables)
    (store : Store spelling tables) {names : List String} (picked : pick tables names = .ok sel)
    (named : Nameable sel) (keystore : Option KeyStore) (params : List (String × String)) :
    pick tables (names.take 1) = .ok sel.alone ∧
    (∀ key, parseKey spelling isUuid sel params = .ok key →
      (∀ param ∈ sel.params, param ∉ ["limit", "cursor", "order_by"]) →
        readRows spelling codec isUuid store sel keystore params =
          (readRow spelling isUuid store sel keystore params).map fun found =>
            ⟨⟨found.1.toList, none⟩, found.2⟩) ∧
    ∀ served, readRows spelling codec isUuid store sel keystore params = .ok served →
      ∀ item ∈ served.page.items, ∃ row ∈ store.rows sel.main.name,
        itemOf spelling (outsOf sel none) keystore (seen store sel row) = .ok item ∧
        ((∃ key, parseKey spelling isUuid sel (keyParams sel item) = .ok key) ↔
          (∀ param ∈ sel.params, param ∉ waitParams) ∧ Accepted spelling isUuid sel.main row) ∧
        ((∃ key, parseKey spelling isUuid sel (keyParams sel item) = .ok key) →
          readRow spelling isUuid store sel keystore (keyParams sel item) =
              .ok (some item, store.position) ∧
            readFold spelling isUuid store sel keystore (keyParams sel item) =
              .ok (some ((item.get sel.first).getD .null), store.position) ∧
            readFold spelling isUuid store sel.alone keystore (keyParams sel item) =
              .ok (some ((item.get sel.first).getD .null), store.position)) := by
  have known := picked_of_pick laid picked
  refine ⟨pick_alone picked, fun key read uncontrolled =>
    readRows_of_key lawful laid known named store keystore uncontrolled read, ?_⟩
  intro served answered item listed
  obtain ⟨row, member, made⟩ := listed_of_readRows lawful laid known answered listed
  refine ⟨row, member, made, parseKey_of_listed lawful named known (laid.formed sel.main known.main)
    (store.holds sel.main known.main row member) made, ?_⟩
  rintro ⟨key, read⟩
  have found := readRow_of_listed lawful laid known named store keystore member made read
  refine ⟨?_, ?_, readFold_alone lawful laid known named store keystore member made read⟩
  · unfold readRow
    rw [read]
    change Except.mapError _ (getOne _ _ _ _ _) = _
    rw [found]
    rfl
  · unfold readFold getFold
    rw [read]
    change Except.mapError _ (Except.map _ (getOne _ _ _ _ _)) = _
    rw [found]
    rfl

theorem stock_nameable : Nameable stockSelection where
  distinct := by decide
  plain := by
    intro param member
    obtain rfl := List.mem_singleton.mp member
    decide
  keyed := by
    intro part member
    obtain rfl := List.mem_singleton.mp member
    exact ⟨rfl, .inl rfl⟩

theorem rows_read_back_stock :
    let store := stock ["Sold", "Active"] (by decide)
    let sold := [("status", "Sold")]
    (readRows newYear cursorCodec looksUuid store stockSelection none sold =
      (readRow newYear looksUuid store stockSelection none sold).map fun found =>
        ⟨⟨found.1.toList, none⟩, found.2⟩) ∧
    ∀ served, readRows newYear cursorCodec looksUuid store stockSelection none sold = .ok served →
      ∀ item ∈ served.page.items,
        readFold newYear looksUuid store stockSelection none (keyParams stockSelection item) =
          .ok (some ((item.get "StockCount").getD .null), 2) := by
  intro store sold
  obtain ⟨-, one, each⟩ := @rows_read_back newYear looksUuid cursorCodec [stockTable] stockSelection
    newYear_lawful stock_laid store ["StockCount"] stock_picked stock_nameable none sold
  refine ⟨one ["Sold"] rfl (by decide), ?_⟩
  intro served answered item listed
  obtain ⟨row, member, -, named, found⟩ := each served answered item listed
  exact (found (named.mpr ⟨by decide, stock_accepted (by decide) member⟩)).2.1

end Hekla.Reads.Tables
