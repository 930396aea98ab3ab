import Hekla.Library.Base64
import Mathlib.Data.List.Basic

/-!
# Flat documents as JSON text

A flat document is an object whose members are texts or lists of texts.  It is
written without blanks, the members in their order, and a character that a JSON
string may not hold as itself is escaped.  Reading back what was written gives
the document again.
-/

namespace Hekla.Library.JsonText

universe u

/-! ## Characters and texts -/

def hexDigit (value : Nat) : Char := "0123456789abcdef".toList.getD value '0'

def hexValue (digit : Char) : Option Nat := "0123456789abcdef".toList.idxOf? digit

/-- The escapes that have a letter of their own. -/
def escapes : List (Char × Char) :=
  [('"', '"'), ('\\', '\\'), ('\x08', 'b'), ('\x0c', 'f'), ('\n', 'n'), ('\r', 'r'), ('\t', 't')]

def escape (char : Char) : List Char :=
  match escapes.lookup char with
  | some letter => ['\\', letter]
  | none =>
      if char.toNat < 32 then
        ['\\', 'u', '0', '0', hexDigit (char.toNat / 16), hexDigit (char.toNat % 16)]
      else [char]

def escaped (letter : Char) : Option Char :=
  (escapes.find? fun pair => pair.2 == letter).map Prod.fst

def body (chars : List Char) : List Char := chars.flatMap escape ++ ['"']

def writeText (text : String) : List Char := '"' :: body text.toList

/-- Read up to the closing quote. -/
def readBody : List Char → Option (List Char × List Char)
  | [] => none
  | '"' :: rest => some ([], rest)
  | '\\' :: 'u' :: a :: b :: c :: d :: rest => do
      let code := (← hexValue a) * 4096 + (← hexValue b) * 256 + (← hexValue c) * 16 + (← hexValue d)
      let (chars, rest) ← readBody rest
      some (Char.ofNat code :: chars, rest)
  | '\\' :: letter :: rest => do
      let char ← escaped letter
      let (chars, rest) ← readBody rest
      some (char :: chars, rest)
  | char :: rest =>
      if char.toNat < 32 then none
      else (readBody rest).map fun read => (char :: read.1, read.2)

def readText : List Char → Option (String × List Char)
  | '"' :: rest => (readBody rest).map fun read => (String.ofList read.1, read.2)
  | _ => none

theorem hexValue_hexDigit {value : Nat} (small : value < 16) :
    hexValue (hexDigit value) = some value := by
  have each : ∀ value < 16, hexValue (hexDigit value) = some value := by decide
  exact each value small

theorem readBody_lettered {pair : Char × Char} (member : pair ∈ escapes) (rest : List Char) :
    readBody ('\\' :: pair.2 :: rest) =
      (readBody rest).map fun read => (pair.1 :: read.1, read.2) := by
  have each : ∀ pair ∈ escapes, pair.2 ≠ 'u' ∧ escaped pair.2 = some pair.1 := by decide
  obtain ⟨plain, known⟩ := each pair member
  rw [readBody.eq_4 _ _ (fun a b c d later letter _ => plain letter), known]
  cases readBody rest <;> rfl

theorem readBody_plain {char : Char} (open_ : char ≠ '"') (straight : char ≠ '\\')
    (printed : ¬ char.toNat < 32) (rest : List Char) :
    readBody (char :: rest) = (readBody rest).map fun read => (char :: read.1, read.2) := by
  rw [readBody.eq_5 _ _ open_ (fun _ _ _ _ _ same _ => straight same)
    (fun _ _ same _ => straight same), if_neg printed]

/-- A character is read back whatever follows it. -/
theorem readBody_escape (char : Char) (rest : List Char) : readBody (escape char ++ rest) =
    (readBody rest).map fun read => (char :: read.1, read.2) := by
  unfold escape
  cases found : escapes.lookup char with
  | some letter =>
      obtain ⟨before, after, split, _⟩ := List.lookup_eq_some_iff.mp found
      have member : (char, letter) ∈ escapes := by simp [split]
      exact readBody_lettered member rest
  | none =>
      dsimp only
      by_cases control : char.toNat < 32
      · have digits : 0 * 4096 + 0 * 256 + char.toNat / 16 * 16 + char.toNat % 16 = char.toNat := by
          omega
        have zero : hexValue '0' = some 0 := by decide
        rw [if_pos control]
        simp only [List.cons_append, List.nil_append, readBody, zero,
          hexValue_hexDigit (show char.toNat / 16 < 16 by omega),
          hexValue_hexDigit (show char.toNat % 16 < 16 by omega), Option.bind_eq_bind,
          Option.bind_some, digits, Char.ofNat_toNat]
        cases readBody rest <;> rfl
      · rw [List.lookup_eq_none_iff] at found
        have open_ := found ('"', '"') (by decide)
        have straight := found ('\\', '\\') (by decide)
        rw [if_neg control]
        exact readBody_plain (by simpa using open_) (by simpa using straight) control rest

/-- A text is read back whatever follows it. -/
theorem readText_writeText (text : String) (rest : List Char) :
    readText (writeText text ++ rest) = some (text, rest) := by
  have bodies (chars : List Char) : readBody (body chars ++ rest) = some (chars, rest) := by
    induction chars with
    | nil => rfl
    | cons char chars ih =>
        unfold body at ih ⊢
        rw [List.flatMap_cons, List.append_assoc, List.append_assoc, readBody_escape,
          ← List.append_assoc, ih]
        rfl
  unfold writeText
  rw [List.cons_append, readText, bodies, Option.map_some, String.ofList_toList]

/-! ## Items between commas -/

variable {α : Type u}

/-- Items up to a closing character. -/
def writeItems (close : Char) (write : α → List Char) : List α → List Char
  | [] => [close]
  | [item] => write item ++ [close]
  | item :: next :: rest => write item ++ ',' :: writeItems close write (next :: rest)

def readMore (close : Char) (read : List Char → Option (α × List Char)) :
    Nat → List Char → Option (List α × List Char)
  | 0, _ => none
  | fuel + 1, text => do
      let (item, rest) ← read text
      match rest with
      | [] => none
      | char :: rest =>
          if char = ',' then
            (readMore close read fuel rest).map fun more => (item :: more.1, more.2)
          else if char = close then some ([item], rest)
          else none

/-- Each item takes a character of the text at least. -/
def readItems (close : Char) (read : List Char → Option (α × List Char)) (text : List Char) :
    Option (List α × List Char) :=
  match text with
  | [] => none
  | char :: rest => if char = close then some ([], rest) else readMore close read text.length text

/-- A reader of single items gives back what was written, which never opens with
the closing character. -/
structure Reads (close : Char) (write : α → List Char)
    (read : List Char → Option (α × List Char)) : Prop where
  item : ∀ value rest, read (write value ++ rest) = some (value, rest)
  opens : ∀ value, ∃ char rest, write value = char :: rest ∧ char ≠ close
  apart : close ≠ ','

section Items

variable {close : Char} {write : α → List Char} {read : List Char → Option (α × List Char)}

theorem readMore_writeItems (reads : Reads close write read) {items : List α} (some_ : items ≠ [])
    {fuel : Nat} (enough : items.length ≤ fuel) (rest : List Char) :
    readMore close read fuel (writeItems close write items ++ rest) = some (items, rest) := by
  induction items using writeItems.induct generalizing fuel with
  | case1 => exact absurd rfl some_
  | case2 item =>
      obtain ⟨fuel, rfl⟩ := Nat.exists_eq_succ_of_ne_zero (Nat.pos_iff_ne_zero.mp enough)
      rw [writeItems, List.append_assoc, readMore, reads.item]
      simp [reads.apart]
  | case3 item next later ih =>
      obtain ⟨fuel, rfl⟩ := Nat.exists_eq_succ_of_ne_zero
        (Nat.pos_iff_ne_zero.mp (Nat.lt_of_lt_of_le (Nat.succ_pos _) enough))
      have further := ih (List.cons_ne_nil _ _) (Nat.le_of_succ_le_succ enough)
      rw [writeItems, List.append_assoc, readMore, reads.item]
      simp [further]

theorem length_le_writeItems (close : Char) (write : α → List Char) (items : List α) :
    items.length ≤ (writeItems close write items).length := by
  induction items using writeItems.induct with
  | case1 => simp [writeItems]
  | case2 item => simp [writeItems]
  | case3 item next later ih =>
      rw [writeItems, List.length_append, List.length_cons, List.length_cons]
      exact Nat.le_trans (Nat.succ_le_succ ih) (Nat.le_add_left _ _)

/-- Items are read back whatever follows them. -/
theorem readItems_writeItems (reads : Reads close write read) (items : List α) (rest : List Char) :
    readItems close read (writeItems close write items ++ rest) = some (items, rest) := by
  cases items with
  | nil => simp [writeItems, readItems]
  | cons item later =>
      have enough := length_le_writeItems close write (item :: later)
      obtain ⟨char, opened, first, different⟩ := reads.opens item
      have starts : ∃ others, writeItems close write (item :: later) = char :: others := by
        cases later with
        | nil => exact ⟨_, by rw [writeItems, first]; rfl⟩
        | cons next later => exact ⟨_, by rw [writeItems, first]; rfl⟩
      obtain ⟨others, starts⟩ := starts
      have fits : (item :: later).length ≤ (writeItems close write (item :: later) ++ rest).length := by
        rw [List.length_append]
        omega
      have whole := readMore_writeItems reads (List.cons_ne_nil item later) fits rest
      rw [starts] at whole ⊢
      unfold readItems
      rw [List.cons_append] at whole ⊢
      dsimp only
      rw [if_neg different]
      exact whole

end Items

/-! ## Documents -/

inductive Member where
  | one (text : String)
  | many (texts : List String)
  deriving DecidableEq

abbrev Document := List (String × Member)

def writeMember (member : String × Member) : List Char :=
  writeText member.1 ++ ':' ::
    match member.2 with
    | .one text => writeText text
    | .many texts => '[' :: writeItems ']' writeText texts

def readMember (text : List Char) : Option ((String × Member) × List Char) := do
  let (name, rest) ← readText text
  match rest with
  | ':' :: '[' :: rest => (readItems ']' readText rest).map fun read => ((name, .many read.1), read.2)
  | ':' :: rest => (readText rest).map fun read => ((name, .one read.1), read.2)
  | _ => none

theorem reads_texts : Reads ']' writeText readText where
  item := readText_writeText
  opens := fun text => ⟨'"', body text.toList, rfl, by decide⟩
  apart := by decide

theorem readMember_writeMember (member : String × Member) (rest : List Char) :
    readMember (writeMember member ++ rest) = some (member, rest) := by
  obtain ⟨name, value⟩ := member
  unfold writeMember readMember
  dsimp only
  rw [List.append_assoc, readText_writeText]
  cases value with
  | one text =>
      have read := readText_writeText text rest
      unfold writeText at read ⊢
      exact congrArg (Option.map _) read
  | many texts => exact congrArg (Option.map _) (readItems_writeItems reads_texts texts rest)

theorem reads_members : Reads '}' writeMember readMember where
  item := readMember_writeMember
  opens := fun member => ⟨'"', _, rfl, by decide⟩
  apart := by decide

def write (document : Document) : List Char := '{' :: writeItems '}' writeMember document

/-- Read a text that holds one document and nothing after it. -/
def read : List Char → Option Document
  | '{' :: rest =>
      (readItems '}' readMember rest).bind fun read => if read.2 = [] then some read.1 else none
  | _ => none

/-- Every document is read back from its text. -/
theorem read_write (document : Document) : read (write document) = some document := by
  have items := readItems_writeItems reads_members document []
  rw [List.append_nil] at items
  unfold write
  rw [read, items]
  rfl

/-! ## Bytes -/

def toBytes (chars : List Char) : List UInt8 := (String.ofList chars).toUTF8.data.toList

def ofBytes (bytes : List UInt8) : Option (List Char) :=
  (String.fromUTF8? ⟨⟨bytes⟩⟩).map String.toList

theorem ofBytes_toBytes (chars : List Char) : ofBytes (toBytes chars) = some chars := by
  have back : String.fromUTF8? (String.ofList chars).toUTF8 = some (String.ofList chars) := by
    unfold String.fromUTF8?
    rw [String.toUTF8_eq_toByteArray, dif_pos (String.ofList chars).isValidUTF8]
    rfl
  exact (congrArg (Option.map String.toList) back).trans (congrArg some String.toList_ofList)

/-- Values that are written as flat documents. -/
def codec (toDocument : α → Document) (ofDocument : Document → Option α) : Codec α where
  write value := toBytes (write (toDocument value))
  read bytes := ((ofBytes bytes).bind read).bind ofDocument

theorem codec_lawful {toDocument : α → Document} {ofDocument : Document → Option α}
    (back : ∀ value, ofDocument (toDocument value) = some value) :
    (codec toDocument ofDocument).Lawful := by
  intro value
  change ((ofBytes (toBytes (write (toDocument value)))).bind read).bind ofDocument = some value
  rw [ofBytes_toBytes, Option.bind_some, read_write, Option.bind_some, back]

end Hekla.Library.JsonText
