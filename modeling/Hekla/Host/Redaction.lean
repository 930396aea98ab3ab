import Hekla.Library.Places
import Mathlib.Data.List.Infix

/-!
# Redaction

A transport error may echo what a request was made of.  The credentials a deployment holds
are replaced in it by their names, one after another in the order of the names, unless one is
too short to be looked for.  A credential is missed where another one that was replaced before
it has taken a part of it, and a byte of none is lost where one reads across the edge of a name
that was written before.
-/

namespace Hekla.Host

open Hekla.Library.Replacement

/-- A string, as the bytes of its encoding. -/
abbrev Bytes := List UInt8

/-- The bytes of a string of ASCII characters. -/
def ascii (text : String) : Bytes := text.toList.map fun letter => UInt8.ofNat letter.toNat

/-- The shortest credential that is looked for. -/
def minScrubLen : Nat := 8

/-- What a deployment supplies: each name once, in order, with the credential if it is set. -/
structure SecretStore where
  values : List (Bytes × Option Bytes)
  ordered : values.Pairwise fun first second => first.1 < second.1

/-- What is written for a credential. -/
def placeholder (name : Bytes) : Bytes := ascii "\x7bSECRET:" ++ name ++ ascii "\x7d"

/-- Look for one credential in a text, and replace it by its name. -/
def redactOne (out : Bytes) (entry : Bytes × Option Bytes) : Bytes :=
  match entry.2 with
  | none => out
  | some value =>
      if value.length < minScrubLen then out
      else if value <:+: out then replace value (placeholder entry.1) out
      else out

/-- `SecretStore::redact` -/
def SecretStore.redact (store : SecretStore) (text : Bytes) : Bytes := store.values.foldl redactOne text

/-! ## The bytes that survive -/

/-- A credential that is looked for, and what is written for it. -/
def lookedFor (entry : Bytes × Option Bytes) : Option (Bytes × Bytes) :=
  (entry.2.filter fun value => decide (minScrubLen ≤ value.length)).map (·, placeholder entry.1)

def SecretStore.scanned (store : SecretStore) : List (Bytes × Bytes) :=
  store.values.filterMap lookedFor

/-- The redaction of a text whose bytes keep their positions in it. -/
def SecretStore.traced (store : SecretStore) (text : Bytes) : List (Cell UInt8) :=
  rewrite Cell.letter store.scanned (cells 0 text)

/-- The bytes of a text that survive, by their positions in it. -/
def SecretStore.survivors (store : SecretStore) (text : Bytes) : List Nat :=
  (store.traced text).filterMap Prod.snd

/-- A byte lies in an occurrence of a credential that is looked for. -/
def SecretStore.covers (store : SecretStore) (text : Bytes) (position : Nat) : Bool :=
  Hekla.Library.Replacement.covers (store.scanned.map Prod.fst) text position

/-- The bytes that survive are those that lie in no credential, in order. -/
def SecretStore.Redacts (store : SecretStore) (text : Bytes) : Prop :=
  store.survivors text = (List.range text.length).filter fun position => !store.covers text position

instance (store : SecretStore) (text : Bytes) : Decidable (store.Redacts text) :=
  inferInstanceAs (Decidable (_ = _))

section Redacts

theorem traced_one (entry : Bytes × Option Bytes) (out : List (Cell UInt8)) :
    (rewrite Cell.letter (lookedFor entry).toList out).map Prod.fst =
      redactOne (out.map Prod.fst) entry := by
  obtain ⟨name, value⟩ := entry
  cases value with
  | none => rfl
  | some value =>
      unfold redactOne lookedFor
      dsimp only
      by_cases short : value.length < minScrubLen
      · rw [if_pos short, Option.filter_some_neg (by simpa using short)]
        rfl
      · rw [if_neg short, Option.filter_some_pos (by simpa using short)]
        refine (map_replace out).trans ?_
        split
        · rfl
        · next absent => exact replace_of_absent _ absent

/-- What is redacted is the text that is traced. -/
theorem SecretStore.redact_eq (store : SecretStore) (text : Bytes) :
    (store.traced text).map Prod.fst = store.redact text := by
  have fold (values : List (Bytes × Option Bytes)) (out : List (Cell UInt8)) :
      (rewrite Cell.letter (values.filterMap lookedFor) out).map Prod.fst =
        values.foldl redactOne (out.map Prod.fst) := by
    induction values generalizing out with
    | nil => rfl
    | cons entry rest ih =>
        rw [List.foldl_cons, ← traced_one, ← ih]
        cases looked : lookedFor entry with
        | none => rw [List.filterMap_cons_none looked]; rfl
        | some word => rw [List.filterMap_cons_some looked]; rfl
  have read := fold store.values (cells 0 text)
  rwa [map_cells] at read

theorem SecretStore.proper (store : SecretStore) :
    ∀ word ∈ store.scanned, word.1 ≠ [] ∧ word.2 ≠ [] := by
  intro word member
  obtain ⟨entry, _, looked⟩ := List.mem_filterMap.mp member
  obtain ⟨value, kept, rfl⟩ := Option.map_eq_some_iff.mp looked
  have long := of_decide_eq_true (Option.filter_eq_some_iff.mp kept).2
  refine ⟨?_, ?_⟩
  · rintro rfl
    exact absurd long (by decide)
  · exact List.cons_ne_nil _ _

/-- The places are those each credential is replaced at, from the left in the text as it stands
when its turn comes.  An occurrence of a credential that one of them takes a part of goes with
others all the same, and one that reads across the edge of a name written before holds no byte
outside the occurrences. -/
def SecretStore.Clean (store : SecretStore) (text : Bytes) : Prop :=
  Hekla.Library.Replacement.Clean store.scanned text

instance (store : SecretStore) (text : Bytes) : Decidable (store.Clean text) :=
  inferInstanceAs (Decidable (Hekla.Library.Replacement.Clean store.scanned text))

/-- No credential is completed, where its turn comes, by what is written for those before it. -/
def SecretStore.Unjoined (store : SecretStore) (text : Bytes) : Prop :=
  AllUnjoined store.scanned (cells 0 text)

/-- Of the occurrences of the credentials those are taken, in the order of the names and each
from the left, that overlap none taken before: every occurrence lies inside the ones that
are taken. -/
def SecretStore.Apart (store : SecretStore) (text : Bytes) : Prop :=
  Within (store.scanned.map Prod.fst) text

/-- The braces of a placeholder complete no credential that has none. -/
theorem SecretStore.unjoined_of_plain (store : SecretStore)
    (plain : ∀ word ∈ store.scanned, 123 ∉ word.1 ∧ 125 ∉ word.1)
    (absent : ∀ word ∈ store.scanned, ∀ other ∈ store.scanned, ¬word.1 <:+: other.2)
    (text : Bytes) : store.Unjoined text := by
  refine allUnjoined_of_framed store.proper ?_ plain absent text
  intro word member
  obtain ⟨entry, _, looked⟩ := List.mem_filterMap.mp member
  obtain ⟨value, _, rfl⟩ := Option.map_eq_some_iff.mp looked
  exact ⟨ascii "SECRET:" ++ entry.1, rfl⟩

/-- A credential, and another one that begins with it. -/
def prefixed : SecretStore where
  values := [(ascii "KEY", some (ascii "password")), (ascii "KEY_2", some (ascii "password99"))]
  ordered := by decide

/-- A third one that the name of the first completes. -/
def joined : SecretStore where
  values := [(ascii "A", some (ascii "password")), (ascii "B", some (ascii "passwordXY")),
    (ascii "C", some (ascii "CRET:A\x7dXY"))]
  ordered := by decide

end Redacts

end Hekla.Host
