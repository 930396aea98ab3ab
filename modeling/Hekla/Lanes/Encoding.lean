import Hekla.Lanes.Names
import Hekla.Library.Escaping
import Hekla.Library.Numerals

/-!
# Lane names are injective

A key is told by its tag, its free text by the escape, and the keys of a
composite by the separator that no key holds.  An elided name carries a tag that
is no key's, so it is never taken for a verbatim one.
-/

namespace Hekla.Lanes

open Hekla.Library

/-- One symbol of free text with the separators made unambiguous. -/
def escapeSymbol (ch : Char) : List Char :=
  if ch = '\\' then ['\\', '\\']
  else if ch = unitSeparator then ['\\', 'u']
  else if ch = partSeparator then ['\\', 'v']
  else [ch]

/-- An escape starts with a backslash, and says which symbol it stands for. -/
theorem escapeSymbol_cases (ch : Char) :
    (ch = '\\' ∧ escapeSymbol ch = ['\\', '\\']) ∨
      (ch = unitSeparator ∧ escapeSymbol ch = ['\\', 'u']) ∨
      (ch = partSeparator ∧ escapeSymbol ch = ['\\', 'v']) ∨
      (ch ≠ '\\' ∧ ch ≠ unitSeparator ∧ ch ≠ partSeparator ∧ escapeSymbol ch = [ch]) := by
  unfold escapeSymbol
  split
  · next slash => exact .inl ⟨slash, rfl⟩
  · next slash =>
      split
      · next unit => exact .inr (.inl ⟨unit, rfl⟩)
      · next unit =>
          split
          · next part => exact .inr (.inr (.inl ⟨part, rfl⟩))
          · next part => exact .inr (.inr (.inr ⟨slash, unit, part, rfl⟩))

theorem escapeSymbol_prefixFree : Escaping.PrefixFree escapeSymbol where
  nonempty symbol := by
    rcases escapeSymbol_cases symbol with ⟨-, code⟩ | ⟨-, code⟩ | ⟨-, code⟩ | ⟨-, -, -, code⟩ <;>
      rw [code] <;> exact List.cons_ne_nil _ _
  separate {first second rest tail} same := by
    rcases escapeSymbol_cases first with ⟨one, code⟩ | ⟨one, code⟩ | ⟨one, code⟩ | ⟨one, -, -, code⟩ <;>
      rcases escapeSymbol_cases second with ⟨two, other⟩ | ⟨two, other⟩ | ⟨two, other⟩ | ⟨two, -, -, other⟩ <;>
      rw [code, other] at same
    -- two escapes agree after the backslash only if they are the same
    · exact one.trans two.symm
    · exact absurd (List.cons.inj (List.cons.inj same).2).1 (by decide)
    · exact absurd (List.cons.inj (List.cons.inj same).2).1 (by decide)
    · exact absurd (List.cons.inj same).1.symm two
    · exact absurd (List.cons.inj (List.cons.inj same).2).1 (by decide)
    · exact one.trans two.symm
    · exact absurd (List.cons.inj (List.cons.inj same).2).1 (by decide)
    · exact absurd (List.cons.inj same).1.symm two
    · exact absurd (List.cons.inj (List.cons.inj same).2).1 (by decide)
    · exact absurd (List.cons.inj (List.cons.inj same).2).1 (by decide)
    · exact one.trans two.symm
    · exact absurd (List.cons.inj same).1.symm two
    · exact absurd (List.cons.inj same).1 one
    · exact absurd (List.cons.inj same).1 one
    · exact absurd (List.cons.inj same).1 one
    · exact (List.cons.inj same).1

/-- No separator is left in an escaped text. -/
theorem escapeSymbol_without {separator : Char}
    (known : separator = unitSeparator ∨ separator = partSeparator) (ch : Char) :
    separator ∉ escapeSymbol ch := by
  rcases escapeSymbol_cases ch with ⟨-, code⟩ | ⟨-, code⟩ | ⟨-, code⟩ | ⟨-, unit, part, code⟩
  · rw [code]; rcases known with rfl | rfl <;> decide
  · rw [code]; rcases known with rfl | rfl <;> decide
  · rw [code]; rcases known with rfl | rfl <;> decide
  · rw [code, List.mem_singleton]
    rintro rfl
    rcases known with same | same
    · exact unit same
    · exact part same

theorem escape_injective {one two : String} (same : escape one = escape two) : one = two :=
  String.toList_inj.mp (Escaping.flatMap_injective escapeSymbol_prefixFree same)

theorem notMem_escape {separator : Char}
    (known : separator = unitSeparator ∨ separator = partSeparator) (text : String) :
    separator ∉ escape text :=
  Escaping.notMem_flatMap (escapeSymbol_without known) _

/-! ## One key -/

theorem pushKey_ne_nil (key : Key) : pushKey key ≠ [] := by
  cases key <;> exact List.cons_ne_nil _ _

theorem unitSeparator_notMem_pushKey (key : Key) : unitSeparator ∉ pushKey key := by
  have tagged {tag : Char} {text : List Char} (known : tag ∈ ['i', 's', 'u', 't', 'e'])
      (without : unitSeparator ∉ text) : unitSeparator ∉ tag :: ':' :: text := by
    rw [List.mem_cons, List.mem_cons]
    rintro (same | same | member)
    · rw [← same] at known
      exact absurd known (by decide)
    · exact absurd same (by decide)
    · exact without member
  cases key with
  | int value => exact tagged (by decide) (notMem_toString unitSeparator (by decide) (by decide) value)
  | str text => exact tagged (by decide) (notMem_escape (.inl rfl) text)
  | uuid text => exact tagged (by decide) (notMem_escape (.inl rfl) text)
  | timestamp value => exact tagged (by decide) (notMem_toString unitSeparator (by decide) (by decide) value)
  | enum ty variant =>
      refine tagged (by decide) ?_
      rw [List.mem_append, List.mem_cons]
      rintro (member | same | member)
      · exact notMem_escape (.inl rfl) ty member
      · exact absurd same (by decide)
      · exact notMem_escape (.inl rfl) variant member

/-- What follows the tag of a key. -/
theorem pushKey_injective : Function.Injective pushKey := by
  intro one two same
  cases one with
  | int value =>
      cases two with
      | int other =>
          rw [toString_injective (String.toList_inj.mp (List.cons.inj (List.cons.inj same).2).2)]
      | _ => exact absurd (List.cons.inj same).1 (by decide)
  | str text =>
      cases two with
      | str other => rw [escape_injective (List.cons.inj (List.cons.inj same).2).2]
      | _ => exact absurd (List.cons.inj same).1 (by decide)
  | uuid text =>
      cases two with
      | uuid other => rw [escape_injective (List.cons.inj (List.cons.inj same).2).2]
      | _ => exact absurd (List.cons.inj same).1 (by decide)
  | timestamp value =>
      cases two with
      | timestamp other =>
          rw [toString_injective (String.toList_inj.mp (List.cons.inj (List.cons.inj same).2).2)]
      | _ => exact absurd (List.cons.inj same).1 (by decide)
  | enum ty variant =>
      cases two with
      | enum other name =>
          -- neither half of an enum holds what stands between them
          have halves := (List.append_cons_inj_of_notMem
            (notMem_escape (.inr rfl) ty) (notMem_escape (.inr rfl) variant)).mp
            (List.cons.inj (List.cons.inj same).2).2
          rw [escape_injective halves.1, escape_injective halves.2.2]
      | _ => exact absurd (List.cons.inj same).1 (by decide)

/-! ## A sequence of keys -/

theorem pushKeys_eq_intercalate (keys : List Key) :
    pushKeys keys = [unitSeparator].intercalate (keys.map pushKey) := by
  match keys with
  | [] => rfl
  | [key] => rw [pushKeys, List.map_cons, List.map_nil, List.intercalate_singleton]
  | key :: next :: rest =>
      rw [pushKeys, pushKeys_eq_intercalate (next :: rest)]
      exact (List.append_assoc _ [unitSeparator] _).symm.trans List.intercalate_cons_cons.symm

theorem pushKeys_injective : Function.Injective pushKeys := by
  intro one two same
  rw [pushKeys_eq_intercalate, pushKeys_eq_intercalate] at same
  exact Escaping.join_injective pushKey_injective pushKey_ne_nil unitSeparator_notMem_pushKey same

/-! ## The name -/

/-- The encoding of keys before it may be elided. -/
def spelled (keys : List Key) : String := String.ofList (pushKeys keys)

/-- Whether the encoding of keys is kept as a digest. -/
def Oversized (keys : List Key) : Prop := laneMax < (spelled keys).utf8ByteSize

instance (keys : List Key) : Decidable (Oversized keys) :=
  inferInstanceAs (Decidable (laneMax < _))

section Names

variable {sha256Hex : String → String} {keys one two : List Key}

theorem encode_of_oversized (long : Oversized keys) :
    encode sha256Hex keys = ⟨elided ++ sha256Hex (spelled keys)⟩ :=
  if_pos long

theorem encode_of_short (short : ¬ Oversized keys) : encode sha256Hex keys = ⟨spelled keys⟩ :=
  if_neg short

/-- The tag of an elided name is no key's. -/
theorem spelled_head_ne (keys : List Key) (rest : List Char) :
    (spelled keys).toList ≠ 'h' :: rest := by
  unfold spelled
  rw [String.toList_ofList]
  intro same
  rcases pushKeys_head keys with empty | ⟨tag, others, head, known⟩
  · rw [empty] at same
    cases same
  · rw [head] at same
    obtain ⟨rfl, -⟩ := List.cons.inj same
    exact absurd known (by decide)

theorem spelled_injective (same : spelled one = spelled two) : one = two :=
  pushKeys_injective (String.ofList_inj.mp same)

/-- A name carries the tag of an elided one exactly when its encoding was too long. -/
theorem elided_isPrefix_iff (keys : List Key) :
    elided.toList <+: (encode sha256Hex keys).text.toList ↔ Oversized keys := by
  constructor
  · rintro ⟨rest, tagged⟩
    by_contra short
    rw [encode_of_short short] at tagged
    exact spelled_head_ne keys (':' :: rest) tagged.symm
  · intro long
    rw [encode_of_oversized long, String.toList_append]
    exact List.prefix_append _ _

/-- Equal names are of equal keys, or are two digests that are alike. -/
theorem keys_of_encode (same : encode sha256Hex one = encode sha256Hex two) :
    one = two ∨ (Oversized one ∧ Oversized two ∧
      sha256Hex (spelled one) = sha256Hex (spelled two)) := by
  have tagged : Oversized one ↔ Oversized two := by
    rw [← @elided_isPrefix_iff sha256Hex one, same, elided_isPrefix_iff]
  by_cases long : Oversized one
  · have other := tagged.mp long
    rw [encode_of_oversized long, encode_of_oversized other] at same
    have texts := congrArg String.toList (LaneId.mk.inj same)
    rw [String.toList_append, String.toList_append] at texts
    exact .inr ⟨long, other, String.toList_inj.mp (List.append_cancel_left texts)⟩
  · rw [encode_of_short long, encode_of_short fun other => long (tagged.mpr other)] at same
    exact .inl (spelled_injective (LaneId.mk.inj same))

theorem encode_ne_unreadable (keys : List Key) : encode sha256Hex keys ≠ .unreadable := by
  intro same
  refine encode_head_ne sha256Hex keys [] ?_
  rw [same]
  decide

end Names

/-- Two sequences of keys share a lane only if they are one sequence or their
digests collide; no sequence of keys names the unreadable lane; and a name is
elided or verbatim, as its first characters say. -/
theorem lane_names_injective (sha256Hex : String → String) :
    (∀ one two : List Key, encode sha256Hex one = encode sha256Hex two →
      one = two ∨ (Oversized one ∧ Oversized two ∧ spelled one ≠ spelled two ∧
        sha256Hex (spelled one) = sha256Hex (spelled two))) ∧
    (∀ keys : List Key, encode sha256Hex keys ≠ .unreadable) ∧
    (∀ keys : List Key, elided.toList <+: (encode sha256Hex keys).text.toList ↔ Oversized keys) ∧
    (∀ keys : List Key, ¬ Oversized keys → encode sha256Hex keys = ⟨spelled keys⟩) := by
  refine ⟨?_, encode_ne_unreadable, elided_isPrefix_iff, fun keys short => encode_of_short short⟩
  intro one two same
  by_cases equal : one = two
  · exact .inl equal
  · rcases keys_of_encode same with rfl | ⟨long, other, digests⟩
    · exact absurd rfl equal
    · exact .inr ⟨long, other, fun texts => equal (spelled_injective texts), digests⟩

end Hekla.Lanes
