import Hekla.Lanes.State

/-!
# Names of lanes

A lane is named by the partition key of an event: the values of the key fields
in written order, each under the tag of its kind, or a digest of that where it
would be too long to keep.
-/

namespace Hekla.Lanes

/-- A value that can name a lane. -/
inductive Key where
  | int (value : Int)
  | str (text : String)
  | uuid (text : String)
  | timestamp (value : Int)
  | enum (ty variant : String)
  deriving DecidableEq

/-- What separates one key from the next in a composite. -/
def unitSeparator : Char := '\x1f'

/-- What separates an enum's type from its variant. -/
def partSeparator : Char := '\x1e'

/-- The most bytes kept verbatim. -/
def laneMax : Nat := 512

def elided : String := "h:"

/-- Free text with the separators made unambiguous. -/
def escape (text : String) : List Char :=
  text.toList.flatMap fun ch =>
    if ch = '\\' then ['\\', '\\']
    else if ch = unitSeparator then ['\\', 'u']
    else if ch = partSeparator then ['\\', 'v']
    else [ch]

def pushKey : Key → List Char
  | .int value => 'i' :: ':' :: (toString value).toList
  | .str text => 's' :: ':' :: escape text
  | .uuid text => 'u' :: ':' :: escape text
  | .timestamp value => 't' :: ':' :: (toString value).toList
  | .enum ty variant => 'e' :: ':' :: (escape ty ++ partSeparator :: escape variant)

def pushKeys : List Key → List Char
  | [] => []
  | [key] => pushKey key
  | key :: next :: rest => pushKey key ++ unitSeparator :: pushKeys (next :: rest)

/-- The lane that keys name; `sha256Hex` digests an encoding that is too long. -/
def encode (sha256Hex : String → String) (keys : List Key) : LaneId :=
  let out := String.ofList (pushKeys keys)
  if laneMax < out.utf8ByteSize then ⟨elided ++ sha256Hex out⟩ else ⟨out⟩

/-- The lane of an event whose partition key was read, or not. -/
def laneOf (sha256Hex : String → String) : Option (List Key) → LaneId
  | some keys => encode sha256Hex keys
  | none => .unreadable

/-- An encoding starts with a tag, or is empty. -/
theorem pushKeys_head (keys : List Key) :
    pushKeys keys = [] ∨ ∃ tag rest, pushKeys keys = tag :: rest ∧ tag ∈ ['i', 's', 'u', 't', 'e'] := by
  have tagged (key : Key) (more : List Char) :
      ∃ tag rest, pushKey key ++ more = tag :: rest ∧ tag ∈ ['i', 's', 'u', 't', 'e'] := by
    cases key with
    | int => exact ⟨_, _, rfl, by decide⟩
    | str => exact ⟨_, _, rfl, by decide⟩
    | uuid => exact ⟨_, _, rfl, by decide⟩
    | timestamp => exact ⟨_, _, rfl, by decide⟩
    | enum => exact ⟨_, _, rfl, by decide⟩
  match keys with
  | [] => exact .inl rfl
  | [key] =>
      have alone := tagged key []
      rw [List.append_nil] at alone
      exact .inr alone
  | key :: next :: rest => exact .inr (tagged key _)

/-- No key names a lane that starts with an exclamation mark. -/
theorem encode_head_ne (sha256Hex : String → String) (keys : List Key) (rest : List Char) :
    (encode sha256Hex keys).text.toList ≠ '!' :: rest := by
  unfold encode
  dsimp only
  split
  · rw [String.toList_append]
    intro same
    exact absurd (List.cons.inj same).1 (by decide)
  · rw [String.toList_ofList]
    intro same
    rcases pushKeys_head keys with empty | ⟨tag, others, spelled, known⟩
    · rw [empty] at same
      cases same
    · rw [spelled] at same
      obtain ⟨rfl, -⟩ := List.cons.inj same
      exact absurd known (by decide)

end Hekla.Lanes
