import Mathlib.Data.List.AList
import Mathlib.Data.List.MinMax
import Mathlib.Order.Lattice

/-!
# Keyed tables

A finite table holds at most one value under each key.  It is Mathlib's
`AList` at a constant family, read through `get`; what is added here is the
pointwise reading of each update, the bulk deletion `retain`, the move of every
entry to another key, and the least key, which are what a hash map, an ordered
map and a table with a primary key share.
-/

namespace Hekla.Library

/-- A finite table with at most one value under each key. -/
abbrev Table (κ : Type*) (β : Type*) := AList (fun _ : κ => β)

namespace Table

variable {κ β : Type*} [DecidableEq κ]

/-- The value stored under a key. -/
def get (table : Table κ β) (key : κ) : Option β := table.lookup key

/-- Store a value under a key, replacing what was there. -/
def set (table : Table κ β) (key : κ) (value : β) : Table κ β := table.insert key value

/-- Delete one key. -/
def remove (table : Table κ β) (key : κ) : Table κ β := table.erase key

/-- Delete every entry the test does not keep. -/
def retain (table : Table κ β) (keep : κ → β → Bool) : Table κ β :=
  ⟨table.entries.filter (fun entry => keep entry.1 entry.2),
    table.nodupKeys.sublist List.filter_sublist⟩

/-- Whether some entry passes the test. -/
def any (table : Table κ β) (test : κ → β → Bool) : Bool :=
  table.entries.any (fun entry => test entry.1 entry.2)

/-- Every entry under another key, and in another form. -/
def reshape {κ' γ : Type*} [DecidableEq κ'] (table : Table κ β) (place : κ → κ') (form : β → γ) :
    Table κ' γ :=
  table.entries.foldr (fun entry next => next.insert (place entry.1) (form entry.2)) ∅

/-- Every value in another form, under its key. -/
def map {γ : Type*} (table : Table κ β) (form : κ → β → γ) : Table κ γ :=
  ⟨table.entries.map (fun entry => ⟨entry.1, form entry.1 entry.2⟩), by
    have keys : (table.entries.map (fun entry =>
        (⟨entry.1, form entry.1 entry.2⟩ : Sigma fun _ : κ => γ))).keys = table.entries.keys := by
      simp [List.keys, Function.comp_def]
    rw [List.NodupKeys, keys]
    exact table.nodupKeys⟩

/-- The table of a list of entries; of two under one key the first is kept. -/
def ofList (entries : List (κ × β)) : Table κ β :=
  entries.foldr (fun entry table => table.set entry.1 entry.2) ∅

/-- The least key of the table. -/
def firstKey [LinearOrder κ] (table : Table κ β) : Option κ := table.keys.min?

@[simp]
theorem get_empty (key : κ) : get (∅ : Table κ β) key = none := AList.lookup_empty key

@[simp]
theorem get_set (table : Table κ β) (key other : κ) (value : β) :
    (table.set key value).get other = if other = key then some value else table.get other := by
  by_cases same : other = key
  · subst same
    simp [get, set]
  · simp [get, set, same, AList.lookup_insert_ne same]

@[simp]
theorem get_remove (table : Table κ β) (key other : κ) :
    (table.remove key).get other = if other = key then none else table.get other := by
  by_cases same : other = key
  · subst same
    simp [get, remove]
  · simp [get, remove, same, AList.lookup_erase_ne same]

/-- Where no two entries share a key, the table holds exactly the list. -/
theorem get_ofList {entries : List (κ × β)} (distinct : (entries.map Prod.fst).Nodup) (key : κ)
    (value : β) : (ofList entries).get key = some value ↔ (key, value) ∈ entries := by
  induction entries with
  | nil => simp [ofList]
  | cons entry rest ih =>
      obtain ⟨fresh, distinctRest⟩ := List.nodup_cons.mp distinct
      change Table.get ((ofList rest).set entry.1 entry.2) key = some value ↔ _
      rw [get_set, List.mem_cons]
      split
      · next here =>
          subst here
          constructor
          · intro found
            cases found
            exact .inl rfl
          · rintro (here | later)
            · rw [← here]
            · exact absurd (List.mem_map_of_mem later) fresh
      · next elsewhere =>
          rw [ih distinctRest]
          constructor
          · exact .inr
          · rintro (rfl | later)
            · exact absurd rfl elsewhere
            · exact later

theorem get_eq_some_iff (table : Table κ β) (key : κ) (value : β) :
    table.get key = some value ↔ (⟨key, value⟩ : Sigma fun _ : κ => β) ∈ table.entries :=
  AList.mem_lookup_iff

@[simp]
theorem get_retain (table : Table κ β) (keep : κ → β → Bool) (key : κ) :
    (table.retain keep).get key = (table.get key).filter (keep key) := by
  apply Option.ext
  intro value
  rw [get_eq_some_iff, Option.filter_eq_some_iff, get_eq_some_iff]
  simp [retain]

theorem get_retain_of_kept {table : Table κ β} {keep : κ → β → Bool} {key : κ}
    (kept : ∀ value, table.get key = some value → keep key value = true) :
    (table.retain keep).get key = table.get key := by
  rw [get_retain]
  cases held : table.get key with
  | none => rfl
  | some value => rw [Option.filter_some, if_pos (kept value held)]

theorem get_retain_of_dropped {table : Table κ β} {keep : κ → β → Bool} {key : κ}
    (dropped : ∀ value, table.get key = some value → keep key value = false) :
    (table.retain keep).get key = none := by
  rw [get_retain]
  cases held : table.get key with
  | none => rfl
  | some value =>
      rw [Option.filter_some, dropped value held]
      rfl

@[simp]
theorem get_map {γ : Type*} (table : Table κ β) (form : κ → β → γ) (key : κ) :
    (table.map form).get key = (table.get key).map (form key) := by
  apply Option.ext
  intro value
  rw [get_eq_some_iff, Option.map_eq_some_iff]
  simp only [map, List.mem_map, get_eq_some_iff]
  constructor
  · rintro ⟨⟨other, held⟩, member, same⟩
    cases same
    exact ⟨held, member, rfl⟩
  · rintro ⟨held, member, rfl⟩
    exact ⟨⟨key, held⟩, member, rfl⟩

omit [DecidableEq κ] in
theorem map_map {γ δ : Type*} (table : Table κ β) (form : κ → β → γ) (next : κ → γ → δ) :
    (table.map form).map next = table.map (fun key value => next key (form key value)) := by
  apply AList.ext
  simp [map, Function.comp_def]

/-- A form that changes no stored value changes nothing. -/
theorem map_eq_self (table : Table κ β) (form : κ → β → β)
    (kept : ∀ key value, table.get key = some value → form key value = value) :
    table.map form = table := by
  apply AList.ext
  refine (List.map_congr_left ?_).trans (List.map_id table.entries)
  intro entry member
  have held := (get_eq_some_iff table entry.1 entry.2).mpr member
  change (⟨entry.1, form entry.1 entry.2⟩ : Sigma fun _ : κ => β) = entry
  rw [kept entry.1 entry.2 held]

/-- Where no two keys share a place, every entry is found at its own. -/
theorem get_reshape {κ' γ : Type*} [DecidableEq κ'] {table : Table κ β} {place : κ → κ'}
    (form : β → γ)
    (apart : ∀ key other value value', table.get key = some value →
      table.get other = some value' → place key = place other → key = other)
    (target : κ') (shaped : γ) :
    (table.reshape place form).get target = some shaped ↔
      ∃ key value, table.get key = some value ∧ place key = target ∧ form value = shaped := by
  have listed (entries : List (Sigma fun _ : κ => β))
      (apart : entries.Pairwise fun entry other => place entry.1 ≠ place other.1) :
      Table.get (entries.foldr
          (fun entry (next : Table κ' γ) => next.insert (place entry.1) (form entry.2)) ∅)
          target = some shaped ↔
        ∃ entry ∈ entries, place entry.1 = target ∧ form entry.2 = shaped := by
    induction entries with
    | nil => simp
    | cons entry rest ih =>
        obtain ⟨others, apartRest⟩ := List.pairwise_cons.mp apart
        have step : Table.get ((entry :: rest).foldr
            (fun entry (next : Table κ' γ) => next.insert (place entry.1) (form entry.2)) ∅)
            target = if target = place entry.1 then some (form entry.2) else
              Table.get (rest.foldr
                (fun entry (next : Table κ' γ) => next.insert (place entry.1) (form entry.2)) ∅)
                target := get_set _ _ _ _
        rw [step]
        constructor
        · intro found
          split at found
          · next here => exact ⟨entry, List.mem_cons_self, here.symm, Option.some.inj found⟩
          · obtain ⟨other, member, there, same⟩ := (ih apartRest).mp found
            exact ⟨other, List.mem_cons_of_mem _ member, there, same⟩
        · rintro ⟨other, member, there, same⟩
          rcases List.mem_cons.mp member with rfl | member
          · rw [if_pos there.symm, same]
          · rw [if_neg]
            · exact (ih apartRest).mpr ⟨other, member, there, same⟩
            · rintro rfl
              exact others other member there.symm
  have pairwise : table.entries.Pairwise fun entry other => place entry.1 ≠ place other.1 := by
    refine (List.nodupKeys_iff_pairwise.mp table.nodupKeys).imp_of_mem ?_
    intro entry other member memberOther differ same
    exact differ (apart entry.1 other.1 entry.2 other.2
      ((get_eq_some_iff table entry.1 entry.2).mpr member)
      ((get_eq_some_iff table other.1 other.2).mpr memberOther) same)
  unfold reshape
  rw [listed table.entries pairwise]
  constructor
  · rintro ⟨entry, member, there, same⟩
    exact ⟨entry.1, entry.2, (get_eq_some_iff table entry.1 entry.2).mpr member, there, same⟩
  · rintro ⟨key, value, held, there, same⟩
    exact ⟨⟨key, value⟩, (get_eq_some_iff table key value).mp held, there, same⟩

theorem any_eq_true (table : Table κ β) (test : κ → β → Bool) :
    table.any test = true ↔ ∃ key value, table.get key = some value ∧ test key value = true := by
  simp only [any, List.any_eq_true, get_eq_some_iff]
  constructor
  · rintro ⟨⟨key, value⟩, member, passed⟩
    exact ⟨key, value, member, passed⟩
  · rintro ⟨key, value, member, passed⟩
    exact ⟨⟨key, value⟩, member, passed⟩

theorem mem_keys_iff (table : Table κ β) (key : κ) :
    key ∈ table.keys ↔ ∃ value, table.get key = some value := by
  rw [← Option.isSome_iff_exists, get, AList.lookup_isSome]
  rfl

theorem firstKey_eq_some_iff [LinearOrder κ] (table : Table κ β) (key : κ) :
    table.firstKey = some key ↔
      (∃ value, table.get key = some value) ∧
        ∀ other value, table.get other = some value → key ≤ other := by
  rw [firstKey, List.min?_eq_some_iff, mem_keys_iff]
  constructor
  · rintro ⟨present, least⟩
    exact ⟨present, fun other value found => least other ((mem_keys_iff _ _).mpr ⟨value, found⟩)⟩
  · rintro ⟨present, least⟩
    refine ⟨present, ?_⟩
    intro other member
    obtain ⟨value, found⟩ := (mem_keys_iff _ _).mp member
    exact least other value found

theorem firstKey_eq_none_iff [LinearOrder κ] (table : Table κ β) :
    table.firstKey = none ↔ ∀ key, table.get key = none := by
  rw [firstKey, List.min?_eq_none_iff]
  constructor
  · intro empty key
    cases found : table.get key with
    | none => rfl
    | some value =>
        have member := (mem_keys_iff table key).mpr ⟨value, found⟩
        rw [empty] at member
        cases member
  · intro absent
    apply List.eq_nil_iff_forall_not_mem.mpr
    intro key member
    obtain ⟨value, found⟩ := (mem_keys_iff table key).mp member
    rw [absent key] at found
    cases found

end Table

end Hekla.Library
