import Hekla.Library.Table

/-!
# What is told first

Of each key that is sought the first value told is kept, and the key is sought no more.  What
is told afterwards changes nothing, so a search that ends once nothing is sought has found
what one that hears everything finds.
-/

namespace Hekla.Library

universe u v

variable {κ : Type u} {ν : Type v} [DecidableEq κ]

/-- The first value told of a key. -/
def firstTold (told : List (κ × ν)) (key : κ) : Option ν :=
  (told.find? fun one => one.1 == key).map Prod.snd

@[simp] theorem firstTold_nil (key : κ) : firstTold ([] : List (κ × ν)) key = none := rfl

theorem firstTold_cons (one : κ × ν) (told : List (κ × ν)) (key : κ) :
    firstTold (one :: told) key = if one.1 = key then some one.2 else firstTold told key := by
  unfold firstTold
  by_cases same : one.1 = key <;> simp [same]

theorem firstTold_eq_none_iff (told : List (κ × ν)) (key : κ) :
    firstTold told key = none ↔ ∀ one ∈ told, one.1 ≠ key := by
  simp [firstTold]

theorem mem_of_firstTold {told : List (κ × ν)} {key : κ} {value : ν}
    (first : firstTold told key = some value) : (key, value) ∈ told := by
  obtain ⟨⟨key', value'⟩, found, rfl⟩ := Option.map_eq_some_iff.mp first
  have same : key' = key := by simpa using List.find?_some found
  exact same ▸ List.mem_of_find?_eq_some found

/-- The keys that are sought still, and what was told first of those that were. -/
structure Search (κ : Type u) (ν : Type v) where
  pending : List κ
  found : Table κ ν := ∅

namespace Search

def hear (search : Search κ ν) (one : κ × ν) : Search κ ν :=
  match search.found.get one.1 with
  | some _ => search
  | none =>
      if one.1 ∈ search.pending then
        ⟨search.pending.filter (· ≠ one.1), search.found.set one.1 one.2⟩
      else search

def hearAll (search : Search κ ν) (told : List (κ × ν)) : Search κ ν := told.foldl hear search

variable {search : Search κ ν}

@[simp] theorem hearAll_nil : search.hearAll [] = search := rfl

@[simp] theorem hearAll_cons (one : κ × ν) (told : List (κ × ν)) :
    search.hearAll (one :: told) = (search.hear one).hearAll told := rfl

theorem hearAll_append (first second : List (κ × ν)) :
    search.hearAll (first ++ second) = (search.hearAll first).hearAll second :=
  List.foldl_append

/-- Where nothing is sought, nothing is heard. -/
theorem hearAll_of_idle (idle : search.pending = []) (told : List (κ × ν)) :
    search.hearAll told = search := by
  induction told with
  | nil => rfl
  | cons one told ih =>
      have unheard : search.hear one = search := by
        unfold hear
        split <;> simp [idle]
      rw [hearAll_cons, unheard, ih]

theorem pending_hear_sublist (one : κ × ν) : (search.hear one).pending.Sublist search.pending := by
  unfold hear
  split
  · exact List.Sublist.refl _
  · split
    · exact List.filter_sublist
    · exact List.Sublist.refl _

theorem pending_hearAll_sublist (told : List (κ × ν)) :
    (search.hearAll told).pending.Sublist search.pending := by
  induction told generalizing search with
  | nil => exact List.Sublist.refl _
  | cons one told ih => exact ih.trans (pending_hear_sublist one)

theorem found_hear (one : κ × ν) (key : κ) :
    (search.hear one).found.get key =
      (search.found.get key).or (if key ∈ search.pending ∧ one.1 = key then some one.2 else none) := by
  unfold hear
  cases known : search.found.get one.1 with
  | some value =>
      by_cases same : one.1 = key
      · subst same
        simp [known]
      · simp [same]
  | none =>
      dsimp only
      by_cases same : one.1 = key
      · subst same
        split
        · next sought => simp [Table.get_set, known, sought]
        · next unsought => simp [known, unsought]
      · split
        · simp [Table.get_set, same, Ne.symm same]
        · simp [same]

theorem mem_pending_hear (one : κ × ν) (key : κ) :
    key ∈ (search.hear one).pending ↔
      key ∈ search.pending ∧ (one.1 = key → search.found.get key ≠ none) := by
  unfold hear
  cases known : search.found.get one.1 with
  | some value =>
      refine ⟨fun sought => ⟨sought, ?_⟩, And.left⟩
      rintro rfl
      simp [known]
  | none =>
      dsimp only
      split
      · rw [List.mem_filter, decide_eq_true_iff]
        refine and_congr_right fun _ => ⟨fun apart same => absurd same.symm apart, ?_⟩
        rintro fresh rfl
        exact fresh rfl known
      · next unsought =>
          refine ⟨fun sought => ⟨sought, ?_⟩, And.left⟩
          rintro rfl
          exact absurd sought unsought

/-- A key that was sought is found as it was told first. -/
theorem found_hearAll (told : List (κ × ν)) (key : κ) :
    (search.hearAll told).found.get key =
      (search.found.get key).or (if key ∈ search.pending then firstTold told key else none) := by
  induction told generalizing search with
  | nil => simp
  | cons one told ih =>
      rw [hearAll_cons, ih, found_hear, firstTold_cons]
      have still : key ∈ (search.hear one).pending ↔
          key ∈ search.pending ∧ (one.1 = key → search.found.get key ≠ none) := mem_pending_hear one key
      cases known : search.found.get key with
      | some value => simp
      | none =>
          by_cases sought : key ∈ search.pending <;> by_cases same : one.1 = key <;>
            simp_all

/-- What is sought in the end was never told of. -/
theorem mem_pending_hearAll (told : List (κ × ν)) (key : κ) :
    key ∈ (search.hearAll told).pending ↔
      key ∈ search.pending ∧ (search.found.get key = none → firstTold told key = none) := by
  induction told generalizing search with
  | nil => simp
  | cons one told ih =>
      rw [hearAll_cons, ih, mem_pending_hear, found_hear, firstTold_cons]
      cases known : search.found.get key with
      | some value => simp
      | none =>
          by_cases sought : key ∈ search.pending <;> by_cases same : one.1 = key <;>
            simp_all

end Search

end Hekla.Library
