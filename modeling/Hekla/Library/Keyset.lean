import Mathlib.Algebra.GroupWithZero.Nat
import Mathlib.Algebra.BigOperators.Group.List.Basic
import Mathlib.Data.List.Sort
import Mathlib.Order.Defs.Unbundled

/-!
# Paging by place

A reader asks for one page after another.  A request says how many rows its page
may hold, and a page that is not the last carries a mark of its last row, which
the next request hands back.  A server that answers a mark with the rows after
its row deals the whole sequence out, whatever the requests, and says there is
nothing more on exactly the page that ends it.

The rows of a sequence stand in a strict order of their places, no two at the
same one, so the rows after one of them are those whose place comes after its
own, and a server finds them without having kept anything of the reader.
-/

namespace Hekla.Library

universe u v w x y

/-- One page, and the mark to resume after, absent at the end. -/
structure Page (ι : Type u) (γ : Type v) where
  items : List ι
  next : Option γ
  deriving DecidableEq

section Dealing

variable {ρ : Type u} {ι : Type v} {γ : Type w} {δ : Type x} {ε : Type y}

/-- A reader follows each page's mark to the next one. -/
def walk (page : Option γ → δ → Except ε (Page ι γ)) :
    Option γ → List δ → List (Except ε (Page ι γ))
  | _, [] => []
  | mark, request :: requests =>
      page mark request ::
        match page mark request with
        | .ok ⟨_, some next⟩ => walk page (some next) requests
        | .ok ⟨_, none⟩ => []
        | .error _ => []

/-- The page that opens a sequence of rows.  A row more than it holds is what
tells that another follows. -/
def opening (mark : ρ → γ) (render : ρ → ι) (limit : Nat) (rows : List ρ) : Page ι γ where
  items := (rows.take limit).map render
  next := if limit < rows.length then (rows.take limit).getLast?.map mark else none

/-- A sequence of rows cut into pages. -/
def chunks : List Nat → List ρ → List (List ρ)
  | [], _ => []
  | limit :: limits, rows =>
      rows.take limit :: if limit < rows.length then chunks limits (rows.drop limit) else []

theorem flatten_chunks (limits : List Nat) (rows : List ρ) :
    (chunks limits rows).flatten = rows.take limits.sum := by
  induction limits generalizing rows with
  | nil => simp [chunks]
  | cons limit limits ih =>
      rw [chunks, List.flatten_cons, List.sum_cons, List.take_add]
      congr 1
      split
      · exact ih (rows.drop limit)
      · next short => simp [List.drop_of_length_le (Nat.not_lt.mp short)]

/-- Requests that may ask for as many rows as there are deal all of them out. -/
theorem flatten_chunks_of_enough {limits : List Nat} {rows : List ρ}
    (positive : ∀ limit ∈ limits, 0 < limit) (enough : rows.length ≤ limits.length) :
    (chunks limits rows).flatten = rows := by
  have many := limits.length_le_sum_of_one_le positive
  rw [flatten_chunks, List.take_of_length_le (Nat.le_trans enough many)]

theorem chunks_ne_nil {limits : List Nat} (rows : List ρ) (asked : limits ≠ []) :
    chunks limits rows ≠ [] := by
  cases limits with
  | nil => exact absurd rfl asked
  | cons limit limits => simp [chunks]

/-- The pages of a walk deal out a sequence of rows: part by part in order, each
row once, each part rendered as its own request asks, the mark of a page that of
its last row, and no mark on exactly the page that ends the sequence. -/
structure Dealt (mark : ρ → γ) (render : δ → ρ → ι) (limit : δ → Nat) (requests : List δ)
    (rows : List ρ) (pages : List (Except ε (Page ι γ))) : Prop where
  length : pages.length = (chunks (requests.map limit) rows).length
  page : ∀ index request part, requests[index]? = some request →
    (chunks (requests.map limit) rows)[index]? = some part →
    ∃ next, pages[index]? = some (.ok ⟨part.map (render request), next⟩) ∧
      (next = none ↔ ((chunks (requests.map limit) rows).take (index + 1)).flatten = rows) ∧
      ∀ cursor, next = some cursor → part.getLast?.map mark = some cursor

/-- A server that resumes: handed the mark of a row that is not the last, or none
at all, it answers with the page that opens what follows. -/
def Resumes (mark : ρ → γ) (render : δ → ρ → ι) (limit : δ → Nat)
    (page : Option γ → δ → Except ε (Page ι γ)) (rows : List ρ) : Prop :=
  ∀ done rest request, rows = done ++ rest → (rest = [] → done = []) →
    page (done.getLast?.map mark) request = .ok (opening mark (render request) (limit request) rest)

variable {mark : ρ → γ} {render : δ → ρ → ι} {limit : δ → Nat}
  {page : Option γ → δ → Except ε (Page ι γ)} {rows : List ρ}

theorem take_eq_self_iff {size : Nat} : rows.take size = rows ↔ rows.length ≤ size := by
  constructor
  · intro whole
    have counted := congrArg List.length whole
    rw [List.length_take] at counted
    omega
  · exact List.take_of_length_le

/-- A page of at least one row carries no mark exactly when it ends the sequence. -/
theorem opening_next_eq_none_iff (mark : ρ → γ) (shown : ρ → ι) {size : Nat} (positive : 0 < size) :
    (opening mark shown size rows).next = none ↔ rows.take size = rows := by
  unfold opening
  dsimp only
  by_cases more : size < rows.length
  · rw [if_pos more, Option.map_eq_none_iff, List.getLast?_eq_none_iff, List.take_eq_nil_iff,
      take_eq_self_iff]
    constructor
    · rintro (none | empty)
      · omega
      · rw [empty] at more
        cases more
    · intro whole
      omega
  · rw [if_neg more, take_eq_self_iff]
    exact ⟨fun _ => Nat.not_lt.mp more, fun _ => rfl⟩

theorem opening_marks (mark : ρ → γ) (shown : ρ → ι) {size : Nat} {cursor : γ}
    (marked : (opening mark shown size rows).next = some cursor) :
    (rows.take size).getLast?.map mark = some cursor := by
  unfold opening at marked
  dsimp only at marked
  split at marked
  · exact marked
  · cases marked

theorem opening_of_more (mark : ρ → γ) (shown : ρ → ι) {size : Nat} (positive : 0 < size)
    (more : size < rows.length) :
    ∃ last, (rows.take size).getLast? = some last ∧
      opening mark shown size rows = ⟨(rows.take size).map shown, some (mark last)⟩ := by
  cases found : (rows.take size).getLast? with
  | none =>
      rw [List.getLast?_eq_none_iff, List.take_eq_nil_iff] at found
      rcases found with none | empty
      · omega
      · rw [empty] at more
        cases more
  | some last =>
      refine ⟨last, rfl, ?_⟩
      unfold opening
      rw [if_pos more, found]
      rfl

theorem opening_of_short (mark : ρ → γ) (shown : ρ → ι) {size : Nat} (short : ¬ size < rows.length) :
    opening mark shown size rows = ⟨(rows.take size).map shown, none⟩ := by
  unfold opening
  rw [if_neg short]

/-- A page that ends the sequence deals it out by itself. -/
theorem Dealt.ending (mark : ρ → γ) {request : δ} (requests : List δ) (positive : 0 < limit request)
    (short : ¬ limit request < rows.length) :
    Dealt mark render limit (request :: requests) rows
      ([.ok (opening mark (render request) (limit request) rows)] :
        List (Except ε (Page ι γ))) := by
  have cut : chunks ((request :: requests).map limit) rows = [rows.take (limit request)] := by
    rw [List.map_cons, chunks, if_neg short]
  constructor
  · rw [cut]
    rfl
  · intro index request' part asked served
    rw [cut] at served ⊢
    cases index with
    | zero =>
        cases asked
        cases served
        refine ⟨(opening mark (render request) (limit request) rows).next, rfl, ?_,
          fun _ => opening_marks mark (render request)⟩
        rw [opening_next_eq_none_iff mark (render request) positive]
        simp
    | succ index => cases served

/-- A page before others deals out what the others leave. -/
theorem Dealt.cons (mark : ρ → γ) {request : δ} {requests : List δ} {pages : List (Except ε (Page ι γ))}
    (positive : 0 < limit request) (more : limit request < rows.length)
    (others : Dealt mark render limit requests (rows.drop (limit request)) pages) :
    Dealt mark render limit (request :: requests) rows
      (.ok (opening mark (render request) (limit request) rows) :: pages) := by
  have cut : chunks ((request :: requests).map limit) rows =
      rows.take (limit request) :: chunks (requests.map limit) (rows.drop (limit request)) := by
    rw [List.map_cons, chunks, if_pos more]
  constructor
  · rw [cut, List.length_cons, List.length_cons, others.length]
  · intro index request' part asked served
    rw [cut] at served ⊢
    cases index with
    | zero =>
        cases asked
        cases served
        refine ⟨(opening mark (render request) (limit request) rows).next, rfl, ?_,
          fun _ => opening_marks mark (render request)⟩
        rw [opening_next_eq_none_iff mark (render request) positive]
        simp
    | succ index =>
        obtain ⟨next, found, ends, marks⟩ := others.page index request' part asked served
        refine ⟨next, found, ?_, marks⟩
        rw [ends, List.take_succ_cons, List.flatten_cons]
        constructor
        · intro rest
          rw [rest, List.take_append_drop]
        · intro whole
          exact List.append_cancel_left
            (whole.trans (List.take_append_drop (limit request) rows).symm)

/-- The pages that follow the rows already dealt out. -/
theorem walk_from (resumes : Resumes mark render limit page rows) {requests : List δ}
    (positive : ∀ request ∈ requests, 0 < limit request) {done rest : List ρ}
    (split : rows = done ++ rest) (more : rest = [] → done = []) :
    Dealt mark render limit requests rest (walk page (done.getLast?.map mark) requests) := by
  induction requests generalizing done rest with
  | nil => exact ⟨rfl, fun index request part asked => nomatch asked⟩
  | cons request requests ih =>
      have size := positive request List.mem_cons_self
      have answered := resumes done rest request split more
      by_cases further : limit request < rest.length
      · obtain ⟨last, ended, opened⟩ := opening_of_more mark (render request) size further
        have onward : (done ++ rest.take (limit request)).getLast?.map mark = some (mark last) := by
          rw [List.getLast?_append, ended]
          rfl
        have split' : rows = (done ++ rest.take (limit request)) ++ rest.drop (limit request) := by
          rw [split, List.append_assoc, List.take_append_drop]
        have others := ih (fun later asked => positive later (List.mem_cons_of_mem _ asked)) split'
          fun none => absurd (List.drop_eq_nil_iff.mp none) (Nat.not_le.mpr further)
        have dealt := Dealt.cons mark size further others
        rw [onward] at dealt
        rw [walk, answered, opened]
        rw [opened] at dealt
        exact dealt
      · have opened := opening_of_short mark (render request) further
        have dealt : Dealt mark render limit (request :: requests) rest
            ([.ok (opening mark (render request) (limit request) rest)] :
              List (Except ε (Page ι γ))) := Dealt.ending mark requests size further
        rw [walk, answered, opened]
        rw [opened] at dealt
        exact dealt

/-- A reader that follows every mark is dealt the whole sequence. -/
theorem walk_dealt (resumes : Resumes mark render limit page rows) {requests : List δ}
    (positive : ∀ request ∈ requests, 0 < limit request) :
    Dealt mark render limit requests rows (walk page none requests) :=
  walk_from resumes positive (List.nil_append rows).symm fun _ => rfl

end Dealing

/-! ## Rows in the order of their places -/

section Placing

variable {ρ : Type u} {κ : Type v} (before : κ → κ → Prop) [DecidableRel before] (place : ρ → κ)

/-- Rows sorted by the places they stand at. -/
def ordered (rows : List ρ) : List ρ :=
  rows.insertionSort fun one other => ¬ before (place other) (place one)

theorem ordered_perm (rows : List ρ) : (ordered before place rows).Perm rows :=
  List.perm_insertionSort _ rows

variable [IsStrictTotalOrder κ before]

omit [DecidableRel before] in
theorem not_before_trans {one middle other : κ} (lower : ¬ before middle one)
    (upper : ¬ before other middle) : ¬ before other one := by
  intro back
  rcases trichotomous_of before one middle with up | same | down
  · exact upper (trans_of before back up)
  · exact upper (same ▸ back)
  · exact lower down

theorem ordered_pairwise {rows : List ρ} (distinct : (rows.map place).Nodup) :
    (ordered before place rows).Pairwise fun one other => before (place one) (place other) := by
  let upTo : ρ → ρ → Prop := fun one other => ¬ before (place other) (place one)
  have total : Std.Total upTo := ⟨fun one other => by
    by_cases up : before (place one) (place other)
    · exact .inl (asymm up)
    · exact .inr up⟩
  have transitive : IsTrans ρ upTo := ⟨fun _ _ _ => not_before_trans before⟩
  have sorted : (ordered before place rows).Pairwise upTo := List.pairwise_insertionSort upTo rows
  have apart : ((ordered before place rows).map place).Nodup :=
    ((ordered_perm before place rows).map place).nodup_iff.mpr distinct
  rw [List.nodup_iff_pairwise_ne, List.pairwise_map] at apart
  refine (sorted.and apart).imp ?_
  rintro one other ⟨notAfter, different⟩
  rcases trichotomous_of before (place one) (place other) with up | same | down
  · exact up
  · exact absurd same different
  · exact absurd down notAfter

/-- Two ways to put the same rows in order are one. -/
theorem ordered_unique {rows sorted : List ρ}
    (strict : sorted.Pairwise fun one other => before (place one) (place other))
    (same : sorted.Perm rows) : ordered before place rows = sorted := by
  have apart : (sorted.map place).Nodup := by
    rw [List.nodup_iff_pairwise_ne, List.pairwise_map]
    refine strict.imp ?_
    intro one other up equal
    rw [equal] at up
    exact irrefl_of before _ up
  have distinct : (rows.map place).Nodup := (same.map place).nodup_iff.mp apart
  refine List.Perm.eq_of_pairwise ?_ (ordered_pairwise before place distinct) strict
    ((ordered_perm before place rows).trans same.symm)
  intro one other _ _ up down
  exact absurd down (asymm up)

theorem ordered_filter {rows : List ρ} (distinct : (rows.map place).Nodup) (test : ρ → Bool) :
    ordered before place (rows.filter test) = (ordered before place rows).filter test :=
  ordered_unique before place ((ordered_pairwise before place distinct).filter test)
    ((ordered_perm before place rows).filter test)

/-- The rows whose place comes after that of one of them are those that follow it. -/
theorem ordered_after {rows done rest : List ρ} {last : ρ} (distinct : (rows.map place).Nodup)
    (split : ordered before place rows = done ++ rest) (ended : done.getLast? = some last) :
    (ordered before place rows).filter (fun row => decide (before (place last) (place row))) =
      rest := by
  have sorted := ordered_pairwise before place distinct
  rw [split] at sorted ⊢
  obtain ⟨earlier, rfl⟩ := List.getLast?_eq_some_iff.mp ended
  have onward := (List.pairwise_append.mp sorted).2.2
  have backward := (List.pairwise_append.mp (List.pairwise_append.mp sorted).1).2.2
  rw [List.filter_append, List.filter_append]
  have dropped : earlier.filter (fun row => decide (before (place last) (place row))) = [] := by
    rw [List.filter_eq_nil_iff]
    intro row member
    have up := backward row member last (List.mem_singleton_self last)
    simpa using asymm up
  have itself : [last].filter (fun row => decide (before (place last) (place row))) = [] := by
    simpa using irrefl_of before (place last)
  have kept : rest.filter (fun row => decide (before (place last) (place row))) = rest := by
    rw [List.filter_eq_self]
    intro row member
    simpa using onward last (List.mem_append_right _ (List.mem_singleton_self last)) row member
  rw [dropped, itself, kept]
  rfl

end Placing

end Hekla.Library
