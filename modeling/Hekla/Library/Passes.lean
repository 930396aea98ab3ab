import Mathlib.Data.List.Basic
import Mathlib.Data.List.Nodup

/-!
# Passes over keyed items

A pass takes a state through a list of items, one fallible step each.  Where
every step leaves alone what a view shows at the other items' keys, the pass is
read one key at a time: nothing has touched an item's key before its own step,
and nothing touches it afterwards.
-/

namespace Hekla.Library

universe u v w x y

section Passes

variable {σ : Type u} {ι : Type v} {κ : Type w} {ω : Type x} {ε : Type y}
variable (act : σ → ι → Except ε σ) (key : ι → κ) (view : σ → κ → ω)

/-- The step of an item that is fit shows only at its own key, in the states of
an invariant it keeps. -/
structure Local (fit : ι → Prop) (kept : σ → Prop) : Prop where
  keeps : ∀ {state next : σ} {item : ι}, fit item → kept state → act state item = .ok next →
    kept next
  apart : ∀ {state next : σ} {item : ι} {other : κ}, fit item → kept state →
    act state item = .ok next → other ≠ key item → view next other = view state other

variable {act key view} {fit : ι → Prop} {kept : σ → Prop}

theorem bind_ok {α : Type u} {β : Type u} {result : Except ε α} {next : α → Except ε β} {value : β} :
    (result >>= next) = .ok value ↔ ∃ middle, result = .ok middle ∧ next middle = .ok value := by
  cases result <;> simp [bind, Except.bind]

theorem mapError_ok {α : Type u} {β : Type v} {result : Except ε α} {wrap : ε → β} {value : α} :
    result.mapError wrap = .ok value ↔ result = .ok value := by
  cases result <;> simp [Except.mapError]

theorem map_ok {α : Type u} {β : Type v} {result : Except ε α} {f : α → β} {value : β} :
    result.map f = .ok value ↔ ∃ middle, result = .ok middle ∧ f middle = value := by
  cases result <;> simp [Except.map]

theorem toOption_ok {α : Type u} {result : Except ε α} {value : α} :
    result.toOption = some value ↔ result = .ok value := by
  cases result <;> simp [Except.toOption]

/-- A pass either fails at its first step or goes on from where that one led. -/
theorem foldlM_cons_ok {state final : σ} {item : ι} {rest : List ι} :
    (item :: rest).foldlM act state = .ok final ↔
      ∃ next, act state item = .ok next ∧ rest.foldlM act next = .ok final := by
  rw [List.foldlM_cons]
  exact bind_ok

/-- What every step keeps, a pass keeps. -/
theorem pass_keeps (fit : ι → Prop) (kept : σ → Prop)
    (keeps : ∀ {state next : σ} {item : ι}, fit item → kept state → act state item = .ok next →
      kept next)
    {items : List ι} {state final : σ} (fits : ∀ item ∈ items, fit item) (initial : kept state)
    (passed : items.foldlM act state = .ok final) : kept final := by
  induction items generalizing state with
  | nil =>
      cases passed
      exact initial
  | cons item rest ih =>
      obtain ⟨next, stepped, passedRest⟩ := foldlM_cons_ok.mp passed
      obtain ⟨fitItem, fitRest⟩ := List.forall_mem_cons.mp fits
      exact ih fitRest (keeps fitItem initial stepped) passedRest

/-- Where steps of items that are apart can be taken in either order, a pass leads to
the same in every order of its items. -/
theorem pass_perm {alike : σ → σ → Prop} {apart : ι → ι → Prop} (refl : ∀ state, alike state state)
    (trans : ∀ {one middle other : σ}, alike one middle → alike middle other → alike one other)
    (symmetric : ∀ {one other : ι}, apart one other → apart other one)
    (congr_ : ∀ {state other next : σ} {item : ι}, alike state other → act state item = .ok next →
      ∃ reached, act other item = .ok reached ∧ alike next reached)
    (swap : ∀ {state middle final : σ} {one other : ι}, apart one other → act state one = .ok middle →
      act middle other = .ok final → ∃ next reached, act state other = .ok next ∧
        act next one = .ok reached ∧ alike final reached)
    {items others : List ι} (perm : items.Perm others) (distinct : items.Pairwise apart)
    {state other final : σ} (same : alike state other) (passed : items.foldlM act state = .ok final) :
    ∃ reached, others.foldlM act other = .ok reached ∧ alike final reached := by
  have congrPass (items : List ι) {state other final : σ} (same : alike state other)
      (passed : items.foldlM act state = .ok final) :
      ∃ reached, items.foldlM act other = .ok reached ∧ alike final reached := by
    induction items generalizing state other with
    | nil =>
        cases passed
        exact ⟨other, rfl, same⟩
    | cons item rest ih =>
        obtain ⟨next, stepped, passed⟩ := foldlM_cons_ok.mp passed
        obtain ⟨reached, taken, same⟩ := congr_ same stepped
        obtain ⟨last, ended, same⟩ := ih same passed
        exact ⟨last, foldlM_cons_ok.mpr ⟨reached, taken, ended⟩, same⟩
  induction perm generalizing state other final with
  | nil => exact congrPass [] same passed
  | cons item perm ih =>
      obtain ⟨next, stepped, passed⟩ := foldlM_cons_ok.mp passed
      obtain ⟨reached, taken, same⟩ := congr_ same stepped
      obtain ⟨last, ended, same⟩ := ih (List.pairwise_cons.mp distinct).2 same passed
      exact ⟨last, foldlM_cons_ok.mpr ⟨reached, taken, ended⟩, same⟩
  | swap one two rest =>
      obtain ⟨middle, first, passed⟩ := foldlM_cons_ok.mp passed
      obtain ⟨final, second, passed⟩ := foldlM_cons_ok.mp passed
      have both := (List.pairwise_cons.mp distinct).1 one List.mem_cons_self
      obtain ⟨next, reached, taken, further, same'⟩ := swap both first second
      obtain ⟨next', taken', same⟩ := congr_ same taken
      obtain ⟨reached', further', same⟩ := congr_ same further
      obtain ⟨last, ended, same⟩ := congrPass rest (trans same' same) passed
      exact ⟨last, foldlM_cons_ok.mpr ⟨next', taken', foldlM_cons_ok.mpr ⟨reached', further', ended⟩⟩,
        same⟩
  | trans first second ihFirst ihSecond =>
      obtain ⟨reached, ended, same'⟩ := ihFirst distinct same passed
      have apart' := (first.pairwise_iff symmetric).mp distinct
      obtain ⟨last, ended, same''⟩ := ihSecond apart' (refl other) ended
      exact ⟨last, ended, trans same' same''⟩

theorem Local.untouched (here : Local act key view fit kept) {items : List ι} {state final : σ}
    {other : κ} (fits : ∀ item ∈ items, fit item) (initial : kept state)
    (passed : items.foldlM act state = .ok final) (elsewhere : other ∉ items.map key) :
    view final other = view state other := by
  induction items generalizing state with
  | nil =>
      cases passed
      rfl
  | cons item rest ih =>
      obtain ⟨next, stepped, passedRest⟩ := foldlM_cons_ok.mp passed
      obtain ⟨fitItem, fitRest⟩ := List.forall_mem_cons.mp fits
      rw [List.map_cons, List.mem_cons, not_or] at elsewhere
      exact (ih fitRest (here.keeps fitItem initial stepped) passedRest elsewhere.2).trans
        (here.apart fitItem initial stepped elsewhere.1)

/-- At an item's key the pass shows what the item's own step made of what was there. -/
theorem Local.at_item (here : Local act key view fit kept) {items : List ι} {state final : σ}
    {item : ι} (fits : ∀ item ∈ items, fit item) (initial : kept state)
    (distinct : (items.map key).Nodup) (passed : items.foldlM act state = .ok final)
    (member : item ∈ items) :
    ∃ before after, kept before ∧ act before item = .ok after ∧
      view before (key item) = view state (key item) ∧
      view final (key item) = view after (key item) := by
  induction items generalizing state with
  | nil => cases member
  | cons first rest ih =>
      obtain ⟨next, stepped, passedRest⟩ := foldlM_cons_ok.mp passed
      obtain ⟨fitFirst, fitRest⟩ := List.forall_mem_cons.mp fits
      have keptNext := here.keeps fitFirst initial stepped
      rw [List.map_cons, List.nodup_cons] at distinct
      rcases List.mem_cons.mp member with rfl | later
      · exact ⟨state, next, initial, stepped, rfl,
          here.untouched fitRest keptNext passedRest distinct.1⟩
      · obtain ⟨before, after, keptBefore, acted, same, ends⟩ :=
          ih fitRest keptNext distinct.2 passedRest later
        refine ⟨before, after, keptBefore, acted, ?_, ends⟩
        refine same.trans (here.apart fitFirst initial stepped ?_)
        intro same
        exact distinct.1 (same ▸ List.mem_map_of_mem later)

/-- Transactions one after the other: what has committed stays when a later one fails. -/
def advance : List (σ → Except ε σ) → σ → Except ε Unit × σ
  | [], state => (.ok (), state)
  | stage :: rest, state =>
      match stage state with
      | .ok next => advance rest next
      | .error error => (.error error, state)

theorem advance_keeps (kept : σ → Prop) {stages : List (σ → Except ε σ)} {state : σ}
    (keeps : ∀ stage ∈ stages, ∀ {state next : σ}, kept state → stage state = .ok next → kept next)
    (initial : kept state) : kept (advance stages state).2 := by
  induction stages generalizing state with
  | nil => exact initial
  | cons stage rest ih =>
      obtain ⟨keepsStage, keepsRest⟩ := List.forall_mem_cons.mp keeps
      rw [advance]
      split
      · next next stepped => exact ih keepsRest (keepsStage initial stepped)
      · exact initial

theorem advance_cons_ok {stage : σ → Except ε σ} {rest : List (σ → Except ε σ)} {state : σ}
    (done : (advance (stage :: rest) state).1 = .ok ()) :
    ∃ next, stage state = .ok next ∧ (advance rest next).1 = .ok () ∧
      (advance (stage :: rest) state).2 = (advance rest next).2 := by
  rw [advance] at done ⊢
  split at done
  · next next stepped => exact ⟨next, stepped, done, rfl⟩
  · cases done

end Passes

/-- What a fallible map returns stands for its list, item by item. -/
theorem mem_of_mapM_ok {ι : Type u} {β : Type v} {ε : Type w} {act : ι → Except ε β}
    {items : List ι} {results : List β} (mapped : items.mapM act = .ok results) (result : β) :
    result ∈ results ↔ ∃ item ∈ items, act item = .ok result := by
  induction items generalizing results with
  | nil =>
      cases mapped
      simp
  | cons item rest ih =>
      rw [List.mapM_cons] at mapped
      obtain ⟨value, acted, mapped⟩ := bind_ok.mp mapped
      obtain ⟨values, others, mapped⟩ := bind_ok.mp mapped
      cases mapped
      rw [List.mem_cons, ih others, List.exists_mem_cons_iff, acted]
      simp [eq_comm]

/-- A fallible map that returns has not failed at any item. -/
theorem ok_of_mapM_ok {ι : Type u} {β : Type v} {ε : Type w} {act : ι → Except ε β}
    {items : List ι} {results : List β} (mapped : items.mapM act = .ok results) {item : ι}
    (member : item ∈ items) : ∃ result, act item = .ok result := by
  induction items generalizing results with
  | nil => cases member
  | cons first rest ih =>
      rw [List.mapM_cons] at mapped
      obtain ⟨value, acted, mapped⟩ := bind_ok.mp mapped
      obtain ⟨values, others, mapped⟩ := bind_ok.mp mapped
      rcases List.mem_cons.mp member with rfl | later
      · exact ⟨value, acted⟩
      · exact ih others later

/-- A fallible map that fails at no item returns what each one gives. -/
theorem mapM_ok {ι : Type u} {β : Type v} {ε : Type w} {act : ι → Except ε β} {made : ι → β}
    {items : List ι} (each : ∀ item ∈ items, act item = .ok (made item)) :
    items.mapM act = .ok (items.map made) := by
  induction items with
  | nil => rfl
  | cons item rest ih =>
      rw [List.mapM_cons, each item List.mem_cons_self,
        ih fun later member => each later (List.mem_cons_of_mem _ member)]
      rfl

theorem exists_mapM_ok {ι : Type u} {β : Type v} {ε : Type w} {act : ι → Except ε β}
    {items : List ι} (each : ∀ item ∈ items, ∃ result, act item = .ok result) :
    ∃ results, items.mapM act = .ok results := by
  induction items with
  | nil => exact ⟨[], rfl⟩
  | cons item rest ih =>
      obtain ⟨result, acted⟩ := each item List.mem_cons_self
      obtain ⟨results, further⟩ := ih fun later member => each later (List.mem_cons_of_mem _ member)
      exact ⟨result :: results, by rw [List.mapM_cons, acted, further]; rfl⟩

/-- A fallible map returns a result for each item, in order. -/
theorem forall₂_of_mapM_ok {ι : Type u} {β : Type v} {ε : Type w} {act : ι → Except ε β}
    {items : List ι} {results : List β} (mapped : items.mapM act = .ok results) :
    List.Forall₂ (fun item result => act item = .ok result) items results := by
  induction items generalizing results with
  | nil =>
      cases mapped
      exact .nil
  | cons item rest ih =>
      rw [List.mapM_cons] at mapped
      obtain ⟨value, acted, mapped⟩ := bind_ok.mp mapped
      obtain ⟨values, others, mapped⟩ := bind_ok.mp mapped
      cases mapped
      exact .cons acted (ih others)

/-- What different items give differs, where no two of them give the same. -/
theorem nodup_of_mapM_ok {ι : Type u} {β : Type v} {ε : Type w} {act : ι → Except ε β}
    {items : List ι} {results : List β} (mapped : items.mapM act = .ok results) (once : items.Nodup)
    (apart : ∀ one other result, act one = .ok result → act other = .ok result → one = other) :
    results.Nodup := by
  induction items generalizing results with
  | nil =>
      cases mapped
      exact List.nodup_nil
  | cons item rest ih =>
      rw [List.mapM_cons] at mapped
      obtain ⟨value, acted, mapped⟩ := bind_ok.mp mapped
      obtain ⟨values, others, mapped⟩ := bind_ok.mp mapped
      cases mapped
      rw [List.nodup_cons] at once ⊢
      refine ⟨?_, ih others once.2⟩
      intro again
      obtain ⟨other, member, acted'⟩ := (mem_of_mapM_ok others value).mp again
      exact once.1 (apart _ _ _ acted acted' ▸ member)

/-- What is read off an item and off its result alike is read off the lists alike. -/
theorem map_of_mapM_ok {ι : Type u} {β : Type v} {ε : Type w} {κ : Type x}
    {act : ι → Except ε β} {items : List ι} {results : List β} {place : β → κ} {key : ι → κ}
    (mapped : items.mapM act = .ok results)
    (same : ∀ item result, act item = .ok result → place result = key item) :
    results.map place = items.map key := by
  induction items generalizing results with
  | nil =>
      cases mapped
      rfl
  | cons item rest ih =>
      rw [List.mapM_cons] at mapped
      obtain ⟨value, acted, mapped⟩ := bind_ok.mp mapped
      obtain ⟨values, others, mapped⟩ := bind_ok.mp mapped
      cases mapped
      rw [List.map_cons, List.map_cons, same item value acted, ih others]

end Hekla.Library
