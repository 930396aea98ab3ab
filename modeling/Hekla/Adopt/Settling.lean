import Hekla.Adopt.Unhindered

/-!
# When a run settles

With nothing else writing, a pass moves every root of its batch that the log names, and a run
settles exactly when the log names all that wait.
-/

namespace Hekla.Adopt

open Hekla.Library Host Keys Forest

section Settling

variable {deployed : Deployed} {decoder : Decoder} {store : Store} {masters : MasterKeys}
  {st st' : KeyState}

/-- What waits of a store, under a project. -/
abbrev Waiting (deployed : Deployed) (st : KeyState) : Identity → Prop := Waits deployed.subjects st.rows

/-- How much waits. -/
abbrev backlog (deployed : Deployed) (st : KeyState) : Nat := countRootsOf st.rows deployed.subjects.parented

/-- Every event of the log can be read. -/
def Readable (decoder : Decoder) (log : List StoredEvent) : Prop :=
  ∀ stored ∈ log, ∃ event, decoder.read stored = .ok event

theorem mem_rootsIn_parented {id : Identity} :
    id ∈ rootsIn st.rows deployed.subjects.parented ↔ Waiting deployed st id := by
  rw [mem_rootsIn, Subjects.mem_parented, ← Option.ne_none_iff_exists', and_comm]
  rfl

theorem mem_readFrom {query : Query} {position : Nat} {log : List StoredEvent} {one : Nat × StoredEvent}
    (member : one ∈ Store.readFrom query position log) : one.2 ∈ log := by
  induction log generalizing position with
  | nil => cases member
  | cons stored log ih =>
      unfold Store.readFrom at member
      split at member
      · rcases List.mem_cons.mp member with rfl | later
        · exact List.mem_cons_self
        · exact List.mem_cons_of_mem _ (ih later)
      · exact List.mem_cons_of_mem _ (ih member)

theorem fold_ok (readable : Readable decoder store.log) (pending : List Identity) :
    ∃ folded, fold deployed decoder store pending = .ok folded := by
  unfold fold
  dsimp only
  split
  · exact ⟨_, rfl⟩
  · exact foldFrom_ok (fun one member => readable one.2 (mem_readFrom member)) _

theorem placements_nodup (search : Search Identity Chain) : ((placements search).map Prod.fst).Nodup := by
  have keys : (search.found.entries.map Sigma.fst).Nodup := search.found.nodupKeys
  refine ((ordered_perm before Prod.fst _).map Prod.fst).nodup_iff.mpr ?_
  rw [List.map_map]
  exact keys

/-- What a pass does when nothing hinders it. -/
structure Passed (deployed : Deployed) (decoder : Decoder) (store : Store) (masters : MasterKeys)
    (st : KeyState) (batch : Adoption) (st' : KeyState) : Prop where
  ready : Ready masters deployed.subjects st'
  failed : batch.failed = 0
  waiting : batch.waiting = (candidates st.rows deployed.subjects.parented).length
  unresolved : ∀ id ∈ batch.unresolved, Waiting deployed st id ∧ earliest deployed decoder store.log id = none
  taken : batch.adopted + batch.unresolved.length = batch.waiting
  left : batch.adopted + backlog deployed st' = backlog deployed st
  fewer : ∀ id, Waiting deployed st' id → Waiting deployed st id

/-- The batch of a pass is what the log names of it, which is moved, and what it does not. -/
theorem batch_perm {pending : List Identity} {folded : Folding} (distinct : pending.Nodup)
    (read : fold deployed decoder store pending = .ok folded) :
    ((placements folded.search).map Prod.fst ++ folded.search.pending).Perm pending := by
  have sublist : folded.search.pending.Sublist pending := by
    rw [fold_search read]
    exact Search.pending_hearAll_sublist _
  have named (id : Identity) : id ∈ (placements folded.search).map Prod.fst ↔
      id ∈ pending ∧ earliest deployed decoder store.log id ≠ none := by
    rw [List.mem_map]
    constructor
    · rintro ⟨⟨id, chain⟩, member, rfl⟩
      have found := mem_placements.mp member
      rw [found_fold read] at found
      split at found
      · next waits => exact ⟨waits, by rw [found]; exact Option.some_ne_none chain⟩
      · cases found
    · rintro ⟨waits, told⟩
      obtain ⟨chain, told⟩ := Option.ne_none_iff_exists'.mp told
      refine ⟨(id, chain), mem_placements.mpr ?_, rfl⟩
      rw [found_fold read, if_pos waits, told]
  rw [List.perm_ext_iff_of_nodup ?_ distinct]
  · intro id
    rw [List.mem_append, named, mem_pending_fold read]
    by_cases told : earliest deployed decoder store.log id = none <;> simp [told]
  · refine List.nodup_append.mpr ⟨placements_nodup _, sublist.nodup distinct, ?_⟩
    rintro id moved other left rfl
    exact ((named id).mp moved).2 ((mem_pending_fold read id).mp left).2

theorem candidates_nodup (rows : KeyTable) (subjects : List String) : (candidates rows subjects).Nodup := by
  obtain ⟨left, split, -⟩ := @candidates_spec rows subjects
  have sorted : (sortedRoots rows subjects).Nodup :=
    (ordered_perm before (fun root => root) _).nodup_iff.mpr rootsIn_nodup
  rw [split] at sorted
  exact (List.nodup_append.mp sorted).1

theorem pass_ok (shallow : Shallow deployed.subjects) (readable : Readable decoder store.log)
    (ready : Ready masters deployed.subjects st) :
    ∃ batch st', pass deployed decoder store masters st = (.ok batch, st') ∧
      Passed deployed decoder store masters st batch st' := by
  rcases pass_cases deployed decoder store masters st with ⟨none, idle⟩ | ⟨message, failed, -⟩ |
    ⟨folded, moves, minted, some, read, adopted, batch, done, adopted_eq, failed_eq, waiting, unresolved, -⟩
  · refine ⟨_, st, idle, ready, rfl, ?_, fun id member => absurd member List.not_mem_nil, rfl,
      Nat.zero_add _, fun _ waits => waits⟩
    rw [none]
    rfl
  · obtain ⟨folded, read⟩ := @fold_ok deployed decoder store readable
      (candidates st.rows deployed.subjects.parented)
    cases failed.symm.trans read
  · have batched := batch_perm (candidates_nodup _ _) read
    have waits {id : Identity} (member : id ∈ (placements folded.search).map Prod.fst) :
        Waiting deployed st id :=
      mem_rootsIn_parented.mp (mem_rootsIn_of_candidate (batched.mem_iff.mp (List.mem_append_left _ member)))
    have awaits : ∀ one ∈ placements folded.search, Awaits deployed.subjects st.rows one.1 one.2 := by
      intro one member
      obtain ⟨root, -⟩ := waits (List.mem_map_of_mem member)
      have found := mem_placements.mp member
      rw [found_fold read] at found
      split at found
      · exact ⟨root, chain_of_earliest found⟩
      · cases found
    obtain ⟨after, all, ready', left⟩ := @adoptEach_ok masters _ st shallow _ {} ready awaits (placements_nodup _)
    cases adopted.symm.trans all
    have split : (rootsIn st.rows deployed.subjects.parented).Perm
        ((placements folded.search).map Prod.fst ++ rootsIn minted.rows deployed.subjects.parented) := by
      rw [List.perm_ext_iff_of_nodup rootsIn_nodup ?_]
      · intro id
        have still : Waiting deployed minted id ↔ Waiting deployed st id ∧
            id ∉ (placements folded.search).map Prod.fst := left id
        rw [List.mem_append, mem_rootsIn_parented, mem_rootsIn_parented, still]
        by_cases member : id ∈ (placements folded.search).map Prod.fst
        · simp [member, waits member]
        · simp [member]
      · refine List.nodup_append.mpr ⟨placements_nodup _, rootsIn_nodup, ?_⟩
        rintro id moved other still rfl
        exact ((left id).mp (mem_rootsIn_parented.mp still)).2 moved
    refine ⟨batch, minted, done, ready', failed_eq, waiting, ?_, ?_, ?_, fun id still => ((left id).mp still).1⟩
    · intro id member
      rw [unresolved, mem_pending_fold read] at member
      exact ⟨mem_rootsIn_parented.mp (mem_rootsIn_of_candidate member.1), member.2⟩
    · have counted := batched.length_eq
      rw [List.length_append, List.length_map] at counted
      rw [adopted_eq, unresolved, waiting]
      simpa using counted
    · have counted := split.length_eq
      rw [List.length_append, List.length_map] at counted
      rw [adopted_eq]
      simpa [countRootsOf] using counted.symm

/-! ## Passes -/

theorem passes_ok (shallow : Shallow deployed.subjects) (readable : Readable decoder store.log)
    (ready : Ready masters deployed.subjects st) {more contended : Nat} {done : Adoption}
    (faultless : done.failed = 0) (counted : more = 0 → done.remaining = backlog deployed st) :
    ∃ final st', passes deployed decoder store masters more contended done st = (.ok final, st') ∧
      final.failed = 0 ∧ final.waiting = done.waiting ∧ final.remaining = backlog deployed st' ∧
      final.adopted + final.remaining = done.adopted + backlog deployed st := by
  induction more generalizing contended done st with
  | zero => exact ⟨done, st, rfl, faultless, rfl, counted rfl, by rw [counted rfl]⟩
  | succ more ih =>
      obtain ⟨batch, after, passed, rest⟩ := @pass_ok deployed decoder store masters st shallow readable ready
      have balance : done.adopted + batch.adopted + backlog deployed after =
          done.adopted + backlog deployed st := by
        rw [Nat.add_assoc, rest.left]
      have onward (contended : Nat) := @ih after rest.ready contended
        { done.absorb batch with remaining := backlog deployed after } rest.failed fun _ => rfl
      unfold passes
      rw [passed]
      dsimp only
      split
      · exact ⟨_, after, rfl, rest.failed, rfl, rfl, balance⟩
      split
      · exact ⟨_, after, rfl, rest.failed, rfl, rfl, balance⟩
      split
      · exact ⟨_, after, rfl, rest.failed, rfl, rfl, balance⟩
      split
      · obtain ⟨final, st', ran, failed, waiting, remaining, sum⟩ := onward contended
        exact ⟨final, st', ran, failed, waiting, remaining, sum.trans balance⟩
      split
      · exact ⟨_, after, rfl, rest.failed, rfl, rfl, balance⟩
      · obtain ⟨final, st', ran, failed, waiting, remaining, sum⟩ := onward (contended + 1)
        exact ⟨final, st', ran, failed, waiting, remaining, sum.trans balance⟩

/-- Where the log names all that wait, every pass but the last moves a full batch. -/
theorem passes_settle (shallow : Shallow deployed.subjects) (readable : Readable decoder store.log)
    (ready : Ready masters deployed.subjects st) {more contended : Nat} {done : Adoption}
    (named : ∀ id, Waiting deployed st id → earliest deployed decoder store.log id ≠ none)
    (enough : backlog deployed st ≤ more * BATCH) (positive : 0 < more) :
    ∃ final st', passes deployed decoder store masters more contended done st = (.ok final, st') ∧
      final.remaining = 0 := by
  induction more generalizing contended done st with
  | zero => exact absurd positive (Nat.lt_irrefl 0)
  | succ more ih =>
      obtain ⟨batch, after, passed, rest⟩ := @pass_ok deployed decoder store masters st shallow readable ready
      have resolved : batch.unresolved = [] := by
        rw [List.eq_nil_iff_forall_not_mem]
        intro id member
        obtain ⟨waits, untold⟩ := rest.unresolved id member
        exact named id waits untold
      have taken := rest.taken
      have left := rest.left
      rw [resolved, List.length_nil, Nat.add_zero] at taken
      unfold passes
      rw [passed]
      dsimp only
      split
      · next none => exact ⟨_, after, rfl, none⟩
      · next some =>
          have full : BATCH ≤ batch.waiting := by
            obtain ⟨past, split, ends⟩ := @candidates_spec st.rows deployed.subjects.parented
            rcases ends with full | rfl
            · rw [rest.waiting]
              exact full
            · have whole := (ordered_perm before (fun root => root)
                (rootsIn st.rows deployed.subjects.parented)).length_eq
              rw [← sortedRoots, split, List.append_nil, ← rest.waiting, ← taken] at whole
              unfold backlog countRootsOf at left
              exact absurd (by rw [whole] at left; exact Nat.add_left_cancel left) some
          have many : 0 < BATCH := by decide
          have moved : ¬ (done.absorb batch).adopted = done.adopted := by
            intro same
            have adopted : done.adopted + batch.adopted = done.adopted := same
            omega
          have unresolved : ¬ (!(done.absorb batch).unresolved.isEmpty) = true := by
            have none : (done.absorb batch).unresolved = [] := resolved
            rw [none]
            exact Bool.false_ne_true
          rw [if_neg unresolved, if_neg moved, if_pos full]
          rw [Nat.succ_mul] at enough
          refine ih rest.ready (fun id waits => named id (rest.fewer id waits)) (by omega) ?_
          by_contra last
          have zero : more = 0 := by omega
          subst zero
          refine some ?_
          show backlog deployed after = 0
          omega

/-! ## Runs -/

theorem run_ok (shallow : Shallow deployed.subjects) (readable : Readable decoder store.log)
    (ready : Ready masters deployed.subjects st) :
    ∃ done st', run deployed decoder store masters st = (.ok done, st') ∧
      done.failed = 0 ∧ done.waiting = backlog deployed st ∧ done.remaining = backlog deployed st' ∧
      done.adopted + done.remaining = done.waiting := by
  unfold run
  split
  · next none =>
      have idle : backlog deployed st = 0 := by
        rw [backlog, List.isEmpty_iff.mp none]
        simp [countRootsOf, rootsIn]
      exact ⟨_, st, rfl, rfl, idle.symm, idle.symm, rfl⟩
  · obtain ⟨final, st', ran, failed, waiting, remaining, sum⟩ :=
      @passes_ok deployed decoder store masters st shallow readable ready PASSES 0
        { waiting := backlog deployed st } rfl fun zero => absurd zero (by decide)
    exact ⟨final, st', ran, failed, waiting, remaining, by simpa [waiting] using sum⟩

theorem run_settled (shallow : Shallow deployed.subjects) (readable : Readable decoder store.log)
    (ready : Ready masters deployed.subjects st) (few : backlog deployed st ≤ PASSES * BATCH)
    (named : ∀ id, Waiting deployed st id → earliest deployed decoder store.log id ≠ none) :
    ∃ done st', run deployed decoder store masters st = (.ok done, st') ∧ done.remaining = 0 := by
  unfold run
  split
  · exact ⟨_, st, rfl, rfl⟩
  · exact passes_settle shallow readable ready named few (by decide)

/-- What is placed where the log names it does not wait, and what the log does not name does. -/
theorem named_of_settled (placing : Placing (earliest deployed decoder store.log) st st')
    (unrooted : ∀ id row, st'.rows.get id = some row → row.parent = none →
      deployed.subjects.parents.get id.1 = none) {id : Identity} {row : SubjectKey}
    (held : st.rows.get id = some row) (root : row.parent = none)
    (parented : deployed.subjects.parents.get id.1 ≠ none) :
    ∃ parent above moved, earliest deployed decoder store.log id = some (id :: parent :: above) ∧
      st'.rows.get id = some moved ∧ HungFrom parent row moved := by
  rcases placing.rows id row held (KeyTable.intact_root held root) with same | ⟨-, placed⟩
  · exact absurd (unrooted id row same root) parented
  · exact placed

/-- Nothing else writing, on a store whose children hang as their subjects are declared to,
whose masters are configured, and with a log that can be read, a run fails on no row, counts what
it moves and leaves, and leaves as many roots in the store as it counts.  It settles exactly when
every root that waits is named by the log, and each of them then hangs from the parent that its
earliest event names; a boot goes on exactly then. -/
theorem run_settles {ops : List KeyOp} (deployed : Deployed) (decoder : Decoder) (store : Store)
    (masters : MasterKeys) (ran : Library.run KeyOp.step {} ops = some st)
    (verified : verifyMastersPresent masters st.rows = true) (hung : Hung deployed.subjects st.rows)
    (shallow : Shallow deployed.subjects) (readable : Readable decoder store.log)
    (few : backlog deployed st ≤ PASSES * BATCH) :
    ∃ done st', run deployed decoder store masters st = (.ok done, st') ∧
      done.failed = 0 ∧ done.waiting = backlog deployed st ∧ done.remaining = backlog deployed st' ∧
      done.adopted + done.remaining = done.waiting ∧
      (done.settled = true ↔
        ∀ id, Waiting deployed st id → earliest deployed decoder store.log id ≠ none) ∧
      (done.settled = true → ∀ id row, st.rows.get id = some row → row.parent = none →
        deployed.subjects.parents.get id.1 ≠ none → ∃ parent above moved,
          earliest deployed decoder store.log id = some (id :: parent :: above) ∧
            st'.rows.get id = some moved ∧ HungFrom parent row moved) ∧
      ((adoptAtBoot deployed decoder store masters st).1 = .ok () ↔ done.settled = true) := by
  have sound := KeyOp.sound_of_run KeyState.Sound.start ran
  have ready : Ready masters deployed.subjects st := ⟨sound, hung, masters_held_of_verified verified⟩
  obtain ⟨done, st', ended, failed, waiting, remaining, sum⟩ :=
    @run_ok deployed decoder store masters st shallow readable ready
  have placing := Placing.run deployed decoder store masters sound
  rw [ended] at placing
  have reported := reported_of_run ended
  refine ⟨done, st', ended, failed, waiting, remaining, sum, ⟨?_, ?_⟩, ?_, ?_⟩
  · intro settled id ⟨⟨row, held, root⟩, parented⟩ untold
    obtain ⟨parent, above, moved, told, -⟩ :=
      named_of_settled placing (reported.settled_iff.mp settled) held root parented
    cases untold.symm.trans told
  · intro named
    obtain ⟨final, st'', ran', none⟩ := run_settled shallow readable ready few named
    cases ended.symm.trans ran'
    unfold Adoption.settled
    rw [(unfinished_eq_none_iff done).mpr none]
    rfl
  · intro settled id row held root parented
    exact named_of_settled placing (reported.settled_iff.mp settled) held root parented
  · unfold adoptAtBoot
    split
    · next idle =>
        have none : done.remaining = 0 := by
          rw [waiting] at sum
          exact (Nat.add_eq_zero_iff.mp (sum.trans idle)).2
        unfold Adoption.settled
        rw [(unfinished_eq_none_iff done).mpr none]
        exact ⟨fun _ => rfl, fun _ => rfl⟩
    · rw [ended]
      dsimp only
      unfold Adoption.settled
      cases unfinished done with
      | none => exact ⟨fun _ => rfl, fun _ => rfl⟩
      | some left =>
          constructor
          · intro never
            cases never
          · intro never
            cases never

end Settling

/-- The key of the order's customer is hung from its shop, and a boot goes on. -/
theorem run_settles_of_order :
    ∃ done st', run ordersOfShops asStored oneOrder KeyOp.oneMaster
          (KeyOp.perform {} (.encrypt KeyOp.oneMaster [KeyOp.customer] "email" "a@b.c")) = (.ok done, st') ∧
      done.settled = true ∧ ∃ row ref, st'.rows.get KeyOp.customer = some row ∧
        row.parent = some ref ∧ ref.identity = KeyOp.shop := by
  obtain ⟨root, one, unhung⟩ : ∃ root,
      (KeyOp.perform {} (.encrypt KeyOp.oneMaster [KeyOp.customer] "email" "a@b.c")).rows =
        Table.set ∅ KeyOp.customer root ∧ root.parent = none := ⟨_, rfl, rfl⟩
  have ran : Library.run KeyOp.step {} [.encrypt KeyOp.oneMaster [KeyOp.customer] "email" "a@b.c"] =
      some (KeyOp.perform {} (.encrypt KeyOp.oneMaster [KeyOp.customer] "email" "a@b.c")) := rfl
  have alone (id : Identity) (row : SubjectKey) (held : (KeyOp.perform {}
        (.encrypt KeyOp.oneMaster [KeyOp.customer] "email" "a@b.c")).rows.get id = some row) :
      id = KeyOp.customer ∧ row = root := by
    rw [one, Table.get_set, Table.get_empty] at held
    split at held
    · next same =>
        cases held
        exact ⟨same, rfl⟩
    · cases held
  have hung : Hung ordersOfShops.subjects (KeyOp.perform {}
      (.encrypt KeyOp.oneMaster [KeyOp.customer] "email" "a@b.c")).rows := by
    intro id row ref held under
    rw [(alone id row held).2, unhung] at under
    cases under
  have shallow : Shallow ordersOfShops.subjects := by
    intro name
    have short : (ordersOfShops.subjects.ancestors name).length ≤ 1 := by
      by_cases customer : name = "Customer"
      · subst customer
        exact Nat.le_refl 1
      · rw [Subjects.ancestors_of_none]
        · exact Nat.zero_le 1
        · show (Table.set ∅ "Customer" "Shop" : Table String String).get name = none
          rw [Table.get_set, if_neg customer, Table.get_empty]
    exact short.trans (by decide)
  have readable : Readable asStored oneOrder.log := fun stored _ => ⟨_, rfl⟩
  obtain ⟨done, st', ended, -, -, -, -, settles, placed, -⟩ :=
    run_settles ordersOfShops asStored oneOrder KeyOp.oneMaster ran (by decide) hung shallow readable
      (by decide)
  have settled : done.settled = true := by
    rw [settles]
    rintro id ⟨⟨row, held, -⟩, -⟩
    rw [(alone id row held).1]
    rw [earliest_oneOrder]
    exact Option.some_ne_none _
  have held : (KeyOp.perform {} (.encrypt KeyOp.oneMaster [KeyOp.customer] "email" "a@b.c")).rows.get
      KeyOp.customer = some root := by
    rw [one, Table.get_set, if_pos rfl]
  obtain ⟨parent, above, moved, told, after, -, ref, under, same⟩ :=
    placed settled KeyOp.customer root held unhung (by decide)
  cases told.symm.trans earliest_oneOrder
  exact ⟨done, st', ended, settled, moved, ref, after, under, same⟩

end Hekla.Adopt
