import Hekla.Keys.Erasure

/-!
# Reachable keys

Whether a key is reachable is told from the parent references alone, without
opening anything.  It is the same as being readable as long as no row of the
walk hangs from an earlier generation of its parent: a parent erased and minted
again keeps the reference good, and the key under it lost.
-/

namespace Hekla.Keys

open Hekla.Library Forest

/-! ## The walk -/

namespace KeyTable

/-- The rows a walk up the parents collects, each once. -/
def above (rows : KeyTable) : Nat → List Identity → Identity → List SubjectKey
  | 0, _, _ => []
  | steps + 1, walked, id =>
      if id ∈ walked then []
      else
        match rows.get id with
        | none => []
        | some row =>
            match row.parent with
            | none => [row]
            | some ref => row :: above rows steps (id :: walked) ref.identity

/-- Whether the walk ends at a root.  There are no more steps than rows. -/
def subjectKeyReachable (rows : KeyTable) (id : Identity) : Bool :=
  if id.1 = globalSubject then false
  else
    ((rows.above (rows.entries.length + 1) [] id).countP fun row => row.parent.isNone) == 1

variable {rows : KeyTable} {id : Identity} {row : SubjectKey} {links : Nat}

theorem rootedIn_root (held : rows.get id = some row) (root : row.parent = none) :
    RootedIn rows.forest 0 id :=
  .root (forest_of_get held) (SubjectKey.node_root root)

theorem rootedIn_child {ref : ParentRef} (held : rows.get id = some row)
    (hung : row.parent = some ref) (rooted : RootedIn rows.forest links ref.identity) :
    RootedIn rows.forest (links + 1) id :=
  .child (forest_of_get held) (SubjectKey.node_above_of_parent hung) rooted

/-- A walk that meets a root is rooted. -/
theorem rooted_of_above {steps : Nat} {walked : List Identity}
    (met : (rows.above steps walked id).countP (fun row => row.parent.isNone) ≠ 0) :
    ∃ links, RootedIn rows.forest links id := by
  induction steps generalizing walked id with
  | zero => exact absurd rfl met
  | succ steps ih =>
      unfold above at met
      split at met
      · exact absurd rfl met
      · split at met
        · exact absurd rfl met
        · next row held =>
            split at met
            · next root => exact ⟨0, rootedIn_root held root⟩
            · next ref hung =>
                have onwards : (rows.above steps (id :: walked) ref.identity).countP
                    (fun row => row.parent.isNone) ≠ 0 := by
                  rw [List.countP_cons_of_neg] at met
                  · exact met
                  · rw [hung]
                    exact Bool.false_ne_true
                obtain ⟨links, rooted⟩ := ih onwards
                exact ⟨links + 1, rootedIn_child held hung rooted⟩

/-- A rooted walk meets one root, when it has steps enough and has not been on
the way before. -/
theorem above_of_rooted {steps : Nat} {walked : List Identity}
    (rooted : RootedIn rows.forest links id) (enough : links < steps)
    (apart : ∀ other ∈ walked, ∀ more, RootedIn rows.forest more other → links < more) :
    (rows.above steps walked id).countP (fun row => row.parent.isNone) = 1 := by
  induction steps generalizing walked id links with
  | zero => exact absurd enough (Nat.not_lt_zero links)
  | succ steps ih =>
      obtain ⟨node, found⟩ := rooted.found
      obtain ⟨row, held, rfl⟩ := get_of_forest found
      have new : id ∉ walked := fun walkedHere =>
        absurd (apart id walkedHere links rooted) (Nat.lt_irrefl links)
      unfold above
      rw [if_neg new, held]
      dsimp only
      cases hung : row.parent with
      | none =>
          dsimp only
          rw [List.countP_cons_of_pos (by rw [hung]; rfl), List.countP_nil]
      | some ref =>
          dsimp only
          rw [List.countP_cons_of_neg (by rw [hung]; exact Bool.false_ne_true)]
          obtain ⟨fewer, upper⟩ := rooted.upper found (SubjectKey.node_above_of_parent hung)
          obtain rfl : links = fewer + 1 := rooted.unique (rootedIn_child held hung upper)
          refine ih upper (by omega) ?_
          intro other member more otherRooted
          rcases List.mem_cons.mp member with rfl | before
          · have := rooted.unique otherRooted
            omega
          · have := apart other before more otherRooted
            omega

/-- The way to a root passes through distinct rows. -/
theorem path_of_rooted (rooted : RootedIn rows.forest links id) :
    ∃ path : List Identity, path.length = links + 1 ∧ path.Nodup ∧
      ∀ other ∈ path, other ∈ rows.keys ∧ ∃ fewer ≤ links, RootedIn rows.forest fewer other := by
  induction rooted with
  | @root id node found top =>
      obtain ⟨row, held, rfl⟩ := get_of_forest found
      refine ⟨[id], rfl, List.nodup_singleton id, ?_⟩
      rintro other member
      obtain rfl := List.mem_singleton.mp member
      exact ⟨(Table.mem_keys_iff _ _).mpr ⟨row, held⟩, 0, le_rfl, .root found top⟩
  | @child id upper node gen links found hung rooted ih =>
      obtain ⟨row, held, rfl⟩ := get_of_forest found
      obtain ⟨path, length, nodup, along⟩ := ih
      refine ⟨id :: path, by rw [List.length_cons, length], List.nodup_cons.mpr ⟨?_, nodup⟩, ?_⟩
      · intro member
        obtain ⟨-, fewer, few, again⟩ := along id member
        have := again.unique (RootedIn.child found hung rooted)
        omega
      · intro other member
        rcases List.mem_cons.mp member with rfl | before
        · exact ⟨(Table.mem_keys_iff _ _).mpr ⟨row, held⟩, links + 1, le_rfl,
            .child found hung rooted⟩
        · obtain ⟨there, fewer, few, again⟩ := along other before
          exact ⟨there, fewer, few.trans (Nat.le_succ links), again⟩

theorem links_lt_of_rooted (rooted : RootedIn rows.forest links id) :
    links < rows.entries.length := by
  obtain ⟨path, length, nodup, along⟩ := path_of_rooted rooted
  have fits : path.length ≤ rows.keys.length :=
    (List.subperm_of_subset nodup fun other member => (along other member).1).length_le
  have same : rows.keys.length = rows.entries.length := List.length_map _
  omega

/-- A subject's key is reachable exactly when its row is rooted. -/
theorem subjectKeyReachable_iff (subject : id.1 ≠ globalSubject) :
    subjectKeyReachable rows id = true ↔ ∃ links, RootedIn rows.forest links id := by
  unfold subjectKeyReachable
  rw [if_neg subject, beq_iff_eq]
  constructor
  · intro one
    exact rooted_of_above (by rw [one]; exact Nat.one_ne_zero)
  · rintro ⟨links, rooted⟩
    refine above_of_rooted rooted ((links_lt_of_rooted rooted).trans (Nat.lt_succ_self _)) ?_
    intro other walked
    cases walked

end KeyTable

/-! ## Reachable and readable -/

/-- A secret loads from a rooted row only. -/
theorem rooted_of_loadSecretAt {masters : MasterKeys} {rows : KeyTable} {levels : Nat}
    {id : Identity} {secret : Secret}
    (loaded : loadSecretAt masters rows levels id = .ok (some secret)) :
    ∃ links, RootedIn rows.forest links id ∧ links < levels := by
  induction levels generalizing id secret with
  | zero => cases loaded
  | succ levels ih =>
      unfold loadSecretAt at loaded
      split at loaded
      · cases loaded
      · next row held =>
          unfold openRow at loaded
          split at loaded
          · next master columns =>
              have root : row.parent = none := by
                unfold SubjectKey.parent
                rw [columns]
              exact ⟨0, KeyTable.rootedIn_root held root, Nat.succ_pos levels⟩
          · next ref columns =>
              have hung : row.parent = some ref := by
                unfold SubjectKey.parent
                rw [columns]
              split at loaded
              · cases loaded
              · cases loaded
              · next parent opened =>
                  obtain ⟨links, rooted, few⟩ := ih opened
                  exact ⟨links + 1, KeyTable.rootedIn_child held hung rooted, by omega⟩

/-- Reachability tells readability of a subject exactly when a walk that ends at a
root passes only links to the generation that stands there, and few enough. -/
theorem reachable_iff_readable {ops : List KeyOp} {st : KeyState} {masters : MasterKeys}
    {id : Identity} (ran : run KeyOp.step {} ops = some st)
    (verified : verifyMastersPresent masters st.rows = true) (subject : id.1 ≠ globalSubject) :
    ((st.rows.subjectKeyReachable id = true ↔
        ∃ secret, loadSecret masters st.rows id = .ok (some secret)) ↔
      ∀ links, RootedIn st.rows.forest links id →
        LinksCurrent st.rows.forest id ∧ links ≤ maxSubjectDepth) := by
  have sound := KeyOp.sound_of_run KeyState.Sound.start ran
  rw [KeyTable.subjectKeyReachable_iff subject]
  constructor
  · intro agree links rooted
    obtain ⟨secret, loaded⟩ := agree.mp ⟨links, rooted⟩
    obtain ⟨others, other, few⟩ := rooted_of_loadSecretAt loaded
    obtain rfl := rooted.unique other
    exact ⟨(loadSecretAt_some loaded).1.current, Nat.le_of_lt_succ few⟩
  · intro current
    constructor
    · rintro ⟨links, rooted⟩
      obtain ⟨links_current, few⟩ := current links rooted
      have intact := rooted.intact links_current
      have within := rooted.within.mono (Nat.succ_le_succ few)
      obtain ⟨node, found⟩ := rooted.found
      obtain ⟨row, held, -⟩ := KeyTable.get_of_forest found
      rcases loadSecretAt_of_intact intact (KeyTable.stands_of_get held) with
        loaded | ⟨message, failed⟩
      · exact ⟨row.secret, loaded⟩
      · exact absurd failed (loadSecretAt_ne_error sound.wraps
          (masters_held_of_verified verified) within message)
    · rintro ⟨secret, loaded⟩
      obtain ⟨links, rooted, -⟩ := rooted_of_loadSecretAt loaded
      exact ⟨links, rooted⟩

/-- Whether opening a row through its parents yields a secret. -/
def readable (masters : MasterKeys) (rows : KeyTable) (id : Identity) : Bool :=
  match loadSecret masters rows id with
  | .ok (some _) => true
  | _ => false

theorem readable_iff {masters : MasterKeys} {rows : KeyTable} {id : Identity} :
    readable masters rows id = true ↔
      ∃ secret, loadSecret masters rows id = .ok (some secret) := by
  unfold readable
  constructor
  · intro opens
    split at opens
    · next secret loaded => exact ⟨secret, loaded⟩
    · cases opens
  · rintro ⟨secret, loaded⟩
    rw [loaded]

namespace KeyOp

def order : Identity := ("Order", "5")

/-- A customer's key under a shop's. -/
def underShop : List KeyOp := [.encrypt oneMaster [customer, shop] "email" "a@b.c"]

/-- The shop is erased, and minted again for one of its orders. -/
def shopMintedAgain : List KeyOp :=
  underShop ++ [.erase shop, .encrypt oneMaster [order, shop] "note" "gift"]

end KeyOp

theorem reachable_iff_readable_of_underShop :
    ∃ st, run KeyOp.step {} KeyOp.underShop = some st ∧
      st.rows.subjectKeyReachable KeyOp.customer = true ∧
      ∀ links, RootedIn st.rows.forest links KeyOp.customer →
        LinksCurrent st.rows.forest KeyOp.customer ∧ links ≤ maxSubjectDepth := by
  have ended : (run KeyOp.step {} KeyOp.underShop).any (fun st =>
      verifyMastersPresent KeyOp.oneMaster st.rows && st.rows.subjectKeyReachable KeyOp.customer &&
        readable KeyOp.oneMaster st.rows KeyOp.customer) = true := by
    decide
  obtain ⟨st, ran, held⟩ := (Option.any_eq_true _ _).mp ended
  obtain ⟨first, reads⟩ := Bool.and_eq_true_iff.mp held
  obtain ⟨verified, reachable⟩ := Bool.and_eq_true_iff.mp first
  have subject : KeyOp.customer.1 ≠ globalSubject := by decide
  have agree := reachable_iff_readable ran verified subject
  exact ⟨st, ran, reachable, agree.mp ⟨fun _ => readable_iff.mp reads, fun _ => reachable⟩⟩

/-- The customer's key is reachable, and reads as erased. -/
theorem reachable_not_readable :
    ∃ st, run KeyOp.step {} KeyOp.shopMintedAgain = some st ∧
      verifyMastersPresent KeyOp.oneMaster st.rows = true ∧
      st.rows.subjectKeyReachable KeyOp.customer = true ∧
      ¬∃ secret, loadSecret KeyOp.oneMaster st.rows KeyOp.customer = .ok (some secret) := by
  have ended : (run KeyOp.step {} KeyOp.shopMintedAgain).any (fun st =>
      verifyMastersPresent KeyOp.oneMaster st.rows && st.rows.subjectKeyReachable KeyOp.customer &&
        !readable KeyOp.oneMaster st.rows KeyOp.customer) = true := by
    decide
  obtain ⟨st, ran, held⟩ := (Option.any_eq_true _ _).mp ended
  obtain ⟨first, lost⟩ := Bool.and_eq_true_iff.mp held
  obtain ⟨verified, reachable⟩ := Bool.and_eq_true_iff.mp first
  rw [Bool.not_eq_true', Bool.eq_false_iff] at lost
  exact ⟨st, ran, verified, reachable, fun reads => lost (readable_iff.mpr reads)⟩

end Hekla.Keys
