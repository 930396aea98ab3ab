import Hekla.Adopt.Subjects
import Hekla.Keys.Reachability
import Hekla.Host.Append
import Hekla.Library.Earliest

/-!
# The parents the log names

An event that sealed content names the parent of every link of its chains but the last.  The
fold keeps what is named first of each subject that waits, and ends once none does.
-/

namespace Hekla.Adopt

open Hekla.Library Host Keys

/-- How many disagreements a run collects. -/
def DISAGREEMENTS : Nat := 20

/-- How many identities a refusal names. -/
def NAMED : Nat := 20

/-- An identity and its ancestors, nearest first. -/
abbrev Chain := List Identity

/-! ## What an event names -/

/-- Every link of a chain but the last, with the chain from it on. -/
def links : Chain → List (Identity × Chain)
  | id :: parent :: above => (id, id :: parent :: above) :: links (parent :: above)
  | _ => []

/-- Whether an event sealed something into a field: an absent value mints no key. -/
def sealsContent (event : Event) (field : String) : Bool :=
  (event.fields.get field).any fun value => !value.json.isNull

/-- What an event names, field by field. -/
def mentions (declared : EventDef) (event : Event) : List (Identity × Chain) :=
  declared.fields.flatMap fun field =>
    match field.2.sealedUnder with
    | none => []
    | some filed =>
        if filed.chain.length < 2 then []
        else if sealsContent event field.1 then
          match filed.resolve (subjectIds declared event) with
          | none => []
          | some chain => links chain
        else []

/-- The types that can seal something under a subject with ancestors, sorted. -/
def sealingTypes (events : EventDefs) : List String :=
  ((events.entries.filter fun entry =>
    entry.2.fields.any fun field => field.2.sealedUnder.any fun filed => 1 < filed.chain.length).map
      Sigma.fst).insertionSort (· ≤ ·)

def queryOfTypes (types : List String) : Query := types.map fun type => { types := [type] }

/-! ## Keeping the first -/

/-- A subject whose events do not agree about its parent. -/
structure Disagreement where
  subject : String
  subjectValue : String
  kept : String
  also : String

/-- An ancestry as an operator reads it. -/
def render (ancestors : Chain) : String :=
  " under ".intercalate (ancestors.map fun id => s!"`{id.1}` = `{id.2}`")

structure Folding where
  search : Search Identity Chain
  scanned : Nat := 0
  disagreements : List Disagreement := []
  reported : List Identity := []

/-- Keep the first ancestry told of a subject that waits, and notice one that differs. -/
def keepFirst (folding : Folding) (mention : Identity × Chain) : Folding :=
  match folding.search.found.get mention.1 with
  | none =>
      if folding.search.pending.contains mention.1 then
        { folding with
          search :=
            ⟨folding.search.pending.filter (· ≠ mention.1), folding.search.found.set mention.1 mention.2⟩ }
      else folding
  | some kept =>
      if kept ≠ mention.2 ∧ folding.disagreements.length < DISAGREEMENTS ∧
          !folding.reported.contains mention.1 then
        { folding with
          reported := mention.1 :: folding.reported
          disagreements := folding.disagreements ++
            [⟨mention.1.1, mention.1.2, render kept.tail, render mention.2.tail⟩] }
      else folding

/-- How the language reads a stored event.  Its type is the stored one. -/
structure Decoder where
  read : StoredEvent → Except String Event
  typed : ∀ stored event, read stored = .ok event → eventType event.path = stored.eventType

section Log

variable (deployed : Deployed) (decoder : Decoder)

/-- One event after the other, until every subject that waits has a parent. -/
def foldFrom : List (Nat × StoredEvent) → Folding → Except String Folding
  | [], folding => .ok folding
  | (position, stored) :: rest, folding =>
      match decoder.read stored with
      | .error message => .error s!"reading the event at position {position}: {message}"
      | .ok event =>
          let read := { folding with scanned := folding.scanned + 1 }
          match deployed.events.get (eventType event.path) with
          | none => foldFrom rest read
          | some declared =>
              let told := (mentions declared event).foldl keepFirst read
              if told.search.pending.isEmpty then .ok told else foldFrom rest told

/-- The parents of the subjects that wait, as the log names them. -/
def fold (store : Store) (pending : List Identity) : Except String Folding :=
  let types := sealingTypes deployed.events
  if types.isEmpty then .ok ⟨⟨pending, ∅⟩, 0, [], []⟩
  else foldFrom deployed decoder (store.read (queryOfTypes types)) ⟨⟨pending, ∅⟩, 0, [], []⟩

/-- What a stored event names. -/
def mentioned (stored : StoredEvent) : List (Identity × Chain) :=
  match decoder.read stored with
  | .error _ => []
  | .ok event => ((deployed.events.get (eventType event.path)).map fun declared => mentions declared event).getD []

/-- The chain of the earliest event of a log that sealed content under an identity. -/
def earliest (log : List StoredEvent) (id : Identity) : Option Chain :=
  firstTold (log.flatMap (mentioned deployed decoder)) id

end Log

/-! ## Lemmas -/

theorem search_keepFirst (folding : Folding) (mention : Identity × Chain) :
    (keepFirst folding mention).search = folding.search.hear mention := by
  unfold keepFirst Search.hear
  cases folding.search.found.get mention.1 with
  | none =>
      simp only [List.contains_iff_mem]
      split <;> rfl
  | some kept =>
      dsimp only
      split <;> rfl

theorem search_foldl_keepFirst (folding : Folding) (told : List (Identity × Chain)) :
    (told.foldl keepFirst folding).search = folding.search.hearAll told := by
  induction told generalizing folding with
  | nil => rfl
  | cons mention told ih => rw [List.foldl_cons, ih, search_keepFirst, Search.hearAll_cons]

/-- A link that is told is the head of its chain, and has a parent there. -/
theorem mem_links {chain : Chain} {id : Identity} {told : Chain} (member : (id, told) ∈ links chain) :
    ∃ parent above, told = id :: parent :: above ∧ told <:+ chain := by
  induction chain with
  | nil => cases member
  | cons first rest ih =>
      cases rest with
      | nil => cases member
      | cons second above =>
          rcases List.mem_cons.mp member with here | later
          · cases here
            exact ⟨second, above, rfl, List.suffix_rfl⟩
          · obtain ⟨parent, above', same, suffix⟩ := ih later
            exact ⟨parent, above', same, suffix.trans (List.suffix_cons _ _)⟩

/-- A chain with its ids keeps its subjects. -/
theorem subjects_of_resolve {filed : Seal} {ids : Table String String} {chain : Chain}
    (resolved : filed.resolve ids = some chain) : chain.map Prod.fst = filed.chain.map Prod.fst := by
  unfold Seal.resolve at resolved
  generalize filed.chain = named at resolved ⊢
  induction named generalizing chain with
  | nil =>
      cases resolved
      rfl
  | cons link rest ih =>
      rw [List.mapM_cons] at resolved
      obtain ⟨id, here, later⟩ := Option.bind_eq_some_iff.mp resolved
      obtain ⟨ids, others, last⟩ := Option.bind_eq_some_iff.mp later
      obtain ⟨value, _, rfl⟩ := Option.map_eq_some_iff.mp here
      cases last
      rw [List.map_cons, List.map_cons, ih others]

variable {deployed : Deployed} {decoder : Decoder}

theorem mem_sealingTypes {type : String} :
    type ∈ sealingTypes deployed.events ↔ ∃ declared, deployed.events.get type = some declared ∧
      ∃ field ∈ declared.fields, ∃ filed, field.2.sealedUnder = some filed ∧ 1 < filed.chain.length := by
  unfold sealingTypes
  rw [List.mem_insertionSort, List.mem_map]
  constructor
  · rintro ⟨⟨type, declared⟩, member, rfl⟩
    rw [List.mem_filter] at member
    refine ⟨declared, (Table.get_eq_some_iff _ _ _).mpr member.1, ?_⟩
    simpa [Option.any_eq_true] using member.2
  · rintro ⟨declared, held, deep⟩
    refine ⟨⟨type, declared⟩, List.mem_filter.mpr ⟨(Table.get_eq_some_iff _ _ _).mp held, ?_⟩, rfl⟩
    simpa [Option.any_eq_true] using deep

/-- An event of no sealing type names nothing. -/
theorem mentions_eq_nil {declared : EventDef} (event : Event)
    (flat : ∀ field ∈ declared.fields, ∀ filed, field.2.sealedUnder = some filed → ¬1 < filed.chain.length) :
    mentions declared event = [] := by
  unfold mentions
  rw [List.flatMap_eq_nil_iff]
  intro field member
  split
  · rfl
  · next filed sealed =>
      rw [if_pos (by have := flat field member filed sealed; omega)]

theorem accepts_queryOfTypes (types : List String) (stored : StoredEvent) :
    Query.accepts (queryOfTypes types) stored = true ↔ stored.eventType ∈ types := by
  simp [Query.accepts, queryOfTypes, QueryItem.accepts]

theorem mentioned_of_undeclared {stored : StoredEvent} {event : Event}
    (decoded : decoder.read stored = .ok event) (undeclared : deployed.events.get (eventType event.path) = none) :
    mentioned deployed decoder stored = [] := by
  simp only [mentioned, decoded, undeclared, Option.map_none, Option.getD_none]

theorem mentioned_of_declared {stored : StoredEvent} {event : Event} {declared : EventDef}
    (decoded : decoder.read stored = .ok event)
    (held : deployed.events.get (eventType event.path) = some declared) :
    mentioned deployed decoder stored = mentions declared event := by
  simp only [mentioned, decoded, held, Option.map_some, Option.getD_some]

/-- What is told of an identity names its parent, and all its subject's ancestors. -/
theorem chain_of_mentioned {stored : StoredEvent} {id : Identity} {chain : Chain}
    (told : (id, chain) ∈ mentioned deployed decoder stored) :
    ∃ parent above, chain = id :: parent :: above ∧
      (parent :: above).map Prod.fst = deployed.subjects.ancestors id.1 := by
  unfold mentioned at told
  split at told
  · cases told
  · next event _ =>
      cases held : deployed.events.get (eventType event.path) with
      | none =>
          rw [held] at told
          cases told
      | some declared =>
          rw [held] at told
          obtain ⟨⟨name, field⟩, member, named⟩ := List.mem_flatMap.mp told
          dsimp only at named
          split at named
          · cases named
          · next filed sealed =>
              split at named
              · cases named
              · split at named
                · split at named
                  · cases named
                  · next whole resolved =>
                      obtain ⟨parent, above, rfl, suffix⟩ := mem_links named
                      refine ⟨parent, above, rfl, ?_⟩
                      have subjects := subjects_of_resolve resolved
                      unfold Seal.chain at subjects
                      rw [List.map_cons, deployed.ancestors_of_chain held member sealed] at subjects
                      have within := suffix.map Prod.fst
                      rw [subjects, List.map_cons] at within
                      rcases List.suffix_cons_iff.mp within with here | later
                      · exact (List.cons.inj here).1 ▸ (List.cons.inj here).2
                      · exact Subjects.ancestors_of_suffix later
                · cases named

/-- What is not read names nothing. -/
theorem mentioned_of_unread {stored : StoredEvent}
    (unread : Query.accepts (queryOfTypes (sealingTypes deployed.events)) stored = false) :
    mentioned deployed decoder stored = [] := by
  cases read : decoder.read stored with
  | error message => simp only [mentioned, read]
  | ok event =>
      cases held : deployed.events.get (eventType event.path) with
      | none => exact mentioned_of_undeclared read held
      | some declared =>
          rw [mentioned_of_declared read held]
          refine mentions_eq_nil event fun field member filed sealed deep => ?_
          rw [decoder.typed stored event read] at held
          have accepted := (accepts_queryOfTypes _ stored).mpr
            (mem_sealingTypes.mpr ⟨declared, held, field, member, filed, sealed, deep⟩)
          rw [unread] at accepted
          cases accepted

theorem flatMap_readFrom {query : Query} (position : Nat) (log : List StoredEvent)
    (unread : ∀ stored, query.accepts stored = false → mentioned deployed decoder stored = []) :
    ((Store.readFrom query position log).flatMap fun one => mentioned deployed decoder one.2) =
      log.flatMap (mentioned deployed decoder) := by
  induction log generalizing position with
  | nil => rfl
  | cons stored log ih =>
      unfold Store.readFrom
      cases accepted : query.accepts stored with
      | true => simp [ih]
      | false => simp [ih, unread stored accepted]

/-! ## What the fold finds -/

theorem foldFrom_search {reads : List (Nat × StoredEvent)} {folding folded : Folding}
    (read : foldFrom deployed decoder reads folding = .ok folded) :
    folded.search = folding.search.hearAll (reads.flatMap fun one => mentioned deployed decoder one.2) := by
  induction reads generalizing folding with
  | nil =>
      cases read
      rfl
  | cons one reads ih =>
      rw [List.flatMap_cons, Search.hearAll_append]
      cases decoded : decoder.read one.2 with
      | error message =>
          rw [foldFrom, decoded] at read
          cases read
      | ok event =>
          cases held : deployed.events.get (eventType event.path) with
          | none =>
              simp only [foldFrom, decoded, held] at read
              rw [mentioned_of_undeclared decoded held, ih read]
              rfl
          | some declared =>
              simp only [foldFrom, decoded, held] at read
              rw [mentioned_of_declared decoded held]
              have told := search_foldl_keepFirst { folding with scanned := folding.scanned + 1 }
                (mentions declared event)
              split at read
              · next idle =>
                  cases read
                  rw [told] at idle ⊢
                  exact (Search.hearAll_of_idle (List.isEmpty_iff.mp idle) _).symm
              · rw [ih read, told]

/-- A subject that waits is placed where the earliest event that sealed under it says. -/
theorem fold_search {store : Store} {pending : List Identity} {folded : Folding}
    (read : fold deployed decoder store pending = .ok folded) :
    folded.search = (⟨pending, ∅⟩ : Search Identity Chain).hearAll
      (store.log.flatMap (mentioned deployed decoder)) := by
  unfold fold at read
  dsimp only at read
  split at read
  · next none =>
      cases read
      have silent : store.log.flatMap (mentioned deployed decoder) = [] := by
        rw [List.flatMap_eq_nil_iff]
        intro stored _
        refine mentioned_of_unread ?_
        rw [List.isEmpty_iff.mp none]
        rfl
      rw [silent]
      rfl
  · rw [foldFrom_search read]
    unfold Store.read
    rw [flatMap_readFrom 1 store.log fun stored => mentioned_of_unread]

theorem found_fold {store : Store} {pending : List Identity} {folded : Folding}
    (read : fold deployed decoder store pending = .ok folded) (id : Identity) :
    folded.search.found.get id = if id ∈ pending then earliest deployed decoder store.log id else none := by
  rw [fold_search read, Search.found_hearAll]
  simp [earliest]

theorem mem_pending_fold {store : Store} {pending : List Identity} {folded : Folding}
    (read : fold deployed decoder store pending = .ok folded) (id : Identity) :
    id ∈ folded.search.pending ↔ id ∈ pending ∧ earliest deployed decoder store.log id = none := by
  rw [fold_search read, Search.mem_pending_hearAll]
  simp [earliest]

theorem foldFrom_ok {reads : List (Nat × StoredEvent)}
    (readable : ∀ one ∈ reads, ∃ event, decoder.read one.2 = .ok event) (folding : Folding) :
    ∃ folded, foldFrom deployed decoder reads folding = .ok folded := by
  induction reads generalizing folding with
  | nil => exact ⟨folding, rfl⟩
  | cons one reads ih =>
      obtain ⟨event, decoded⟩ := readable one List.mem_cons_self
      have others := fun folding => ih (fun later member => readable later (List.mem_cons_of_mem _ member)) folding
      unfold foldFrom
      rw [decoded]
      dsimp only
      split
      · exact others _
      · split
        · exact ⟨_, rfl⟩
        · exact others _

/-! ## What it reports -/

/-- A report of a subject, of its ancestry by the first that was told and by another. -/
def Differs (search : Search Identity Chain) (told : List (Identity × Chain))
    (disagreement : Disagreement) : Prop :=
  ∃ id kept also, search.found.get id = some kept ∧ (id, also) ∈ told ∧ kept ≠ also ∧
    disagreement = ⟨id.1, id.2, render kept.tail, render also.tail⟩

theorem Differs.mono {search : Search Identity Chain} {told more : List (Identity × Chain)}
    {disagreement : Disagreement} (differs : Differs search told disagreement) (within : told ⊆ more) :
    Differs search more disagreement := by
  obtain ⟨id, kept, also, found, member, apart, same⟩ := differs
  exact ⟨id, kept, also, found, within member, apart, same⟩

/-- What is found stays as it is. -/
theorem found_hearAll_of_found {search : Search Identity Chain} {id : Identity} {kept : Chain}
    (found : search.found.get id = some kept) (told : List (Identity × Chain)) :
    (search.hearAll told).found.get id = some kept := by
  rw [Search.found_hearAll, found]
  rfl

theorem disagreements_keepFirst {folding : Folding} {mention : Identity × Chain}
    {disagreement : Disagreement} (member : disagreement ∈ (keepFirst folding mention).disagreements) :
    disagreement ∈ folding.disagreements ∨ Differs folding.search [mention] disagreement := by
  unfold keepFirst at member
  cases found : folding.search.found.get mention.1 with
  | none =>
      rw [found] at member
      dsimp only at member
      split at member <;> exact .inl member
  | some kept =>
      rw [found] at member
      dsimp only at member
      split at member
      · next differs =>
          rcases List.mem_append.mp member with before | here
          · exact .inl before
          · exact .inr ⟨mention.1, kept, mention.2, found, List.mem_singleton_self _, differs.1,
              List.mem_singleton.mp here⟩
      · exact .inl member

theorem disagreements_foldl {folding : Folding} {told : List (Identity × Chain)} {disagreement : Disagreement}
    (member : disagreement ∈ (told.foldl keepFirst folding).disagreements) :
    disagreement ∈ folding.disagreements ∨ Differs (folding.search.hearAll told) told disagreement := by
  induction told generalizing folding with
  | nil => exact .inl member
  | cons mention told ih =>
      rw [Search.hearAll_cons]
      rcases ih member with before | later
      · rcases disagreements_keepFirst before with before | ⟨id, kept, also, found, here, rest⟩
        · exact .inl before
        · refine .inr ⟨id, kept, also, ?_, ?_, rest⟩
          · exact found_hearAll_of_found found (mention :: told)
          · exact List.mem_cons.mpr (.inl (List.mem_singleton.mp here))
      · rw [search_keepFirst] at later
        exact .inr (later.mono (List.subset_cons_self _ _))

theorem disagreements_foldFrom {reads : List (Nat × StoredEvent)} {folding folded : Folding}
    {disagreement : Disagreement} (read : foldFrom deployed decoder reads folding = .ok folded)
    (member : disagreement ∈ folded.disagreements) :
    disagreement ∈ folding.disagreements ∨
      Differs folded.search (reads.flatMap fun one => mentioned deployed decoder one.2) disagreement := by
  induction reads generalizing folding with
  | nil =>
      cases read
      exact .inl member
  | cons one reads ih =>
      have whole := foldFrom_search read
      rw [List.flatMap_cons] at whole ⊢
      cases decoded : decoder.read one.2 with
      | error message =>
          rw [foldFrom, decoded] at read
          cases read
      | ok event =>
          cases held : deployed.events.get (eventType event.path) with
          | none =>
              simp only [foldFrom, decoded, held] at read
              rw [mentioned_of_undeclared decoded held, List.nil_append]
              exact (ih read).imp_left fun before => before
          | some declared =>
              simp only [foldFrom, decoded, held] at read
              rw [mentioned_of_declared decoded held] at whole ⊢
              have told (before : disagreement ∈ ((mentions declared event).foldl keepFirst
                    { folding with scanned := folding.scanned + 1 }).disagreements) :
                  disagreement ∈ folding.disagreements ∨ Differs folded.search
                    (mentions declared event ++ reads.flatMap fun one => mentioned deployed decoder one.2)
                    disagreement := by
                rcases disagreements_foldl before with first | ⟨id, kept, also, found, here, rest⟩
                · exact .inl first
                · refine .inr ⟨id, kept, also, ?_, List.mem_append_left _ here, rest⟩
                  rw [whole, Search.hearAll_append]
                  exact found_hearAll_of_found found _
              split at read
              · cases read
                exact told member
              · rcases ih read with before | later
                · exact told before
                · exact .inr (later.mono (List.subset_append_right _ _))

/-- Every disagreement that is reported is one. -/
theorem fold_disagreements {store : Store} {pending : List Identity} {folded : Folding}
    (read : fold deployed decoder store pending = .ok folded) (disagreement : Disagreement)
    (member : disagreement ∈ folded.disagreements) :
    ∃ id kept also, earliest deployed decoder store.log id = some kept ∧
      (id, also) ∈ store.log.flatMap (mentioned deployed decoder) ∧ kept ≠ also ∧
      disagreement = ⟨id.1, id.2, render kept.tail, render also.tail⟩ := by
  have placed := found_fold read
  unfold fold at read
  dsimp only at read
  split at read
  · cases read
    cases member
  · rcases disagreements_foldFrom read member with never | ⟨id, kept, also, found, told, rest⟩
    · cases never
    · refine ⟨id, kept, also, ?_, ?_, rest⟩
      · rw [placed] at found
        split at found
        · exact found
        · cases found
      · unfold Store.read at told
        rwa [flatMap_readFrom 1 store.log fun stored => mentioned_of_unread] at told

end Hekla.Adopt
