import Hekla.Host.Command

/-!
# One append for a key

The tag of a key is on the events of one commit at most, since the append looks
for it in the whole log.  What a response says of that commit is the same
whether it is built from the events in memory or from those read back: the
host's own tags and the subject tags are left out of both, and both are sorted.
-/

namespace Hekla.Host

open Hekla.Library

/-! ## Fresh and recovered reports agree -/

/-- Two sorted arrangements of the same tags are the same list. -/
theorem sortTags_eq {first second : List String} (same : first.Perm second) :
    sortTags first = sortTags second := by
  have sorted (tags : List String) : (sortTags tags).Pairwise (· ≤ ·) :=
    List.pairwise_insertionSort (· ≤ ·) tags
  refine List.Perm.eq_of_pairwise (fun _ _ _ _ => le_antisymm) (sorted first) (sorted second) ?_
  exact (List.perm_insertionSort _ _).trans (same.trans (List.perm_insertionSort _ _).symm)

section Lowered

variable {unit : Deployment} {host : HeklaHost} {stored : StoredEvent} {reported : EmittedEvent}

/-- A host that carries no request key, or one of this deployment. -/
structure Keyed (unit : Deployment) (idemTag : Option String) : Prop where
  tag : ∀ tag, idemTag = some tag → ∃ command key, tag = idempotencyTag unit.sha256Hex command key

/-- The tags the host adds are its own. -/
theorem reserved_of_extra (keyed : Keyed unit host.idemTag) {tag : String}
    (extra : tag ∈ correlationTag host.ctx.correlationId :: host.idemTag.toList) :
    startsWith tag reservedTagPrefix = true := by
  rcases List.mem_cons.mp extra with rfl | stamped
  · exact reserved_correlationTag _
  · obtain ⟨command, key, rfl⟩ := keyed.tag tag (Option.mem_toList.mp stamped)
    exact reserved_idempotencyTag _ _ _

/-- A derived tag is outside the host's namespace and its key is its field. -/
theorem derived_tag {declared : EventDef} {derived : List TagPair}
    (from_fields : HeklaHost.Derived declared.fields derived) {pair : TagPair} (member : pair ∈ derived) :
    startsWith (renderTag pair) reservedTagPrefix = false ∧ tagKey (renderTag pair) = pair.1 := by
  obtain ⟨text, eq⟩ := from_fields.texts pair member
  have name := from_fields.names.subset (List.mem_map_of_mem member)
  rw [eq]
  exact ⟨unreserved_renderTag text (declared.unreserved _ name),
    tagKey_renderTag text (declared.identifiers _ name)⟩

/-- A request's tag is on exactly the events its host lowered. -/
theorem mem_tags_iff (lowers : host.Lowers stored reported) (command key : String) :
    idempotencyTag unit.sha256Hex command key ∈ stored.tags ↔
      host.idemTag = some (idempotencyTag unit.sha256Hex command key) := by
  obtain ⟨declared, -, from_fields⟩ := lowers.declared
  rw [lowers.tags, mem_buildTags]
  constructor
  · rintro (⟨pair, member, same⟩ | extra)
    · have outside := (derived_tag from_fields member).1
      rw [same, reserved_idempotencyTag] at outside
      cases outside
    · rcases List.mem_cons.mp extra with same | stamped
      · exact absurd same.symm (correlationTag_ne_idempotencyTag _ _ _ _)
      · exact Option.mem_toList.mp stamped
  · intro stamped
    right
    rw [stamped]
    exact List.mem_cons_of_mem _ (List.mem_singleton_self _)

/-- The response a commit builds from its events in memory is the one a later
request builds from what the log holds. -/
theorem reportStored_eq (lowers : host.Lowers stored reported) (keyed : Keyed unit host.idemTag) :
    reportStored host.events stored = reportEmitted host.events reported := by
  obtain ⟨declared, -, from_fields⟩ := lowers.declared
  have rendered : (reported.tags.map renderTag).map tagKey = reported.tags.map Prod.fst := by
    rw [List.map_map]
    exact List.map_congr_left fun pair member => (derived_tag from_fields member).2
  have distinct : (reported.tags.map renderTag).Nodup := by
    refine List.Nodup.of_map tagKey ?_
    rw [rendered]
    exact declared.distinct.sublist from_fields.names
  unfold reportStored reportEmitted tagStrings
  rw [lowers.type]
  refine congrArg (RecoveredEvent.mk stored.eventType) (sortTags_eq ?_)
  rw [List.perm_ext_iff_of_nodup]
  · intro tag
    rw [List.mem_filter, List.mem_filter, List.mem_map, lowers.tags, mem_buildTags]
    constructor
    · rintro ⟨⟨⟨pair, member, rfl⟩ | extra, unreserved⟩, shown⟩
      · refine ⟨pair, List.mem_filter.mpr ⟨member, ?_⟩, rfl⟩
        rw [(derived_tag from_fields member).2] at shown
        exact shown
      · rw [reserved_of_extra keyed extra] at unreserved
        cases unreserved
    · rintro ⟨pair, kept, rfl⟩
      obtain ⟨member, shown⟩ := List.mem_filter.mp kept
      obtain ⟨unreserved, key⟩ := derived_tag from_fields member
      refine ⟨⟨.inl ⟨pair, member, rfl⟩, ?_⟩, ?_⟩
      · rw [unreserved]
        rfl
      · rw [key]
        exact shown
  · rw [lowers.tags]
    have set : (buildTags reported.tags
        (correlationTag host.ctx.correlationId :: host.idemTag.toList)).Nodup :=
      (List.perm_insertionSort _ _).nodup_iff.mpr (List.nodup_dedup _)
    exact (set.filter _).filter _
  · exact distinct.sublist (List.filter_sublist.map renderTag)

end Lowered

/-! ## Commits -/

namespace Commit

/-- What every response about a commit says. -/
def report (defs : EventDefs) (commit : Commit) : CommittedBody :=
  ⟨commit.ctx.correlationId, commit.ctx.causationId,
    some ⟨commit.first, commit.first + commit.batch.length - 1⟩,
    commit.batch.map (reportStored defs)⟩

/-- A commit has events, all lowered by one host of the deployment. -/
structure Lowered (unit : Deployment) (commit : Commit) : Prop where
  some_events : commit.batch ≠ []
  keyed : Keyed unit commit.idemTag
  lowered : ∀ event ∈ commit.batch, ∃ (host : HeklaHost) (reported : EmittedEvent),
    host.Lowers event reported ∧ host.idemTag = commit.idemTag ∧ host.ctx = commit.ctx

theorem Lowered.carries {unit : Deployment} {commit : Commit} (lowered : commit.Lowered unit)
    {event : StoredEvent} (member : event ∈ commit.batch) (command key : String) :
    idempotencyTag unit.sha256Hex command key ∈ event.tags ↔
      commit.idemTag = some (idempotencyTag unit.sha256Hex command key) := by
  obtain ⟨host, reported, lowers, stamped, -⟩ := lowered.lowered event member
  rw [mem_tags_iff lowers, stamped]

theorem Lowered.envelope {unit : Deployment} {commit : Commit} (lowered : commit.Lowered unit)
    {event : StoredEvent} (member : event ∈ commit.batch) : event.envelope = commit.ctx := by
  obtain ⟨host, reported, lowers, -, same⟩ := lowered.lowered event member
  exact lowers.envelope.trans same

end Commit

/-- One more event of the execution being read back. -/
theorem recoverEvent_same {defs : EventDefs} {event : StoredEvent} (found : Recovering)
    (position : Nat) (ids : found.ids = none ∨
      found.ids = some (event.envelope.correlationId, event.envelope.causationId)) :
    recoverEvent defs found position event =
      .ok ⟨found.events ++ [reportStored defs event],
        some ⟨(found.range.map PositionRange.first).getD position, position⟩,
        some (event.envelope.correlationId, event.envelope.causationId)⟩ := by
  unfold recoverEvent
  rcases ids with none | same
  · rw [none]
  · rw [same]
    simp

/-- Reading one execution's events back. -/
theorem recoverEvents_batch {defs : EventDefs} {query : Query} {ctx : CommandContext}
    {event : StoredEvent} {rest : List StoredEvent}
    (accepted : ∀ other ∈ event :: rest, query.accepts other = true)
    (envelopes : ∀ other ∈ event :: rest, other.envelope = ctx) (found : Recovering)
    (position : Nat)
    (ids : found.ids = none ∨ found.ids = some (ctx.correlationId, ctx.causationId)) :
    recoverEvents defs found (Store.readFrom query position (event :: rest)) =
      .ok ⟨found.events ++ (event :: rest).map (reportStored defs),
        some ⟨(found.range.map PositionRange.first).getD position, position + rest.length⟩,
        some (ctx.correlationId, ctx.causationId)⟩ := by
  induction rest generalizing event found position with
  | nil =>
      have envelope := envelopes event List.mem_cons_self
      rw [Store.readFrom, if_pos (accepted event List.mem_cons_self), recoverEvents,
        recoverEvent_same found position (envelope ▸ ids), envelope]
      rfl
  | cons next later ih =>
      have envelope := envelopes event List.mem_cons_self
      have last : position + 1 + later.length = position + (next :: later).length := by
        rw [List.length_cons]
        omega
      rw [Store.readFrom, if_pos (accepted event List.mem_cons_self), recoverEvents,
        recoverEvent_same found position (envelope ▸ ids), envelope]
      dsimp only
      rw [ih (fun other member => accepted other (List.mem_cons_of_mem _ member))
        (fun other member => envelopes other (List.mem_cons_of_mem _ member)) _ _ (.inr rfl), last]
      simp

/-- The outcome a request has come to, if it has. -/
def RequestPhase.outcome : RequestPhase → Option CommandOutcome
  | .checking outcome | .answered outcome => some outcome
  | .deciding | .appending _ _ | .recovering => none

namespace Serving

/-- The log is the commits one after the other, no two of them under one tag. -/
structure Ledgered (unit : Deployment) (store : Store) (commits : List Commit) : Prop where
  logged : store.log = commits.flatMap Commit.batch
  placed : ∀ before commit after, commits = before ++ commit :: after →
    commit.first = (before.flatMap Commit.batch).length + 1
  lowered : ∀ commit ∈ commits, commit.Lowered unit
  unique : commits.Pairwise fun first second =>
    ∀ tag, first.idemTag = some tag → second.idemTag ≠ some tag

variable {unit : Deployment} {store : Store} {commits : List Commit}

/-- Commits under other tags hold no event of this one. -/
theorem Ledgered.none_accepted (lowered : ∀ commit ∈ commits, commit.Lowered unit)
    {command key : String}
    (others : ∀ commit ∈ commits,
      commit.idemTag ≠ some (idempotencyTag unit.sha256Hex command key)) :
    ∀ event ∈ commits.flatMap Commit.batch,
      Query.accepts [HeklaHost.idemItem (idempotencyTag unit.sha256Hex command key)] event =
        false := by
  intro event member
  obtain ⟨commit, listed, inBatch⟩ := List.mem_flatMap.mp member
  rw [Bool.eq_false_iff]
  intro accepted
  have carries := (HeklaHost.idemItem_accepts _ event).mp accepted
  exact others commit listed (((lowered commit listed).carries inBatch command key).mp carries)

/-- A tag nothing was committed under is not found. -/
theorem Ledgered.find_none (ledgered : Ledgered unit store commits) {command key : String}
    (others : ∀ commit ∈ commits,
      commit.idemTag ≠ some (idempotencyTag unit.sha256Hex command key)) :
    findCommittedOutcome unit.events store (idempotencyTag unit.sha256Hex command key) =
      .ok none := by
  unfold findCommittedOutcome Store.read
  rw [ledgered.logged, Store.readFrom_none 1 (Ledgered.none_accepted ledgered.lowered others)]
  rfl

/-- What a request finds under its tag is the commit's own report. -/
theorem Ledgered.find_commit (ledgered : Ledgered unit store commits) {commit : Commit}
    (member : commit ∈ commits) {command key : String}
    (stamped : commit.idemTag = some (idempotencyTag unit.sha256Hex command key)) :
    ∃ outcome, findCommittedOutcome unit.events store
        (idempotencyTag unit.sha256Hex command key) = .ok (some outcome) ∧
      recoveredBody outcome = commit.report unit.events := by
  obtain ⟨before, after, split⟩ := List.append_of_mem member
  have first := ledgered.placed before commit after split
  have lowered := ledgered.lowered commit member
  have apart := ledgered.unique
  rw [split] at apart
  obtain ⟨-, tail, across⟩ := List.pairwise_append.mp apart
  have earlier : Store.readFrom [HeklaHost.idemItem (idempotencyTag unit.sha256Hex command key)] 1
      (before.flatMap Commit.batch) = [] := by
    refine Store.readFrom_none 1 (Ledgered.none_accepted ?_ ?_)
    · exact fun other inFront =>
        ledgered.lowered other (split ▸ List.mem_append_left _ inFront)
    · exact fun other inFront same =>
        across other inFront commit List.mem_cons_self _ same stamped
  have later (position : Nat) :
      Store.readFrom [HeklaHost.idemItem (idempotencyTag unit.sha256Hex command key)] position
        (after.flatMap Commit.batch) = [] := by
    refine Store.readFrom_none position (Ledgered.none_accepted ?_ ?_)
    · exact fun other behind => ledgered.lowered other
        (split ▸ List.mem_append_right _ (List.mem_cons_of_mem _ behind))
    · exact fun other behind => (List.pairwise_cons.mp tail).1 other behind _ stamped
  have log : store.log =
      before.flatMap Commit.batch ++ (commit.batch ++ after.flatMap Commit.batch) := by
    rw [ledgered.logged, split, List.flatMap_append, List.flatMap_cons]
  have accepted : ∀ event ∈ commit.batch,
      Query.accepts [HeklaHost.idemItem (idempotencyTag unit.sha256Hex command key)] event =
        true := by
    intro event inBatch
    exact (HeklaHost.idemItem_accepts _ event).mpr
      ((lowered.carries inBatch command key).mpr stamped)
  have envelopes : ∀ event ∈ commit.batch, event.envelope = commit.ctx :=
    fun event inBatch => lowered.envelope inBatch
  unfold findCommittedOutcome Store.read
  rw [log, Store.readFrom_append, Store.readFrom_append, earlier, later, List.nil_append,
    List.append_nil]
  cases batch : commit.batch with
  | nil => exact absurd batch lowered.some_events
  | cons event rest =>
      rw [batch] at accepted envelopes
      rw [recoverEvents_batch accepted envelopes {} _ (.inl rfl)]
      refine ⟨_, rfl, ?_⟩
      unfold recoveredBody Commit.report
      rw [batch, first]
      simp
      omega

theorem Ledgered.congr {store' : Store} (ledgered : Ledgered unit store commits)
    (log : store'.log = store.log) : Ledgered unit store' commits where
  logged := log.trans ledgered.logged
  placed := ledgered.placed
  lowered := ledgered.lowered
  unique := ledgered.unique

/-- An append that landed is one more commit, and no earlier one is under its tag. -/
theorem Ledgered.land (ledgered : Ledgered unit store commits) {host : HeklaHost}
    {built : List StoredEvent} {emitted : List EmittedEvent} (some_events : built ≠ [])
    (lowers : List.Forall₂ host.Lowers built emitted) (keyed : Keyed unit host.idemTag)
    (unguarded : ∀ tag, host.idemTag = some tag → ∀ event ∈ store.log, tag ∉ event.tags) :
    Ledgered unit { store with log := store.log ++ built }
      (commits ++ [⟨host.idemTag, host.ctx, store.head + 1, built⟩]) where
  logged := by
    dsimp only
    rw [ledgered.logged, List.flatMap_append, List.flatMap_singleton]
  placed before commit after split := by
    rcases List.eq_nil_or_concat after with rfl | ⟨later, last, rfl⟩
    · obtain ⟨rfl, same⟩ := List.append_inj' split rfl
      rw [← List.head_eq_of_cons_eq same]
      change store.log.length + 1 = _
      rw [ledgered.logged]
    · rw [List.concat_eq_append, ← List.cons_append, ← List.append_assoc] at split
      obtain ⟨same, -⟩ := List.append_inj' split rfl
      exact ledgered.placed before commit later same
  lowered commit member := by
    rcases List.mem_append.mp member with old | new
    · exact ledgered.lowered commit old
    · rw [List.mem_singleton.mp new]
      refine ⟨some_events, keyed, ?_⟩
      intro event inBatch
      obtain ⟨reported, lowered⟩ := HeklaHost.exists_report lowers inBatch
      exact ⟨host, reported, lowered, rfl, rfl⟩
  unique := by
    refine List.pairwise_append.mpr ⟨ledgered.unique, List.pairwise_singleton _ _, ?_⟩
    intro first member second new tag stamped again
    rw [List.mem_singleton.mp new] at again
    obtain ⟨command, key, rfl⟩ := keyed.tag tag again
    have lowered := ledgered.lowered first member
    obtain ⟨event, inBatch⟩ := List.exists_mem_of_ne_nil _ lowered.some_events
    refine unguarded _ again event ?_ ((lowered.carries inBatch command key).mpr stamped)
    rw [ledgered.logged]
    exact List.mem_flatMap.mpr ⟨first, member, inBatch⟩

/-- What is found under a tag is a commit under that tag. -/
theorem Ledgered.found (ledgered : Ledgered unit store commits) {tag : String}
    (keyed : Keyed unit (some tag)) {outcome : RecoveredOutcome}
    (found : findCommittedOutcome unit.events store tag = .ok (some outcome)) :
    ∃ commit ∈ commits, commit.idemTag = some tag ∧
      recoveredBody outcome = commit.report unit.events := by
  obtain ⟨command, key, rfl⟩ := keyed.tag tag rfl
  by_cases present : ∃ commit ∈ commits,
      commit.idemTag = some (idempotencyTag unit.sha256Hex command key)
  · obtain ⟨commit, member, stamped⟩ := present
    obtain ⟨other, found', same⟩ := ledgered.find_commit member stamped
    rw [found] at found'
    cases found'
    exact ⟨commit, member, stamped, same⟩
  · have absent : ∀ commit ∈ commits,
        commit.idemTag ≠ some (idempotencyTag unit.sha256Hex command key) :=
      fun commit member stamped => present ⟨commit, member, stamped⟩
    rw [ledgered.find_none absent] at found
    cases found

/-! ## Speaking truthfully -/

/-- A body that reports positions is the report of a commit under the tag. -/
def Truthful (unit : Deployment) (commits : List Commit) (idemTag : Option String)
    (body : Body) : Prop :=
  ∀ reported, body = .committed reported → reported.positions ≠ none →
    ∃ commit ∈ commits, commit.idemTag = idemTag ∧ reported = commit.report unit.events

theorem Truthful.mono {idemTag : Option String} {body : Body}
    (truthful : Truthful unit commits idemTag body) (later : List Commit) :
    Truthful unit (commits ++ later) idemTag body := by
  intro reported same positions
  obtain ⟨commit, member, rest⟩ := truthful reported same positions
  exact ⟨commit, List.mem_append_left _ member, rest⟩

theorem Truthful.of_unplaced {idemTag : Option String} {body : Body}
    (unplaced : ∀ reported, body = .committed reported → reported.positions = none) :
    Truthful unit commits idemTag body :=
  fun reported same positions => absurd (unplaced reported same) positions

/-- A request of the deployment that speaks truthfully of the commits. -/
structure Fits (unit : Deployment) (commits : List Commit) (request : Request) : Prop where
  keyed : Keyed unit request.host.idemTag
  events : request.host.events = unit.events
  pending : request.phase.outcome = none → request.host.appended = none
  truthful : ∀ outcome, request.phase.outcome = some outcome →
    Truthful unit commits request.host.idemTag (outcome.result unit.events request.host.ctx).body

theorem Fits.mono {request : Request} (fits : Fits unit commits request) (later : List Commit) :
    Fits unit (commits ++ later) request where
  keyed := fits.keyed
  events := fits.events
  pending := fits.pending
  truthful outcome reached := (fits.truthful outcome reached).mono later

/-- A request that reports nothing fits in any phase. -/
theorem Fits.unplaced {request next : Request} (fits : Fits unit commits request)
    (running : request.phase.outcome = none)
    (tag : next.host.idemTag = request.host.idemTag)
    (events : next.host.events = request.host.events)
    (appended : next.host.appended = request.host.appended)
    (unplaced : ∀ outcome, next.phase.outcome = some outcome → ∀ reported,
      (outcome.result unit.events next.host.ctx).body = .committed reported →
        reported.positions = none) :
    Fits unit commits next where
  keyed := tag ▸ fits.keyed
  events := events.trans fits.events
  pending := fun _ => appended.trans (fits.pending running)
  truthful outcome reached := .of_unplaced (unplaced outcome reached)

theorem fits_arriving (command : String) (key : Option String) (ctx : CommandContext)
    (boundaried : Bool) (input : Except String Unit) :
    Fits unit commits (arriving unit command key ctx boundaried input) := by
  have keyed : Keyed unit (key.map (idempotencyTag unit.sha256Hex command)) := by
    refine ⟨fun tag stamped => ?_⟩
    obtain ⟨key, -, rfl⟩ := Option.map_eq_some_iff.mp stamped
    exact ⟨command, key, rfl⟩
  cases input with
  | error message =>
      refine ⟨keyed, rfl, fun _ => rfl, ?_⟩
      rintro outcome ⟨⟩
      exact .of_unplaced fun reported same => by cases same
  | ok _ =>
      refine ⟨keyed, rfl, fun _ => rfl, ?_⟩
      unfold arriving
      dsimp only
      split
      · rintro outcome ⟨⟩
        exact .of_unplaced fun reported same => by cases same
      · rintro outcome ⟨⟩

theorem fits_decided {request : Request} (fits : Fits unit commits request)
    (running : request.phase.outcome = none) (decision : Decision) :
    Fits unit commits (decided request decision) := by
  cases decision with
  | emits events condition =>
      refine fits.unplaced running rfl rfl rfl ?_
      rintro outcome ⟨⟩
  | reject code message =>
      refine fits.unplaced running rfl rfl rfl ?_
      rintro outcome ⟨⟩ reported ⟨⟩
  | invalid message =>
      refine fits.unplaced running rfl rfl rfl ?_
      rintro outcome ⟨⟩ reported ⟨⟩

/-- An append that failed reports nothing. -/
theorem fits_refused {request : Request} {host : HeklaHost} {error : HostError}
    (fits : Fits unit commits request) (running : request.phase.outcome = none)
    (tag : host.idemTag = request.host.idemTag) (events : host.events = request.host.events)
    (appended : host.appended = request.host.appended) :
    Fits unit commits (Serving.appended unit request host (.error error)) := by
  unfold Serving.appended
  dsimp only
  cases host.unavailable with
  | some message =>
      refine fits.unplaced running tag events appended ?_
      rintro outcome ⟨⟩ reported ⟨⟩
  | none =>
      dsimp only
      split
      · refine fits.unplaced running tag events appended ?_
        rintro outcome ⟨⟩
      cases error with
      | host message =>
          refine fits.unplaced running tag events appended ?_
          rintro outcome ⟨⟩ reported ⟨⟩
      | conflict after =>
          dsimp only
          split
          · refine fits.unplaced running tag events appended ?_
            rintro outcome ⟨⟩ reported ⟨⟩
          · refine fits.unplaced running tag events appended ?_
            rintro outcome ⟨⟩

theorem fits_recovered {request : Request} {fallback : CommandOutcome}
    {found : Except String (Option RecoveredOutcome)} (keyed : Keyed unit request.host.idemTag)
    (events : request.host.events = unit.events)
    (falls : Truthful unit commits request.host.idemTag
      (fallback.result unit.events request.host.ctx).body)
    (finds : ∀ outcome, found = .ok (some outcome) →
      ∃ commit ∈ commits, commit.idemTag = request.host.idemTag ∧
        recoveredBody outcome = commit.report unit.events) :
    Fits unit commits (recovered request fallback found) := by
  unfold recovered
  split
  · refine ⟨keyed, events, nofun, ?_⟩
    rintro outcome ⟨⟩
    exact .of_unplaced nofun
  · next found =>
      refine ⟨keyed, events, nofun, ?_⟩
      rintro outcome ⟨⟩ reported ⟨⟩ -
      exact finds _ rfl
  · refine ⟨keyed, events, nofun, ?_⟩
    rintro outcome ⟨⟩
    exact falls

/-! ## What every run keeps -/

structure Served (unit : Deployment) (w : Serving) : Prop where
  ledgered : Ledgered unit w.store w.commits
  requests : ∀ id request, w.requests.get id = some request → Fits unit w.commits request
  answers : ∀ answer ∈ w.answers, Truthful unit w.commits answer.idemTag answer.result.body

theorem served_init (unit : Deployment) : Served unit {} where
  ledgered :=
    { logged := rfl
      placed := by
        intro before commit after split
        cases before <;> cases split
      lowered := nofun
      unique := List.Pairwise.nil }
  requests id request held := by
    rw [Table.get_empty] at held
    cases held
  answers := nofun

variable {w : Serving}

/-- An outcome of one request is an outcome of the deployment. -/
theorem Served.set {request : Request} (served : Served unit w) (id : Nat)
    (fits : Fits unit w.commits request) :
    Served unit { w with requests := w.requests.set id request } where
  ledgered := served.ledgered
  requests other held found := by
    rw [Table.get_set] at found
    split at found
    · cases found
      exact fits
    · exact served.requests other held found
  answers := served.answers

theorem Served.remove (served : Served unit w) (id : Nat) :
    Served unit { w with requests := w.requests.remove id } where
  ledgered := served.ledgered
  requests other held found := by
    rw [Table.get_remove] at found
    split at found
    · cases found
    · exact served.requests other held found
  answers := served.answers

theorem landed_requests (w : Serving) (host : HeklaHost) (store : Store) :
    (w.landed host store).requests = w.requests := by
  unfold landed
  split <;> rfl

theorem landed_unchanged (w : Serving) (host : HeklaHost) : w.landed host w.store = w := by
  unfold landed
  rw [List.drop_length]

theorem landed_batch (w : Serving) (host : HeklaHost) {built : List StoredEvent}
    (some_events : built ≠ []) :
    w.landed host { w.store with log := w.store.log ++ built } =
      { w with
        store := { w.store with log := w.store.log ++ built }
        commits := w.commits ++ [⟨host.idemTag, host.ctx, w.store.head + 1, built⟩] } := by
  unfold landed
  dsimp only
  rw [List.drop_left]
  cases built with
  | nil => exact absurd rfl some_events
  | cons event rest => rfl

/-- Whatever an append comes to, the ledger and every other request go on. -/
theorem Served.landed {host by_host : HeklaHost} {events : List Event}
    {condition : AppendCondition} {result : HeklaHost × Store × Except HostError Unit}
    (served : Served unit w) (keyed : Keyed unit host.idemTag)
    (appends : by_host.Appends w.store events condition result)
    (tag : by_host.idemTag = host.idemTag) (ctx : by_host.ctx = host.ctx) :
    Served unit (w.landed host result.2.1) := by
  cases appends with
  | refused | nothing | shutdown | duplicated =>
      rw [landed_unchanged]
      exact served
  | landed _ some_events lowers unguarded =>
      rw [landed_batch w host some_events, ← tag, ← ctx]
      refine
        { ledgered := served.ledgered.land some_events lowers (tag ▸ keyed) ?_
          requests := fun id request found => (served.requests id request found).mono _
          answers := fun answer member => (served.answers answer member).mono _ }
      intro tag stamped
      refine unguarded tag ?_
      unfold HeklaHost.idempotencyTag
      rw [stamped]

/-- The report of a landed append is the report of the commit it is. -/
theorem report_eq {host : HeklaHost} (first : Nat) {built : List StoredEvent}
    {emitted : List EmittedEvent} (keyed : Keyed unit host.idemTag)
    (events : host.events = unit.events) (lowers : List.Forall₂ host.Lowers built emitted) :
    successBody unit.events host.ctx (some ⟨first + 1, first + built.length⟩) emitted =
      Commit.report unit.events ⟨host.idemTag, host.ctx, first + 1, built⟩ := by
  have reports : built.map (reportStored unit.events) =
      emitted.map (reportEmitted unit.events) := by
    induction lowers with
    | nil => rfl
    | cons lowered _ ih =>
        rw [List.map_cons, List.map_cons, ih, ← events, reportStored_eq lowered keyed]
  have last : first + 1 + built.length - 1 = first + built.length := by omega
  unfold successBody Commit.report
  dsimp only
  rw [reports, last]

theorem fits_appended {request : Request} {by_host : HeklaHost} {events : List Event}
    {condition : AppendCondition} {result : HeklaHost × Store × Except HostError Unit}
    (fits : Fits unit w.commits request)
    (running : request.phase.outcome = none)
    (appends : by_host.Appends w.store events condition result)
    (tag : by_host.idemTag = request.host.idemTag) (ctx : by_host.ctx = request.host.ctx)
    (defs : by_host.events = request.host.events)
    (pending : by_host.appended = request.host.appended) :
    Fits unit (w.landed request.host result.2.1).commits
      (Serving.appended unit request result.1 result.2.2) := by
  cases appends with
  | refused error =>
      rw [landed_unchanged]
      exact fits_refused fits running tag defs pending
  | shutdown message =>
      rw [landed_unchanged]
      exact fits_refused fits running tag defs pending
  | duplicated message guard present =>
      rw [landed_unchanged]
      exact fits_refused fits running tag defs pending
  | nothing empty =>
      rw [landed_unchanged]
      unfold Serving.appended
      rw [pending, fits.pending running]
      refine fits.unplaced running tag defs pending ?_
      rintro outcome ⟨⟩ reported ⟨⟩
      rfl
  | landed _ some_events lowers unguarded =>
      rw [landed_batch w request.host some_events]
      refine ⟨tag ▸ fits.keyed, defs.trans fits.events, nofun, ?_⟩
      rintro outcome ⟨⟩ reported ⟨⟩ -
      refine ⟨_, List.mem_append_right _ (List.mem_singleton_self _), tag.symm, ?_⟩
      have report := report_eq w.store.head (tag ▸ fits.keyed)
        (defs.trans fits.events) lowers
      rw [← tag, ← ctx]
      exact report

theorem Served.step {w' : Serving} {action : ServeAct} (served : Served unit w)
    (stepped : step unit w action = some w') : Served unit w' := by
  cases action with
  | arrive id command key ctx boundaried input =>
      simp only [Serving.step] at stepped
      split at stepped
      · cases stepped
        exact served.set id (fits_arriving command key ctx boundaried input)
      · cases stepped
  | decide id decision =>
      simp only [Serving.step] at stepped
      split at stepped
      · next found =>
          cases stepped
          exact served.set id (fits_decided (served.requests id _ found) rfl decision)
      · cases stepped
  | append id storedSeal =>
      simp only [Serving.step] at stepped
      split at stepped
      · next host boundaried attempt events condition found =>
          cases stepped
          have fits := served.requests id _ found
          have appends := HeklaHost.append_spec { host with storedSeal } w.store events condition
          have after := served.landed fits.keyed appends rfl rfl
          have set := after.set id (fits_appended fits rfl appends rfl rfl rfl rfl)
          rw [landed_requests] at set
          exact set
      · cases stepped
  | recover id =>
      simp only [Serving.step] at stepped
      split at stepped
      · next host boundaried attempt fallback found =>
          cases stepped
          have fits := served.requests id _ found
          refine served.set id (fits_recovered fits.keyed fits.events (fits.truthful _ rfl) ?_)
          intro outcome recovers
          unfold recoverIfCommitted at recovers
          split at recovers
          · next tag _ stamped =>
              have keyed := fits.keyed
              dsimp only at keyed stamped ⊢
              rw [stamped] at keyed ⊢
              exact served.ledgered.found keyed recovers
          · cases recovers
      · next host boundaried attempt found =>
          cases stepped
          have fits := served.requests id _ found
          refine served.set id (fits_recovered fits.keyed fits.events
            (.of_unplaced fun placed never => by cases never) ?_)
          intro outcome recovers
          split at recovers
          · next tag stamped =>
              have keyed := fits.keyed
              dsimp only at keyed stamped ⊢
              rw [stamped] at keyed ⊢
              exact served.ledgered.found keyed recovers
          · cases recovers
      · cases stepped
  | respond id =>
      simp only [Serving.step] at stepped
      split at stepped
      · next host boundaried attempt outcome found =>
          cases stepped
          have fits := served.requests id _ found
          obtain ⟨ledgered, requests, answers⟩ := served.remove id
          refine ⟨ledgered, requests, ?_⟩
          intro answer member
          rcases List.mem_append.mp member with old | new
          · exact answers answer old
          · rw [List.mem_singleton.mp new]
            exact fits.truthful outcome rfl
      · cases stepped
  | crash id =>
      cases stepped
      exact served.remove id
  | elsewhere host events condition =>
      cases stepped
      have appends := HeklaHost.append_spec { host with events := unit.events, idemTag := none }
        w.store events condition
      exact served.landed ⟨fun tag never => by cases never⟩ appends rfl rfl
  | drain draining =>
      cases stepped
      exact ⟨served.ledgered.congr rfl, served.requests, served.answers⟩

theorem served_of_run {actions : List ServeAct} (ran : run (Serving.step unit) {} actions = some w) :
    Served unit w :=
  run_invariant (Served unit) (fun _ _ _ served stepped => served.step stepped)
    (served_init unit) ran

/-! ## Answers without positions -/

/-- Some event of the commit carries the tag. -/
def Carries (tag : String) (commit : Commit) : Prop := ∃ event ∈ commit.batch, tag ∈ event.tags

instance (tag : String) (commit : Commit) : Decidable (Carries tag commit) :=
  inferInstanceAs (Decidable (∃ event ∈ commit.batch, tag ∈ event.tags))

theorem carries_iff {commit : Commit} (lowered : commit.Lowered unit) (command key : String) :
    Carries (idempotencyTag unit.sha256Hex command key) commit ↔
      commit.idemTag = some (idempotencyTag unit.sha256Hex command key) := by
  constructor
  · rintro ⟨event, inBatch, carries⟩
    exact (lowered.carries inBatch command key).mp carries
  · intro stamped
    obtain ⟨event, inBatch⟩ := List.exists_mem_of_ne_nil _ lowered.some_events
    exact ⟨event, inBatch, (lowered.carries inBatch command key).mpr stamped⟩

/-- Somewhere in the run a request with these ids, which had emitted nothing, looked
for a commit of its key in vain: its command has no boundary, so that it does
not read the tag again, or no commit carried the tag. -/
def LookedInVain (unit : Deployment) (past : List ServeAct) (ctx : CommandContext)
    (tag : String) : Prop :=
  ∃ before id after w host boundaried attempt,
    past = before ++ .recover id :: after ∧ run (step unit) {} before = some w ∧
      w.requests.get id = some ⟨host, boundaried, attempt, .checking (.committed [] none)⟩ ∧
        host.ctx = ctx ∧ host.idemTag = some tag ∧
          (boundaried = true → ∀ commit ∈ w.commits, ¬Carries tag commit)

/-- A body that reports no positions reports no events and the ids of its own
request, which looked for a commit of its key in vain. -/
def Unplaced (unit : Deployment) (past : List ServeAct) (idemTag : Option String)
    (ctx : CommandContext) (body : Body) : Prop :=
  ∀ reported, body = .committed reported → reported.positions = none →
    reported = ⟨ctx.correlationId, ctx.causationId, none, []⟩ ∧
      ∀ tag, idemTag = some tag → LookedInVain unit past ctx tag

/-- A request says nothing of a commit before its append landed. -/
structure Silent (unit : Deployment) (past : List ServeAct) (request : Request) : Prop where
  pending : request.phase.outcome = none →
    request.host.appended = none ∧ request.host.emitted = []
  checking : ∀ events positions, request.phase = .checking (.committed events positions) →
    events = [] ∧ positions = none
  answered : ∀ outcome, request.phase = .answered outcome →
    Unplaced unit past request.host.idemTag request.host.ctx
      (outcome.result unit.events request.host.ctx).body

structure Hushed (unit : Deployment) (past : List ServeAct) (w : Serving) : Prop where
  requests : ∀ id request, w.requests.get id = some request → Silent unit past request
  answers : ∀ answer ∈ w.answers, Unplaced unit past answer.idemTag answer.ctx answer.result.body

section Answering

variable {past : List ServeAct} {idemTag : Option String} {ctx : CommandContext} {body : Body}

theorem LookedInVain.onward {tag : String} (looked : LookedInVain unit past ctx tag)
    (later : List ServeAct) : LookedInVain unit (past ++ later) ctx tag := by
  obtain ⟨before, id, after, w, host, boundaried, attempt, rfl, rest⟩ := looked
  exact ⟨before, id, after ++ later, w, host, boundaried, attempt, by simp, rest⟩

theorem Unplaced.onward (empty : Unplaced unit past idemTag ctx body) (later : List ServeAct) :
    Unplaced unit (past ++ later) idemTag ctx body := by
  intro reported same unplaced
  obtain ⟨plain, looked⟩ := empty reported same unplaced
  exact ⟨plain, fun tag stamped => (looked tag stamped).onward later⟩

theorem Unplaced.of_error {code message : String} :
    Unplaced unit past idemTag ctx (.error code message) := by
  rintro reported ⟨⟩

theorem Unplaced.of_placed {reported : CommittedBody} (placed : reported.positions ≠ none) :
    Unplaced unit past idemTag ctx (.committed reported) := by
  rintro other ⟨⟩ unplaced
  exact absurd unplaced placed

theorem Silent.onward {request : Request} (silent : Silent unit past request)
    (later : List ServeAct) : Silent unit (past ++ later) request where
  pending := silent.pending
  checking := silent.checking
  answered outcome reached := (silent.answered outcome reached).onward later

/-- A request that goes on with nothing emitted is silent, unless it answers. -/
theorem Silent.running {request : Request} (appended : request.host.appended = none)
    (emitted : request.host.emitted = [])
    (checking : ∀ events positions, request.phase = .checking (.committed events positions) →
      events = [] ∧ positions = none)
    (going : ∀ outcome, request.phase ≠ .answered outcome) : Silent unit past request where
  pending _ := ⟨appended, emitted⟩
  checking := checking
  answered outcome reached := absurd reached (going outcome)

/-- A request that answers is silent when its answer is. -/
theorem Silent.ending {request : Request} {outcome : CommandOutcome}
    (phase : request.phase = .answered outcome)
    (empty : Unplaced unit past request.host.idemTag request.host.ctx
      (outcome.result unit.events request.host.ctx).body) : Silent unit past request where
  pending running := by
    rw [phase] at running
    cases running
  checking events positions check := by
    rw [phase] at check
    cases check
  answered other reached := by
    rw [phase] at reached
    cases reached
    exact empty

theorem silent_arriving (past : List ServeAct) (command : String) (key : Option String)
    (ctx : CommandContext) (boundaried : Bool) (input : Except String Unit) :
    Silent unit past (arriving unit command key ctx boundaried input) := by
  cases input with
  | error message => exact .ending rfl .of_error
  | ok _ =>
      by_cases never : unit.maxAttempts = 0
      · exact .ending (if_pos never) .of_error
      · refine .running rfl rfl ?_ ?_
        · intro events positions phase
          cases (if_neg never).symm.trans phase
        · intro outcome phase
          cases (if_neg never).symm.trans phase

theorem silent_decided {request : Request} (silent : Silent unit past request)
    (running : request.phase.outcome = none) (decision : Decision) :
    Silent unit past (decided request decision) := by
  obtain ⟨appended, emitted⟩ := silent.pending running
  cases decision with
  | emits events condition => exact .running appended emitted (by rintro _ _ ⟨⟩) (by rintro _ ⟨⟩)
  | reject code message => exact .running appended emitted (by rintro _ _ ⟨⟩) (by rintro _ ⟨⟩)
  | invalid message => exact .running appended emitted (by rintro _ _ ⟨⟩) (by rintro _ ⟨⟩)

/-- An append that failed leaves the request silent. -/
theorem silent_refused {request : Request} {host : HeklaHost} {error : HostError}
    (appended : host.appended = none) (emitted : host.emitted = []) :
    Silent unit past (Serving.appended unit request host (.error error)) := by
  unfold Serving.appended
  dsimp only
  cases host.unavailable with
  | some message => exact .ending rfl .of_error
  | none =>
      dsimp only
      split
      · exact .running appended emitted (by rintro _ _ ⟨⟩) (by rintro _ ⟨⟩)
      cases error with
      | host message => exact .ending rfl .of_error
      | conflict after =>
          dsimp only
          split
          · exact .ending rfl .of_error
          · exact .running appended emitted (by rintro _ _ ⟨⟩) (by rintro _ ⟨⟩)

theorem silent_appended {request : Request} {by_host : HeklaHost} {store : Store}
    {events : List Event} {condition : AppendCondition}
    {result : HeklaHost × Store × Except HostError Unit}
    (appends : by_host.Appends store events condition result)
    (appended : by_host.appended = none) (emitted : by_host.emitted = []) :
    Silent unit past (Serving.appended unit request result.1 result.2.2) := by
  cases appends with
  | refused error => exact silent_refused appended emitted
  | shutdown message => exact silent_refused appended emitted
  | duplicated message guard present => exact silent_refused appended emitted
  | nothing empty =>
      unfold Serving.appended
      rw [appended]
      refine .running appended emitted ?_ (by rintro _ ⟨⟩)
      rintro events positions ⟨⟩
      exact ⟨emitted, rfl⟩
  | landed _ some_events lowers unguarded => exact .ending rfl (.of_placed (by rintro ⟨⟩))

/-- What the re-read of a tag gives a request that has appended nothing: the report
of the commit that carries it, if the command has a boundary and there is one, and
otherwise the answer it was about to give. -/
theorem rereads {w : Serving} (served : Served unit w) {command key : String}
    (boundaried : Bool) :
    (boundaried = true ∧ ∃ commit ∈ w.commits,
        Carries (idempotencyTag unit.sha256Hex command key) commit ∧ ∃ outcome,
          recoverIfCommitted unit.events w.store boundaried
              (some (idempotencyTag unit.sha256Hex command key)) = .ok (some outcome) ∧
            recoveredBody outcome = commit.report unit.events) ∨
      (boundaried = true → ∀ commit ∈ w.commits,
          ¬Carries (idempotencyTag unit.sha256Hex command key) commit) ∧
        recoverIfCommitted unit.events w.store boundaried
          (some (idempotencyTag unit.sha256Hex command key)) = .ok none := by
  cases boundaried with
  | false => exact .inr ⟨(by rintro ⟨⟩), rfl⟩
  | true =>
      have carries (commit : Commit) (member : commit ∈ w.commits) :=
        carries_iff (served.ledgered.lowered commit member) command key
      by_cases present : ∃ commit ∈ w.commits,
          Carries (idempotencyTag unit.sha256Hex command key) commit
      · obtain ⟨commit, member, carried⟩ := present
        have finds := served.ledgered.find_commit member ((carries commit member).mp carried)
        exact .inl ⟨rfl, commit, member, carried, finds⟩
      · refine .inr ⟨fun _ commit member carried => present ⟨commit, member, carried⟩, ?_⟩
        refine served.ledgered.find_none fun commit member stamped => ?_
        exact present ⟨commit, member, (carries commit member).mpr stamped⟩

theorem hushed_init : Hushed unit [] {} where
  requests id request held := by
    rw [Table.get_empty] at held
    cases held
  answers answer member := by cases member

/-- One request goes on, or comes; what the others say stands. -/
theorem Hushed.set {w : Serving} {request : Request} {later : List ServeAct}
    (hushed : Hushed unit past w) (id : Nat) (silent : Silent unit (past ++ later) request) :
    Hushed unit (past ++ later) { w with requests := w.requests.set id request } where
  requests other held found := by
    rw [Table.get_set] at found
    split at found
    · cases found
      exact silent
    · exact (hushed.requests other held found).onward later
  answers answer member := (hushed.answers answer member).onward later

theorem Hushed.remove {w : Serving} (hushed : Hushed unit past w) (id : Nat)
    (later : List ServeAct) :
    Hushed unit (past ++ later) { w with requests := w.requests.remove id } where
  requests other held found := by
    rw [Table.get_remove] at found
    split at found
    · cases found
    · exact (hushed.requests other held found).onward later
  answers answer member := (hushed.answers answer member).onward later

theorem landed_answers (w : Serving) (host : HeklaHost) (store : Store) :
    (w.landed host store).answers = w.answers := by
  unfold landed
  split <;> rfl

/-- What lands in the log is not in what was answered, and changes no request. -/
theorem Hushed.landed {w : Serving} (hushed : Hushed unit past w) (host : HeklaHost)
    (store : Store) : Hushed unit past (w.landed host store) where
  requests id request held := hushed.requests id request (landed_requests w host store ▸ held)
  answers answer member := hushed.answers answer (landed_answers w host store ▸ member)

theorem Hushed.onward {w : Serving} (hushed : Hushed unit past w) (later : List ServeAct) :
    Hushed unit (past ++ later) w where
  requests id request held := (hushed.requests id request held).onward later
  answers answer member := (hushed.answers answer member).onward later

/-- A request about to answer without an append looks for a commit of its key
first; what it then answers is that commit, or nothing and in vain. -/
theorem silent_recovered {w : Serving} (reached : run (step unit) {} past = some w)
    (served : Served unit w) {id : Nat} {host : HeklaHost} {boundaried : Bool} {attempt : Nat}
    {fallback : CommandOutcome}
    (found : w.requests.get id = some ⟨host, boundaried, attempt, .checking fallback⟩)
    (silent : Silent unit past ⟨host, boundaried, attempt, .checking fallback⟩) :
    Silent unit (past ++ [.recover id])
      (recovered ⟨host, boundaried, attempt, .checking fallback⟩ fallback
        (recoverIfCommitted unit.events w.store boundaried host.idemTag)) := by
  unfold recovered
  split
  · exact .ending rfl .of_error
  · exact .ending rfl (.of_placed (by rintro ⟨⟩))
  · next nothing =>
      refine .ending rfl ?_
      cases fallback with
      | committed events positions =>
          obtain ⟨rfl, rfl⟩ := silent.checking events positions rfl
          rintro reported ⟨⟩ -
          refine ⟨rfl, fun tag stamped => ?_⟩
          refine ⟨past, id, [], w, host, boundaried, attempt, rfl, reached, found, rfl, stamped, ?_⟩
          obtain ⟨command, key, rfl⟩ := (served.requests id _ found).keyed.tag tag stamped
          rcases rereads served boundaried with ⟨-, commit, -, -, outcome, recovers, -⟩ | ⟨none, -⟩
          · rw [stamped, recovers] at nothing
            cases nothing
          · exact none
      | alreadyCommitted outcome => exact .of_placed (by rintro ⟨⟩)
      | rejected code message => exact .of_error
      | invalidInput message => exact .of_error
      | conflict => exact .of_error
      | unavailable message => exact .of_error
      | failed message => exact .of_error

theorem Hushed.step {w w' : Serving} {action : ServeAct}
    (reached : run (Serving.step unit) {} past = some w) (served : Served unit w)
    (hushed : Hushed unit past w) (stepped : Serving.step unit w action = some w') :
    Hushed unit (past ++ [action]) w' := by
  cases action with
  | arrive id command key ctx boundaried input =>
      simp only [Serving.step] at stepped
      split at stepped
      · cases stepped
        exact hushed.set id (silent_arriving _ command key ctx boundaried input)
      · cases stepped
  | decide id decision =>
      simp only [Serving.step] at stepped
      split at stepped
      · next found =>
          cases stepped
          exact hushed.set id
            ((silent_decided (hushed.requests id _ found) rfl decision).onward _)
      · cases stepped
  | append id storedSeal =>
      simp only [Serving.step] at stepped
      split at stepped
      · next host boundaried attempt events condition found =>
          cases stepped
          obtain ⟨appended, emitted⟩ := (hushed.requests id _ found).pending rfl
          have appends := HeklaHost.append_spec { host with storedSeal } w.store events condition
          have silent : Silent unit (past ++ [.append id storedSeal])
              (Serving.appended unit ⟨host, boundaried, attempt, .appending events condition⟩
                _ _) := silent_appended appends appended emitted
          have noted := hushed.landed host
            (({ host with storedSeal } : HeklaHost).append w.store events condition).2.1
          have set := noted.set id silent
          rw [landed_requests] at set
          exact set
      · cases stepped
  | recover id =>
      simp only [Serving.step] at stepped
      split at stepped
      · next host boundaried attempt fallback found =>
          cases stepped
          exact hushed.set id
            (silent_recovered reached served found (hushed.requests id _ found))
      · next host boundaried attempt found =>
          cases stepped
          refine hushed.set id ?_
          unfold recovered
          split
          · exact .ending rfl .of_error
          · exact .ending rfl (.of_placed (by rintro ⟨⟩))
          · exact .ending rfl .of_error
      · cases stepped
  | respond id =>
      simp only [Serving.step] at stepped
      split at stepped
      · next host boundaried attempt outcome found =>
          cases stepped
          obtain ⟨requests, answers⟩ := hushed.remove id [.respond id]
          refine ⟨requests, ?_⟩
          intro answer member
          rcases List.mem_append.mp member with old | new
          · exact answers answer old
          · rw [List.mem_singleton.mp new]
            exact ((hushed.requests id _ found).answered outcome rfl).onward _
      · cases stepped
  | crash id =>
      cases stepped
      exact hushed.remove id _
  | elsewhere host events condition =>
      cases stepped
      exact (hushed.landed _ _).onward _
  | drain draining =>
      cases stepped
      obtain ⟨requests, answers⟩ := hushed.onward [.drain draining]
      exact ⟨requests, answers⟩

theorem hushed_of_run {w : Serving} {actions : List ServeAct}
    (ran : run (Serving.step unit) {} actions = some w) : Hushed unit actions w :=
  run_invariant_past (Hushed unit)
    (fun _ _ _ _ reached hushed stepped => hushed.step reached (served_of_run reached) stepped)
    rfl hushed_init ran

end Answering

/-! ## The law of a request key -/

/-- What holds of one request key after a run: one append at most carries its tag;
a request that answers with a position range reports that append; one that
answers committed without positions reports no events and ids of its own, and
looked for the append in vain; and one that is about to answer without an append
is given the append's report when its command has a boundary and there is one. -/
structure KeyLaw (unit : Deployment) (actions : List ServeAct) (w : Serving) (tag : String) :
    Prop where
  once : w.commits.Pairwise fun first second => ¬(Carries tag first ∧ Carries tag second)
  placed : ∀ answer ∈ w.answers, answer.idemTag = some tag →
    ∀ body, answer.result.body = .committed body → body.positions ≠ none →
      ∃ commit ∈ w.commits, Carries tag commit ∧ body = commit.report unit.events
  unplaced : ∀ answer ∈ w.answers, answer.idemTag = some tag →
    ∀ body, answer.result.body = .committed body → body.positions = none →
      body = ⟨answer.ctx.correlationId, answer.ctx.causationId, none, []⟩ ∧
        LookedInVain unit actions answer.ctx tag
  found : ∀ id host boundaried attempt fallback,
    w.requests.get id = some ⟨host, boundaried, attempt, .checking fallback⟩ →
      host.idemTag = some tag →
        ∃ w' outcome, step unit w (.recover id) = some w' ∧
          w'.requests.get id = some ⟨host, boundaried, attempt, .answered outcome⟩ ∧
            ((boundaried = true ∧ ∃ commit ∈ w.commits, Carries tag commit ∧
                (outcome.result unit.events host.ctx).body =
                  .committed (commit.report unit.events)) ∨
              (boundaried = true → ∀ commit ∈ w.commits, ¬Carries tag commit) ∧
                outcome = fallback)

/-- One append at most carries the tag of a command and key, and every request
under them that answers committed, fresh or recovered, reports that append, or
nothing when it found none. -/
theorem one_append_for_a_key {actions : List ServeAct}
    (ran : run (Serving.step unit) {} actions = some w) :
    Ledgered unit w.store w.commits ∧
      ∀ command key, KeyLaw unit actions w (idempotencyTag unit.sha256Hex command key) := by
  have served := served_of_run ran
  refine ⟨served.ledgered, fun command key => ⟨?_, ?_, ?_, ?_⟩⟩
  · refine served.ledgered.unique.imp_of_mem ?_
    rintro first second inFirst inSecond apart ⟨one, other⟩
    exact apart _ ((carries_iff (served.ledgered.lowered first inFirst) command key).mp one)
      ((carries_iff (served.ledgered.lowered second inSecond) command key).mp other)
  · intro answer member stamped body same positions
    obtain ⟨commit, committed, under, reported⟩ :=
      served.answers answer member body same positions
    exact ⟨commit, committed, (carries_iff (served.ledgered.lowered commit committed) command
      key).mpr (under.trans stamped), reported⟩
  · intro answer member stamped body same unplaced
    obtain ⟨plain, looked⟩ := (hushed_of_run ran).answers answer member body same unplaced
    exact ⟨plain, looked _ stamped⟩
  · intro id host boundaried attempt fallback found stamped
    have stepped : Serving.step unit w (.recover id) = some { w with
        requests := w.requests.set id
          (recovered ⟨host, boundaried, attempt, .checking fallback⟩ fallback
            (recoverIfCommitted unit.events w.store boundaried host.idemTag)) } := by
      simp only [Serving.step, found]
    rw [stamped] at stepped
    rcases rereads served boundaried with
      ⟨boundary, commit, member, carried, outcome, recovers, report⟩ | ⟨none, recovers⟩
    · rw [recovers] at stepped
      refine ⟨_, .alreadyCommitted outcome, stepped, (Table.get_set ..).trans (if_pos rfl), .inl ?_⟩
      exact ⟨boundary, commit, member, carried, congrArg Body.committed report⟩
    · rw [recovers] at stepped
      exact ⟨_, fallback, stepped, (Table.get_set ..).trans (if_pos rfl), .inr ⟨none, rfl⟩⟩

/-- One event type, with a plaintext tag. -/
def paying : Deployment where
  sha256Hex text := text
  maxAttempts := 3
  events := (∅ : EventDefs).set "order.paid" Invocation.ofOrder

def paid : List Event :=
  [{ path := ["order", "paid"]
     fields := (∅ : Table String Value).set "order_id" ⟨.str "o1", false⟩ }]

/-- A request has nothing to append and answers so; the next appends and dies before
it answers; its retry decides against a log it has not read, is refused, and
recovers. -/
def retried : List ServeAct :=
  [.arrive 0 "PayOrder" (some "k") ⟨"c0", "r0", none⟩ true (.ok ()),
    .decide 0 (.emits [] {}), .append 0 none, .recover 0, .respond 0,
    .arrive 1 "PayOrder" (some "k") ⟨"c1", "r1", none⟩ true (.ok ()),
    .decide 1 (.emits paid {}), .append 1 none, .crash 1,
    .arrive 2 "PayOrder" (some "k") ⟨"c2", "r2", none⟩ true (.ok ()),
    .decide 2 (.emits paid {}), .append 2 none, .recover 2, .respond 2]

theorem one_append_for_a_key_of_retried :
    ∃ w, run (step paying) {} retried = some w ∧
      w.answers.map (fun answer => answer.result.body) =
        [.committed ⟨"c0", "r0", none, []⟩,
          .committed ⟨"c1", "r1", some ⟨1, 1⟩, [⟨"order.paid", ["order_id:o1"]⟩]⟩] ∧
        KeyLaw paying retried w (idempotencyTag id "PayOrder" "k") := by
  have ended : (run (step paying) {} retried).any (fun w => decide (
      w.answers.map (fun answer => answer.result.body) =
        [.committed ⟨"c0", "r0", none, []⟩,
          .committed ⟨"c1", "r1", some ⟨1, 1⟩, [⟨"order.paid", ["order_id:o1"]⟩]⟩])) = true := by
    decide
  obtain ⟨w, ran, holds⟩ := (Option.any_eq_true _ _).mp ended
  exact ⟨w, ran, of_decide_eq_true holds, (one_append_for_a_key ran).2 "PayOrder" "k"⟩

/-- The first request of the key finds nothing to append and answers so; its
retry, after the order has moved on, commits. -/
def emitsNothingFirst : List ServeAct :=
  [.arrive 1 "PayOrder" (some "k") ⟨"c1", "r1", none⟩ true (.ok ()),
    .decide 1 (.emits [] {}), .append 1 none, .recover 1, .respond 1,
    .arrive 2 "PayOrder" (some "k") ⟨"c2", "r2", none⟩ true (.ok ()),
    .decide 2 (.emits paid {}), .append 2 none, .respond 2]

/-- A request that appended nothing answers committed under a key that another
request's append carries, with no positions and with ids of its own. -/
theorem empty_commit_differs :
    ∃ w, run (step paying) {} emitsNothingFirst = some w ∧
      (∃ commit ∈ w.commits, Carries (idempotencyTag id "PayOrder" "k") commit) ∧
      ¬∀ answer ∈ w.answers, answer.idemTag = some (idempotencyTag id "PayOrder" "k") →
        ∀ body, answer.result.body = .committed body →
          ∃ commit ∈ w.commits, Carries (idempotencyTag id "PayOrder" "k") commit ∧
            body = commit.report paying.events := by
  have ended : (run (step paying) {} emitsNothingFirst).any (fun w => decide (
      (∃ commit ∈ w.commits, Carries (idempotencyTag id "PayOrder" "k") commit) ∧
      ∃ answer ∈ w.answers, answer.idemTag = some (idempotencyTag id "PayOrder" "k") ∧
        answer.result.body = .committed ⟨"c1", "r1", none, []⟩)) = true := by decide
  obtain ⟨w, ran, holds⟩ := (Option.any_eq_true _ _).mp ended
  obtain ⟨carried, answer, member, stamped, answered⟩ := of_decide_eq_true holds
  refine ⟨w, ran, carried, ?_⟩
  intro reports
  obtain ⟨commit, -, -, same⟩ := reports answer member stamped _ answered
  cases congrArg CommittedBody.positions same

end Serving

end Hekla.Host
