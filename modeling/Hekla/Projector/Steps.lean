import Hekla.Projector.Serving

/-!
# Every step of a projector

One lemma for what each kind of step does: it moves the thread and what is
published, commits to the model that is read, or writes to the one being built.
The steps that make, swap in and reopen a file are the others.
-/

namespace Hekla.Projector

open Hekla.Library Hekla.Reads

variable {Record Keys Rows Definition : Type} [DecidableEq Definition]
  {projections : Definition → Projection Record Keys Rows} {blank : Rows}
  {world next : World Record Definition Rows} {handle : Nat} {model : ReadModel Definition Rows}

/-- A step to a sound state that takes nothing back. -/
structure Onward (projections : Definition → Projection Record Keys Rows) (blank : Rows)
    (world next : World Record Definition Rows) : Prop where
  sound : next.Sound projections blank
  evolves : Evolves world next

/-! ## The kinds of step -/

section Kinds

variable (sound : world.Sound projections blank)
  (served : Served projections blank world handle model)

include sound served

/-- A step that writes no file. -/
theorem Served.quiet {position : Nat} {readiness : Readiness} {replay : Bool} {thread : Thread}
    (published : position ≤ model.checkpoint)
    (ready : readiness = .ready → model.Current world.definition)
    (fresh : thread.fresh = none ∨ thread.fresh = world.thread.fresh)
    (fits : Fits projections blank { world with position, readiness, replay, thread } handle model
      thread) :
    Onward projections blank world { world with position, readiness, replay, thread } where
  sound := ⟨sound.files, handle, model, served.named, served.found, published, ready, fits⟩
  evolves :=
    { definition := rfl
      log := ⟨[], (List.append_nil _).symm⟩
      named := fun handle model named found => ⟨handle, model, named, found, .refl _ _⟩
      opened := by
        rintro handle model ⟨inside, apart⟩ found
        refine ⟨⟨inside, ?_⟩, model, found, .refl _ _⟩
        rcases fresh with none | same
        · rw [none]
          exact nofun
        · rw [same]
          exact apart }

/-- A commit to the model that is read. -/
theorem Served.commit {later : ReadModel Definition Rows} {thread : Thread}
    (grows : model.Grows later world.definition) (fine : later.Sound projections blank world.log)
    (ready : world.readiness = .ready → later.Current world.definition)
    (fresh : thread.fresh = none)
    (fits : Fits projections blank { world with files := world.files.write handle later, thread }
      handle later thread) :
    Onward projections blank world
      { world with files := world.files.write handle later, thread } where
  sound := by
    refine ⟨?_, handle, later, served.named, Directory.file_write_self served.found,
      Nat.le_trans served.published grows.checkpoint, ready, fits⟩
    intro other found there
    rcases Directory.file_write_cases there with ⟨-, rfl⟩ | ⟨-, before⟩
    · exact fine
    · exact sound.files other found before
  evolves :=
    { definition := rfl
      log := ⟨[], (List.append_nil _).symm⟩
      named := by
        intro other found named there
        cases served.named.symm.trans named
        cases served.found.symm.trans there
        exact ⟨handle, later, named, Directory.file_write_self there, grows⟩
      opened := by
        rintro other found ⟨inside, -⟩ there
        refine ⟨⟨by rwa [Directory.length_write], by rw [fresh]; exact nofun⟩, ?_⟩
        by_cases same : other = handle
        · subst same
          cases served.found.symm.trans there
          exact ⟨later, Directory.file_write_self there, grows⟩
        · exact ⟨found, (Directory.file_write_ne same).trans there, .refl _ _⟩ }

/-- A write to the model being built. -/
theorem Served.build {fresh : Nat} {later : ReadModel Definition Rows} {thread : Thread}
    (before : world.thread.fresh = some fresh) (apart : fresh ≠ handle)
    (fine : later.Sound projections blank world.log) (after : thread.fresh = some fresh)
    (fits : Fits projections blank { world with files := world.files.write fresh later, thread }
      handle model thread) :
    Onward projections blank world
      { world with files := world.files.write fresh later, thread } where
  sound := by
    refine ⟨?_, handle, model, served.named, (Directory.file_write_ne apart.symm).trans served.found,
      served.published, served.ready, fits⟩
    intro other found there
    rcases Directory.file_write_cases there with ⟨-, rfl⟩ | ⟨-, old⟩
    · exact fine
    · exact sound.files other found old
  evolves :=
    { definition := rfl
      log := ⟨[], (List.append_nil _).symm⟩
      named := by
        intro other found named there
        cases served.named.symm.trans named
        exact ⟨handle, found, named, (Directory.file_write_ne apart.symm).trans there, .refl _ _⟩
      opened := by
        rintro other found ⟨inside, unseen⟩ there
        have elsewhere : other ≠ fresh := by
          rintro rfl
          exact unseen before
        refine ⟨⟨by rwa [Directory.length_write], ?_⟩, found,
          (Directory.file_write_ne elsewhere).trans there, .refl _ _⟩
        rw [after]
        intro same
        exact elsewhere (Option.some.inj same).symm }

end Kinds

/-! ## Following the log -/

variable {keys : Record → Keys} {upto : Nat}

theorem World.Sound.poll (sound : world.Sound projections blank)
    (served : Served projections blank world handle model) {connection position : Nat}
    (tailing : world.thread = .tailing connection position)
    (applies : world.readiness.appliesBatches = true)
    (taken : world.poll (projections world.definition) keys upto connection position = some next) :
    Onward projections blank world next := by
  have fits := served.fits
  rw [tailing] at fits
  obtain ⟨rfl, settled, following, rfl⟩ := fits
  have ready : world.readiness = .ready := by
    cases readiness : world.readiness with
    | ready => rfl
    | rebuilding => exact absurd readiness following
    | stale | quarantined | failed =>
        rw [readiness] at applies
        cases applies
  have stamped := (served.ready ready).settled settled
  have before := sound.files _ model served.found
  have projected := before.built _ stamped
  unfold World.poll at taken
  cases polled : (projections world.definition).pollBatch world.log model.checkpoint upto with
  | none =>
      rw [polled] at taken
      cases taken
  | some batch =>
      obtain ⟨⟨order, inside, caught⟩, selected⟩ := Projection.pollBatch_eq_some.mp polled
      rw [polled] at taken
      cases batch with
      | nil =>
          have onward := projected.past order selected
          dsimp only at taken
          split at taken
          · unfold World.commit at taken
            rw [served.found] at taken
            cases taken
            refine served.commit sound ⟨order, fun _ => .inl stamped⟩ ?_ (fun _ => .inl stamped) rfl
              ⟨rfl, ReadModel.settled_of_definition stamped, following, rfl⟩
            exact .of_projected inside onward (.inl stamped)
          · next reached =>
              cases taken
              have same : upto = model.checkpoint :=
                Nat.le_antisymm (Nat.le_trans (Nat.not_lt.mp reached) served.published) order
              exact served.quiet sound served.published served.ready (.inl rfl)
                ⟨rfl, settled, following, same⟩
      | cons first rest =>
          dsimp only at taken
          rw [served.found] at taken
          cases applied : model.applyBatch (projections world.definition) keys (first :: rest) upto with
          | error why =>
              simp only [Option.map_some, applied] at taken
              cases taken
              exact served.quiet sound served.published served.ready (.inl rfl) trivial
          | ok later =>
              obtain ⟨reached, same, onward⟩ :=
                ReadModel.applyBatch_ok projected order selected applied
              simp only [Option.map_some, applied] at taken
              cases taken
              have stampedLater : later.definition = some world.definition := same.trans stamped
              refine served.commit sound ⟨reached ▸ order, fun _ => .inl stampedLater⟩ ?_
                (fun _ => .inl stampedLater) rfl
                ⟨rfl, ReadModel.settled_of_definition stampedLater, following, reached.symm⟩
              exact .of_projected (reached ▸ inside) (by rwa [reached]) (.inl stampedLater)

/-! ## Building a model beside it -/

theorem World.Sound.project (sound : world.Sound projections blank)
    (served : Served projections blank world handle model) {connection fresh position : Nat}
    (projecting : world.thread = .projecting connection fresh position)
    (taken : world.project (projections world.definition) keys upto connection fresh position =
      some next) :
    Onward projections blank world next := by
  have fits := served.fits
  rw [projecting] at fits
  obtain ⟨settled, named, apart, found, there, projected, unstamped, rfl⟩ := fits
  have before : world.thread.fresh = some fresh := by
    rw [projecting]
    rfl
  unfold World.project at taken
  cases polled : (projections world.definition).pollBatch world.log found.checkpoint upto with
  | none =>
      rw [polled] at taken
      cases taken
  | some batch =>
      obtain ⟨⟨order, inside, caught⟩, selected⟩ := Projection.pollBatch_eq_some.mp polled
      rw [polled] at taken
      cases batch with
      | nil =>
          -- The poll that ends the loop has read the whole log, and with it all that
          -- the model on disk reflects.
          have onward := projected.past order selected
          have whole := caught rfl
          have covers : model.checkpoint ≤ upto :=
            whole ▸ (sound.files handle model served.found).reached
          unfold World.commit at taken
          rw [there] at taken
          simp only [Option.map_some, ReadModel.catchUp_eq order] at taken
          cases taken
          exact served.build sound before apart
            ((sound.files fresh found there).advanceCheckpoint unstamped order inside) rfl
            ⟨settled, named, apart, _, Directory.file_write_self there, onward, covers⟩
      | cons first rest =>
          dsimp only at taken
          rw [there] at taken
          cases applied : found.applyBatch (projections world.definition) keys (first :: rest) upto with
          | error why =>
              simp only [Option.map_some, applied] at taken
              cases taken
              exact served.quiet sound served.published served.ready (.inl rfl) settled
          | ok later =>
              obtain ⟨reached, same, onward⟩ :=
                ReadModel.applyBatch_ok projected order selected applied
              simp only [Option.map_some, applied] at taken
              cases taken
              have moved : upto ≠ 0 :=
                Projection.pos_of_selected (selected ▸ List.cons_ne_nil first rest)
              refine served.build sound before apart ?_ rfl
                ⟨settled, named, apart, later, Directory.file_write_self there, ?_,
                  same.trans unstamped, reached⟩
              · exact .of_projected (reached ▸ inside) (by rwa [reached])
                  (.inr ⟨same.trans unstamped, reached ▸ moved⟩)
              · rwa [reached]

/-- What is left of an earlier rebuild is behind a name that is not read. -/
theorem World.Sound.clear (sound : world.Sound projections blank)
    (served : Served projections blank world handle model) (settled : model.Settled)
    {connection : Nat} :
    Onward projections blank world
      { world with files := world.files.unlink .rebuild, thread := .creating connection } := by
  have named : (world.files.unlink .rebuild).names .live = some handle :=
    (Directory.names_unlink_ne (by decide)).trans served.named
  constructor
  · exact ⟨sound.files, handle, model, named, served.found, served.published, served.ready, settled,
      Directory.names_unlink_self⟩
  · refine ⟨rfl, ⟨[], (List.append_nil _).symm⟩, ?_, ?_⟩
    · intro other found there old
      cases served.named.symm.trans there
      exact ⟨handle, found, named, old, .refl _ _⟩
    · rintro other found ⟨old, -⟩ there
      exact ⟨⟨old, nofun⟩, found, there, .refl _ _⟩

/-- A new model is empty, and behind no name that is read. -/
theorem World.Sound.create (sound : world.Sound projections blank)
    (served : Served projections blank world handle model) {connection : Nat}
    (creating : world.thread = .creating connection) :
    let fresh := world.files.files.length
    Onward projections blank world
      { world with
        files := world.files.create .rebuild { rows := blank }
        thread := .projecting connection fresh 0 } := by
  have fits := served.fits
  rw [creating] at fits
  obtain ⟨settled, -⟩ := fits
  have inside : handle < world.files.files.length := Directory.lt_of_file served.found
  have named : (world.files.create .rebuild { rows := blank }).names .live = some handle :=
    (Directory.names_create_ne (by decide)).trans served.named
  constructor
  · refine ⟨?_, handle, model, named, (Directory.file_create_of_lt inside).trans served.found,
      served.published, served.ready, settled, Directory.names_create_self, inside.ne', _,
      Directory.file_create_new, .nil, rfl, rfl⟩
    intro other found there
    rcases Directory.file_create_cases there with ⟨-, rfl⟩ | old
    · exact ⟨Nat.zero_le _, nofun, fun _ _ => rfl⟩
    · exact sound.files other found old
  · refine ⟨rfl, ⟨[], (List.append_nil _).symm⟩, ?_, ?_⟩
    · intro other found there old
      cases served.named.symm.trans there
      exact ⟨handle, found, named, (Directory.file_create_of_lt inside).trans old, .refl _ _⟩
    · rintro other found ⟨old, -⟩ there
      refine ⟨⟨?_, ?_⟩, found, (Directory.file_create_of_lt old).trans there, .refl _ _⟩
      · rw [Directory.length_create]
        exact Nat.lt_succ_of_lt old
      · intro same
        exact old.ne (Option.some.inj same).symm

/-- The model swapped in has come as far as the one it replaces, which whoever has
open goes on reading. -/
theorem World.Sound.swap (sound : world.Sound projections blank)
    (served : Served projections blank world handle model) {fresh : Nat}
    (swapping : world.thread = .swapping fresh) {files : Directory DbFile (ReadModel Definition Rows)}
    (renamed : world.files.rename .rebuild .live = some files) :
    Onward projections blank world { world with files, thread := .sweeping } := by
  have fits := served.fits
  rw [swapping] at fits
  obtain ⟨-, named, apart, found, there, -, stamped, covers⟩ := fits
  obtain ⟨moved, same⟩ := Directory.rename_eq_some (by decide) renamed
  have kept (other : Nat) : files.file other = world.files.file other := by
    unfold Directory.file
    rw [same]
  constructor
  · refine ⟨?_, fresh, found, moved.trans named, (kept fresh).trans there,
      Nat.le_trans served.published covers, fun _ => .inl stamped, stamped⟩
    intro other old before
    exact sound.files other old ((kept other).symm.trans before)
  · refine ⟨rfl, ⟨[], (List.append_nil _).symm⟩, ?_, ?_⟩
    · intro other old before held
      cases served.named.symm.trans before
      cases served.found.symm.trans held
      exact ⟨fresh, found, moved.trans named, (kept fresh).trans there, covers,
        fun _ => .inl stamped⟩
    · rintro other old ⟨inside, -⟩ held
      refine ⟨⟨?_, nofun⟩, old, (kept other).trans held, .refl _ _⟩
      rwa [same]

/-! ## Every step -/

/-- With auto-rebuild off, what is not stale is up to date or to be stamped. -/
theorem readiness_of_ne_stale {previous : Option Definition} {checkpoint : Nat}
    {definition : Definition} (planned : reconcileFrom previous checkpoint definition false ≠ .stale) :
    (reconcileFrom previous checkpoint definition false).readiness = .ready := by
  unfold reconcileFrom at planned ⊢
  dsimp only at planned ⊢
  cases previous with
  | none =>
      dsimp only at planned ⊢
      split at planned
      · next empty =>
          rw [if_pos empty]
          rfl
      · exact absurd rfl planned
  | some previous =>
      dsimp only at planned ⊢
      split at planned
      · next same =>
          rw [if_pos same]
          rfl
      · exact absurd rfl planned

theorem World.Sound.proceed (sound : world.Sound projections blank)
    (taken : world.proceed projections blank keys upto = some next) :
    Onward projections blank world next := by
  obtain ⟨handle, model, served⟩ := sound.live
  have fits := served.fits
  unfold World.proceed at taken
  cases thread : world.thread with
  | reconciling plan connection =>
      rw [thread] at taken fits
      obtain ⟨rfl, readiness, autoRebuild, planned⟩ := fits
      have settled (unstamped : plan ≠ .stamp) : model.Settled :=
        ReadModel.settled_of_reconcile (planned ▸ unstamped)
      cases plan with
      | upToDate | stale =>
          cases taken
          exact served.quiet sound served.published served.ready (.inl rfl)
            ⟨rfl, settled nofun, by rw [readiness]; exact nofun⟩
      | rebuild =>
          cases taken
          exact served.quiet sound served.published served.ready (.inl rfl) (settled nofun)
      | stamp =>
          have current := ReadModel.current_of_reconcile (congrArg Reconcile.readiness planned.symm)
          have before := sound.files _ model served.found
          dsimp only [World.commit] at taken
          rw [served.found] at taken
          cases taken
          exact served.commit sound ⟨Nat.le_refl _, fun _ => .inl rfl⟩
            (.of_projected before.reached (before.projected current) (.inl rfl))
            (fun _ => .inl rfl) rfl ⟨rfl, nofun, by rw [readiness]; exact nofun⟩
  | subscribing connection =>
      rw [thread] at taken fits
      obtain ⟨rfl, settled, following⟩ := fits
      dsimp only at taken
      rw [served.found] at taken
      cases taken
      exact served.quiet sound served.published served.ready (.inl rfl)
        ⟨rfl, settled, following, rfl⟩
  | tailing connection position =>
      rw [thread] at taken fits
      obtain ⟨same, settled, following, reached⟩ := fits
      dsimp only at taken
      split at taken
      · cases taken
        exact served.quiet sound served.published served.ready (.inl rfl) settled
      · split at taken
        · next applies => exact sound.poll served thread applies taken
        · cases taken
          exact served.quiet sound served.published served.ready (.inr rfl) served.fits
  | publishing connection position =>
      rw [thread] at taken fits
      obtain ⟨rfl, settled, following, rfl⟩ := fits
      cases taken
      unfold World.advancePosition
      rw [if_neg (Nat.not_lt.mpr served.published)]
      exact served.quiet sound (Nat.le_refl _) served.ready (.inl rfl)
        ⟨rfl, settled, following, rfl⟩
  | clearing connection =>
      rw [thread] at taken fits
      cases taken
      exact sound.clear served fits
  | creating connection =>
      have creates := sound.create served thread
      rw [thread] at taken fits
      cases taken
      rw [Directory.openOrCreate_of_none fits.2]
      dsimp only
      rw [Directory.file_create_new]
      exact creates
  | projecting connection fresh position =>
      have projecting := thread
      rw [thread] at taken
      exact sound.project served projecting taken
  | stamping connection fresh =>
      rw [thread] at taken fits
      obtain ⟨settled, named, apart, found, there, projected, covers⟩ := fits
      dsimp only [World.commit] at taken
      rw [there] at taken
      cases taken
      exact served.build sound (by rw [thread]; rfl) apart
        (.of_projected (sound.files fresh found there).reached projected (.inl rfl)) rfl
        ⟨settled, named, apart, _, Directory.file_write_self there, projected, rfl, covers⟩
  | sealing connection fresh =>
      rw [thread] at taken fits
      cases taken
      exact served.quiet sound served.published served.ready (.inr (by rw [thread]; rfl)) fits
  | swapping fresh =>
      have swapping := thread
      rw [thread] at taken fits
      dsimp only at taken
      cases renamed : world.files.rename .rebuild .live with
      | none =>
          rw [renamed] at taken
          cases taken
          exact served.quiet sound served.published served.ready (.inl rfl) fits.1
      | some files =>
          rw [renamed] at taken
          cases taken
          exact sound.swap served swapping renamed
  | sweeping =>
      rw [thread] at taken fits
      cases taken
      exact served.quiet sound served.published served.ready (.inl rfl) fits
  | reopening =>
      rw [thread] at taken fits
      dsimp only at taken
      rw [Directory.openOrCreate_of_named served.named] at taken
      cases taken
      exact served.quiet sound served.published served.ready (.inl rfl) ⟨rfl, fits⟩
  | republishing connection =>
      rw [thread] at taken fits
      obtain ⟨rfl, stamped⟩ := fits
      dsimp only at taken
      rw [served.found] at taken
      cases taken
      exact served.quiet sound (Nat.le_refl _) served.ready (.inl rfl) ⟨rfl, stamped⟩
  | rebuilt connection =>
      rw [thread] at taken fits
      obtain ⟨rfl, stamped⟩ := fits
      cases taken
      exact served.quiet sound served.published (fun _ => .inl stamped) (.inl rfl)
        ⟨rfl, ReadModel.settled_of_definition stamped, nofun⟩
  | failed =>
      rw [thread] at taken fits
      cases taken
      exact served.quiet sound served.published nofun (.inl rfl) ⟨fits, nofun⟩
  | surviving =>
      rw [thread] at taken fits
      dsimp only at taken
      rw [Directory.openOrCreate_of_named served.named] at taken
      cases taken
      exact served.quiet sound served.published served.ready (.inl rfl) ⟨rfl, fits⟩
  | judging connection =>
      rw [thread] at taken fits
      obtain ⟨rfl, settled, following⟩ := fits
      dsimp only at taken
      rw [served.found] at taken
      cases taken
      refine served.quiet sound served.published ?_ (.inl rfl) ⟨rfl, settled, ?_⟩
      · split
        · exact served.ready
        · next mismatch =>
            intro _
            exact ReadModel.current_of_reconcile (readiness_of_ne_stale mismatch)
      · dsimp only
        split
        · exact following
        · exact nofun
  | resetting connection =>
      rw [thread] at taken fits
      obtain ⟨rfl, settled, following⟩ := fits
      dsimp only at taken
      rw [served.found] at taken
      cases taken
      exact served.quiet sound (Nat.le_refl _) served.ready (.inl rfl) ⟨rfl, settled, following⟩
  | stopped =>
      rw [thread] at taken
      cases taken

/-- A step that fails leaves the model that is read as it was. -/
theorem World.Sound.fault (sound : world.Sound projections blank) {thread : Thread}
    (faulted : world.thread.faulted = some thread) :
    Onward projections blank world { world with thread } := by
  obtain ⟨handle, model, served⟩ := sound.live
  have fits := served.fits
  have stop : Onward projections blank world { world with thread := .stopped } :=
    served.quiet sound served.published served.ready (.inl rfl) trivial
  have outlive (settled : model.Settled) :
      Onward projections blank world { world with thread := .failed } :=
    served.quiet sound served.published served.ready (.inl rfl) settled
  cases at_ : world.thread with
  | reconciling | subscribing | tailing | publishing | surviving | judging | resetting =>
      rw [at_] at faulted
      cases faulted
      exact stop
  | clearing =>
      rw [at_] at faulted fits
      cases faulted
      exact outlive fits
  | creating | projecting | stamping | sealing | swapping =>
      rw [at_] at faulted fits
      cases faulted
      exact outlive fits.1
  | sweeping | reopening =>
      rw [at_] at faulted fits
      cases faulted
      exact outlive (ReadModel.settled_of_definition fits)
  | republishing =>
      rw [at_] at faulted fits
      cases faulted
      exact outlive (ReadModel.settled_of_definition fits.2)
  | rebuilt | failed | stopped =>
      rw [at_] at faulted
      cases faulted

/-- A model being built goes on reflecting a log that grows. -/
theorem Building.grown (sound : world.Sound projections blank) {fresh : Nat}
    {also : ReadModel Definition Rows → Prop} (records : List Record)
    (building : Building projections blank world handle fresh also) :
    Building projections blank { world with log := world.log ++ records } handle fresh also := by
  obtain ⟨named, apart, found, there, projected, rest⟩ := building
  refine ⟨named, apart, found, there, ?_, rest⟩
  rw [Projection.selected_grown (sound.files fresh found there).reached]
  exact projected

theorem World.Sound.append (sound : world.Sound projections blank) (record : Record) :
    Onward projections blank world { world with log := world.log ++ [record] } := by
  obtain ⟨handle, model, served⟩ := sound.live
  have fits : Fits projections blank { world with log := world.log ++ [record] } handle model
      world.thread := by
    have before := served.fits
    cases thread : world.thread with
    | projecting | stamping | sealing | swapping =>
        rw [thread] at before
        exact ⟨before.1, before.2.grown sound [record]⟩
    | _ =>
        rw [thread] at before
        exact before
  constructor
  · refine ⟨?_, handle, model, served.named, served.found, served.published, served.ready, fits⟩
    intro other found there
    exact (sound.files other found there).grown [record]
  · exact ⟨rfl, ⟨[record], rfl⟩, fun other found named there => ⟨other, found, named, there, .refl _ _⟩,
      fun _ found visible there => ⟨visible, found, there, .refl _ _⟩⟩

/-- Whatever a process left, the next one opens it as it is. -/
theorem sound_spawn {log : List Record} {files : Directory DbFile (ReadModel Definition Rows)}
    (sound : ∀ handle model, files.file handle = some model → model.Sound projections blank log)
    (definition : Definition) (autoRebuild : Bool) :
    (spawn blank log files definition autoRebuild).Sound projections blank := by
  unfold spawn
  cases named : files.names .live with
  | some handle =>
      obtain ⟨model, found⟩ := Directory.file_of_named named
      rw [Directory.openOrCreate_of_named named]
      dsimp only
      rw [found]
      dsimp only [Option.getD_some]
      exact ⟨sound, handle, model, named, found, Nat.le_refl _, ReadModel.current_of_reconcile,
        rfl, rfl, autoRebuild, rfl⟩
  | none =>
      rw [Directory.openOrCreate_of_none named]
      dsimp only
      rw [Directory.file_create_new]
      dsimp only [Option.getD_some]
      refine ⟨?_, _, _, Directory.names_create_self, Directory.file_create_new, Nat.le_refl _,
        fun _ => .inr ⟨rfl, rfl⟩, rfl, rfl, autoRebuild, rfl⟩
      intro other found there
      rcases Directory.file_create_cases there with ⟨-, rfl⟩ | old
      · exact ⟨Nat.zero_le _, nofun, fun _ _ => rfl⟩
      · exact sound other found old

/-- Every step keeps what is published behind what is stored, and every step but a
restart takes nothing back. -/
theorem World.Sound.step (sound : world.Sound projections blank)
    {action : Action Record Keys Definition} (taken : step projections blank world action = some next) :
    next.Sound projections blank ∧ (action.ends = false → Evolves world next) := by
  cases action with
  | append record =>
      cases taken
      have onward := sound.append record
      exact ⟨onward.sound, fun _ => onward.evolves⟩
  | requestReplay =>
      obtain ⟨handle, model, served⟩ := sound.live
      cases taken
      have onward : Onward projections blank world { world with replay := true } :=
        served.quiet sound served.published served.ready (.inr rfl) served.fits
      exact ⟨onward.sound, fun _ => onward.evolves⟩
  | proceed keys upto =>
      have onward := sound.proceed taken
      exact ⟨onward.sound, fun _ => onward.evolves⟩
  | fault =>
      obtain ⟨thread, faulted, rfl⟩ := Option.map_eq_some_iff.mp taken
      have onward := sound.fault faulted
      exact ⟨onward.sound, fun _ => onward.evolves⟩
  | restart definition autoRebuild removed =>
      cases taken
      refine ⟨sound_spawn ?_ definition autoRebuild, nofun⟩
      cases removed <;> exact sound.files

/-! ## Every interleaving with reads -/

variable {Answer : Type}

/-- From an empty directory on, whatever the log, the thread and the processes do
between the moves of a read: the position it reports is the one it waited for or a
later one, within the log, and the rows it was made of reflect every selected event
up to that. -/
theorem served_of_interleaving {definition : Definition} {autoRebuild : Bool}
    {projector : String}
    {turns : List (Turn (Action Record Keys Definition) Keys (ReadModel Definition Rows) ErrorResponse
      (Answer × Nat))}
    {final : Serving (World Record Definition Rows) Nat (ReadModel Definition Rows) ErrorResponse Keys
      (Answer × Nat)}
    (ran : run ((reading projector).serve (Projector.step projections blank) Action.ends)
      { state := spawn blank [] Directory.empty definition autoRebuild } turns = some final)
    {read : Nat} {wait : Option Wait} {query : Keys → ReadModel Definition Rows →
      Except ErrorResponse Answer} {held : ReadModel Definition Rows} {answer : Answer} {position : Nat}
    (served : final.reads read = some
      (waitingRead (who projector) wait ReadModel.checkpoint query,
        .served held (answer, position))) :
    (∀ asked, wait = some asked → asked.after ≤ position) ∧ position ≤ final.state.log.length ∧
      held.checkpoint = position ∧
      (projections final.state.definition).Projected blank
        ((projections final.state.definition).selected final.state.log 0 position) held.rows ∧
      ∃ keys, query keys held = .ok answer := by
  have initial : (spawn blank [] Directory.empty definition autoRebuild :
      World Record Definition Rows).Sound projections blank := by
    refine sound_spawn ?_ definition autoRebuild
    intro handle model found
    cases (Directory.file_empty handle).symm.trans found
  have honest (world : World Record Definition Rows) (sound : world.Sound projections blank) :
      Honest (reading projector) (Good projections blank) Visible world :=
    sound.honest projector
  have preserved (world : World Record Definition Rows) (action : Action Record Keys Definition)
      (next : World Record Definition Rows) (sound : world.Sound projections blank)
      (taken : Projector.step projections blank world action = some next) :
      next.Sound projections blank ∧ (action.ends = false →
        Keeps (reading projector) (Good projections blank) Visible world next) := by
    obtain ⟨after, evolves⟩ := sound.step taken
    exact ⟨after, fun lasting => (evolves lasting).keeps after projector⟩
  obtain ⟨-, ⟨⟨current, sound⟩, waited⟩, keys, answered⟩ :=
    served_of_run (fun world => world.Sound projections blank) honest preserved initial ran served
  obtain ⟨made, rfl⟩ := answer_waitingRead.mp answered
  refine ⟨?_, sound.reached, rfl, sound.projected current, keys, made⟩
  rintro asked rfl
  exact waited

end Hekla.Projector
