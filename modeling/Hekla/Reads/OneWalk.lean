import Hekla.Reads.TableLayout
import Hekla.Reads.TableRuns

/-!
# A scan is one walk

A scan is accepted where one declared order serves it, and its page is a run of that
order.  Neither depends on the order in which the parameters are given.
-/

namespace Hekla.Reads.Tables

open Hekla.Library Hekla.Host
open Hekla.Derived (FieldKind IndexDef)

variable {spelling : Spelling} {isUuid : String → Bool} {codec : Codec Cursor}
  {tables : List TableDef} {sel : Selection}

/-! ## Readings that ask for the same -/

theorem Leads.perm {columns pinned others : List String} {bounded : Option String}
    (perm : pinned.Perm others) (led : Leads columns pinned bounded) : Leads columns others bounded := by
  obtain ⟨run, rest, split, led, next⟩ := led
  exact ⟨run, rest, split, led.trans perm, next⟩

theorem Alike.symm {one other : Reading} (alike : Alike one other) : Alike other one :=
  ⟨alike.equals.symm, alike.values.symm, alike.bare.symm⟩

/-- What alike readings ask for, in whichever order. -/
theorem Alike.asked {one other : Reading} (alike : Alike one other) :
    one.asked.parts.Perm other.asked.parts ∧ one.asked.folds.Perm other.asked.folds ∧
      one.asked.part = other.asked.part ∧ one.asked.fold = other.asked.fold ∧
      one.asked.order = other.asked.order := by
  have bare := alike.bare
  have part := congrArg (fun reading => reading.asked.part) bare
  have fold := congrArg (fun reading => reading.asked.fold) bare
  have order := congrArg (fun reading => reading.asked.order) bare
  exact ⟨alike.equals.map _, alike.values.map _, part, fold, order⟩

theorem Walks.alike {sort : SortDef} {one other : Reading} (alike : Alike one other)
    (walks : Walks sort one.asked) : Walks sort other.asked := by
  obtain ⟨parts, folds, -, fold, -⟩ := alike.asked
  obtain ⟨led, pinned⟩ := walks
  rw [fold] at pinned
  exact ⟨led.trans parts, pinned.imp (fun pinned => ⟨pinned.1.trans folds, pinned.2⟩)
    fun pinned => ⟨pinned.1.trans folds, pinned.2⟩⟩

/-- Alike readings are served by the same order. -/
theorem OneOrder.alike {one other : Reading} {order : Option Order} (alike : Alike one other)
    (served : OneOrder sel one.asked order) : OneOrder sel other.asked order := by
  obtain ⟨parts, folds, part, fold, sorted⟩ := alike.asked
  cases served with
  | seek orderless unfiltered unbounded declared led =>
      rw [sorted] at orderless
      rw [unfiltered] at folds
      rw [fold] at unbounded
      rw [part] at led
      exact .seek orderless folds.symm.eq_nil unbounded declared (led.perm parts)
  | ordered declared asks named walks unranged =>
      rw [sorted] at asks
      rw [part] at unranged
      exact .ordered declared asks named (walks.alike alike) unranged
  | implied declared orderless filtered walks alone unranged =>
      rw [sorted] at orderless
      rw [part] at unranged
      rw [fold] at filtered
      refine .implied declared orderless (filtered.imp_left ?_) (walks.alike alike) ?_ unranged
      · intro some_ none_
        rw [none_] at folds
        exact some_ folds.eq_nil
      · intro other declared' walks'
        exact alone other declared' (walks'.alike alike.symm)

/-! ## What a scan is read as -/

/-- A scan is accepted where one order serves it, and is read as a scan of that order. -/
theorem parseScan_ok_iff (formed : sel.main.Formed spelling) (arranged : Arranged sel.main)
    {params : List (String × String)} {scan : Scan} :
    parseScan spelling isUuid codec sel params = .ok scan ↔
      ∃ reading order after, params.foldlM (readParam spelling isUuid sel) {} = .ok reading ∧
        OneOrder sel reading.asked order ∧
        afterOf spelling isUuid codec sel order reading.cursor = .ok after ∧
        scan = { reading.scan with order := order, after := after } := by
  unfold parseScan
  rw [bind_ok]
  refine exists_congr fun reading => ?_
  constructor
  · rintro ⟨read, parsed⟩
    obtain ⟨order, settled, parsed⟩ := bind_ok.mp parsed
    obtain ⟨after, resumed, parsed⟩ := bind_ok.mp parsed
    exact ⟨order, after, read, (settle_ok_iff formed arranged (pins_nodup read).2).mp settled, resumed,
      (Except.ok.inj parsed).symm⟩
  · rintro ⟨order, after, read, served, resumed, rfl⟩
    exact ⟨read, bind_ok.mpr ⟨order, (settle_ok_iff formed arranged (pins_nodup read).2).mpr served,
      bind_ok.mpr ⟨after, resumed, rfl⟩⟩⟩

/-! ## What a page is a run of -/

/-- The rows of a page, as a run of the order that serves them.  Where that is not the key,
a scan without an ordering reads them by the key all the same. -/
inductive RunOf (spelling : Spelling) (table : TableDef) (asked : Asked) (scan : Scan)
    (rows page : List Row) : Prop where
  | ordered {sort : SortDef} {descending : Bool} (declared : sort ∈ table.sorts) (walks : Walks sort asked)
      (by_ : scan.order = some ⟨sort.column, descending⟩)
      (run : page <:+: walked table (walkOf table sort) descending rows)
  | keyed (by_ : scan.order = none) (led : Leads (table.key.map Prod.fst) asked.parts asked.part)
      (run : page <:+: walked table (table.key.map Prod.fst) false rows)
  | sought {columns : List String} (by_ : scan.order = none) (declared : columns ∈ leads table)
      (unkeyed : ¬ Leads (table.key.map Prod.fst) asked.parts asked.part)
      (led : Leads columns asked.parts asked.part)
      (together : Statement.sorted (filterOf spelling table scan) (columns ++ table.keyColumns) false rows <:+:
        walked table columns false rows)
      (run : page <:+: Statement.sorted (filterOf spelling table scan) table.keyColumns false rows)

theorem runOf_matching {reading : Reading} {scan : Scan} {after : Option After}
    (served : OneOrder sel reading.asked scan.order)
    (asked : scan = { reading.scan with order := scan.order, after := after })
    (sound : Sound spelling sel.main scan) {rows page : List Row}
    (distinct : (rows.map fun row => sel.main.keyColumns.map row).Nodup)
    (holds : ∀ row ∈ rows, sel.main.Holds spelling row)
    (first : page <+: matching spelling sel.main scan rows) :
    RunOf spelling sel.main reading.asked scan rows page := by
  have filters := filters_of_sound sound
  have walked_ {sort : SortDef} {descending : Bool} (declared : sort ∈ sel.main.sorts)
      (walks : Walks sort reading.asked) (unranged : reading.asked.part = none)
      (by_ : scan.order = some ⟨sort.column, descending⟩) :
      RunOf spelling sel.main reading.asked scan rows page := by
    rw [asked, by_] at filters
    refine .ordered declared walks by_ (first.isInfix.trans (ordered_stretch sound by_ ?_ distinct holds))
    intro rest
    rw [asked, by_]
    exact walks.fixes unranged filters rest
  cases by_ : scan.order with
  | none =>
      rw [by_] at served
      cases served with
      | @seek orderless unfiltered unbounded columns declared led =>
          have asks (columns : List String) (led : Leads columns reading.asked.parts reading.asked.part) :
              ∃ run rest, columns ++ sel.main.keyColumns = run ++ rest ∧
                Fixes run rest (filterOf spelling sel.main scan) := by
            rw [asked, by_] at filters ⊢
            exact led.fixes unfiltered unbounded filters _
          by_cases keyed : Leads (sel.main.key.map Prod.fst) reading.asked.parts reading.asked.part
          · obtain ⟨run, rest, split, fixes⟩ := asks _ keyed
            exact .keyed by_ keyed
              (first.isInfix.trans (keyed_stretch sound by_ split fixes distinct holds))
          · obtain ⟨run, rest, split, fixes⟩ := asks _ led
            have apart := apart_of_key columns distinct
            have inside := matching_stretch sound distinct holds
            rw [by_] at inside
            refine .sought by_ declared keyed led ?_ (first.isInfix.trans inside)
            unfold walked
            rw [split] at apart ⊢
            exact Statement.sorted_stretch fixes apart
  | some order =>
      rw [by_] at served
      cases served with
      | ordered declared asks named walks unranged => exact walked_ declared walks unranged by_
      | implied declared orderless filtered walks alone unranged => exact walked_ declared walks unranged by_

/-- What a list of parameters reads, and what it is served, is that of any other order
of them. -/
theorem parseScan_perm (lawful : spelling.Lawful) (laid : Laid spelling tables)
    (picked : Picked tables sel) (arranged : Arranged sel.main) {params others : List (String × String)}
    (perm : params.Perm others) (distinct : (params.map Prod.fst).Nodup) {scan : Scan}
    (parsed : parseScan spelling isUuid codec sel params = .ok scan) :
    ∃ other, parseScan spelling isUuid codec sel others = .ok other ∧
      scan.equals.Perm other.equals ∧ scan.values.Perm other.values ∧
      { scan with equals := [], values := [] } = { other with equals := [], values := [] } ∧
      ∀ (store : Store spelling tables) (keystore : Option KeyStore),
        scanPage spelling codec store sel scan keystore = scanPage spelling codec store sel other keystore := by
  have formed := laid.formed sel.main picked.main
  have sound := sound_of_parseScan lawful formed parsed
  obtain ⟨reading, order, after, read, served, resumed, rfl⟩ := (parseScan_ok_iff formed arranged).mp parsed
  obtain ⟨reached, read', alike⟩ := read_perm perm distinct read
  have cursor := congrArg Reading.cursor alike.bare
  change reading.cursor = reached.cursor at cursor
  rw [cursor] at resumed
  have parsed' : parseScan spelling isUuid codec sel others =
      .ok { reached.scan with order := order, after := after } :=
    (parseScan_ok_iff formed arranged).mpr ⟨reached, order, after, read', served.alike alike, resumed, rfl⟩
  have rest := congrArg (fun reading => { reading.scan with order := order, after := after }) alike.bare
  exact ⟨_, parsed', alike.equals, alike.values, rest, fun store keystore =>
    scanPage_alike laid picked alike.equals alike.values rest sound (sound_of_parseScan lawful formed parsed')⟩

/-- A scan of a table that is laid out is accepted where one declared order serves it, its
page is a run of that order, and neither depends on the order of its parameters. -/
theorem parseScan_walks_one (lawful : spelling.Lawful) (laid : Laid spelling tables) {names : List String}
    (picked : pick tables names = .ok sel) {layout : LayoutTable} (promised : layout.Promised)
    (made : layout.main = .ok sel.main) (params : List (String × String)) :
    (∀ scan, parseScan spelling isUuid codec sel params = .ok scan ↔
      ∃ reading order after, params.foldlM (readParam spelling isUuid sel) {} = .ok reading ∧
        OneOrder sel reading.asked order ∧
        afterOf spelling isUuid codec sel order reading.cursor = .ok after ∧
        scan = { reading.scan with order := order, after := after }) ∧
    (∀ reading scan, params.foldlM (readParam spelling isUuid sel) {} = .ok reading →
      parseScan spelling isUuid codec sel params = .ok scan →
      ∀ (store : Store spelling tables) (keystore : Option KeyStore) (served : Served),
        scanPage spelling codec store sel scan keystore = .ok served →
        ∃ page : List Row, List.Forall₂ (fun row item =>
            itemOf spelling (outsOf sel scan.order) keystore (seen store sel row) = .ok item) page
            served.page.items ∧
          RunOf spelling sel.main reading.asked scan (store.rows sel.main.name) page) ∧
    ∀ others, params.Perm others → (params.map Prod.fst).Nodup → ∀ scan,
      parseScan spelling isUuid codec sel params = .ok scan →
      ∃ other, parseScan spelling isUuid codec sel others = .ok other ∧
        scan.equals.Perm other.equals ∧ scan.values.Perm other.values ∧
        { scan with equals := [], values := [] } = { other with equals := [], values := [] } ∧
        ∀ (store : Store spelling tables) (keystore : Option KeyStore),
          scanPage spelling codec store sel scan keystore = scanPage spelling codec store sel other keystore := by
  have known := picked_of_pick laid picked
  have formed := laid.formed sel.main known.main
  have arranged := LayoutTable.arranged_of_main promised made
  refine ⟨fun scan => parseScan_ok_iff formed arranged, ?_, fun others perm distinct scan parsed =>
    parseScan_perm lawful laid known arranged perm distinct parsed⟩
  intro reading scan read parsed store keystore served answered
  have sound := sound_of_parseScan lawful formed parsed
  obtain ⟨reading', order, after, read', accepted, -, rfl⟩ := (parseScan_ok_iff formed arranged).mp parsed
  obtain rfl := Except.ok.inj (read.symm.trans read')
  refine ⟨_, rows_of_page laid known sound answered, ?_⟩
  exact runOf_matching accepted rfl sound (store.distinct sel.main known.main)
    (store.holds sel.main known.main) (List.take_prefix _ _)

/-! ## Tickets by their owner -/

def ownerTickets : ColumnDef where
  name := "owner_tickets"
  fold := "OwnerTickets"
  args := ["org", "owner"]
  default := some "0"
  field := { kind := .i64 }

/-- The tickets of an owner in an organisation, ordered by their number in each.  One arm
counts for an owner in every organisation. -/
def owners : LayoutTable where
  id := "owners"
  key := [("org", { kind := .i64 }), ("owner", { kind := .i64 })]
  columns := [⟨ownerTickets, [[true, true], [false, true]], [⟨[0], []⟩]⟩]

theorem owners_promised : owners.Promised where
  names := by decide
  folds := by decide
  capitals := by decide
  parts := by decide
  siblings := by decide

def ownersTable : TableDef where
  name := "owners"
  source := "owners"
  key := [("org", { kind := .i64 }), ("owner", { kind := .i64 })]
  columns := [ownerTickets]
  indexes := [⟨"by_owner", ["owner"]⟩,
    ⟨"sorts__owner_tickets__org", ["org", "owner_tickets", "owner"]⟩]
  sorts := [⟨"owner_tickets", ["org"], [], "sorts__owner_tickets__org"⟩]

theorem owners_main : owners.main = .ok ownersTable := rfl

def ownersSelection : Selection where
  main := ownersTable
  side := none
  opening := ownerTickets
  others := []

theorem owners_picked : pick [ownersTable] ["OwnerTickets"] = .ok ownersSelection := rfl

theorem owners_laid : Laid newYear [ownersTable] where
  names := by decide
  formed := by
    intro table member
    obtain rfl := List.mem_singleton.mp member
    refine ⟨by decide, ?_, by decide, ?_⟩
    · intro column member _
      obtain rfl := List.mem_singleton.mp member
      exact .inr ⟨"0", by decide⟩
    · intro sort member
      obtain rfl := List.mem_singleton.mp member
      exact ⟨ownerTickets, rfl, rfl⟩
  split := by
    intro one member other member' _
    rw [List.mem_singleton.mp member, List.mem_singleton.mp member']

/-- An owner in an organisation, and a number of tickets, each as its text. -/
def ownerRow (owner : String × String × String) : Row
  | "org" => literalCell owner.1
  | "owner" => literalCell owner.2.1
  | "owner_tickets" => literalCell owner.2.2
  | _ => .null

def counted : List (String × String × String) :=
  [("1", "20", "7"), ("2", "5", "7"), ("3", "10", "7"), ("4", "30", "7")]

def ownersStore : Store newYear [ownersTable] where
  rows _ := counted.map ownerRow
  position := 4
  distinct := by
    intro table member
    obtain rfl := List.mem_singleton.mp member
    decide
  holds := by
    intro table member row known
    obtain rfl := List.mem_singleton.mp member
    obtain ⟨owner, listed, rfl⟩ := List.mem_map.mp known
    have texts : ∀ owner ∈ counted, coerceValue newYear .i64 owner.1 = .ok (literalCell owner.1) ∧
        coerceValue newYear .i64 owner.2.1 = .ok (literalCell owner.2.1) ∧
        coerceValue newYear .i64 owner.2.2 = .ok (literalCell owner.2.2) := by decide
    obtain ⟨org, holder, tickets⟩ := texts owner listed
    refine ⟨?_, nofun, ?_⟩
    · intro part member
      rcases List.mem_cons.mp member with rfl | member
      · exact ⟨_, org⟩
      · obtain rfl := List.mem_singleton.mp member
        exact ⟨_, holder⟩
    · intro column member _
      obtain rfl := List.mem_singleton.mp member
      exact .inr ⟨_, tickets⟩

/-- The owners of one organisation with two tickets or more, most first. -/
theorem owners_walk_one :
    ∃ reading scan other page, [("OwnerTickets.gte", "2"), ("org", "1"), ("order_by", "-OwnerTickets")].foldlM
        (readParam newYear looksUuid ownersSelection) {} = .ok reading ∧
      parseScan newYear looksUuid cursorCodec ownersSelection
        [("OwnerTickets.gte", "2"), ("org", "1"), ("order_by", "-OwnerTickets")] = .ok scan ∧
      OneOrder ownersSelection reading.asked scan.order ∧
      parseScan newYear looksUuid cursorCodec ownersSelection
        [("order_by", "-OwnerTickets"), ("org", "1"), ("OwnerTickets.gte", "2")] = .ok other ∧
      RunOf newYear ownersTable reading.asked scan (ownersStore.rows "owners") page ∧ page.length = 1 := by
  obtain ⟨accepts, runs, reorders⟩ := parseScan_walks_one newYear_lawful owners_laid owners_picked
    owners_promised owners_main [("OwnerTickets.gte", "2"), ("org", "1"), ("order_by", "-OwnerTickets")]
  have parsed : parseScan newYear looksUuid cursorCodec ownersSelection
      [("OwnerTickets.gte", "2"), ("org", "1"), ("order_by", "-OwnerTickets")] =
      .ok { equals := [("org", "1")], valueRange := some ("owner_tickets", { lower := some (.inclusive, "2") }),
            order := some ⟨"owner_tickets", true⟩ } := rfl
  obtain ⟨reading, order, after, read, served, -, same⟩ := (accepts _).mp parsed
  obtain ⟨other, parsed', -⟩ := reorders
    [("order_by", "-OwnerTickets"), ("org", "1"), ("OwnerTickets.gte", "2")] (by decide) (by decide) _ parsed
  obtain ⟨page, shown, run⟩ := runs reading _ read parsed ownersStore none _ rfl
  have order_ := congrArg Scan.order same
  exact ⟨reading, _, other, page, read, parsed, by rw [order_]; exact served, parsed', run, shown.length_eq⟩

/-- A request that an `@index` would serve is refused where it bounds a part, and one that
the index of an arm serves is answered in the order of the key, which is a run of none. -/
theorem scan_not_one_run :
    (∃ reading : Reading, [("org", "1"), ("OwnerTickets", "2"), ("owner.gte", "10"), ("order_by", "OwnerTickets")].foldlM
        (readParam newYear looksUuid ownersSelection) {} = .ok reading ∧
      (∃ sort ∈ ownersTable.sorts, reading.asked.order = some (false, ownersSelection.foldOf sort.column) ∧
        Leads (walkOf ownersTable sort) (reading.asked.parts ++ reading.asked.folds) reading.asked.part) ∧
      ∀ scan, parseScan newYear looksUuid cursorCodec ownersSelection
        [("org", "1"), ("OwnerTickets", "2"), ("owner.gte", "10"), ("order_by", "OwnerTickets")] ≠ .ok scan) ∧
    ∃ scan served, parseScan newYear looksUuid cursorCodec ownersSelection [("owner.gte", "10")] = .ok scan ∧
      scanPage newYear cursorCodec ownersStore ownersSelection scan none = .ok served ∧
      ∀ columns ∈ leads ownersTable, ∀ descending, ¬ served.page.items.map Except.ok <:+:
        (walked ownersTable columns descending (ownersStore.rows "owners")).map fun row =>
          itemOf newYear (outsOf ownersSelection scan.order) none (seen ownersStore ownersSelection row) := by
  have read : [("org", "1"), ("OwnerTickets", "2"), ("owner.gte", "10"), ("order_by", "OwnerTickets")].foldlM
      (readParam newYear looksUuid ownersSelection) {} =
      .ok { scan := { equals := [("org", "1")], range := some ("owner", { lower := some (.inclusive, "10") }),
                      values := [("owner_tickets", "2")] }, orderBy := some "OwnerTickets" } := rfl
  have refused : (parseScan newYear looksUuid cursorCodec ownersSelection
      [("org", "1"), ("OwnerTickets", "2"), ("owner.gte", "10"), ("order_by", "OwnerTickets")]).toOption = none := rfl
  have parsed : parseScan newYear looksUuid cursorCodec ownersSelection [("owner.gte", "10")] =
      .ok { range := some ("owner", { lower := some (.inclusive, "10") }) } := rfl
  constructor
  · refine ⟨_, read, ⟨_, List.mem_singleton_self _, rfl, ["org", "owner_tickets"], ["owner"], rfl, .refl _, ?_⟩, ?_⟩
    · rintro column ⟨⟩
      rfl
    · intro scan accepted
      rw [accepted] at refused
      cases refused
  · refine ⟨_, ⟨⟨[.obj [("org", .int 1), ("owner", .int 20), ("OwnerTickets", .int 7)],
      .obj [("org", .int 3), ("owner", .int 10), ("OwnerTickets", .int 7)],
      .obj [("org", .int 4), ("owner", .int 30), ("OwnerTickets", .int 7)]], none⟩, 4⟩, parsed, rfl, ?_⟩
    decide

end Hekla.Reads.Tables
