import Mathlib.Data.List.Infix
import Mathlib.Data.List.Nodup
import PagedStore.Proofs.Cache.Refinement
import PagedStore.Proofs.Scan.Fetching
import PagedStore.Proofs.Scan.Listing

/-!
Reading a table that changes. Any number of readers share a store, and between two calls of one of them
rows may be stored and deleted, pages may be moved, flushed and discarded, and other readers may go on
or begin anew. A reader that is only asked for the next row goes through the cells of its table from
the left to the right: it gives out what a cell holds at that moment, it never comes back to a cell,
and it passes over a cell only if the cell is free when it is passed.
-/

namespace PagedStore

/-- The order of records by page and then by slot. -/
def RecordId.Before (left right : RecordId) : Prop :=
  left.page.number < right.page.number ∨
    left.page.number = right.page.number ∧ left.slot.toNat < right.slot.toNat

namespace HeapFile

variable {heap : HeapFile}

structure HasCell (heap : HeapFile) (index : Nat) : Prop where
  room : 0 < heap.slotCount
  small : index / heap.slotCount < 4294967296

theorem hasCell_of_lt {index count : Nat} (inside : index < count * heap.slotCount)
    (small : count ≤ 4294967296) : heap.HasCell index where
  room := Nat.pos_of_mul_pos_left (Nat.lt_of_le_of_lt (Nat.zero_le _) inside)
  small := Nat.lt_of_lt_of_le (Nat.div_lt_of_lt_mul (Nat.mul_comm _ _ ▸ inside)) small

theorem number_recordAt {index : Nat} (has : heap.HasCell index) :
    (heap.recordAt index).page.number = index / heap.slotCount :=
  heap.number_page has.small

theorem slot_recordAt (narrow : heap.slotCount ≤ 65536) {index : Nat} (has : heap.HasCell index) :
    (heap.recordAt index).slot.toNat = index % heap.slotCount := by
  have inside := Nat.mod_lt index has.room
  simp only [recordAt, RecordId.ofSlot, UInt16.toNat_ofNat']
  omega

/-- Records come in the order of their cells. -/
theorem before_recordAt (narrow : heap.slotCount ≤ 65536) {index later : Nat}
    (has : heap.HasCell index) (hasLater : heap.HasCell later) (before : index < later) :
    (heap.recordAt index).Before (heap.recordAt later) := by
  have pages : index / heap.slotCount ≤ later / heap.slotCount :=
    Nat.div_le_div_right (Nat.le_of_lt before)
  have split := Nat.div_add_mod index heap.slotCount
  have splitLater := Nat.div_add_mod later heap.slotCount
  rw [RecordId.Before, number_recordAt has, number_recordAt hasLater, slot_recordAt narrow has,
    slot_recordAt narrow hasLater]
  rcases Nat.lt_or_eq_of_le pages with earlierPage | samePage
  · exact Or.inl earlierPage
  · refine Or.inr ⟨samePage, ?_⟩
    rw [samePage] at split
    omega

theorem recordAt_cellIndex {record : RecordId}
    (own : record.page.table = heap.table) (inside : record.slot.toNat < heap.slotCount) :
    heap.recordAt (heap.cellIndex record.page.number record.slot.toNat) = record := by
  rw [recordAt, div_cellIndex inside, mod_cellIndex inside, RecordId.ofSlot, UInt16.ofNat_toNat,
    page_number own]

end HeapFile

theorem Store.held_of_cell {μ : Type} {store : Store μ} {file : HeapFile}
    (narrow : file.slotCount ≤ 65536) {index : Nat} (has : file.HasCell index) {values : List Value}
    (there : file.cell store.current index = some values) :
    store.held (file.recordAt index) = some values := by
  rw [HeapFile.cell_of_small has.small] at there
  obtain ⟨contents, found, stored⟩ := Option.bind_eq_some_iff.mp there
  have isThere : store.onPage (file.recordAt index).page = some contents := onPage_of_current found
  rw [held, HeapFile.slot_recordAt narrow has, isThere]
  exact stored

theorem Store.cell_of_record {μ : Type} {store : Store μ} (coherent : store.Coherent)
    (few : store.Few) {file : HeapFile} {record : RecordId} (own : record.page.table = file.table)
    (inside : record.slot.toNat < file.slotCount) :
    file.cell store.current (file.cellIndex record.page.number record.slot.toNat) =
      store.held record := by
  rw [HeapFile.cell_cellIndex record.page.number_lt inside, held, HeapFile.page_number own,
    current_of_few coherent few]

structure Reader where
  file : HeapFile
  cursor : Cursor

structure Scene (μ : Type) where
  readers : List Reader
  store : Store μ

structure Telling (μ : Type) where
  store : Store μ
  reply : Except Fault Reply

def Telling.record? {μ : Type} (telling : Telling μ) : Option RecordId :=
  match telling.reply with
  | .ok (.row row) => row.record
  | _ => none

namespace Scene

/-- A request to the store, or a call of one of the readers. -/
inductive Event where
  | ask (operation : Operation)
  | call (index : Nat) (call : Call)

def Event.Advances (index : Nat) : Event → Prop
  | ask _ => True
  | call other asked => other = index → asked = .next

variable {μ : Type} [EvictionPolicy μ]

def respond (scene : Scene μ) (index : Nat) (call : Call) :
    Option (Except Fault Reply) × Scene μ :=
  match scene.readers[index]? with
  | none => (none, scene)
  | some reader =>
      let (reply, cursor, store) :=
        Action.outcome (Cursor.perform reader.file call) (reader.cursor, scene.store)
      (some reply, ⟨scene.readers.set index ⟨reader.file, cursor⟩, store⟩)

def happen (scene : Scene μ) : Event → Scene μ
  | .ask operation => { scene with store := (scene.store.outcome operation).2 }
  | .call index call => (scene.respond index call).2

def after (scene : Scene μ) (events : List Event) : Scene μ := events.foldl happen scene

/-- What a reader is told in one event. -/
def heard (scene : Scene μ) (index : Nat) : Event → List (Telling μ)
  | .ask _ => []
  | .call other call =>
      if other = index then (scene.respond index call).1.toList.map (⟨scene.store, ·⟩) else []

def told (scene : Scene μ) (index : Nat) : List Event → List (Telling μ)
  | [] => []
  | event :: rest => scene.heard index event ++ (scene.happen event).told index rest

variable {scene : Scene μ} {index : Nat} {file : HeapFile}

structure Hosts (scene : Scene μ) (file : HeapFile) : Prop where
  coherent : scene.store.Coherent
  hospitable : scene.store.Hospitable
  registered : scene.store.catalog.file? file.table = some file

def Reads (scene : Scene μ) (index : Nat) (file : HeapFile) (place : Nat) : Prop :=
  ∃ cursor, scene.readers[index]? = some ⟨file, cursor⟩ ∧ Cursor.StandsAt file cursor place

theorem respond_of_reader {cursor : Cursor} (there : scene.readers[index]? = some ⟨file, cursor⟩)
    (call : Call) :
    scene.respond index call =
      (some (Action.outcome (Cursor.perform file call) (cursor, scene.store)).1,
        ⟨scene.readers.set index
            ⟨file, (Action.outcome (Cursor.perform file call) (cursor, scene.store)).2.1⟩,
          (Action.outcome (Cursor.perform file call) (cursor, scene.store)).2.2⟩) := by
  rw [respond, there]

theorem reader_of_respond {cursor : Cursor}
    (there : scene.readers[index]? = some ⟨file, cursor⟩) (call : Call) :
    (scene.respond index call).2.readers[index]? = some
      ⟨file, (Action.outcome (Cursor.perform file call) (cursor, scene.store)).2.1⟩ := by
  obtain ⟨inside, -⟩ := List.getElem?_eq_some_iff.mp there
  rw [respond_of_reader there]
  exact List.getElem?_set_self inside

/-- Whatever a reader is asked, it only moves pages. -/
theorem saves_respond (coherent : scene.store.Coherent) (index : Nat) (call : Call) :
    Store.Saves scene.store (scene.respond index call).2.store := by
  cases there : scene.readers[index]? with
  | none =>
    rw [respond, there]
    exact Store.saves_refl coherent
  | some reader =>
    have spans := Cursor.spans_perform Store.fetchClosed_saves reader.file call reader.cursor
      scene.store
    rw [respond_of_reader there]
    exact Action.after_of_ends spans coherent

theorem lasts_happen (coherent : scene.store.Coherent) (event : Event) :
    Store.Lasts scene.store (scene.happen event).store := by
  cases event with
  | ask operation => exact Store.lasts_outcome coherent operation
  | call index call => exact Store.lasts_of_saves (saves_respond coherent index call)

theorem hosts_happen (hosts : scene.Hosts file) (event : Event) :
    (scene.happen event).Hosts file := by
  have lasts := lasts_happen hosts.coherent event
  exact ⟨lasts.coherent, Store.hospitable_of_follows lasts.follows hosts.hospitable,
    lasts.catalog_eq.symm ▸ hosts.registered⟩

theorem hosts_after (hosts : scene.Hosts file) (events : List Event) :
    (scene.after events).Hosts file := by
  induction events generalizing scene with
  | nil => exact hosts
  | cons event rest ih => exact ih (hosts_happen hosts event)

theorem lasts_after (coherent : scene.store.Coherent) (events : List Event) :
    Store.Lasts scene.store (scene.after events).store := by
  induction events generalizing scene with
  | nil => exact Store.lasts_refl coherent
  | cons event rest ih =>
    have first := lasts_happen coherent event
    exact Store.lasts_trans first (ih first.coherent)

theorem reader_of_other {other : Nat} (differs : other ≠ index) (call : Call) :
    (scene.respond other call).2.readers[index]? = scene.readers[index]? := by
  rw [respond]
  cases scene.readers[other]? with
  | none => rfl
  | some reader => exact List.getElem?_set_ne differs

/-- A reader keeps its file. -/
theorem exists_reader_after {cursor : Cursor}
    (there : scene.readers[index]? = some ⟨file, cursor⟩) (events : List Event) :
    ∃ cursor, (scene.after events).readers[index]? = some ⟨file, cursor⟩ := by
  induction events generalizing scene cursor with
  | nil => exact ⟨cursor, there⟩
  | cons event rest ih =>
    cases event with
    | ask operation =>
      have still : (scene.happen (.ask operation)).readers[index]? = some ⟨file, cursor⟩ := there
      exact ih still
    | call other call =>
      by_cases same : other = index
      · subst same
        exact ih (reader_of_respond there call)
      · exact ih ((reader_of_other same call).trans there)

theorem reads_of_start {cursor : Cursor} (there : scene.readers[index]? = some ⟨file, cursor⟩) :
    (scene.happen (.call index .start)).Reads index file 0 := by
  have first : Cursor.StandsAt file cursor.start 0 :=
    ⟨rfl, rfl, Nat.zero_le _, (Nat.zero_mul _).symm⟩
  exact ⟨cursor.start, reader_of_respond there .start, first⟩

/-- One call for the next row: either the first row from the place on is given out, or there is none. -/
theorem respond_next (hosts : scene.Hosts file) {place : Nat}
    (reads : scene.Reads index file place) :
    (∃ row cell, (scene.respond index .next).1 = some (.ok (.row row)) ∧
        file.NextCell scene.store.current (scene.store.cellCount file) place cell ∧
        scene.store.Shows file cell row ∧
        (scene.respond index .next).2.Reads index file (cell + 1)) ∨
      (scene.respond index .next).1 = some (.error (.error .exhausted)) ∧
        file.Bare scene.store.current (scene.store.cellCount file) place ∧
        ∃ beyond, place ≤ beyond ∧ (scene.respond index .next).2.Reads index file beyond := by
  obtain ⟨cursor, there, stands⟩ := reads
  have replies : Action.Ends (Cursor.perform file .next) (cursor, scene.store)
      (fun reply after => ∃ row, reply = .row row ∧
        Cursor.Sought scene.store file place (some row) after)
      fun fault after => fault = .error .exhausted ∧
        Cursor.Sought scene.store file place none after := by
    unfold Cursor.perform
    rw [Action.ends_bind]
    apply Action.ends_imp (Cursor.next_ends hosts.coherent hosts.registered stands)
    · exact fun row after ⟨_, sought⟩ => ⟨row, rfl, sought⟩
    · intro fault after ⟨_, ends⟩
      rcases ends with exhausted | ⟨_, unhospitable⟩
      · exact exhausted
      · exact absurd hosts.hospitable unhospitable
  have reader := reader_of_respond there .next
  have reply : (scene.respond index .next).1 =
      some (Action.outcome (Cursor.perform file .next) (cursor, scene.store)).1 := by
    rw [respond_of_reader there]
  rcases Action.outcome_of_ends replies with
    ⟨_, told, row, rfl, cell, next, shows, standsNext⟩ |
      ⟨fault, told, rfl, bare, beyond, past, -, standsBeyond⟩
  · exact Or.inl ⟨row, cell, reply.trans (congrArg some told), next, shows, _, reader, standsNext⟩
  · exact Or.inr ⟨reply.trans (congrArg some told), bare, beyond, past, _, reader, standsBeyond⟩

/-- How a reader gets from one place to another while other things happen, and the cells whose rows it
gives out on the way. -/
structure Passes (scene : Scene μ) (index : Nat) (file : HeapFile) (events : List Event)
    (place next : Nat) (given : List Nat) : Prop where
  ahead : place ≤ next
  reads : (scene.after events).Reads index file next
  answers : ∀ telling ∈ scene.told index events, telling.reply = .error (.error .exhausted) ∨
    ∃ row cell, telling.reply = .ok (.row row) ∧ telling.store.Shows file cell row ∧
      file.HasCell cell
  records_eq : (scene.told index events).filterMap Telling.record? = given.map file.recordAt
  inOrder : given.Pairwise (· < ·)
  inside : ∀ cell ∈ given, place ≤ cell ∧ cell < next ∧ file.HasCell cell
  passed : ∀ cell, place ≤ cell → cell < next → cell ∈ given ∨
    ∃ earlier, earlier <+: events ∧ file.cell (scene.after earlier).store.current cell = none

theorem told_append (scene : Scene μ) (index : Nat) (events rest : List Event) :
    scene.told index (events ++ rest) =
      scene.told index events ++ (scene.after events).told index rest := by
  induction events generalizing scene with
  | nil => rfl
  | cons event events ih =>
    rw [List.cons_append, told, ih, told, List.append_assoc]
    rfl

theorem after_append (scene : Scene μ) (events rest : List Event) :
    scene.after (events ++ rest) = (scene.after events).after rest :=
  List.foldl_append

theorem passes_still {events : List Event} {place : Nat}
    (reads : (scene.after events).Reads index file place)
    (silent : scene.told index events = []) : scene.Passes index file events place place [] where
  ahead := Nat.le_refl place
  reads := reads
  answers := by simp [silent]
  records_eq := by rw [silent]; rfl
  inOrder := List.Pairwise.nil
  inside := by simp
  passed := fun cell atLeast before => absurd before (by omega)

theorem passes_append {events rest : List Event} {place middle next : Nat} {given later : List Nat}
    (first : scene.Passes index file events place middle given)
    (second : (scene.after events).Passes index file rest middle next later) :
    scene.Passes index file (events ++ rest) place next (given ++ later) where
  ahead := Nat.le_trans first.ahead second.ahead
  reads := by
    rw [after_append]
    exact second.reads
  answers := by
    intro telling isTold
    rw [told_append, List.mem_append] at isTold
    rcases isTold with before | after
    · exact first.answers telling before
    · exact second.answers telling after
  records_eq := by
    rw [told_append, List.filterMap_append, first.records_eq, second.records_eq, List.map_append]
  inOrder := by
    rw [List.pairwise_append]
    refine ⟨first.inOrder, second.inOrder, ?_⟩
    intro cell before other after
    exact Nat.lt_of_lt_of_le (first.inside cell before).2.1 (second.inside other after).1
  inside := by
    intro cell isGiven
    have firstAhead := first.ahead
    have secondAhead := second.ahead
    rcases List.mem_append.mp isGiven with before | after
    · obtain ⟨atLeast, reached, has⟩ := first.inside cell before
      exact ⟨atLeast, by omega, has⟩
    · obtain ⟨atLeast, reached, has⟩ := second.inside cell after
      exact ⟨by omega, reached, has⟩
  passed := by
    intro cell atLeast before
    by_cases reached : cell < middle
    · rcases first.passed cell atLeast reached with isGiven | ⟨earlier, isPrefix, free⟩
      · exact Or.inl (List.mem_append_left _ isGiven)
      · exact Or.inr ⟨earlier, isPrefix.trans (List.prefix_append events rest), free⟩
    · rcases second.passed cell (by omega) before with isGiven | ⟨earlier, isPrefix, free⟩
      · exact Or.inl (List.mem_append_right _ isGiven)
      · refine Or.inr ⟨events ++ earlier, (List.prefix_append_right_inj events).mpr isPrefix, ?_⟩
        rw [after_append]
        exact free

theorem passes_next (hosts : scene.Hosts file) {place : Nat}
    (reads : scene.Reads index file place) :
    ∃ next given, scene.Passes index file [.call index .next] place next given := by
  rcases respond_next hosts reads with
    ⟨row, cell, reply, isNext, shows, readsNext⟩ | ⟨reply, bare, beyond, past, readsBeyond⟩
  · have told : scene.told index [.call index .next] = [⟨scene.store, .ok (.row row)⟩] := by
      simp [Scene.told, heard, reply]
    have has : file.HasCell cell :=
      HeapFile.hasCell_of_lt isNext.inside (Nat.le_of_lt (file.pageCount_lt scene.store.disk))
    have atLeast := isNext.atLeast
    refine ⟨cell + 1, [cell], by omega, readsNext, ?_, ?_, List.pairwise_singleton _ _, ?_, ?_⟩
    · intro telling isTold
      rw [told, List.mem_singleton] at isTold
      exact Or.inr ⟨row, cell, congrArg Telling.reply isTold, isTold ▸ shows, has⟩
    · rw [told]
      exact congrArg Option.toList shows.record_eq
    · intro other isGiven
      rw [List.mem_singleton.mp isGiven]
      exact ⟨atLeast, Nat.lt_succ_self cell, has⟩
    · intro other past before
      by_cases same : other = cell
      · exact Or.inl (List.mem_singleton.mpr same)
      · exact Or.inr ⟨[], List.nil_prefix, isNext.free other past (by omega)⟩
  · have told : scene.told index [.call index .next] =
        [⟨scene.store, .error (.error .exhausted)⟩] := by
      simp [Scene.told, heard, reply]
    refine ⟨beyond, [], past, readsBeyond, ?_, ?_, List.Pairwise.nil, by simp, ?_⟩
    · intro telling isTold
      rw [told, List.mem_singleton] at isTold
      exact Or.inl (congrArg Telling.reply isTold)
    · rw [told]
      rfl
    · intro cell atLeast _
      refine Or.inr ⟨[], List.nil_prefix, ?_⟩
      by_contra there
      exact there (bare cell atLeast (Store.lt_cellCount hosts.coherent hosts.registered there))

theorem passes_event (hosts : scene.Hosts file) {place : Nat}
    (reads : scene.Reads index file place) {event : Event} (advances : event.Advances index) :
    ∃ next given, scene.Passes index file [event] place next given := by
  cases event with
  | ask operation => exact ⟨place, [], passes_still reads rfl⟩
  | call other call =>
    by_cases same : other = index
    · obtain rfl := advances same
      subst same
      exact passes_next hosts reads
    · obtain ⟨cursor, there, stands⟩ := reads
      have still : (scene.after [.call other call]).Reads index file place :=
        ⟨cursor, (reader_of_other same call).trans there, stands⟩
      refine ⟨place, [], passes_still still ?_⟩
      simp [Scene.told, heard, same]

theorem passes_events (hosts : scene.Hosts file) {place : Nat}
    (reads : scene.Reads index file place) {events : List Event}
    (advances : ∀ event ∈ events, event.Advances index) :
    ∃ next given, scene.Passes index file events place next given := by
  induction events generalizing scene place with
  | nil => exact ⟨place, [], passes_still reads rfl⟩
  | cons event rest ih =>
    obtain ⟨middle, given, first⟩ :=
      passes_event hosts reads (advances event List.mem_cons_self)
    obtain ⟨next, later, second⟩ := ih (hosts_happen hosts event) first.reads
      fun other member => advances other (List.mem_cons_of_mem _ member)
    exact ⟨next, given ++ later, passes_append first second⟩

/-- The records that a reader has been given follow the order of records, so none comes twice. -/
theorem pairwise_records {events : List Event} {place next : Nat} {given : List Nat}
    (narrow : file.slotCount ≤ 65536)
    (passes : scene.Passes index file events place next given) :
    ((scene.told index events).filterMap Telling.record?).Pairwise RecordId.Before := by
  rw [passes.records_eq, List.pairwise_map]
  apply List.Pairwise.imp_of_mem _ passes.inOrder
  intro cell later isGiven isGivenLater before
  exact HeapFile.before_recordAt narrow (passes.inside cell isGiven).2.2
    (passes.inside later isGivenLater).2.2 before

theorem nodup_of_pairwise_before {records : List RecordId}
    (inOrder : records.Pairwise RecordId.Before) : records.Nodup := by
  apply List.Pairwise.imp _ inOrder
  intro left right before same
  subst same
  rcases before with pages | ⟨_, slots⟩
  · exact Nat.lt_irrefl _ pages
  · exact Nat.lt_irrefl _ slots

/-- A record that holds a row all the time has been given out by the time there is no next row. -/
theorem mem_records {events : List Event} {next : Nat} {given : List Nat}
    (hosts : scene.Hosts file) (passes : scene.Passes index file events 0 next given)
    (few : (scene.after events).store.Few)
    (ended : ((scene.after events).respond index .next).1 = some (.error (.error .exhausted)))
    {record : RecordId} (own : record.page.table = file.table)
    (stays : ∀ earlier, earlier <+: events → (scene.after earlier).store.held record ≠ none) :
    record ∈ (scene.told index events).filterMap Telling.record? := by
  have hostsLast := hosts_after hosts events
  have fewThen : ∀ earlier, earlier <+: events → (scene.after earlier).store.Few := by
    rintro earlier ⟨rest, rfl⟩
    rw [after_append] at few
    exact Store.few_of_lasts (lasts_after (hosts_after hosts earlier).coherent rest) few
  have inside : record.slot.toNat < file.slotCount := by
    have fewNow : scene.store.Few := fewThen [] List.nil_prefix
    obtain ⟨values, held⟩ := Option.ne_none_iff_exists'.mp (stays [] List.nil_prefix)
    obtain ⟨contents, found, stored⟩ := Option.bind_eq_some_iff.mp held
    replace found : scene.store.current record.page = some contents :=
      (congrFun (Store.current_of_few hosts.coherent fewNow) record.page).trans found
    exact Store.slot_lt_of_current hosts.coherent (own ▸ hosts.registered) found stored
  have cellAt : ∀ earlier, earlier <+: events → file.cell (scene.after earlier).store.current
      (file.cellIndex record.page.number record.slot.toNat) =
        (scene.after earlier).store.held record := fun earlier isPrefix =>
    Store.cell_of_record (hosts_after hosts earlier).coherent (fewThen earlier isPrefix) own inside
  have reached : file.cellIndex record.page.number record.slot.toNat < next := by
    by_contra beyond
    have there : file.cell (scene.after events).store.current
        (file.cellIndex record.page.number record.slot.toNat) ≠ none := by
      rw [cellAt events (List.prefix_refl events)]
      exact stays events (List.prefix_refl events)
    rcases respond_next hostsLast passes.reads with ⟨row, _, reply, _⟩ | ⟨_, bare, _⟩
    · rw [ended] at reply
      exact absurd reply (by simp)
    · have inTable := Store.lt_cellCount hostsLast.coherent hostsLast.registered there
      exact there (bare _ (by omega) inTable)
  rw [passes.records_eq, List.mem_map]
  refine ⟨_, ?_, HeapFile.recordAt_cellIndex own inside⟩
  rcases passes.passed _ (Nat.zero_le _) reached with isGiven | ⟨earlier, isPrefix, free⟩
  · exact isGiven
  · rw [cellAt earlier isPrefix] at free
    exact absurd free (stays earlier isPrefix)

/-- One pass of a reader over a table, while anything happens to the store and to other readers. Each
time it is asked for the next row it gives out what its record holds at that moment, or tells that
there is none. The records come in the order of pages and slots. When there is no next row and the files
have not grown to 2^32 pages, each record that has held a row all the time has been given out once. -/
theorem pass_over_changing_table {origin : Scene μ} (sound : origin.store.Sound)
    (unused : origin.store.pool.frames = []) (hospitable : origin.store.Hospitable)
    {reader : Reader} (there : origin.readers[index]? = some reader)
    (registered : origin.store.catalog.file? reader.file.table = some reader.file)
    (narrow : reader.file.slotCount ≤ 65536) (before during : List Event)
    (advances : ∀ event ∈ during, event.Advances index) :
    let opened := (origin.after before).happen (.call index .start)
    let records := (opened.told index during).filterMap Telling.record?
    (∀ telling ∈ opened.told index during, telling.reply = .error (.error .exhausted) ∨
      ∃ row record, telling.reply = .ok (.row row) ∧ row.record = some record ∧
        record.page.table = reader.file.table ∧
        telling.store.held record = some (row.values.map Value.kept)) ∧
      records.Pairwise RecordId.Before ∧
      ((opened.after during).store.Few →
        ((opened.after during).respond index .next).1 = some (.error (.error .exhausted)) →
        ∀ record : RecordId, record.page.table = reader.file.table →
          (∀ earlier, earlier <+: during → (opened.after earlier).store.held record ≠ none) →
          records.count record = 1) := by
  intro opened records
  have hosts : origin.Hosts reader.file :=
    ⟨(Store.coherent_of_unused sound unused).1, hospitable, registered⟩
  have hostsOpened : opened.Hosts reader.file := hosts_happen (hosts_after hosts before) _
  obtain ⟨cursor, thereThen⟩ := exists_reader_after there before
  obtain ⟨next, given, passes⟩ := passes_events hostsOpened (reads_of_start thereThen) advances
  have inOrder : records.Pairwise RecordId.Before := pairwise_records narrow passes
  refine ⟨?_, inOrder, ?_⟩
  · intro telling isTold
    rcases passes.answers telling isTold with exhausted | ⟨row, cell, given, shows, has⟩
    · exact Or.inl exhausted
    · exact Or.inr ⟨row, reader.file.recordAt cell, given, shows.record_eq, rfl,
        Store.held_of_cell narrow has shows.cell_eq⟩
  · intro few ended record own stays
    have isGiven := mem_records hostsOpened passes few ended own stays
    exact List.count_eq_one_of_mem (nodup_of_pairwise_before inOrder) isGiven

def twoReaders : Scene Eviction.Oblivious where
  readers := [⟨Store.oneRowFile, .unopened⟩, ⟨Store.oneRowFile, .unopened⟩]
  store := { Store.oneRowStore with pool := Pool.empty 1 .first Listing.byArrival }

/-- A second row is stored in front of the first reader, the page leaves and the second reader begins. -/
def changes : List Event :=
  [.ask (.insert ⟨1⟩ (.file 0) ⟨Store.oneRowFile.schema, [.integer 5], rfl, none⟩), .call 0 .next,
    .ask .evict, .call 1 .start, .call 1 .next, .call 0 .next]

theorem pass_over_changing_table_of_two_readers :
    (twoReaders.store.Sound ∧ twoReaders.store.pool.frames = [] ∧ twoReaders.store.Hospitable ∧
      Store.oneRowFile.slotCount ≤ 65536 ∧ ∀ event ∈ changes, event.Advances 0) ∧
    ((twoReaders.happen (.call 0 .start)).after changes).store.Few ∧
    (((twoReaders.happen (.call 0 .start)).after changes).respond 0 .next).1 =
      some (.error (.error .exhausted)) ∧
    (((twoReaders.happen (.call 0 .start)).told 0 changes).filterMap Telling.record?).count
      (RecordId.ofSlot ⟨.file 0, 0⟩ 0) = 1 := by
  have sound : twoReaders.store.Sound := Store.sound_of_single rfl Store.whole_oneRowFile
  have hospitable : twoReaders.store.Hospitable :=
    ⟨Nat.one_pos, Eviction.obliging_of_picks (Or.inl rfl)⟩
  have advances : ∀ event ∈ changes, event.Advances 0 := by
    simp [changes, Event.Advances]
  have few : ((twoReaders.happen (.call 0 .start)).after changes).store.Few :=
    Store.few_of_single Store.oneRowFile "a" rfl (by decide +kernel)
  have ended : (((twoReaders.happen (.call 0 .start)).after changes).respond 0 .next).1 =
      some (.error (.error .exhausted)) := by
    decide +kernel
  have stays : ∀ earlier ∈ changes.inits, ((twoReaders.happen (.call 0 .start)).after
      earlier).store.held (RecordId.ofSlot ⟨.file 0, 0⟩ 0) ≠ none := by
    decide +kernel
  have narrow : Store.oneRowFile.slotCount ≤ 65536 := by decide
  have there : twoReaders.readers[0]? = some ⟨Store.oneRowFile, .unopened⟩ := rfl
  have pass := pass_over_changing_table sound rfl hospitable there rfl narrow [] changes advances
  exact ⟨⟨sound, rfl, hospitable, narrow, advances⟩, few, ended, pass.2.2 few ended _ rfl
    fun earlier isPrefix => stays earlier ((List.mem_inits _ _).mpr isPrefix)⟩

def wideReader : Scene Eviction.Oblivious := ⟨[⟨Store.wideFile, .unopened⟩], Store.wideStore⟩

theorem row_missed_by_pass :
    wideReader.store.Sound ∧ wideReader.store.Hospitable ∧ Store.wideFile.slotCount ≤ 65536 ∧
      (wideReader.happen (.call 0 .start)).store.held ⟨⟨.file 0, 0⟩, 0⟩ = some [.integer 7] ∧
      ((wideReader.happen (.call 0 .start)).respond 0 .next).1 =
        some (.error (.error .exhausted)) :=
  ⟨Store.sound_of_single rfl Store.whole_wideFile,
    ⟨Nat.one_pos, Eviction.obliging_of_picks (Or.inl rfl)⟩, by decide, by decide +kernel,
    by decide +kernel⟩

end Scene

end PagedStore
