import PagedStore.Proofs.Cache.Flushing
import PagedStore.Proofs.Scan.Listing
import PagedStore.Proofs.Transparency

/-!
What a flush leaves for later. After a flush of all pages the files hold everything that a reader of
the store can find, up to the cutting of texts, and moving pages in and out of memory writes nothing
more. A store that is opened anew over these files, with the same columns and page sizes, shows the same
rows in the same records.
-/

namespace PagedStore

namespace HeapFile

variable {heap other : HeapFile}

theorem SameLayout.pageAt_eq (same : heap.SameLayout other) : other.pageAt = heap.pageAt := by
  funext disk number
  simp only [pageAt, image, same.page_eq, same.schema_eq, same.file_eq, same.pageSize_eq]

theorem SameLayout.extent_eq (same : heap.SameLayout other) : other.extent = heap.extent := by
  funext disk
  simp only [extent, same.file_eq, same.pageSize_eq]

theorem SameLayout.pageCount_eq (same : heap.SameLayout other) :
    other.pageCount = heap.pageCount := by
  funext disk
  rw [pageCount_eq_mod, pageCount_eq_mod, same.extent_eq]

theorem SameLayout.whole (same : heap.SameLayout other) {disk : Disk} (whole : heap.Whole disk) :
    other.Whole disk where
  exists_file := same.file_eq ▸ whole.exists_file
  divides := same.pageSize_eq ▸ same.file_eq ▸ whole.divides
  readable := by
    rw [same.extent_eq, same.pageAt_eq]
    exact whole.readable

end HeapFile

def Request.Moves : Request → Prop
  | ask operation => operation.Moves
  | scan _ _ => True

/-- Without rows that are stored there are no texts that are too long. -/
theorem Request.fits_of_moves {request : Request} (moves : request.Moves) : request.Fits := by
  cases request with
  | ask operation =>
    cases operation with
    | insert _ _ _ => exact moves.elim
    | _ => trivial
  | scan _ _ => trivial

namespace Store

section One

variable {μ : Type} {store : Store μ}

/-- If no cached page has changed, what a reader finds is what the files hold. -/
theorem current_of_flushed (coherent : store.Coherent) (flushed : store.Flushed) :
    store.current = store.durable := by
  funext id
  cases cached : store.pool.frame? id with
  | none => exact current_of_uncached cached
  | some frame =>
    have clean : frame.page.isDirty = false := by
      cases dirty : frame.page.isDirty with
      | false => rfl
      | true => exact absurd ⟨frame, cached, dirty⟩ (flushed id)
    have agrees := (coherent.backed id frame cached).clean clean
    rw [current_of_cached cached]
    cases held : store.durable id with
    | none => rfl
    | some contents => exact congrArg some (agrees contents held)

variable [EvictionPolicy μ]

theorem undisturbed_respond (flushed : store.Flushed) {request : Request} (moves : request.Moves) :
    Undisturbed store (store.respond request).2 := by
  cases request with
  | ask operation => exact undisturbed_outcome flushed moves
  | scan table name =>
    have spans := spans_scan fetchClosed_undisturbed table name store
    rw [respond_scan]
    exact Action.after_of_ends spans flushed

theorem undisturbed_serve (flushed : store.Flushed) {requests : List Request}
    (moves : ∀ asked ∈ requests, asked.Moves) : Undisturbed store (store.serve requests) := by
  induction requests generalizing store with
  | nil => exact undisturbed_refl flushed
  | cons request rest ih =>
    have first := undisturbed_respond flushed (moves request List.mem_cons_self)
    exact undisturbed_trans first
      (ih first.flushed fun asked member => moves asked (List.mem_cons_of_mem _ member))

theorem current_of_undisturbed (coherent : store.Coherent) (flushed : store.Flushed)
    {after : Store μ} (lasts : Lasts store after) (undisturbed : Undisturbed store after) :
    after.current = store.current := by
  rw [current_of_flushed lasts.coherent undisturbed.flushed, current_of_flushed coherent flushed,
    durable_congr lasts.catalog_eq undisturbed.files_eq]

/-- A hospitable store answers a scan of a registered table with its lines. -/
theorem scan_of_hospitable (coherent : store.Coherent) (hospitable : store.Hospitable)
    {table : TableId} {file : HeapFile} (registered : store.catalog.file? table = some file)
    (name : Option String) :
    ∃ rows info, store.catalog.find? table = some info ∧ info.file = file ∧
      (store.respond (.scan table name)).1 = .rows (.ok rows) ∧
      Lists store ⟨file, info.name, name⟩ 0 rows := by
  rw [respond_scan]
  rcases Action.outcome_of_ends (scan_ends coherent table name) with
    ⟨rows, answered, -, info, found, lists⟩ | ⟨fault, -, -, ⟨unknown, -⟩ | ⟨-, unhospitable⟩⟩
  · have own : info.file = file := by
      rw [Catalog.file?, found] at registered
      exact Option.some.inj registered
    exact ⟨rows, info, found, own, congrArg Response.rows answered, own ▸ lists⟩
  · rw [Catalog.file?, unknown] at registered
    contradiction
  · exact absurd hospitable unhospitable

end One

section Two

variable {μ ν : Type} {store : Store μ} {fresh : Store ν}

/-- A store that has been opened anew over the files of another. Nothing is cached yet, and each of its
tables is registered there as well, over the same file and with the same layout. -/
structure Reopens (fresh : Store ν) (store : Store μ) : Prop where
  files_eq : fresh.disk.files = store.disk.files
  unused : fresh.pool.frames = []
  tables : ∀ table file, fresh.catalog.file? table = some file →
    ∃ was, store.catalog.file? table = some was ∧ was.SameLayout file

theorem sound_of_reopens (reopens : fresh.Reopens store) (sound : store.Sound) : fresh.Sound := by
  intro table file registered
  obtain ⟨was, wasRegistered, layout⟩ := reopens.tables table file registered
  obtain ⟨own, whole⟩ := sound table was wasRegistered
  have content := Disk.content_congr reopens.files_eq file.file
  exact ⟨layout.table_eq.trans own,
    HeapFile.whole_congr (congrArg List.length reopens.files_eq) content (layout.whole whole)⟩

theorem durable_of_reopens (reopens : fresh.Reopens store) {id : PageId} {file : HeapFile}
    (registered : fresh.catalog.file? id.table = some file) :
    fresh.durable id = store.durable id := by
  obtain ⟨was, wasRegistered, layout⟩ := reopens.tables id.table file registered
  have content := Disk.content_congr reopens.files_eq was.file
  rw [durable, durable, registered, wasRegistered]
  dsimp only
  rw [layout.pageCount_eq, layout.pageAt_eq, HeapFile.pageCount_congr content,
    HeapFile.pageAt_congr content]

variable [EvictionPolicy μ] [EvictionPolicy ν]

/-- Two hospitable stores in which a table has the same layout and the same current pages. If no row of
the second is too long, its scan gives the rows of the first one's with their texts cut. -/
theorem scan_kept (coherent : store.Coherent) (hospitable : store.Hospitable)
    (freshCoherent : fresh.Coherent) (freshHospitable : fresh.Hospitable)
    (freshExact : fresh.Keeps RowTrait.exact) {table : TableId} {file was : HeapFile}
    (registered : fresh.catalog.file? table = some file)
    (wasRegistered : store.catalog.file? table = some was) (layout : was.SameLayout file)
    (same : ∀ number, fresh.current (was.page number) = store.current (was.page number))
    (name : Option String) :
    ∃ rows, (store.respond (.scan table name)).1 = .rows (.ok rows) ∧
      (fresh.respond (.scan table name)).1 = .rows (.ok (rows.map Row.kept)) := by
  obtain ⟨rows, info, -, -, answered, lists⟩ :=
    scan_of_hospitable coherent hospitable wasRegistered name
  obtain ⟨freshRows, freshInfo, -, -, freshAnswered, freshLists⟩ :=
    scan_of_hospitable freshCoherent freshHospitable registered name
  have own : was.table = table := (coherent.sound table was wasRegistered).1
  have ownFresh : file.table = table := (freshCoherent.sound table file registered).1
  have count : fresh.cellCount file = store.cellCount was := by
    have spans := spans_pageCount coherent.sound (own.symm ▸ wasRegistered)
    have freshSpans := spans_pageCount freshCoherent.sound (ownFresh.symm ▸ registered)
    have counted : store.reference.Spans was (file.pageCount fresh.disk) := by
      refine ⟨freshSpans.count_lt, fun number small => ?_⟩
      have present := freshSpans.isSome_iff number small
      rw [layout.page_eq] at present
      change (fresh.current (was.page number)).isSome ↔ _ at present
      rw [same number] at present
      exact present
    rw [cellCount, cellCount, layout.slotCount_eq, Reference.spans_unique counted spans]
  have lines := lines_of_lists lists
  have freshLines := lines_of_lists freshLists
  have sameLines : fresh.lines ⟨file, freshInfo.name, name⟩ 0 =
      store.lines ⟨was, info.name, name⟩ 0 := by
    rw [Store.lines, Store.lines, count]
    exact ScanSource.lines_congr layout rfl same
  have told : freshRows.map (fun row => row.line.kept) = rows.map (fun row => row.line.kept) :=
    freshLines.trans (sameLines.trans lines.symm)
  have rowsEq : freshRows = rows.map Row.kept := by
    apply Row.line_injective.list_map
    have exactRows := keeps_of_lists freshExact freshLists
    rw [List.map_map]
    refine Eq.trans ?_ told
    apply List.map_congr_left
    intro row member
    have uncut : row.values.map Value.kept = row.values := exactRows row member
    rw [Line.kept, Row.line, uncut]
  exact ⟨rows, answered, rowsEq ▸ freshAnswered⟩

/-- After a flush and any reads, and after any reads through the store opened anew, a scan of the new
store gives what a scan of the old one gives, with the texts cut. -/
theorem scan_of_reopens (coherent : store.Coherent) (flushed : store.Flushed)
    (hospitable : store.Hospitable) (reopens : fresh.Reopens store)
    (freshHospitable : fresh.Hospitable) {later looked : List Request}
    (moves : ∀ asked ∈ later, asked.Moves) (freshMoves : ∀ asked ∈ looked, asked.Moves)
    {table : TableId} {file : HeapFile} (registered : fresh.catalog.file? table = some file)
    (name : Option String) :
    ∃ rows, ((store.serve later).respond (.scan table name)).1 = .rows (.ok rows) ∧
      ((fresh.serve looked).respond (.scan table name)).1 = .rows (.ok (rows.map Row.kept)) := by
  obtain ⟨was, wasRegistered, layout⟩ := reopens.tables table file registered
  obtain ⟨freshCoherent, freshCurrent⟩ :=
    coherent_of_unused (sound_of_reopens reopens coherent.sound) reopens.unused
  -- The fresh store has no changed page either, since it has no page in memory at all.
  have freshFlushed : fresh.Flushed := by
    intro id ⟨frame, cached, _⟩
    rw [Pool.frame?, reopens.unused] at cached
    contradiction
  have lasts := lasts_serve coherent later
  have freshLasts := lasts_serve freshCoherent looked
  have current := current_of_undisturbed coherent flushed lasts (undisturbed_serve flushed moves)
  have currentFresh := current_of_undisturbed freshCoherent freshFlushed freshLasts
    (undisturbed_serve freshFlushed freshMoves)
  have same : ∀ number, (fresh.serve looked).current (was.page number) =
      (store.serve later).current (was.page number) := by
    intro number
    have own : (was.page number).table = table := (coherent.sound table was wasRegistered).1
    have known : fresh.catalog.file? (was.page number).table = some file := by
      rw [own]
      exact registered
    rw [currentFresh, current, freshCurrent, current_of_flushed coherent flushed,
      durable_of_reopens reopens known]
  have freshExact := exact_serve freshCoherent (keeps_of_unused reopens.unused _)
    fun asked member => Request.fits_of_moves (freshMoves asked member)
  exact scan_kept lasts.coherent (hospitable_of_follows lasts.follows hospitable)
    freshLasts.coherent (hospitable_of_follows freshLasts.follows freshHospitable) freshExact
    (freshLasts.catalog_eq.symm ▸ registered) (lasts.catalog_eq.symm ▸ wasRegistered) layout same name

theorem outcome_flushAll (coherent : store.Coherent) :
    (store.outcome .flushAll).1 = .ok .done ∧ Saves store (store.outcome .flushAll).2 ∧
      (store.outcome .flushAll).2.Flushed ∧
      ∃ written : List PageId, written.Nodup ∧ (∀ id, id ∈ written ↔ store.Dirty id) ∧
        (store.outcome .flushAll).2.disk = written.foldl store.rewrite store.disk := by
  have performs : Action.Ends (perform .flushAll) store
      (fun answer after => answer = .done ∧ Saves store after ∧ after.Flushed ∧
        ∃ written : List PageId, written.Nodup ∧ (∀ id, id ∈ written ↔ store.Dirty id) ∧
          after.disk = written.foldl store.rewrite store.disk) fun _ _ => False := by
    unfold perform
    rw [Action.ends_bind]
    apply Action.ends_imp (Action.ends_and (flushAll_ends coherent) (flushAll_rewrites coherent))
    · exact fun _ after ⟨⟨saves, _⟩, written⟩ => ⟨rfl, saves, written⟩
    · exact fun _ _ impossible => impossible.1
  obtain ⟨answer, answered, rfl, done⟩ := Action.outcome_of_never_fails performs
  exact ⟨answered, done⟩

/-- A flush of all pages, whatever happened before it. It succeeds, writes every page that had changed
once and no other, and leaves no changed page. As long as no row is stored or deleted after it, nothing
is written, and a store that is opened anew over the files shows what the old one shows, with its texts
cut. -/
theorem durable_after_flushAll {origin : Store μ} (sound : origin.Sound)
    (unused : origin.pool.frames = []) (hospitable : origin.Hospitable) (requests : List Request) :
    let store := origin.serve requests
    let flushed := (store.outcome .flushAll).2
    (store.outcome .flushAll).1 = .ok .done ∧ flushed.Flushed ∧
      (∃ written : List PageId, written.Nodup ∧ (∀ id, id ∈ written ↔ store.Dirty id) ∧
        flushed.disk = written.foldl store.rewrite store.disk) ∧
      ∀ later : List Request, (∀ asked ∈ later, asked.Moves) →
        flushed.Undisturbed (flushed.serve later) ∧
        ∀ fresh : Store ν, fresh.Reopens flushed → fresh.Hospitable →
          ∀ looked : List Request, (∀ asked ∈ looked, asked.Moves) →
            ∀ table file name, fresh.catalog.file? table = some file →
              ∃ rows, ((flushed.serve later).respond (.scan table name)).1 = .rows (.ok rows) ∧
                ((fresh.serve looked).respond (.scan table name)).1 =
                  .rows (.ok (rows.map Row.kept)) := by
  intro store flushed
  have lasts := lasts_serve (coherent_of_unused sound unused).1 requests
  obtain ⟨answered, saves, isFlushed, written⟩ := outcome_flushAll lasts.coherent
  have hospitableThen : flushed.Hospitable :=
    hospitable_of_saves saves (hospitable_of_follows lasts.follows hospitable)
  refine ⟨answered, isFlushed, written, ?_⟩
  intro later moves
  refine ⟨undisturbed_serve isFlushed moves, ?_⟩
  intro fresh reopens freshHospitable looked freshMoves table file name registered
  exact scan_of_reopens saves.coherent isFlushed hospitableThen reopens freshHospitable moves
    freshMoves registered name

end Two

def flushedTexts : Store Eviction.Oblivious :=
  (((textStore 2 .first).serve [textInsertion 129]).outcome .flushAll).2

def reopenedTexts : Store Eviction.Oblivious :=
  (Action.outcome (createTable "./a.dat" textFile.schema textFile.size "b")
    ⟨flushedTexts.disk, Catalog.empty, Pool.empty 1 .last Listing.byArrival⟩).2

theorem reopenedTexts_eq :
    reopenedTexts.disk.files = flushedTexts.disk.files ∧ reopenedTexts.pool.frames = [] ∧
      reopenedTexts.pool.capacity = 1 ∧ reopenedTexts.pool.memory = .last ∧
      reopenedTexts.catalog = Catalog.empty.add { textFile with opening := 1 } "b" ∧
      flushedTexts.catalog = Catalog.empty.add textFile "a" := by
  decide +kernel

theorem file_of_reopenedTexts :
    reopenedTexts.catalog.file? (.file 0) = some { textFile with opening := 1 } := by
  obtain ⟨-, -, -, -, catalog, -⟩ := reopenedTexts_eq
  rw [file_of_single catalog]
  rfl

theorem reopens_texts : reopenedTexts.Reopens flushedTexts := by
  obtain ⟨files, frames, -, -, catalog, wasCatalog⟩ := reopenedTexts_eq
  refine ⟨files, frames, ?_⟩
  intro table file registered
  rw [file_of_single catalog] at registered
  split at registered
  · next same =>
    obtain rfl := Option.some.inj registered
    refine ⟨textFile, ?_, rfl, rfl, rfl⟩
    rw [file_of_single wasCatalog, same]
    rfl
  · contradiction

theorem hospitable_reopenedTexts : reopenedTexts.Hospitable := by
  obtain ⟨-, -, capacity, memory, -, -⟩ := reopenedTexts_eq
  exact ⟨by rw [capacity]; exact Nat.one_pos, Eviction.obliging_of_picks (Or.inr memory)⟩

theorem durable_after_flushAll_of_long_text :
    ((textStore 2 .first).Sound ∧ (textStore 2 .first).pool.frames = [] ∧
      (textStore 2 .first).Hospitable) ∧
    reopenedTexts.Reopens flushedTexts ∧ flushedTexts.Undisturbed (flushedTexts.serve [.ask .evict]) ∧
    ∃ rows, ((flushedTexts.serve [.ask .evict]).respond (.scan (.file 0) none)).1 = .rows (.ok rows) ∧
      (reopenedTexts.respond (.scan (.file 0) none)).1 = .rows (.ok (rows.map Row.kept)) := by
  have sound := sound_textStore 2 .first
  have hospitable : (textStore 2 .first).Hospitable :=
    hospitable_textStore (by decide) (Or.inl rfl)
  have moves : ∀ asked ∈ [Request.ask .evict], asked.Moves := by
    intro asked member
    rw [List.eq_of_mem_singleton member]
    trivial
  have durable := (durable_after_flushAll (ν := Eviction.Oblivious) sound rfl hospitable
    [textInsertion 129]).2.2.2 [.ask .evict] moves
  exact ⟨⟨sound, rfl, hospitable⟩, reopens_texts, durable.1,
    durable.2 reopenedTexts reopens_texts hospitable_reopenedTexts [] (by simp) (.file 0) _ none
      file_of_reopenedTexts⟩

end Store

end PagedStore
