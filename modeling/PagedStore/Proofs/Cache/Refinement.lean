import PagedStore.Proofs.Cache.Rows

/-!
The store refines its reference. Whatever a client asks of a coherent store, and whatever the eviction
policy answers meanwhile, the store does one step of the reference: a fetched page shows what is current
of it, what is current changes only where a row is stored or deleted, where a page without rows is added
and where a page is discarded, and what is durable changes only by copies of what is current. The step
is then carried along every sequence of requests.
-/

namespace PagedStore

/-- What a client can ask of a store. -/
inductive Operation where
  | fetch (id : PageId)
  | insert (transaction : Transaction) (table : TableId) (row : Row)
  | delete (transaction : Transaction) (row : Row)
  | evict
  | flushPage (id : PageId)
  | flushTransaction (transaction : Transaction)
  | flushAll
  | discard (id : PageId)
deriving DecidableEq

inductive Answer where
  | page (page : Page)
  | wasCached (cached : Bool)
  | done
deriving DecidableEq

def Operation.Brings (trait : RowTrait) : Operation → Prop
  | insert _ _ row => trait.holds row.values
  | _ => True

namespace Reference

def writtenWhere (before : Reference) (chosen : PageId → Prop) [DecidablePred chosen] : Reference :=
  { before with durable := fun id => if chosen id then before.current id else before.durable id }

/-- What one request may do to the two maps and what it may answer. `owner` tells the transaction by
which a page is dirty. -/
inductive Step (setting : Setting) (owner : PageId → Option Transaction) (before : Reference) :
    Operation → Except Error Answer → Reference → Prop where
  | fetched {id : PageId} {file : HeapFile} {page : Page} {after : Reference}
      (registered : setting.files id.table = some file) (saved : before.Saved after)
      (named : page.id = id) (shown : before.current id = some page.contents) :
      Step setting owner before (.fetch id) (.ok (.page page)) after
  | notFetched {id : PageId} {cause : Error} {after : Reference}
      (missing : before.Missing setting id cause) (saved : before.Saved after) :
      Step setting owner before (.fetch id) (.error cause) after
  | inserted {transaction : Transaction} {table : TableId} {row : Row} {file : HeapFile}
      {middle : Reference} {number slot : Nat} {page : Page}
      (registered : setting.files table = some file) (fits : row.checkAgainst file.schema = .ok ())
      (grows : before.Grows file middle) (first : file.FirstFree middle.current number slot)
      (named : page.id = file.page number)
      (shown : (middle.placed (file.page number) slot
        (some (row.values.map Value.kept))).current (file.page number) = some page.contents) :
      Step setting owner before (.insert transaction table row) (.ok (.page page))
        (middle.placed (file.page number) slot (some (row.values.map Value.kept)))
  | tableUnknown {transaction : Transaction} {table : TableId} {row : Row} {after : Reference}
      (unknown : setting.files table = none) (saved : before.Saved after) :
      Step setting owner before (.insert transaction table row) (.error (.tableNotFound table)) after
  | notInserted {transaction : Transaction} {table : TableId} {row : Row} {file : HeapFile}
      {cause : Error} {after : Reference} (registered : setting.files table = some file)
      (unstorable : before.Unstorable file row cause) (saved : before.Saved after) :
      Step setting owner before (.insert transaction table row) (.error cause) after
  | noRoom {transaction : Transaction} {table : TableId} {row : Row} {file : HeapFile}
      {after : Reference} (registered : setting.files table = some file)
      (fits : row.checkAgainst file.schema = .ok ()) (unhospitable : ¬ setting.hospitable)
      (grows : before.Grows file after) :
      Step setting owner before (.insert transaction table row) (.error .outOfPages) after
  | deleted {transaction : Transaction} {row : Row} {record : RecordId} {file : HeapFile}
      {contents : Contents} {middle : Reference} {page : Page} (placed : row.record = some record)
      (registered : setting.files record.page.table = some file)
      (there : before.current record.page = some contents)
      (taken : (contents record.slot.toNat).isSome) (saved : before.Saved middle)
      (named : page.id = record.page)
      (shown : (middle.placed record.page record.slot.toNat none).current record.page =
        some page.contents) :
      Step setting owner before (.delete transaction row) (.ok (.page page))
        (middle.placed record.page record.slot.toNat none)
  | notDeleted {transaction : Transaction} {row : Row} {cause : Error} {after : Reference}
      (undeletable : before.Undeletable setting row cause) (saved : before.Saved after) :
      Step setting owner before (.delete transaction row) (.error cause) after
  | evicted (id : PageId) : Step setting owner before .evict (.ok .done) (before.written id)
  | notEvicted : Step setting owner before .evict (.error .outOfPages) before
  | flushedPage (id : PageId) (cached : Bool) :
      Step setting owner before (.flushPage id) (.ok (.wasCached cached)) (before.written id)
  | flushedTransaction (transaction : Transaction) :
      Step setting owner before (.flushTransaction transaction) (.ok .done)
        (before.writtenWhere fun id => owner id = some transaction)
  | flushedAll : Step setting owner before .flushAll (.ok .done)
      (before.writtenWhere fun _ => True)
  | discarded (id : PageId) :
      Step setting owner before (.discard id) (.ok .done) (before.discarded id)

end Reference

namespace Store

variable {μ : Type} {store : Store μ}

theorem id_eq_of_cached (coherent : store.Coherent) {id : PageId} {frame : Frame}
    (cached : store.pool.frame? id = some frame) : frame.page.id = id := by
  rcases (coherent.backed id frame cached).exists_file with ⟨file, registered, owns, -⟩
  exact id_eq_of_owned coherent ⟨file, registered, owns⟩

theorem file_of_single {file : HeapFile} {name : String}
    (catalog : store.catalog = Catalog.empty.add file name) (table : TableId) :
    store.catalog.file? table = if table = file.table then some file else none := by
  rw [Catalog.file?, Catalog.find?, catalog]
  change Option.map _ (List.lookup table [(file.table, Registration.mk name file)]) = _
  rw [Keyed.lookup_cons_eq]
  split <;> rfl

theorem sound_of_single {file : HeapFile} {name : String}
    (catalog : store.catalog = Catalog.empty.add file name) (whole : file.Whole store.disk) :
    store.Sound := by
  intro table other registered
  rw [file_of_single catalog] at registered
  split at registered
  · next same =>
    obtain rfl := Option.some.inj registered
    exact ⟨same.symm, whole⟩
  · contradiction

theorem few_of_single (file : HeapFile) (name : String)
    (catalog : store.catalog = Catalog.empty.add file name)
    (small : file.extent store.disk < 4294967296) : store.Few := by
  intro table other registered
  rw [file_of_single catalog] at registered
  split at registered
  · obtain rfl := Option.some.inj registered
    exact small
  · contradiction

theorem coherent_of_unused (sound : store.Sound) (unused : store.pool.frames = []) :
    store.Coherent ∧ store.current = store.durable := by
  have uncached : ∀ id, store.pool.frame? id = none := by
    intro id
    rw [Pool.frame?, unused]
    rfl
  refine ⟨⟨sound, ?_⟩, funext fun id => current_of_uncached (uncached id)⟩
  intro id frame cached
  rw [uncached id] at cached
  contradiction

theorem keeps_of_unused (unused : store.pool.frames = []) (trait : RowTrait) : store.Keeps trait := by
  intro id frame cached
  rw [Pool.frame?, unused] at cached
  contradiction

theorem durable_decodes (coherent : store.Coherent) (few : store.Few) {id : PageId}
    {file : HeapFile} (registered : store.catalog.file? id.table = some file) :
    (id.number < file.extent store.disk → ∃ page,
        file.pageAt store.disk id.number = .ok page ∧ store.durable id = some page.contents) ∧
      (file.extent store.disk ≤ id.number → store.durable id = none) := by
  rw [← pageCount_eq_extent few registered]
  constructor
  · intro inside
    rcases exists_durable coherent.sound registered inside with ⟨page, found, -, same⟩
    exact ⟨page, found, same⟩
  · exact durable_of_outside registered

variable [EvictionPolicy μ]

def perform : Operation → Action (Store μ) Answer
  | .fetch id => do return .page (← fetch id).page
  | .insert transaction table row => do return .page (← insert transaction table row).page
  | .delete transaction row => do return .page (← delete transaction row).page
  | .evict => do
      evict
      return .done
  | .flushPage id => do return .wasCached (← flushPage id)
  | .flushTransaction transaction => do
      flushTransaction transaction
      return .done
  | .flushAll => do
      flushAll
      return .done
  | .discard id => do
      discard id
      return .done

/-- What a request answers, and the store that it leaves behind. -/
def outcome (store : Store μ) (operation : Operation) : Except Fault Answer × Store μ :=
  Action.outcome (perform operation) store

/-- The store after the requests, whether they succeeded or not. -/
def after (store : Store μ) (operations : List Operation) : Store μ :=
  operations.foldl (fun now operation => (now.outcome operation).2) store

structure Performed (before : Store μ) (operation : Operation) (answer : Except Error Answer)
    (after : Store μ) : Prop extends Lasts before after where
  step : after.Few →
    before.reference.Step before.setting (dirtiedBy? before) operation answer after.reference
  cached : after.Few → ∀ page, answer = .ok (.page page) →
    ∃ id copy, after.pool.frame? id = some ⟨copy, page⟩
  keeps : ∀ trait, operation.Brings trait → before.Keeps trait → after.Keeps trait

abbrev Performs (store : Store μ) (operation : Operation) : Prop :=
  Action.Ends (perform operation) store
    (fun answer after => Performed store operation (.ok answer) after)
    fun fault after => ∃ cause, fault = .error cause ∧
      Performed store operation (.error cause) after

theorem performed_of_saves {operation : Operation} {answer : Except Error Answer}
    {after : Store μ} (saves : Saves store after)
    (step : after.Few →
      store.reference.Step store.setting (dirtiedBy? store) operation answer after.reference)
    (cached : ∀ page, answer = .ok (.page page) →
      ∃ id copy, after.pool.frame? id = some ⟨copy, page⟩) :
    Performed store operation answer after :=
  ⟨lasts_of_saves saves, step, fun _ => cached, fun trait _ => saves.keeps trait⟩

theorem performs_fetch (coherent : store.Coherent) (id : PageId) : store.Performs (.fetch id) := by
  unfold Performs perform
  rw [Action.ends_bind]
  apply Action.ends_imp (fetch_ends coherent id)
  · rintro frame after ⟨saves, cached⟩
    apply performed_of_saves saves
    · intro few
      rcases (saves.coherent.backed id frame cached).exists_file with ⟨file, found, -⟩
      have registered : store.catalog.file? id.table = some file := saves.catalog_eq ▸ found
      have shown : store.current id = some frame.page.contents := by
        rw [← saves.current_eq]
        exact current_of_present cached (present_of_cached saves.coherent few cached)
      exact .fetched registered (saved_of_saves saves) (id_eq_of_cached saves.coherent cached) shown
    · rintro page answered
      obtain rfl : frame.page = page := by simpa using answered
      exact ⟨id, frame.copy, cached⟩
  · rintro fault after ⟨cause, rfl, missing, saves⟩
    refine ⟨cause, rfl,
      performed_of_saves saves (fun _ => .notFetched missing (saved_of_saves saves)) ?_⟩
    intro page answered
    contradiction

theorem performs_insert (coherent : store.Coherent) (transaction : Transaction) (table : TableId)
    (row : Row) : store.Performs (.insert transaction table row) := by
  unfold Performs perform
  rw [Action.ends_bind]
  apply Action.ends_imp (insert_ends coherent transaction table row)
  · rintro frame after ⟨lasts, keeps, inserted⟩
    refine ⟨lasts, fun few => ?_, fun few => ?_, fun trait brings => keeps trait brings⟩
    · obtain ⟨file, middle, number, slot, registered, fits, grown, first, changed⟩ := inserted few
      have shown : after.reference.current (file.page number) = some frame.page.contents :=
        current_of_present changed.cached (present_of_cached lasts.coherent few changed.cached)
      rw [changed.reference_eq] at shown ⊢
      exact .inserted registered fits grown.grows first
        (id_eq_of_cached changed.coherent changed.cached) shown
    · obtain ⟨file, middle, number, slot, -, -, -, -, changed⟩ := inserted few
      rintro page answered
      obtain rfl : frame.page = page := by simpa using answered
      exact ⟨_, frame.copy, changed.cached⟩
  · rintro fault after ⟨cause, rfl, carries, refused⟩
    refine ⟨cause, rfl, carries.toLasts, fun few => ?_, fun _ page answered => ?_,
      fun trait _ => carries.keeps trait⟩
    · cases refused few with
      | table unknown saves => exact .tableUnknown unknown (saved_of_saves saves)
      | row registered notStored =>
        cases notStored with
        | unstorable unstorable saves =>
          exact .notInserted registered unstorable (saved_of_saves saves)
        | room fits unhospitable grown => exact .noRoom registered fits unhospitable grown.grows
    · contradiction

theorem performs_delete (coherent : store.Coherent) (transaction : Transaction) (row : Row) :
    store.Performs (.delete transaction row) := by
  unfold Performs perform
  rw [Action.ends_bind]
  apply Action.ends_imp (delete_ends coherent transaction row)
  · rintro frame after ⟨carries, deleted⟩
    have earlier := few_of_lasts carries.toLasts
    refine ⟨carries.toLasts, fun few => ?_, fun few => ?_, fun trait _ => carries.keeps trait⟩
    · obtain ⟨record, file, middle, contents, placed, registered, there, taken, saves, changed⟩ :=
        deleted (earlier few)
      have shown : after.reference.current record.page = some frame.page.contents :=
        current_of_present changed.cached (present_of_cached carries.coherent few changed.cached)
      rw [changed.reference_eq] at shown ⊢
      exact .deleted placed registered there taken (saved_of_saves saves)
        (id_eq_of_cached changed.coherent changed.cached) shown
    · obtain ⟨record, file, middle, contents, -, -, -, -, -, changed⟩ := deleted (earlier few)
      intro page answered
      obtain rfl : frame.page = page := by simpa using answered
      exact ⟨_, frame.copy, changed.cached⟩
  · rintro fault after ⟨cause, rfl, saves, undeletable⟩
    refine ⟨cause, rfl, performed_of_saves saves (fun few => ?_) ?_⟩
    · exact .notDeleted (undeletable ((few_iff_of_saves saves).mp few)) (saved_of_saves saves)
    · intro page answered
      contradiction

theorem performs_evict (coherent : store.Coherent) : store.Performs .evict := by
  unfold Performs perform
  rw [Action.ends_bind]
  apply Action.ends_imp (evict_ends coherent)
  · rintro _ after ⟨id, saves, durable, -⟩
    apply performed_of_saves saves
    · have written : after.reference = store.reference.written id := by
        rw [reference, durable, saves.current_eq]
        rfl
      exact fun _ => written ▸ .evicted id
    · intro page answered
      cases answered
  · rintro fault after ⟨rfl, -, saves, durable⟩
    refine ⟨_, rfl, performed_of_saves saves ?_ ?_⟩
    · have same : after.reference = store.reference := by
        rw [reference, durable, saves.current_eq]
        rfl
      exact fun _ => same ▸ .notEvicted
    · intro page answered
      contradiction

theorem performs_flushPage (coherent : store.Coherent) (id : PageId) :
    store.Performs (.flushPage id) := by
  unfold Performs perform
  rw [Action.ends_bind]
  apply Action.ends_of_never_fails (flushPage_ends coherent id)
  rintro cached after ⟨-, back⟩
  apply performed_of_saves back.saves
  · have written : after.reference = store.reference.written id := by
      rw [reference, back.durable_eq, back.saves.current_eq]
      rfl
    exact fun _ => written ▸ .flushedPage id cached
  · intro page answered
    cases answered

theorem performs_flushTransaction (coherent : store.Coherent) (transaction : Transaction) :
    store.Performs (.flushTransaction transaction) := by
  unfold Performs perform
  rw [Action.ends_bind]
  apply Action.ends_of_never_fails (flushTransaction_ends coherent transaction)
  rintro _ after ⟨saves, durable⟩
  apply performed_of_saves saves
  · have written : after.reference =
        store.reference.writtenWhere fun id => dirtiedBy? store id = some transaction := by
      rw [reference, durable, saves.current_eq]
      rfl
    exact fun _ => written ▸ .flushedTransaction transaction
  · intro page answered
    cases answered

theorem performs_flushAll (coherent : store.Coherent) : store.Performs .flushAll := by
  unfold Performs perform
  rw [Action.ends_bind]
  apply Action.ends_of_never_fails (flushAll_ends coherent)
  rintro _ after ⟨saves, durable⟩
  apply performed_of_saves saves
  · have written : after.reference = store.reference.writtenWhere fun _ => True := by
      rw [reference, durable, saves.current_eq, Reference.writtenWhere]
      simp only [if_true]
      rfl
    exact fun _ => written ▸ .flushedAll
  · intro page answered
    cases answered

theorem performs_discard (coherent : store.Coherent) (id : PageId) :
    store.Performs (.discard id) := by
  unfold Performs perform
  rw [Action.ends_bind]
  apply Action.ends_of_never_fails (discard_ends coherent id)
  rintro _ after ⟨coherentAfter, catalog, follows, disk, discarded, keeps⟩
  have lasts : Lasts store after :=
    ⟨coherentAfter, catalog, follows, fun _ => Nat.le_of_eq (disk ▸ rfl)⟩
  refine ⟨lasts, fun _ => discarded ▸ .discarded id, ?_, fun trait _ => keeps trait⟩
  intro _ page answered
  cases answered

/-- Every request to a coherent store is one step of its reference. -/
theorem performs (coherent : store.Coherent) (operation : Operation) :
    store.Performs operation := by
  cases operation with
  | fetch id => exact performs_fetch coherent id
  | insert transaction table row => exact performs_insert coherent transaction table row
  | delete transaction row => exact performs_delete coherent transaction row
  | evict => exact performs_evict coherent
  | flushPage id => exact performs_flushPage coherent id
  | flushTransaction transaction => exact performs_flushTransaction coherent transaction
  | flushAll => exact performs_flushAll coherent
  | discard id => exact performs_discard coherent id

theorem performed_outcome (coherent : store.Coherent) (operation : Operation) :
    ∃ answer : Except Error Answer, (store.outcome operation).1 = answer.mapError Fault.error ∧
      Performed store operation answer (store.outcome operation).2 := by
  rcases Action.outcome_of_ends (performs coherent operation) with
    ⟨answer, answered, performed⟩ | ⟨fault, refused, cause, isError, performed⟩
  · exact ⟨.ok answer, answered, performed⟩
  · exact ⟨.error cause, refused.trans (congrArg Except.error isError), performed⟩

theorem lasts_outcome (coherent : store.Coherent) (operation : Operation) :
    Lasts store (store.outcome operation).2 := by
  obtain ⟨answer, -, performed⟩ := performed_outcome coherent operation
  exact performed.toLasts

theorem after_append (store : Store μ) (operations : List Operation) (operation : Operation) :
    store.after (operations ++ [operation]) = ((store.after operations).outcome operation).2 := by
  rw [after, List.foldl_append]
  rfl

theorem lasts_refl (coherent : store.Coherent) : Lasts store store :=
  ⟨coherent, rfl, Pool.follows_refl _, fun _ => Nat.le_refl _⟩

theorem lasts_after (coherent : store.Coherent) (operations : List Operation) :
    Lasts store (store.after operations) := by
  induction operations generalizing store with
  | nil => exact lasts_refl coherent
  | cons operation rest ih =>
    have first := lasts_outcome coherent operation
    exact lasts_trans first (ih first.coherent)

/-- A store that begins without cached pages refines its reference, after every sequence of requests
and for the next request, whatever it is, as long as its files have fewer than 2^32 pages. The catalog,
the capacity and the policy are arbitrary. -/
theorem refines_reference (sound : store.Sound) (unused : store.pool.frames = []) :
    store.reference.current = store.reference.durable ∧
      ∀ operations : List Operation, (store.after operations).catalog = store.catalog ∧
        ((store.after operations).Few → ∀ id file, store.catalog.file? id.table = some file →
          (id.number < file.extent (store.after operations).disk → ∃ page,
            file.pageAt (store.after operations).disk id.number = .ok page ∧
              (store.after operations).reference.durable id = some page.contents) ∧
          (file.extent (store.after operations).disk ≤ id.number →
            (store.after operations).reference.durable id = none)) ∧
        ∀ operation : Operation, (store.after (operations ++ [operation])).Few →
          ∃ answer : Except Error Answer,
            ((store.after operations).outcome operation).1 = answer.mapError Fault.error ∧
            (store.after operations).reference.Step (store.after operations).setting
              (dirtiedBy? (store.after operations)) operation answer
              (store.after (operations ++ [operation])).reference := by
  rcases coherent_of_unused sound unused with ⟨coherent, same⟩
  refine ⟨same, ?_⟩
  intro operations
  have lasts := lasts_after coherent operations
  refine ⟨lasts.catalog_eq, ?_, ?_⟩
  · intro few id file registered
    exact durable_decodes lasts.coherent few (lasts.catalog_eq.symm ▸ registered)
  · intro operation few
    rcases performed_outcome lasts.coherent operation with ⟨answer, answered, performed⟩
    rw [after_append] at few ⊢
    exact ⟨answer, answered, performed.step few⟩

/-- One table of integers with one page, which holds a single row. -/
def oneRowFile : HeapFile := ⟨0, 0, Schema.single (.named "a" .integer), 16⟩

def oneRowStore : Store Eviction.Oblivious where
  disk := ⟨[⟨"a.dat", .ofBytes ([1, 7, 0, 0, 0] ++ List.replicate 11 0)⟩], [Traffic.none]⟩
  catalog := Catalog.empty.add oneRowFile "a"
  pool := Pool.empty 1 .refusing Listing.byArrival

theorem arity_oneRowFile (number : Int32) :
    [Value.integer number].length = oneRowFile.schema.arity := rfl

def integerRow (number : Int32) : Row :=
  ⟨oneRowFile.schema, [.integer number], arity_oneRowFile number, none⟩

theorem whole_oneRowFile : oneRowFile.Whole oneRowStore.disk := by
  refine ⟨by decide, by decide, ?_⟩
  intro number inside
  have count : oneRowFile.extent oneRowStore.disk = 1 := by decide
  obtain rfl : number = 0 := by omega
  exact ⟨_, rfl⟩

theorem refines_reference_of_one_row :
    oneRowStore.Sound ∧ oneRowStore.pool.frames = [] ∧
      (oneRowStore.after [.fetch ⟨.file 0, 0⟩, .insert ⟨1⟩ (.file 0) (integerRow 8)]).Few ∧
      oneRowStore.reference.current = oneRowStore.reference.durable ∧
      ∃ answer : Except Error Answer,
        ((oneRowStore.after [.fetch ⟨.file 0, 0⟩]).outcome
          (.insert ⟨1⟩ (.file 0) (integerRow 8))).1 = answer.mapError Fault.error ∧
        (oneRowStore.after [.fetch ⟨.file 0, 0⟩]).reference.Step
          (oneRowStore.after [.fetch ⟨.file 0, 0⟩]).setting
          (dirtiedBy? (oneRowStore.after [.fetch ⟨.file 0, 0⟩]))
          (.insert ⟨1⟩ (.file 0) (integerRow 8)) answer
          (oneRowStore.after [.fetch ⟨.file 0, 0⟩, .insert ⟨1⟩ (.file 0) (integerRow 8)]).reference :=
  have sound : oneRowStore.Sound := sound_of_single rfl whole_oneRowFile
  have few : (oneRowStore.after
      [.fetch ⟨.file 0, 0⟩, .insert ⟨1⟩ (.file 0) (integerRow 8)]).Few :=
    few_of_single _ _ rfl (by decide)
  have refines := refines_reference sound rfl
  ⟨sound, rfl, few, refines.1, (refines.2 [.fetch ⟨.file 0, 0⟩]).2.2 _ few⟩

/-- A table of integers with 2^32 pages of one slot each, of which only the first holds a row. The file
tells that it has no page. -/
def wideFile : HeapFile := ⟨0, 0, oneRowFile.schema, 5⟩

def wideStore : Store Eviction.Oblivious where
  disk := ⟨[⟨"a.dat", ⟨[1, 7], 21474836478, by decide⟩⟩], [Traffic.none]⟩
  catalog := Catalog.empty.add wideFile "a"
  pool := Pool.empty 1 .first Listing.byArrival

theorem whole_wideFile : wideFile.Whole wideStore.disk :=
  HeapFile.whole_of_first (by decide) ⟨4294967296, by decide⟩ (by decide) ⟨_, rfl⟩

theorem onPage_wideStore {number : Nat} (behind : number ≠ 0) (inside : number < 4294967296) :
    wideStore.onPage (wideFile.page number) = some Contents.blank := by
  have own : (wideFile.page number).number = number := wideFile.number_page inside
  have within : number < wideFile.extent wideStore.disk := inside
  have empty : wideFile.pageAt wideStore.disk number =
      .ok (Page.empty (wideFile.page number) wideFile.schema wideFile.pageSize) :=
    HeapFile.pageAt_of_short ⟨4294967296, by decide⟩ (by decide) behind within
  have registered : wideStore.catalog.file? (wideFile.page number).table = some wideFile := rfl
  rw [onPage_of_pageAt rfl registered (own.symm ▸ within) (own.symm ▸ empty), Page.contents_empty]

/-- An insertion that fails has put an empty page over the first page of the table, whose row is lost
when the page leaves the memory. -/
theorem row_lost_behind_refused_insertion :
    wideStore.Sound ∧ wideStore.pool.frames = [] ∧
      (∃ page, (wideStore.outcome (.fetch ⟨.file 0, 0⟩)).1 = .ok (.page page) ∧
        page.rows.map Row.values = [[.integer 7]]) ∧
      ((wideStore.after [.fetch ⟨.file 0, 0⟩]).outcome (.insert ⟨1⟩ (.file 0) (integerRow 8))).1 =
        .error (.error (.pageFull ⟨.file 0, 0⟩)) ∧
      ∃ page, ((wideStore.after [.fetch ⟨.file 0, 0⟩, .insert ⟨1⟩ (.file 0) (integerRow 8),
        .evict]).outcome (.fetch ⟨.file 0, 0⟩)).1 = .ok (.page page) ∧ page.rows = [] :=
  ⟨sound_of_single rfl whole_wideFile, rfl, ⟨_, rfl, by decide⟩, by decide +kernel, ⟨_, rfl, by decide⟩⟩

end Store

end PagedStore
