import PagedStore.Proofs.Copy.SelfCopy

/-!
Where a row is stored, and how many pages a table takes. A row goes to the least vacant position of its
table, in the order of pages and then of slots, wherever the pages are; only if there is none, one page is
added and the row goes to its first slot. Nothing else changes in what the pages show. A page is therefore
added only when there come to be more rows than fit on the pages so far, and a table that was empty has as
many pages as the most rows that it ever had at once need.
-/

namespace PagedStore

namespace HeapFile

variable {heap : HeapFile} {current : PageId → Option Contents} {number slot : Nat}

def Vacant (heap : HeapFile) (current : PageId → Option Contents) (number slot : Nat) : Prop :=
  slot < heap.slotCount ∧ ∃ contents, current (heap.page number) = some contents ∧
    contents slot = none

structure LeastVacant (heap : HeapFile) (current : PageId → Option Contents) (number slot : Nat) :
    Prop where
  vacant : heap.Vacant current number slot
  least : ∀ otherNumber otherSlot, heap.Vacant current otherNumber otherSlot →
    number < otherNumber ∨ number = otherNumber ∧ slot ≤ otherSlot

/-- A page with a vacant position is not full. -/
theorem not_full_of_vacant (vacant : heap.Vacant current number slot) {contents : Contents}
    (shown : current (heap.page number) = some contents) : ¬contents.Full heap.slotCount := by
  obtain ⟨inside, other, found, free⟩ := vacant
  obtain rfl := Option.some.inj (shown.symm.trans found)
  intro full
  have taken := full slot inside
  rw [free] at taken
  contradiction

theorem leastVacant_of_firstFree (first : heap.FirstFree current number slot) :
    heap.LeastVacant current number slot := by
  obtain ⟨contents, there, opens⟩ := first.opens
  refine ⟨⟨opens.inside, contents, there, opens.free⟩, ?_⟩
  intro otherNumber otherSlot vacant
  rcases Nat.lt_trichotomy number otherNumber with before | rfl | behind
  · exact Or.inl before
  · obtain ⟨otherContents, found, free⟩ := vacant.2
    obtain rfl := Option.some.inj (there.symm.trans found)
    refine Or.inr ⟨rfl, Nat.le_of_not_lt fun earlier => ?_⟩
    have taken := opens.taken otherSlot earlier
    rw [free] at taken
    contradiction
  · obtain ⟨contents, shown, full⟩ := first.full otherNumber behind
    exact absurd full (not_full_of_vacant vacant shown)

end HeapFile

namespace Reference

variable {before after : Reference} {file : HeapFile} {count number slot : Nat}

theorem not_vacant_of_full (spans : before.Spans file count) (full : before.FullBefore file count) :
    ¬∃ number slot, file.Vacant before.current number slot := by
  rintro ⟨number, slot, vacant⟩
  obtain ⟨contents, found, -⟩ := vacant.2
  have small := Nat.mod_lt number (Nat.two_pow_pos 32)
  have present : (before.current (file.page (number % 4294967296))).isSome := by
    rw [file.page_mod, found]
    rfl
  obtain ⟨fullContents, shown, isFull⟩ := full _ ((spans.isSome_iff _ small).mp present)
  rw [file.page_mod] at shown
  exact HeapFile.not_full_of_vacant vacant shown isFull

/-- If all pages have been full, the first free slot is the first one of the page that was added. -/
theorem firstFree_of_appended (slots : file.slotCount ≠ 0) (small : count < 4294967296)
    (full : before.FullBefore file count)
    (same : after.current = (before.appended (file.page count)).current)
    (first : file.FirstFree after.current number slot) : number = count ∧ slot = 0 := by
  apply HeapFile.firstFree_unique first
  rw [same]
  refine ⟨?_, Contents.blank, Function.update_self .., Contents.opens_blank (Nat.pos_of_ne_zero slots)⟩
  intro earlier sooner
  have differs : file.page earlier ≠ file.page count := fun samePage =>
    Nat.ne_of_lt sooner (HeapFile.page_injective (Nat.lt_trans sooner small) small samePage)
  rw [appended]
  dsimp only
  rw [Function.update_of_ne differs]
  exact full earlier sooner

theorem spans_appended (spans : before.Spans file count) (room : count + 1 < 4294967296) :
    (before.appended (file.page count)).Spans file (count + 1) := by
  refine ⟨room, fun number small => ?_⟩
  rw [appended]
  dsimp only
  by_cases last : number = count
  · subst last
    rw [Function.update_self]
    exact ⟨fun _ => Nat.lt_succ_self _, fun _ => rfl⟩
  · rw [Function.update_of_ne fun same => last (HeapFile.page_injective small spans.count_lt same),
      spans.isSome_iff number small]
    omega

/-- A request that does not store a row in the file neither adds a page to it nor takes one away. -/
theorem isSome_of_step {setting : Setting} {owner : PageId → Option Transaction}
    {operation : Operation} {answer : Except Error Answer} (hospitable : setting.hospitable)
    (named : ∀ table other, setting.files table = some other → other.table = table)
    (registered : setting.files file.table = some file)
    (durable : ∀ number, (before.durable (file.page number)).isSome =
      (before.current (file.page number)).isSome)
    (step : before.Step setting owner operation answer after)
    (elsewhere : ∀ transaction row, operation = .insert transaction file.table row →
      row.checkAgainst file.schema ≠ .ok ()) (number : Nat) :
    (after.current (file.page number)).isSome = (before.current (file.page number)).isSome := by
  cases step with
  | fetched _ saved | notFetched _ saved | tableUnknown _ saved | notInserted _ _ saved
  | notDeleted _ saved => rw [saved.current_eq]
  | @inserted transaction table row other middle _ _ _ found fits grows =>
    rw [isSome_placed]
    by_cases same : table = file.table
    · subst same
      obtain rfl := Option.some.inj (registered.symm.trans found)
      exact absurd fits (elsewhere transaction row rfl)
    · have differs : (file.page number).table ≠ other.table := fun equal =>
        same ((named table other found).symm.trans equal.symm)
      rw [Store.current_of_grows_of_ne grows differs]
  | noRoom _ _ unhospitable => exact absurd hospitable unhospitable
  | deleted _ _ _ _ saved => rw [isSome_placed, saved.current_eq]
  | evicted | notEvicted | flushedPage | flushedTransaction | flushedAll => rfl
  | discarded id =>
    rw [Reference.discarded]
    dsimp only
    by_cases same : file.page number = id
    · rw [← same, Function.update_self, durable]
    · rw [Function.update_of_ne same]

end Reference

namespace Store

variable {μ : Type} {store after origin : Store μ} {file : HeapFile}

structure StoredAt (before : Store μ) (file : HeapFile) (transaction : Transaction) (row : Row)
    (number slot : Nat) (page : Page) (after : Store μ) : Prop where
  page_id : page.id = file.page number
  cached : ∃ copy, after.pool.frame? (file.page number) = some ⟨copy, page⟩
  dirtiedBy_eq : page.dirtiedBy = some transaction
  /-- A page that was not there before had no rows. -/
  stored : after.current (file.page number) = some (Function.update
    ((before.current (file.page number)).getD Contents.blank) slot
    (some (row.values.map Value.kept)))
  elsewhere : ∀ id, id ≠ file.page number → after.current id = before.current id
  pageCount_other : ∀ other : HeapFile, before.catalog.file? other.table = some other →
    other.table ≠ file.table → other.pageCount after.disk = other.pageCount before.disk

/-- The row has gone to the least vacant position, or to a page added behind the last one because no
position was vacant. -/
structure FirstFit (before : Store μ) (file : HeapFile) (transaction : Transaction) (row : Row)
    (number slot : Nat) (page : Page) (after : Store μ) : Prop
    extends StoredAt before file transaction row number slot page after where
  reuses : (∃ number slot, file.Vacant before.current number slot) →
    file.LeastVacant before.current number slot ∧
      file.pageCount after.disk = file.pageCount before.disk
  grows : (¬∃ number slot, file.Vacant before.current number slot) →
    number = file.pageCount before.disk ∧ slot = 0 ∧
      file.pageCount after.disk = file.pageCount before.disk + 1

theorem pageCount_of_spans (coherent : store.Coherent)
    (registered : store.catalog.file? file.table = some file) {count : Nat}
    (spans : store.reference.Spans file count) : file.pageCount store.disk = count :=
  Reference.spans_unique (spans_pageCount coherent.sound registered) spans

theorem pageCount_of_isSome (coherent : store.Coherent) (coherentAfter : after.Coherent)
    (catalog : after.catalog = store.catalog)
    (registered : store.catalog.file? file.table = some file)
    (same : ∀ number, (after.current (file.page number)).isSome =
      (store.current (file.page number)).isSome) :
    file.pageCount after.disk = file.pageCount store.disk := by
  apply pageCount_of_spans coherentAfter (catalog ▸ registered)
  have now := spans_pageCount coherent.sound registered
  exact ⟨now.count_lt, fun number small =>
    (Bool.eq_iff_iff.mp (same number)).trans (now.isSome_iff number small)⟩

theorem rowCount_le (store : Store μ) (file : HeapFile) :
    store.rowCount file ≤ file.pageCount store.disk * file.slotCount :=
  Nat.count_le _

/-- A file without a vacant position holds a row in each of its cells. -/
theorem cell_ne_none_of_full (coherent : store.Coherent)
    (registered : store.catalog.file? file.table = some file)
    (full : ¬∃ number slot, file.Vacant store.current number slot) {index : Nat}
    (inside : index < file.pageCount store.disk * file.slotCount) :
    file.cell store.current index ≠ none := by
  have positive : 0 < file.slotCount :=
    Nat.pos_of_ne_zero fun none => by simp [none] at inside
  have inFile : index / file.slotCount < file.pageCount store.disk :=
    (Nat.div_lt_iff_lt_mul positive).mpr inside
  have small := Nat.lt_trans inFile (file.pageCount_lt store.disk)
  obtain ⟨contents, there⟩ := Option.isSome_iff_exists.mp
    (((spans_pageCount coherent.sound registered).isSome_iff _ small).mpr inFile)
  have shown : store.current (file.page (index / file.slotCount)) = some contents := there
  rw [HeapFile.cell_of_small small, shown]
  exact fun free => full ⟨_, _, Nat.mod_lt index positive, contents, shown, free⟩

/-- If no position was vacant, the table has more rows now than its pages had slots before. -/
theorem lt_rowCount_of_firstFit (coherent : store.Coherent)
    (registered : store.catalog.file? file.table = some file) (slots : file.slotCount ≠ 0)
    {transaction : Transaction} {row : Row} {number slot : Nat} {page : Page}
    (fit : FirstFit store file transaction row number slot page after)
    (full : ¬∃ number slot, file.Vacant store.current number slot) :
    file.pageCount store.disk * file.slotCount < after.rowCount file := by
  obtain ⟨rfl, rfl, more⟩ := fit.grows full
  have positive := Nat.pos_of_ne_zero slots
  have last := file.pageCount_lt store.disk
  have taken : ∀ index < file.pageCount store.disk * file.slotCount + 1,
      file.cell after.current index ≠ none := by
    intro index inside
    rcases Nat.lt_or_eq_of_le (Nat.le_of_lt_succ inside) with before | rfl
    · have inFile := (Nat.div_lt_iff_lt_mul positive).mpr before
      have small := Nat.lt_trans inFile last
      have differs : file.page (index / file.slotCount) ≠
          file.page (file.pageCount store.disk) := fun same =>
        Nat.ne_of_lt inFile (HeapFile.page_injective small last same)
      rw [HeapFile.cell_of_small small, fit.elsewhere _ differs, ← HeapFile.cell_of_small small]
      exact cell_ne_none_of_full coherent registered full before
    · have first : file.cell after.current (file.cellIndex (file.pageCount store.disk) 0) ≠ none := by
        rw [HeapFile.cell_cellIndex last positive, fit.stored, Option.bind_some, Function.update_self]
        exact Option.some_ne_none _
      exact first
  have all := Nat.count_iff_forall.mpr taken
  rw [rowCount, Layout.rowCount, ← Nat.succ_le_iff, ← Nat.add_one, ← all]
  apply Nat.count_monotone
  rw [cellCount, more, Nat.succ_mul]
  exact Nat.add_le_add_left positive _

/-- So many rows need so many pages, if they fit on them and not on one page less. -/
theorem eq_div_of_fits {pages rows slots : Nat} (positive : 0 < slots) (room : rows ≤ pages * slots)
    (needed : pages = 0 ∨ (pages - 1) * slots < rows) : pages = (rows + slots - 1) / slots := by
  symm
  cases pages with
  | zero => exact Nat.div_eq_of_lt (by omega)
  | succ last =>
    have more : last * slots < rows := needed.resolve_left (Nat.succ_ne_zero last)
    apply Nat.div_eq_of_lt_le
    · rw [Nat.succ_mul]
      omega
    · rw [Nat.succ_mul]
      omega

variable [EvictionPolicy μ]

section Inserted

variable {middle : Store μ} {number slot : Nat} {row : Row} {transaction : Transaction}
  {frame : Frame}

theorem current_of_changed (changed : Changed middle (file.page number) slot
    (row.stamped (RecordId.ofSlot (file.page number) slot)) transaction frame after) :
    after.current = (middle.reference.placed (file.page number) slot
      (some (row.values.map Value.kept))).current :=
  congrArg Reference.current changed.reference_eq

theorem isSome_current_of_changed (changed : Changed middle (file.page number) slot
    (row.stamped (RecordId.ofSlot (file.page number) slot)) transaction frame after) (id : PageId) :
    (after.current id).isSome = (middle.current id).isSome := by
  rw [current_of_changed changed]
  exact Reference.isSome_placed id

/-- What a row that has been stored leaves as it was, whether or not a page has been added for it. -/
theorem storedAt_of_changed (coherent : store.Coherent) (grown : Grown store file middle)
    (changed : Changed middle (file.page number) slot
      (row.stamped (RecordId.ofSlot (file.page number) slot)) transaction frame after)
    (before : middle.current (file.page number) =
      some ((store.current (file.page number)).getD Contents.blank))
    (elsewhere : ∀ id, id ≠ file.page number → middle.current id = store.current id) :
    StoredAt store file transaction row number slot frame.page after := by
  have current := current_of_changed changed
  have unchanged : ∀ id, id ≠ file.page number → after.current id = store.current id := by
    intro id differs
    rw [current, ← elsewhere id differs]
    exact Function.update_of_ne differs ..
  refine ⟨id_eq_of_cached changed.coherent changed.cached, ⟨frame.copy, changed.cached⟩,
    changed.dirtiedBy_eq, ?_, unchanged, ?_⟩
  · rw [current, Reference.placed]
    dsimp only
    rw [Function.update_self]
    exact congrArg (Option.map _) before
  · intro other registered differs
    apply pageCount_of_isSome coherent changed.coherent
      (changed.catalog_eq.trans grown.catalog_eq) registered
    intro page
    rw [unchanged _ fun same => differs (congrArg PageId.table same)]

/-- A row on a page that was there is at the least vacant position. -/
theorem firstFit_of_saved (coherent : store.Coherent)
    (registered : store.catalog.file? file.table = some file) (grown : Grown store file middle)
    (changed : Changed middle (file.page number) slot
      (row.stamped (RecordId.ofSlot (file.page number) slot)) transaction frame after)
    (first : file.FirstFree middle.current number slot)
    (saved : store.reference.Saved middle.reference) :
    FirstFit store file transaction row number slot frame.page after := by
  have same : middle.current = store.current := saved.current_eq
  obtain ⟨contents, there, opens⟩ := first.opens
  rw [same] at first there
  have stored : StoredAt store file transaction row number slot frame.page after := by
    refine storedAt_of_changed coherent grown changed ?_ fun id _ => by rw [same]
    rw [same, there]
    rfl
  have least := HeapFile.leastVacant_of_firstFree first
  refine ⟨stored, fun _ => ⟨least, ?_⟩, fun none => absurd ⟨_, _, least.vacant⟩ none⟩
  apply pageCount_of_isSome coherent changed.coherent
    (changed.catalog_eq.trans grown.catalog_eq) registered
  intro page
  rw [isSome_current_of_changed changed, same]

/-- A row on a page that has been added is in its first slot, and no position was vacant. -/
theorem firstFit_of_appended (coherent : store.Coherent)
    (registered : store.catalog.file? file.table = some file) (slots : file.slotCount ≠ 0)
    (grown : Grown store file middle)
    (changed : Changed middle (file.page number) slot
      (row.stamped (RecordId.ofSlot (file.page number) slot)) transaction frame after)
    (first : file.FirstFree middle.current number slot)
    (full : store.reference.FullBefore file (file.pageCount store.disk))
    (saved : (store.reference.appended (file.page (file.pageCount store.disk))).Saved
      middle.reference) :
    FirstFit store file transaction row number slot frame.page after := by
  have spans := spans_pageCount coherent.sound registered
  have registeredAfter : after.catalog.file? file.table = some file := by
    rw [changed.catalog_eq, grown.catalog_eq]
    exact registered
  have same : middle.current =
      (store.reference.appended (file.page (file.pageCount store.disk))).current :=
    saved.current_eq
  have blank : middle.current (file.page (file.pageCount store.disk)) = some Contents.blank := by
    rw [same]
    exact Function.update_self ..
  obtain ⟨rfl, rfl⟩ :=
    Reference.firstFree_of_appended slots spans.count_lt full saved.current_eq first
  have absent : store.current (file.page (file.pageCount store.disk)) = none := by
    rw [← Option.not_isSome_iff_eq_none]
    exact fun there => Nat.lt_irrefl _ ((spans.isSome_iff _ spans.count_lt).mp there)
  have stored : StoredAt store file transaction row (file.pageCount store.disk) 0 frame.page
      after := by
    refine storedAt_of_changed coherent grown changed ?_ fun id differs => ?_
    · rw [blank, absent]
      rfl
    · rw [same]
      exact Function.update_of_ne differs ..
  refine ⟨stored, fun room => absurd room (Reference.not_vacant_of_full spans full),
    fun _ => ⟨rfl, rfl, pageCount_of_spans changed.coherent registeredAfter ?_⟩⟩
  have added : (after.current (file.page (file.pageCount store.disk))).isSome := by
    rw [isSome_current_of_changed changed, blank]
    rfl
  have room : file.pageCount store.disk + 1 < 4294967296 := by
    have spansAfter := spans_pageCount changed.coherent.sound registeredAfter
    exact Nat.lt_of_le_of_lt ((spansAfter.isSome_iff _ spans.count_lt).mp added)
      spansAfter.count_lt
  have spansMiddle := Reference.spans_appended spans room
  refine ⟨room, fun page small => ?_⟩
  rw [← spansMiddle.isSome_iff page small, ← same]
  exact Bool.eq_iff_iff.mp (isSome_current_of_changed changed _)

theorem firstFit_of_inserted (coherent : store.Coherent)
    (registered : store.catalog.file? file.table = some file) (slots : file.slotCount ≠ 0)
    (inserted : Inserted store file.table row transaction frame after) :
    ∃ number slot, FirstFit store file transaction row number slot frame.page after := by
  obtain ⟨other, middle, number, slot, found, -, grown, first, changed⟩ := inserted.exists_place
  obtain rfl : file = other := Option.some.inj (registered.symm.trans found)
  refine ⟨number, slot, ?_⟩
  cases grown.grows with
  | saved saved => exact firstFit_of_saved coherent registered grown changed first saved
  | appended spans full saved =>
    obtain rfl := Reference.spans_unique (spans_pageCount coherent.sound registered) spans
    exact firstFit_of_appended coherent registered slots grown changed first full saved

end Inserted

/-- A row that fits is stored where it fits first. -/
theorem outcome_insert (coherent : store.Coherent) (hospitable : store.Hospitable)
    (registered : store.catalog.file? file.table = some file) (slots : file.slotCount ≠ 0)
    {row : Row} (fits : row.checkAgainst file.schema = .ok ()) (transaction : Transaction)
    (few : (store.outcome (.insert transaction file.table row)).2.Few) :
    ∃ number slot page,
      (store.outcome (.insert transaction file.table row)).1 = .ok (.page page) ∧
        FirstFit store file transaction row number slot page
          (store.outcome (.insert transaction file.table row)).2 := by
  have stores : Action.Ends (perform (.insert transaction file.table row)) store
      (fun answer after => after.Few → ∃ number slot page, answer = .page page ∧
        FirstFit store file transaction row number slot page after) fun _ after => ¬ after.Few := by
    unfold perform
    rw [Action.ends_bind]
    apply Action.ends_imp (insert_ends_of_fits coherent registered slots fits transaction)
    · rintro frame after ⟨-, -, inserted⟩ fewNow
      obtain ⟨number, slot, firstFit⟩ :=
        firstFit_of_inserted coherent registered slots (inserted fewNow)
      exact ⟨number, slot, frame.page, rfl, firstFit⟩
    · exact fun _ _ ⟨_, refused⟩ fewNow => (refused fewNow).2.1 hospitable
  rcases Action.outcome_of_ends stores with ⟨answer, answered, stored⟩ | ⟨_, _, many⟩
  · obtain ⟨number, slot, page, rfl, firstFit⟩ := stored few
    exact ⟨number, slot, page, answered, firstFit⟩
  · exact absurd few many

/-- The most rows that a table has at once while the requests are answered. -/
def peak (store : Store μ) (file : HeapFile) : List Operation → Nat
  | [] => store.rowCount file
  | operation :: rest => max (store.rowCount file) (peak (store.outcome operation).2 file rest)

/-- A request leaves the number of pages as it is, or it adds one page and there are more rows then than
fitted on the pages before. -/
theorem pageCount_outcome (coherent : store.Coherent) (hospitable : store.Hospitable)
    (registered : store.catalog.file? file.table = some file) (slots : file.slotCount ≠ 0)
    (operation : Operation) (few : (store.outcome operation).2.Few) :
    file.pageCount (store.outcome operation).2.disk = file.pageCount store.disk ∨
      file.pageCount (store.outcome operation).2.disk = file.pageCount store.disk + 1 ∧
        file.pageCount store.disk * file.slotCount < (store.outcome operation).2.rowCount file := by
  by_cases stores : ∃ transaction row, operation = .insert transaction file.table row ∧
      row.checkAgainst file.schema = .ok ()
  · obtain ⟨transaction, row, rfl, fits⟩ := stores
    obtain ⟨number, slot, page, -, fit⟩ :=
      outcome_insert coherent hospitable registered slots fits transaction few
    by_cases room : ∃ number slot, file.Vacant store.current number slot
    · exact Or.inl (fit.reuses room).2
    · exact Or.inr ⟨(fit.grows room).2.2,
        lt_rowCount_of_firstFit coherent registered slots fit room⟩
  · obtain ⟨answer, -, performed⟩ := performed_outcome coherent operation
    left
    apply pageCount_of_isSome coherent performed.coherent performed.catalog_eq registered
    refine Reference.isSome_of_step hospitable (fun table other found =>
      (coherent.sound table other found).1) registered ?_ (performed.step few) ?_
    · intro number
      exact Bool.eq_iff_iff.mpr ((isSome_durable_iff coherent.sound registered).trans
        (isSome_current_iff coherent.sound registered).symm)
    · exact fun transaction row same fits => stores ⟨transaction, row, same, fits⟩

theorem rowCount_le_peak (store : Store μ) (file : HeapFile) (operations : List Operation) :
    store.rowCount file ≤ store.peak file operations := by
  cases operations with
  | nil => exact Nat.le_refl _
  | cons operation rest => exact Nat.le_max_left ..

/-- The pages have room for the most rows there were at once, and if any were added, then because the
rows did not fit on one page less. -/
theorem pageCount_after (coherent : store.Coherent) (hospitable : store.Hospitable)
    (registered : store.catalog.file? file.table = some file) (slots : file.slotCount ≠ 0)
    (operations : List Operation) (few : (store.after operations).Few) :
    file.pageCount store.disk ≤ file.pageCount (store.after operations).disk ∧
      store.peak file operations ≤
        file.pageCount (store.after operations).disk * file.slotCount ∧
      (file.pageCount (store.after operations).disk = file.pageCount store.disk ∨
        (file.pageCount (store.after operations).disk - 1) * file.slotCount <
          store.peak file operations) := by
  induction operations generalizing store with
  | nil => exact ⟨Nat.le_refl _, rowCount_le store file, Or.inl rfl⟩
  | cons operation rest ih =>
    have lasts := lasts_outcome coherent operation
    have next := (store.outcome operation).2.rowCount_le_peak file rest
    obtain ⟨monotone, fits, grown⟩ := ih lasts.coherent
      (hospitable_of_follows lasts.follows hospitable) (lasts.catalog_eq ▸ registered) few
    have fewNext := few_of_lasts (lasts_after lasts.coherent rest) few
    have step := pageCount_outcome coherent hospitable registered slots operation fewNext
    have notFewer : file.pageCount store.disk ≤
        file.pageCount (store.outcome operation).2.disk := by omega
    refine ⟨Nat.le_trans notFewer monotone, Nat.max_le.mpr ⟨?_, fits⟩, ?_⟩
    · exact Nat.le_trans (rowCount_le store file)
        (Nat.mul_le_mul_right _ (Nat.le_trans notFewer monotone))
    · rcases grown with same | more
      · rcases step with kept | ⟨added, beyond⟩
        · exact Or.inl (same.trans kept)
        · right
          rw [show (store.after (operation :: rest)) = (store.outcome operation).2.after rest from rfl,
            same, added, Nat.add_sub_cancel]
          exact Nat.lt_of_lt_of_le beyond (Nat.le_trans next (Nat.le_max_right ..))
      · exact Or.inr (Nat.lt_of_lt_of_le more (Nat.le_max_right ..))

/-- A row that fits goes to the least vacant position of its table, or to the first slot of a page added
behind the last one if no position is vacant, and nothing else changes. Whatever is asked of an empty
table, it has as many pages as the most rows that it had at once need. Both hold as long as the files
have fewer than 2^32 pages. -/
theorem first_fit {origin : Store μ} (sound : origin.Sound) (unused : origin.pool.frames = [])
    (hospitable : origin.Hospitable) (registered : origin.catalog.file? file.table = some file)
    (slots : file.slotCount ≠ 0) (operations : List Operation) :
    (∀ transaction row, row.checkAgainst file.schema = .ok () →
      (origin.after (operations ++ [.insert transaction file.table row])).Few →
      ∃ number slot page,
        ((origin.after operations).outcome (.insert transaction file.table row)).1 =
            .ok (.page page) ∧
          FirstFit (origin.after operations) file transaction row number slot page
            (origin.after (operations ++ [.insert transaction file.table row]))) ∧
    ((origin.after operations).Few → file.pageCount origin.disk = 0 →
      file.pageCount (origin.after operations).disk =
        (origin.peak file operations + file.slotCount - 1) / file.slotCount) := by
  obtain ⟨coherent, -⟩ := coherent_of_unused sound unused
  have lasts := lasts_after coherent operations
  constructor
  · intro transaction row fits few
    rw [after_append] at few ⊢
    exact outcome_insert lasts.coherent (hospitable_of_follows lasts.follows hospitable)
      (lasts.catalog_eq ▸ registered) slots fits transaction few
  · intro few empty
    obtain ⟨-, room, grown⟩ := pageCount_after coherent hospitable registered slots operations few
    rw [empty] at grown
    exact eq_div_of_fits (Nat.pos_of_ne_zero slots) room grown

/-- An empty table of integers behind a pool with room for one page. -/
def emptyStore : Store Eviction.Oblivious where
  disk := ⟨[⟨"a.dat", .ofBytes []⟩], [Traffic.none]⟩
  catalog := Catalog.empty.add oneRowFile "a"
  pool := Pool.empty 1 .first Listing.byArrival

def numberStored (number : Int32) : Operation := .insert ⟨1⟩ (.file 0) (integerRow number)

/-- Four rows are stored on pages of three slots, and the second one is deleted again. -/
def fourStored : List Operation :=
  [numberStored 5, numberStored 6, numberStored 7, numberStored 8,
    .delete ⟨1⟩ ((integerRow 6).stamped (RecordId.ofSlot (oneRowFile.page 0) 1))]

theorem whole_empty : oneRowFile.Whole emptyStore.disk := by
  refine ⟨by decide, by decide, fun number inside => ?_⟩
  have none : oneRowFile.extent emptyStore.disk = 0 := by decide
  omega

/-- The next row goes to the slot that has become free, and there are two pages for at most four rows. -/
theorem first_fit_of_four :
    (emptyStore.Sound ∧ emptyStore.pool.frames = [] ∧ emptyStore.Hospitable ∧
      emptyStore.catalog.file? oneRowFile.table = some oneRowFile ∧ oneRowFile.slotCount ≠ 0) ∧
    (emptyStore.after (fourStored ++ [numberStored 9])).Few ∧ (emptyStore.after fourStored).Few ∧
    (∃ number slot page,
      ((emptyStore.after fourStored).outcome (numberStored 9)).1 = .ok (.page page) ∧
        FirstFit (emptyStore.after fourStored) oneRowFile ⟨1⟩ (integerRow 9) number slot page
          (emptyStore.after (fourStored ++ [numberStored 9]))) ∧
    oneRowFile.pageCount (emptyStore.after fourStored).disk =
      (emptyStore.peak oneRowFile fourStored + oneRowFile.slotCount - 1) / oneRowFile.slotCount ∧
    emptyStore.peak oneRowFile fourStored = 4 ∧ oneRowFile.slotCount = 3 ∧
    oneRowFile.cell (emptyStore.after (fourStored ++ [numberStored 9])).current 1 =
      some [.integer 9] := by
  have sound : emptyStore.Sound := sound_of_single rfl whole_empty
  have hospitable : emptyStore.Hospitable := ⟨by decide, Eviction.obliging_of_picks (Or.inl rfl)⟩
  have slots : oneRowFile.slotCount ≠ 0 := by decide
  have fewNext : (emptyStore.after (fourStored ++ [numberStored 9])).Few :=
    few_of_single oneRowFile "a" rfl (by decide +kernel)
  have few : (emptyStore.after fourStored).Few :=
    few_of_single oneRowFile "a" rfl (by decide +kernel)
  have fits := first_fit sound rfl hospitable rfl slots fourStored
  exact ⟨⟨sound, rfl, hospitable, rfl, slots⟩, fewNext, few, fits.1 ⟨1⟩ _ rfl fewNext,
    fits.2 few (by decide), by decide +kernel, by decide, by decide +kernel⟩

/-- A table of 2^32 pages takes its second row on the first page, in place of the first row. -/
theorem row_replaced_by_insertion :
    (wideStore.Sound ∧ wideStore.pool.frames = [] ∧ wideStore.Hospitable ∧
      wideStore.catalog.file? wideFile.table = some wideFile ∧ wideFile.slotCount ≠ 0) ∧
    wideStore.held ⟨⟨.file 0, 0⟩, 0⟩ = some [.integer 7] ∧
    wideStore.held ⟨⟨.file 0, 1⟩, 0⟩ = none ∧
    (∃ page, (wideStore.outcome (numberStored 8)).1 = .ok (.page page) ∧ page.id = ⟨.file 0, 0⟩) ∧
    (wideStore.after [numberStored 8]).held ⟨⟨.file 0, 0⟩, 0⟩ = some [.integer 8] ∧
    wideFile.extent (wideStore.after [numberStored 8]).disk = wideFile.extent wideStore.disk :=
  ⟨⟨sound_of_single rfl whole_wideFile, rfl,
      ⟨Nat.one_pos, Eviction.obliging_of_picks (Or.inl rfl)⟩, rfl, by decide⟩,
    by decide +kernel, by decide +kernel, ⟨_, rfl, by decide⟩, by decide +kernel, by decide +kernel⟩

end Store

end PagedStore
