import PagedStore.Proofs.Cache.Reference
import PagedStore.Proofs.Pool.Standstill

/-!
What a failed insertion leaves behind, whatever the files hold and whatever the policy answers. The
pages of the table are looked at one after the other, and as long as no page has been added, a failure
changes nothing. A page is added only if all pages are full. If it then finds no room in memory, the
insertion fails and the page stays in the file, without rows.
-/

namespace PagedStore

namespace HeapFile

variable {heap : HeapFile} {disk : Disk}

theorem lt_extent_iff {number : Nat} :
    number < heap.extent disk ↔ number * heap.pageSize < (disk.content heap.file).length := by
  have size_pos := heap.size_pos
  rw [extent_eq, Nat.lt_iff_add_one_le, Nat.le_div_iff_mul_le size_pos, Nat.succ_mul]
  omega

/-- A file that has all bytes of each of its pages has no others. -/
theorem length_of_covered (covered : ∀ number < heap.extent disk, heap.Covers disk number) :
    (disk.content heap.file).length = heap.extent disk * heap.pageSize := by
  apply Nat.le_antisymm
  · apply Nat.le_of_not_lt
    intro longer
    exact absurd (lt_extent_iff.mpr longer) (Nat.lt_irrefl _)
  · cases count : heap.extent disk with
    | zero =>
      rw [Nat.zero_mul]
      exact Nat.zero_le _
    | succ last => exact covered last (count ▸ Nat.lt_succ_self last)

theorem content_lengthened_other (heap : HeapFile) (disk : Disk) {other : Nat}
    (differs : other ≠ heap.file) : (heap.lengthened disk).content other = disk.content other :=
  (Disk.content_overwrite disk heap.file _ _ other).trans (if_neg fun both => differs both.1)

theorem content_lengthened (there : heap.file < disk.files.length) :
    (heap.lengthened disk).content heap.file = Bytes.overwrite (disk.content heap.file)
      (heap.pageCount disk * heap.pageSize) (Bytes.zeros heap.pageSize) :=
  (Disk.content_overwrite disk heap.file _ _ heap.file).trans (if_pos ⟨rfl, there⟩)

theorem length_lengthened (there : heap.file < disk.files.length)
    (exactly : (disk.content heap.file).length = heap.pageCount disk * heap.pageSize) :
    ((heap.lengthened disk).content heap.file).length =
      (heap.pageCount disk + 1) * heap.pageSize := by
  have proper : Bytes.zeros heap.pageSize ≠ [] :=
    List.ne_nil_of_length_pos (List.length_replicate ▸ heap.size_pos)
  rw [content_lengthened there, Bytes.length_overwrite _ _ proper, exactly, Bytes.zeros,
    List.length_replicate, Nat.succ_mul]
  exact Nat.max_eq_right (Nat.le_add_right _ _)

theorem image_lengthened (there : heap.file < disk.files.length) :
    heap.image (heap.lengthened disk) (heap.page (heap.pageCount disk)).number =
      Bytes.zeros heap.pageSize := by
  have read := Bytes.slice_overwrite_self (disk.content heap.file)
    (heap.pageCount disk * heap.pageSize) (Bytes.zeros heap.pageSize)
  rw [image, heap.number_page (heap.pageCount_lt disk), content_lengthened there]
  rw [Bytes.zeros, List.length_replicate] at read
  exact read

end HeapFile

namespace Store

variable {μ : Type} {store after last : Store μ}

/-- Every page of the file shows a row in each of its slots. -/
def AllFull (store : Store μ) (file : HeapFile) : Prop :=
  ∀ number < file.pageCount store.disk, ∃ contents,
    store.Reads (file.page number) contents ∧ contents.Full file.slotCount

structure GrownByOne (before : Store μ) (file : HeapFile) (after : Store μ) : Prop where
  catalog_eq : after.catalog = before.catalog
  pageCount_eq : file.pageCount after.disk = file.pageCount before.disk + 1
  level : ∀ other, other ≠ file.file →
    (after.disk.content other).length = (before.disk.content other).length
  blank : after.Reads (file.page (file.pageCount before.disk)) Contents.blank
  reads_iff : ∀ id contents, id ≠ file.page (file.pageCount before.disk) →
    (after.Reads id contents ↔ before.Reads id contents)

theorem grownByOne_after_still {file : HeapFile} (still : Still store after)
    (grown : GrownByOne after file last) : GrownByOne store file last := by
  have count := pageCount_of_level still.level file
  refine ⟨grown.catalog_eq.trans still.catalog_eq, ?_, ?_, ?_, ?_⟩
  · rw [grown.pageCount_eq, count]
  · exact fun other differs => (grown.level other differs).trans (still.level other)
  · exact count ▸ grown.blank
  · intro id contents differs
    rw [grown.reads_iff id contents (count.symm ▸ differs), still.reads_iff]

theorem still_after_grownByOne {file : HeapFile} (grown : GrownByOne store file after)
    (still : Still after last) : GrownByOne store file last where
  catalog_eq := still.catalog_eq.trans grown.catalog_eq
  pageCount_eq := (pageCount_of_level still.level file).trans grown.pageCount_eq
  level := fun other differs => (still.level other).trans (grown.level other differs)
  blank := (still.reads_iff _ _).mpr grown.blank
  reads_iff := fun id contents differs =>
    (still.reads_iff id contents).trans (grown.reads_iff id contents differs)

/-- A page that shows rows is in its file. -/
theorem covers_of_reads (aligned : store.Aligned) {id : PageId} {contents : Contents}
    (reads : store.Reads id contents) {file : HeapFile}
    (registered : store.catalog.file? id.table = some file) : file.Covers store.disk id.number := by
  cases cached : store.pool.frame? id with
  | some frame =>
    obtain ⟨other, found, -, covers⟩ := aligned.orderly.backed id frame cached
    obtain rfl := Option.some.inj (registered.symm.trans found)
    exact covers
  | none =>
    obtain ⟨other, page, found, covers, -, -⟩ := onFile_of_reads cached reads
    obtain rfl := Option.some.inj (registered.symm.trans found)
    exact covers

variable [EvictionPolicy μ]

structure Passed (before : Store μ) (ids : List PageId) (after : Store μ) : Prop where
  still : Still before after
  aligned : after.Aligned
  full : ∀ id ∈ ids, ∃ file contents, before.catalog.file? id.table = some file ∧
    before.Reads id contents ∧ contents.Full file.slotCount

def PutIn (before : Store μ) (file : HeapFile) (row : Row) (frame : Frame) (after : Store μ) : Prop :=
  ∃ middle id slot, (Still before middle ∨ GrownByOne before file middle) ∧ middle.Aligned ∧
    id.table = file.table ∧
    Turned middle id slot (some (row.stamped (RecordId.ofSlot id slot))) frame after

omit [EvictionPolicy μ] in
theorem putIn_after_still {file : HeapFile} {row : Row} {frame : Frame}
    (still : Still store after) (put : PutIn after file row frame last) :
    PutIn store file row frame last := by
  obtain ⟨middle, id, slot, first, aligned, own, turned⟩ := put
  refine ⟨middle, id, slot, ?_, aligned, own, turned⟩
  rcases first with stillThen | grown
  · exact Or.inl (still_trans still stillThen)
  · exact Or.inr (grownByOne_after_still still grown)

theorem storeOnFirst_passes (aligned : store.Aligned) (few : store.Few) (row : Row) {file : HeapFile}
    (ids : List PageId) (own : ∀ id ∈ ids, id.table = file.table) :
    Action.Ends (storeOnFirst row ids) store
      (fun stored after => match stored with
        | none => Passed store ids after
        | some frame => PutIn store file row frame after)
      fun _ after => Still store after := by
  induction ids generalizing store with
  | nil => exact ⟨still_refl store, aligned, fun id absent => absurd absent List.not_mem_nil⟩
  | cons id rest ih =>
    rw [storeOnFirst, Action.ends_bind]
    apply Action.ends_imp (fetch_still aligned few id)
    · rintro frame middle ⟨still, alignedNow, cached⟩
      obtain ⟨backing, registered, owns, -⟩ := alignedNow.orderly.backed id frame cached
      by_cases full : frame.page.freeCount = 0
      · rw [if_pos full]
        have isFull := (Page.freeCount_eq_zero_iff owns.formed).mp full
        rw [HeapFile.slotCount_of_owns owns] at isFull
        have ownRest : ∀ other ∈ rest, other.table = file.table :=
          fun other member => own other (List.mem_cons_of_mem _ member)
        apply Action.ends_imp (ih alignedNow (few_of_still still few) ownRest)
        · intro stored later ends
          cases stored with
          | some stored => exact putIn_after_still still ends
          | none =>
            obtain ⟨stillThen, alignedThen, fullThen⟩ := ends
            refine ⟨still_trans still stillThen, alignedThen, ?_⟩
            intro other member
            rcases List.mem_cons.mp member with rfl | isRest
            · exact ⟨backing, _, still.catalog_eq ▸ registered,
                (still.reads_iff _ _).mp (reads_of_cached cached), isFull⟩
            · obtain ⟨otherFile, contents, found, reads, otherFull⟩ := fullThen other isRest
              exact ⟨otherFile, contents, still.catalog_eq ▸ found, (still.reads_iff _ _).mp reads,
                otherFull⟩
        · exact fun _ _ stillThen => still_trans still stillThen
      · rw [if_neg full, Action.ends_map]
        apply Action.ends_imp (storeOn_turns (tidy_of_orderly alignedNow.orderly) cached row)
        · rintro stored later ⟨slot, turned⟩
          exact ⟨middle, id, slot, Or.inl still, alignedNow, own id List.mem_cons_self, turned⟩
        · rintro _ _ rfl
          exact still
    · exact fun _ _ stopped => stopped.1

omit [EvictionPolicy μ] in
theorem allFull_of_passed {file : HeapFile} {table : TableId} (filed : store.catalog.Filed)
    (registered : store.catalog.file? table = some file) [EvictionPolicy μ]
    (passed : Passed store ((List.range (file.pageCount store.disk)).map file.page) after) :
    store.AllFull file := by
  intro number inside
  have member := List.mem_map_of_mem (f := file.page) (List.mem_range.mpr inside)
  obtain ⟨other, contents, found, reads, full⟩ := passed.full _ member
  obtain rfl : table = file.table := (Catalog.table_of_filed filed registered).symm
  obtain rfl := Option.some.inj (registered.symm.trans found)
  exact ⟨contents, reads, full⟩

omit [EvictionPolicy μ] in
/-- Nobody can read the page that would be added next. -/
theorem not_reads_past_end (aligned : store.Aligned) (few : store.Few) {table : TableId}
    {file : HeapFile} (registered : store.catalog.file? table = some file) (contents : Contents) :
    ¬ store.Reads (file.page (file.pageCount store.disk)) contents := by
  intro reads
  obtain rfl : table = file.table := (Catalog.table_of_filed aligned.orderly.filed registered).symm
  have covers := covers_of_reads aligned reads registered
  rw [file.number_page (file.pageCount_lt store.disk), pageCount_eq_extent few registered] at covers
  exact absurd (HeapFile.lt_extent_of_covers covers) (Nat.lt_irrefl _)

omit [EvictionPolicy μ] in
theorem uncached_past_end (aligned : store.Aligned) (few : store.Few) {table : TableId}
    {file : HeapFile} (registered : store.catalog.file? table = some file) :
    store.pool.frame? (file.page (file.pageCount store.disk)) = none := by
  cases cached : store.pool.frame? (file.page (file.pageCount store.disk)) with
  | none => rfl
  | some frame =>
    exact absurd (reads_of_cached cached) (not_reads_past_end aligned few registered _)

theorem grownByOne_lengthened (aligned : store.Aligned) (few : store.Few) {table : TableId}
    {file : HeapFile} (registered : store.catalog.file? table = some file)
    (fewNow : (store.lengthened file).Few) (there : file.file < store.disk.files.length)
    (exactly : (store.disk.content file.file).length =
      file.pageCount store.disk * file.pageSize) :
    GrownByOne store file (store.lengthened file) := by
  have filed := aligned.orderly.filed
  have motion : Motion store (store.lengthened file) := .grow registered
  have length := HeapFile.length_lengthened there exactly
  have number := file.number_page (file.pageCount_lt store.disk)
  refine ⟨rfl, ?_, ?_, ?_, ?_⟩
  · have registeredNow : (store.lengthened file).catalog.file? table = some file := registered
    rw [pageCount_eq_extent fewNow registeredNow]
    exact HeapFile.extent_eq_of_length length
  · intro other differs
    exact congrArg List.length (HeapFile.content_lengthened_other file store.disk differs)
  · refine reads_of_uncached (uncached_past_end aligned few registered) ?_
    obtain rfl : table = file.table := (Catalog.table_of_filed filed registered).symm
    let id := file.page (file.pageCount store.disk)
    have decoded := Page.decode_zeros id file.schema file.pageSize
    rw [← HeapFile.image_lengthened there] at decoded
    refine ⟨file, Page.empty id file.schema file.pageSize, registered, ?_, decoded,
      Page.contents_empty id file.schema file.pageSize⟩
    rw [number]
    exact Nat.le_of_eq length.symm
  · intro id contents differs
    refine ⟨?_, reads_of_motion aligned few motion⟩
    intro reads
    cases cached : store.pool.frame? id with
    | some frame =>
      have cachedThen : (store.lengthened file).pool.frame? id = some frame := cached
      exact reads_of_same cached (eq_of_reads cachedThen reads)
    | none =>
      have uncachedThen : (store.lengthened file).pool.frame? id = none := cached
      obtain ⟨other, page, found, covers, decoded, same⟩ := onFile_of_reads uncachedThen reads
      have registeredOther : store.catalog.file? id.table = some other := found
      have coveredBefore : other.Covers store.disk id.number := by
        by_cases sameFile : other.file = file.file
        · obtain ⟨-, rfl⟩ := file_eq_of_same filed registeredOther registered sameFile
          -- The page is one of the file and not the new one, so it lies before that.
          have notLast : id.number ≠ other.pageCount store.disk := by
            intro isLast
            apply differs
            rw [← isLast, page_of_filed filed registeredOther]
          have inside : (id.number + 1) * other.pageSize ≤
              (other.pageCount store.disk + 1) * other.pageSize := length ▸ covers
          have before := Nat.le_of_mul_le_mul_right inside other.size_pos
          rw [HeapFile.Covers, exactly]
          exact Nat.mul_le_mul_right _ (by omega)
        · have unchanged := HeapFile.content_lengthened_other file store.disk sameFile
          rw [HeapFile.Covers, ← unchanged]
          exact covers
      have image := image_of_grow aligned.orderly few registered registeredOther coveredBefore
      exact reads_of_uncached cached
        ⟨other, page, registeredOther, coveredBefore, image ▸ decoded, same⟩

omit [EvictionPolicy μ] in
/-- If the file does not exist, nothing can be added to it. -/
theorem lengthened_of_missing {file : HeapFile} (missing : store.disk.files.length ≤ file.file) :
    Level store (store.lengthened file) := by
  intro other
  apply congrArg List.length
  refine (Disk.content_overwrite store.disk file.file _ _ other).trans (if_neg ?_)
  exact fun both => Nat.not_lt.mpr missing both.2

theorem fetch_ends_of_image {id : PageId} {file : HeapFile} {page : Page}
    (registered : store.catalog.file? id.table = some file) (own : id.table = file.table)
    (whole : (file.image store.disk id.number).length = file.pageSize)
    (decoded : Page.decode id file.schema (file.image store.disk id.number) = .ok page) :
    Action.Ends (fetch id) store (fun _ _ => True) fun fault _ => fault = .error .outOfPages := by
  unfold fetch
  rw [Action.ends_bind, Action.ends_get]
  cases store.pool.frame? id with
  | some frame => trivial
  | none =>
    dsimp only
    rw [Action.ends_bind, Action.ends_ofExcept, Catalog.file_of_some registered]
    dsimp only
    rw [Action.ends_bind, onDisk, Action.ends_within]
    have reads : Action.Ends (file.readPage id) store.disk (fun _ _ => True) fun _ _ => False := by
      have image : store.disk.slice file.file (id.offset file.pageSize) file.pageSize =
          file.image store.disk id.number := store.disk.slice_eq ..
      unfold HeapFile.readPage
      dsimp only
      rw [if_neg (fun wrong => wrong own), Action.ends_bind, Action.ends_get, image,
        if_neg (Nat.not_lt.mpr (Nat.le_of_eq whole.symm)), Action.ends_bind, Action.ends_set,
        Action.ends_ofExcept, decoded]
      trivial
    apply Action.ends_of_never_fails reads
    intro read disk _
    unfold bringIn
    rw [Action.ends_bind, Action.ends_get]
    split
    · rw [Action.ends_bind]
      apply Action.ends_imp (evict_shifts _)
      · exact fun _ _ _ => trivial
      · exact fun _ _ refused => refused.1
    · trivial

omit [EvictionPolicy μ] in
/-- A page without rows takes any row that its table takes. -/
theorem storeOn_blank (aligned : store.Aligned) {file : HeapFile} {id : PageId} {frame : Frame}
    (registered : store.catalog.file? id.table = some file)
    (cached : store.pool.frame? id = some frame) (blank : frame.page.contents = Contents.blank)
    (room : 0 < file.slotCount) {row : Row} (fits : row.checkAgainst file.schema = .ok ()) :
    Action.Ends (storeOn frame row) store (fun _ _ => True) fun _ _ => False := by
  obtain ⟨other, found, owns, -⟩ := aligned.orderly.backed id frame cached
  obtain rfl := Option.some.inj (registered.symm.trans found)
  have opens : frame.page.contents.Opens frame.page.slotCount 0 := by
    rw [blank, HeapFile.slotCount_of_owns owns]
    exact Contents.opens_blank room
  have inserted := Page.insert_eq_ok_iff.mpr ⟨owns.schema_eq ▸ fits, 0,
    (Page.firstFree_eq_some_iff owns.formed 0).mpr opens, rfl, rfl⟩
  unfold storeOn
  rw [Action.ends_bind, Action.ends_ofExcept, inserted]
  trivial

/-- Nothing has changed, or all pages of the file are full and there was no room in memory for the page
that was added to it. -/
def Stopped (before : Store μ) (file : HeapFile) (fault : Fault) (after : Store μ) : Prop :=
  Still before after ∨
    fault = .error .outOfPages ∧ before.AllFull file ∧ GrownByOne before file after

/-- A page that has just been added is read back as an empty one, if there is room for it. -/
theorem fetch_lengthened (store : Store μ) {file : HeapFile}
    (registered : store.catalog.file? file.table = some file)
    (there : file.file < store.disk.files.length) :
    Action.Ends (fetch (file.page (file.pageCount store.disk))) (store.lengthened file)
      (fun _ _ => True) fun fault _ => fault = .error .outOfPages := by
  have image : file.image (file.lengthened store.disk) (file.page (file.pageCount store.disk)).number =
      Bytes.zeros file.pageSize := HeapFile.image_lengthened there
  have decoded := Page.decode_zeros (file.page (file.pageCount store.disk)) file.schema file.pageSize
  rw [← image] at decoded
  exact fetch_ends_of_image registered rfl
    ((congrArg List.length image).trans List.length_replicate) decoded

/-- A file that has too many pages has them also after a row has been stored. -/
theorem storeOnNew_many (tidy : store.Tidy) (many : ¬ store.Few) (id : PageId) (row : Row) :
    Action.Ends (do storeOn (← fetch id) row) store (fun _ after => ¬ after.Few)
      fun _ after => ¬ after.Few := by
  rw [Action.ends_bind]
  apply Action.ends_imp (fetch_moves store id)
  · rintro frame middle ⟨moved, cached⟩
    have manyNow : ¬ middle.Few := fun few => many (few_of_moved moved few)
    apply Action.ends_imp (storeOn_turns (tidy_of_moved moved tidy) cached row)
    · rintro stored last ⟨slot, -, -, rfl⟩
      exact manyNow
    · rintro fault last rfl
      exact manyNow
  · exact fun _ _ moved few => many (few_of_moved moved few)

/-- The page is added, and then it may find no room in memory. -/
theorem storeOnNew_stops (aligned : store.Aligned) (few : store.Few) {file : HeapFile}
    (registered : store.catalog.file? file.table = some file) (room : 0 < file.slotCount) {row : Row}
    (fits : row.checkAgainst file.schema = .ok ()) (full : store.AllFull file)
    (fewNow : (store.lengthened file).Few) :
    Action.Ends (do storeOn (← fetch (file.page (file.pageCount store.disk))) row)
      (store.lengthened file) (fun frame after => PutIn store file row frame after)
      fun fault after => Stopped store file fault after := by
  have motion : Motion store (store.lengthened file) := .grow registered
  have fetched := fetch_still (aligned_of_motion aligned few motion) fewNow
    (file.page (file.pageCount store.disk))
  rw [Action.ends_bind]
  by_cases there : file.file < store.disk.files.length
  · have counted := pageCount_eq_extent few registered
    have covered : ∀ number < file.extent store.disk, file.Covers store.disk number := by
      intro number inside
      rw [← counted] at inside
      obtain ⟨contents, reads, -⟩ := full number inside
      have covers := covers_of_reads aligned reads registered
      rw [file.number_page (Nat.lt_trans inside (file.pageCount_lt store.disk))] at covers
      exact covers
    have grown := grownByOne_lengthened aligned few registered fewNow there
      (counted ▸ HeapFile.length_of_covered covered)
    apply Action.ends_imp (Action.ends_and fetched (fetch_lengthened store registered there))
    · rintro frame middle ⟨⟨still, alignedNow, cached⟩, -⟩
      have blank := eq_of_reads cached ((still.reads_iff _ _).mpr grown.blank)
      have found : middle.catalog.file? file.table = some file := still.catalog_eq.symm ▸ registered
      have turns := storeOn_turns (tidy_of_orderly alignedNow.orderly) cached row
      apply Action.ends_imp
        (Action.ends_and turns (storeOn_blank alignedNow found cached blank room fits))
      · rintro stored last ⟨⟨slot, turned⟩, -⟩
        exact ⟨middle, _, slot, Or.inr (still_after_grownByOne grown still), alignedNow, rfl, turned⟩
      · rintro fault last ⟨-, impossible⟩
        exact impossible.elim
    · rintro fault last ⟨⟨still, -⟩, isFault⟩
      exact Or.inr ⟨isFault, full, still_after_grownByOne grown still⟩
  · have still := still_of_moved aligned (.single motion)
      (lengthened_of_missing (Nat.le_of_not_lt there)) few
    apply Action.ends_imp fetched
    · rintro frame middle ⟨stillThen, alignedNow, cached⟩
      apply Action.ends_imp (storeOn_turns (tidy_of_orderly alignedNow.orderly) cached row)
      · rintro stored last ⟨slot, turned⟩
        exact ⟨middle, _, slot, Or.inl (still_trans still stillThen), alignedNow, rfl, turned⟩
      · rintro fault last rfl
        exact Or.inl (still_trans still stillThen)
    · rintro fault last ⟨stillThen, -⟩
      exact Or.inl (still_trans still stillThen)

omit [EvictionPolicy μ] in
theorem allFull_of_still {file : HeapFile} (still : Still store after) :
    after.AllFull file ↔ store.AllFull file := by
  simp only [AllFull, pageCount_of_level still.level, still.reads_iff]

omit [EvictionPolicy μ] in
theorem stopped_after_still {file : HeapFile} {fault : Fault} (still : Still store after)
    (stopped : Stopped after file fault last) : Stopped store file fault last := by
  rcases stopped with stillThen | ⟨isFault, full, grown⟩
  · exact Or.inl (still_trans still stillThen)
  · exact Or.inr ⟨isFault, (allFull_of_still still).mp full, grownByOne_after_still still grown⟩

theorem storeIn_stops (aligned : store.Aligned) (few : store.Few) {file : HeapFile}
    (registered : store.catalog.file? file.table = some file) (row : Row) :
    Action.Ends (storeIn file row) store
      (fun frame after => after.Few → PutIn store file row frame after)
      fun fault after => after.Few → Stopped store file fault after := by
  unfold storeIn
  rw [Action.ends_bind, Action.ends_ofExcept]
  cases fits : row.checkAgainst file.schema with
  | error cause => exact fun _ => Or.inl (still_refl store)
  | ok _ =>
    dsimp only
    rw [Action.ends_bind, Action.ends_get]
    split
    · exact fun _ => Or.inl (still_refl store)
    · next room =>
      rw [Action.ends_bind]
      have own : ∀ id ∈ (List.range (file.pageCount store.disk)).map file.page,
          id.table = file.table := by
        intro id member
        obtain ⟨number, -, rfl⟩ := List.mem_map.mp member
        rfl
      apply Action.ends_imp (storeOnFirst_passes aligned few row _ own)
      · intro stored middle passed
        cases stored with
        | some frame => exact fun _ => passed
        | none =>
          have found : middle.catalog.file? file.table = some file :=
            passed.still.catalog_eq.symm ▸ registered
          have full := allFull_of_passed aligned.orderly.filed registered passed
          have tidy : (middle.lengthened file).Tidy :=
            tidy_of_motion (.grow found) (tidy_of_orderly passed.aligned.orderly)
          dsimp only
          rw [Action.ends_bind, onDisk, Action.ends_within]
          apply Action.ends_of_never_fails (appendPage_appends file middle.disk)
          rintro number _ ⟨rfl, rfl⟩
          by_cases fewNow : (middle.lengthened file).Few
          · apply Action.ends_imp (storeOnNew_stops passed.aligned (few_of_still passed.still few) found
              (Nat.pos_of_ne_zero room) fits ((allFull_of_still passed.still).mpr full) fewNow)
            · exact fun _ _ put _ => putIn_after_still passed.still put
            · exact fun _ _ stopped _ => stopped_after_still passed.still stopped
          · apply Action.ends_imp
              (storeOnNew_many tidy fewNow (file.page (file.pageCount middle.disk)) row)
            · exact fun _ _ many fewThen => absurd fewThen many
            · exact fun _ _ many fewThen => absurd fewThen many
      · exact fun _ _ still _ => Or.inl still

theorem insert_stops (aligned : store.Aligned) (few : store.Few) (transaction : Transaction)
    (table : TableId) (row : Row) :
    Action.Ends (insert transaction table row) store
      (fun frame after => after.Few → ∃ file middle id slot,
        store.catalog.file? table = some file ∧
        (Still store middle ∨ GrownByOne store file middle) ∧ middle.Aligned ∧ id.table = table ∧
        Revised middle transaction id slot (some (row.stamped (RecordId.ofSlot id slot))) frame after)
      fun fault after => after.Few → Still store after ∨
        ∃ file, store.catalog.file? table = some file ∧ Stopped store file fault after := by
  unfold insert
  rw [Action.ends_bind, Action.ends_get, Action.ends_bind, Action.ends_ofExcept]
  cases registered : store.catalog.file? table with
  | none =>
    rw [Catalog.file_of_none registered]
    exact fun _ => Or.inl (still_refl store)
  | some file =>
    obtain rfl : file.table = table := Catalog.table_of_filed aligned.orderly.filed registered
    rw [Catalog.file_of_some registered]
    dsimp only
    rw [Action.ends_bind]
    apply Action.ends_imp (storeIn_stops aligned few registered row)
    · intro frame placed put
      unfold settle
      intro fewNow
      obtain ⟨middle, id, slot, first, alignedNow, own, turned⟩ := put fewNow
      have revises := settle_revises turned transaction
      exact ⟨file, middle, id, slot, rfl, first, alignedNow, own, revises⟩
    · exact fun _ _ stopped fewNow => Or.inr ⟨file, rfl, stopped fewNow⟩

/-- An insertion that fails leaves every file at its length and every page with its rows, with one
exception. If all pages of the table are full and the page that is added for the row finds no room in
memory, the insertion fails because of that, and the page remains: the table has one page more, without
rows, and nothing else differs. All this holds as long as no file has come to 2^32 pages. -/
theorem failed_insert_leaves_rows {origin before after : Store μ} (filed : origin.catalog.Filed)
    (unused : origin.pool.frames = []) (reached : ∃ operations, origin.after operations = before)
    {transaction : Transaction} {table : TableId} {row : Row} {fault : Fault}
    (failed : before.outcome (.insert transaction table row) = (.error fault, after))
    (few : after.Few) :
    (Still before after ∧ ∀ heap : HeapFile, heap.pageCount after.disk = heap.pageCount before.disk) ∨
      fault = .error .outOfPages ∧ ∃ file, before.catalog.file? table = some file ∧
        before.AllFull file ∧ GrownByOne before file after := by
  obtain ⟨operations, rfl⟩ := reached
  obtain ⟨tidy, alignedOf⟩ := keeps_after closed_aligned (tidy_of_unused unused)
    (fun _ => aligned_of_unused filed unused) operations
  have did := did_outcome tidy (.insert transaction table row)
  rw [failed] at did
  have fewThen := few_of_did did few
  have stops : Action.Ends (perform (.insert transaction table row)) (origin.after operations)
      (fun _ _ => True) fun fault after => after.Few → Still (origin.after operations) after ∨
        ∃ file, (origin.after operations).catalog.file? table = some file ∧
          Stopped (origin.after operations) file fault after := by
    unfold perform
    rw [Action.ends_bind]
    exact Action.ends_imp (insert_stops (alignedOf fewThen) fewThen transaction table row)
      (fun _ _ _ => trivial) fun _ _ stopped => stopped
  have stopped := Action.failed_of_outcome stops (congrArg Prod.fst failed)
  rw [show Action.outcome (perform (.insert transaction table row)) (origin.after operations) =
    (.error fault, after) from failed] at stopped
  rcases stopped few with still | ⟨file, registered, still | ⟨isFault, full, grown⟩⟩
  · exact Or.inl ⟨still, pageCount_of_level still.level⟩
  · exact Or.inl ⟨still, pageCount_of_level still.level⟩
  · exact Or.inr ⟨isFault, file, registered, full, grown⟩

def emptyTableStore : Store Eviction.Oblivious where
  disk := ⟨[⟨"a.dat", .ofBytes []⟩], [Traffic.none]⟩
  catalog := Catalog.empty.add oneRowFile "a"
  pool := Pool.empty 0 .first Listing.byArrival

def sevenStored : Operation := .insert ⟨1⟩ (.file 0) (integerRow 7)

/-- The insertion fails, and the table has a page that it did not have. -/
theorem page_left_by_failed_insert :
    (emptyTableStore.outcome sevenStored).1 = .error (.error .outOfPages) ∧
      oneRowFile.pageCount emptyTableStore.disk = 0 ∧
      oneRowFile.pageCount (emptyTableStore.outcome sevenStored).2.disk = 1 := by
  decide +kernel

/-- The same insertion once more fails on the page that is there by then, and adds none. -/
theorem failed_insert_leaves_rows_of_roomless :
    (emptyTableStore.catalog.Filed ∧ emptyTableStore.pool.frames = [] ∧
      ((emptyTableStore.after [sevenStored]).outcome sevenStored).1 = .error (.error .outOfPages)) ∧
    ((emptyTableStore.after [sevenStored]).outcome sevenStored).2.Few ∧
    Still (emptyTableStore.after [sevenStored])
      ((emptyTableStore.after [sevenStored]).outcome sevenStored).2 := by
  have filed : emptyTableStore.catalog.Filed := Catalog.filed_add Catalog.filed_empty oneRowFile "a"
  have fails : ((emptyTableStore.after [sevenStored]).outcome sevenStored).1 =
      .error (.error .outOfPages) := by decide +kernel
  have count : oneRowFile.pageCount (emptyTableStore.after [sevenStored]).disk = 1 ∧
      oneRowFile.pageCount ((emptyTableStore.after [sevenStored]).outcome sevenStored).2.disk = 1 := by
    decide +kernel
  have failed : (emptyTableStore.after [sevenStored]).outcome sevenStored =
      (.error (.error .outOfPages), ((emptyTableStore.after [sevenStored]).outcome sevenStored).2) :=
    Prod.ext fails rfl
  have catalog : ((emptyTableStore.after [sevenStored]).outcome sevenStored).2.catalog =
      Catalog.empty.add oneRowFile "a" := by decide +kernel
  have few : ((emptyTableStore.after [sevenStored]).outcome sevenStored).2.Few :=
    few_of_single _ _ catalog (by decide +kernel)
  refine ⟨⟨filed, rfl, fails⟩, few, ?_⟩
  rcases failed_insert_leaves_rows filed rfl ⟨[sevenStored], rfl⟩ failed few with
    ⟨still, -⟩ | ⟨-, file, registered, -, grown⟩
  · exact still
  · have known : (emptyTableStore.after [sevenStored]).catalog.file? (.file 0) = some oneRowFile := by
      decide +kernel
    obtain rfl := Option.some.inj (known.symm.trans registered)
    have more := grown.pageCount_eq
    rw [count.1, count.2] at more
    exact absurd more (by decide)

end Store

end PagedStore
