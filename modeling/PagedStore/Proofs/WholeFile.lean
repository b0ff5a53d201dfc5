import PagedStore.HeapFile
import PagedStore.Proofs.Outcome
import PagedStore.Proofs.Page.RoundTrip

/-!
Heap files made of whole pages. Such a file is an array of page images: each of its pages can be read,
writing one page changes no other, and the file grows by one page without rows at its end. A page of
the array is seen through its contents, the values that it keeps in each slot.
-/

namespace PagedStore

abbrev Contents := Nat → Option (List Value)

def Contents.blank : Contents := fun _ => none

def Page.contents (page : Page) : Contents := fun slot =>
  (page.row? slot).map fun row => row.values.map Value.kept

namespace HeapFile

def image (heap : HeapFile) (disk : Disk) (number : Nat) : Bytes :=
  Bytes.slice (disk.content heap.file) (number * heap.pageSize) heap.pageSize

/-- The page as the file holds it. -/
def pageAt (heap : HeapFile) (disk : Disk) (number : Nat) : Except Error Page :=
  Page.decode (heap.page number) heap.schema (heap.image disk number)

structure Whole (heap : HeapFile) (disk : Disk) : Prop where
  exists_file : heap.file < disk.files.length
  divides : heap.pageSize ∣ (disk.content heap.file).length
  readable : ∀ number < heap.extent disk, ∃ page, heap.pageAt disk number = .ok page

structure Owns (heap : HeapFile) (number : Nat) (page : Page) : Prop where
  id_eq : page.id = heap.page number
  schema_eq : page.schema = heap.schema
  size_eq : page.size = heap.pageSize
  formed : page.Formed

end HeapFile

structure HeapFile.Rewritten (heap : HeapFile) (before : Disk) (number : Nat) (page : Page)
    (after : Disk) : Prop where
  length_files : after.files.length = before.files.length
  content_other : ∀ file, file ≠ heap.file → after.content file = before.content file
  extent_eq : heap.extent after = max (heap.extent before) (number + 1)
  pageAt_self : heap.pageAt after number = .ok page
  pageAt_other : ∀ other, other ≠ number → other < heap.extent before →
    heap.pageAt after other = heap.pageAt before other
  whole : heap.Whole after

namespace Page

theorem contents_reread {page : Page} (formed : page.Formed) :
    page.reread.contents = page.contents := by
  funext slot
  have values := values_reread formed slot
  have keptOnce := congrArg (Option.map (List.map Value.kept)) values
  rw [Option.map_map, Option.map_map] at keptOnce
  refine Eq.trans ?_ (keptOnce.trans ?_)
  · rfl
  · rw [contents]
    congr 1
    funext row
    rw [Function.comp_apply, List.map_map]
    congr 1
    funext value
    exact Value.kept_kept value

theorem contents_setSlot (page : Page) {slot : Nat} (inside : slot < page.slotCount)
    (row : Option Row) (other : Nat) :
    (page.setSlot slot row).contents other =
      if other = slot then row.map fun row => row.values.map Value.kept else page.contents other := by
  rw [contents, row_setSlot page inside]
  split <;> rfl

theorem isSome_contents (page : Page) (slot : Nat) :
    (page.contents slot).isSome = (page.row? slot).isSome :=
  Option.isSome_map

theorem contents_empty (id : PageId) (schema : Schema) (size : Nat) :
    (empty id schema size).contents = Contents.blank := by
  funext slot
  have free : (empty id schema size).row? slot = none := by
    simp only [empty, row?, List.getElem?_replicate]
    split <;> rfl
  rw [contents, free]
  rfl

theorem encode_empty (id : PageId) (schema : Schema) (size : Nat) :
    (empty id schema size).encode = Bytes.zeros size := by
  have header : ∀ count, Bitmap.toBytes count (List.replicate (8 * count) false) =
      List.replicate count 0 := by
    intro count
    induction count with
    | zero => rfl
    | succ count ih =>
      rw [Bitmap.toBytes, List.take_replicate, List.drop_replicate,
        Nat.min_eq_left (by omega), show 8 * (count + 1) - 8 = 8 * count by omega, ih,
        List.replicate_succ]
      rfl
  have body : ∀ slots, (List.replicate slots none).flatMap (encodeSlot schema.width) =
      List.replicate (slots * schema.width) 0 := by
    intro slots
    induction slots with
    | zero => rw [Nat.zero_mul]; rfl
    | succ slots ih =>
      rw [List.replicate_succ, List.flatMap_cons, ih, encodeSlot, Bytes.zeros,
        List.replicate_append_replicate, Nat.succ_mul, Nat.add_comm]
  have count : (empty id schema size).slotCount = Geometry.slotCount size schema.width := by
    simp [empty, slotCount]
  have room := Geometry.usedBytes_slotCount_le size schema.width
  rw [Geometry.usedBytes] at room
  rw [encode, count]
  dsimp only [empty]
  rw [header, body, List.replicate_append_replicate, Bytes.resized_of_le, Bytes.zeros,
    Bytes.zeros, List.length_replicate, List.replicate_append_replicate, Nat.add_sub_cancel' room]
  rw [List.length_replicate]
  exact room

theorem reread_empty (id : PageId) (schema : Schema) (size : Nat) :
    (empty id schema size).reread = empty id schema size := by
  rw [reread, empty, List.map_replicate]
  rfl

theorem decode_zeros (id : PageId) (schema : Schema) (size : Nat) :
    decode id schema (Bytes.zeros size) = .ok (empty id schema size) := by
  have decoded := decode_encode (formed_empty id schema size)
  rw [encode_empty, reread_empty] at decoded
  exact decoded

end Page

namespace HeapFile

variable {heap : HeapFile} {disk : Disk}

theorem extent_eq (heap : HeapFile) (disk : Disk) : heap.extent disk =
    ((disk.content heap.file).length + heap.pageSize - 1) / heap.pageSize := by
  rw [extent, Disk.length_eq]

theorem extent_congr_length {other : Disk} (same : other.length heap.file = disk.length heap.file) :
    heap.extent other = heap.extent disk := by
  rw [extent, extent, same]

theorem extent_eq_of_length {count : Nat}
    (length : (disk.content heap.file).length = count * heap.pageSize) :
    heap.extent disk = count := by
  have size_pos := heap.size_pos
  rw [extent_eq, length, Nat.mul_comm, Nat.add_sub_assoc size_pos, Nat.mul_add_div size_pos,
    Nat.div_eq_of_lt (Nat.sub_lt size_pos Nat.one_pos), Nat.add_zero]

theorem extent_mono {other : Disk} (grown : disk.length heap.file ≤ other.length heap.file) :
    heap.extent disk ≤ heap.extent other :=
  Nat.div_le_div_right (Nat.sub_le_sub_right (Nat.add_le_add_right grown _) _)

/-- The number of pages that the file tells. -/
def pageCount (heap : HeapFile) (disk : Disk) : Nat := (heap.numPages disk).toNat

theorem pageCount_lt (heap : HeapFile) (disk : Disk) : heap.pageCount disk < 4294967296 :=
  (heap.numPages disk).toNat_lt

theorem pageCount_eq_mod (heap : HeapFile) (disk : Disk) :
    heap.pageCount disk = heap.extent disk % 4294967296 := by
  rw [pageCount, numPages, UInt32.toNat_ofNat']

theorem pageCount_le_extent (heap : HeapFile) (disk : Disk) :
    heap.pageCount disk ≤ heap.extent disk := by
  rw [pageCount_eq_mod]
  exact Nat.mod_le _ _

/-- A file of fewer than 2^32 pages tells all of them. -/
theorem pageCount_eq_extent (few : heap.extent disk < 4294967296) :
    heap.pageCount disk = heap.extent disk := by
  rw [pageCount_eq_mod, Nat.mod_eq_of_lt few]

theorem extent_mul_size (whole : heap.Whole disk) :
    heap.extent disk * heap.pageSize = (disk.content heap.file).length := by
  rcases whole.divides with ⟨count, length⟩
  rw [Nat.mul_comm] at length
  rw [extent_eq_of_length length, length]

/-- If all that a file holds is on its first page, its other pages are empty. -/
theorem pageAt_of_short (divides : heap.pageSize ∣ disk.length heap.file)
    (short : (disk.held heap.file).head.length ≤ heap.pageSize) {number : Nat}
    (behind : number ≠ 0) (inside : number < heap.extent disk) :
    heap.pageAt disk number = .ok (Page.empty (heap.page number) heap.schema heap.pageSize) := by
  obtain ⟨count, length⟩ := divides
  have extent : heap.extent disk = count :=
    extent_eq_of_length (by rw [← Disk.length_eq, length, Nat.mul_comm])
  have within : number * heap.pageSize + heap.pageSize ≤ disk.length heap.file := by
    rw [length, Nat.mul_comm heap.pageSize, ← Nat.succ_mul]
    exact Nat.mul_le_mul_right _ (extent ▸ inside)
  have past : (disk.held heap.file).head.length ≤ number * heap.pageSize :=
    Nat.le_trans short (Nat.le_mul_of_pos_left _ (Nat.pos_of_ne_zero behind))
  have room : min heap.pageSize (disk.length heap.file - number * heap.pageSize) =
      heap.pageSize := Nat.min_eq_left (by omega)
  have zeros : disk.slice heap.file (number * heap.pageSize) heap.pageSize =
      Bytes.zeros heap.pageSize := by
    rw [Disk.slice, SparseBytes.slice, Bytes.slice, List.drop_eq_nil_of_le past, List.take_nil,
      ← Disk.length, room, Bytes.resized, List.take_nil]
    rfl
  rw [pageAt, image, ← Disk.slice_eq, zeros, Page.decode_zeros]

/-- A file is whole if all that it holds is on its first page. -/
theorem whole_of_first (exists_file : heap.file < disk.files.length)
    (divides : heap.pageSize ∣ disk.length heap.file)
    (short : (disk.held heap.file).head.length ≤ heap.pageSize)
    (first : ∃ page, Page.decode (heap.page 0) heap.schema (disk.slice heap.file 0 heap.pageSize) =
      .ok page) : heap.Whole disk := by
  refine ⟨exists_file, Disk.length_eq disk heap.file ▸ divides, fun number inside => ?_⟩
  by_cases behind : number = 0
  · subst behind
    rwa [pageAt, image, ← Disk.slice_eq, Nat.zero_mul]
  · exact ⟨_, pageAt_of_short divides short behind inside⟩

theorem length_image (whole : heap.Whole disk) {number : Nat}
    (inside : number < heap.extent disk) : (heap.image disk number).length = heap.pageSize := by
  have size := extent_mul_size whole
  have room : number * heap.pageSize + heap.pageSize ≤ heap.extent disk * heap.pageSize := by
    rw [← Nat.succ_mul]
    exact Nat.mul_le_mul_right _ inside
  rw [image, Bytes.slice, List.length_take, List.length_drop]
  omega

theorem length_image_lt (whole : heap.Whole disk) {number : Nat}
    (outside : heap.extent disk ≤ number) : (heap.image disk number).length < heap.pageSize := by
  have size := extent_mul_size whole
  have past : heap.extent disk * heap.pageSize ≤ number * heap.pageSize :=
    Nat.mul_le_mul_right _ outside
  have pos := heap.size_pos
  rw [image, Bytes.slice, List.length_take, List.length_drop]
  omega

theorem owns_of_pageAt (whole : heap.Whole disk) {number : Nat}
    (inside : number < heap.extent disk) {page : Page}
    (found : heap.pageAt disk number = .ok page) : heap.Owns number page := by
  rcases Page.decode_eq_ok_iff.mp found with ⟨-, idEq, schemaEq, sizeEq, -, -⟩
  refine ⟨idEq, schemaEq, ?_, Page.formed_decode found⟩
  rw [sizeEq, length_image whole inside]

theorem slotCount_of_owns {number : Nat} {page : Page} (owns : heap.Owns number page) :
    page.slotCount = heap.slotCount := by
  rw [owns.formed.slotCount_eq, owns.size_eq, owns.schema_eq, slotCount]

theorem pageAt_congr {other : Disk} (same : other.content heap.file = disk.content heap.file)
    (number : Nat) : heap.pageAt other number = heap.pageAt disk number := by
  rw [pageAt, pageAt, image, image, same]

theorem extent_congr {other : Disk} (same : other.content heap.file = disk.content heap.file) :
    heap.extent other = heap.extent disk := by
  rw [extent_eq, extent_eq, same]

theorem pageCount_congr {other : Disk} (same : other.content heap.file = disk.content heap.file) :
    heap.pageCount other = heap.pageCount disk := by
  rw [pageCount_eq_mod, pageCount_eq_mod, extent_congr same]

theorem whole_congr {other : Disk} (length : other.files.length = disk.files.length)
    (same : other.content heap.file = disk.content heap.file) (whole : heap.Whole disk) :
    heap.Whole other := by
  refine ⟨?_, ?_, ?_⟩
  · rw [length]
    exact whole.exists_file
  · rw [same]
    exact whole.divides
  · intro number inside
    rw [extent_congr same] at inside
    rw [pageAt_congr same]
    exact whole.readable number inside

theorem image_overwrite_other (whole : heap.Whole disk) {number other : Nat} {patch : Bytes}
    (atMost : number ≤ heap.extent disk) (sized : patch.length = heap.pageSize)
    (differs : other ≠ number) :
    heap.image (disk.overwrite heap.file (number * heap.pageSize) patch) other =
      heap.image disk other := by
  have size := extent_mul_size whole
  have start : number * heap.pageSize ≤ (disk.content heap.file).length := by
    rw [← size]
    exact Nat.mul_le_mul_right _ atMost
  rw [image, image, Disk.content_overwrite_self disk whole.exists_file]
  rcases Nat.lt_or_gt_of_ne differs with before | after
  · apply Bytes.slice_overwrite_before start
    rw [← Nat.succ_mul]
    exact Nat.mul_le_mul_right _ before
  · apply Bytes.slice_overwrite_after _ start
    rw [sized, ← Nat.succ_mul]
    exact Nat.mul_le_mul_right _ after

theorem rewritten_overwrite (whole : heap.Whole disk) {number : Nat} {patch : Bytes} {page : Page}
    (atMost : number ≤ heap.extent disk) (sized : patch.length = heap.pageSize)
    (decoded : Page.decode (heap.page number) heap.schema patch = .ok page) :
    heap.Rewritten disk number page
      ((disk.overwrite heap.file (number * heap.pageSize) patch).countWrite heap.opening) := by
  have size := extent_mul_size whole
  have proper : patch ≠ [] := by
    intro none
    have pos := heap.size_pos
    rw [← sized, none] at pos
    exact absurd pos (Nat.lt_irrefl 0)
  have content := Disk.content_overwrite_self disk whole.exists_file (number * heap.pageSize) patch
  have length : ((disk.overwrite heap.file (number * heap.pageSize) patch).content
      heap.file).length = max (heap.extent disk) (number + 1) * heap.pageSize := by
    rw [content, Bytes.length_overwrite _ _ proper, ← size, sized, ← Nat.succ_mul]
    rcases Nat.le_total (heap.extent disk) (number + 1) with more | less
    · rw [Nat.max_eq_right more, Nat.max_eq_right (Nat.mul_le_mul_right _ more)]
    · rw [Nat.max_eq_left less, Nat.max_eq_left (Nat.mul_le_mul_right _ less)]
  have count : heap.extent
      ((disk.overwrite heap.file (number * heap.pageSize) patch).countWrite heap.opening) =
        max (heap.extent disk) (number + 1) :=
    extent_eq_of_length length
  have self : heap.pageAt
      ((disk.overwrite heap.file (number * heap.pageSize) patch).countWrite heap.opening) number =
        .ok page := by
    have there : heap.image (disk.overwrite heap.file (number * heap.pageSize) patch) number =
        patch := by
      rw [image, content, ← sized]
      exact Bytes.slice_overwrite_self _ _ _
    change Page.decode (heap.page number) heap.schema
      (heap.image (disk.overwrite heap.file (number * heap.pageSize) patch) number) = _
    rw [there]
    exact decoded
  have others : ∀ other, other ≠ number → heap.pageAt
      ((disk.overwrite heap.file (number * heap.pageSize) patch).countWrite heap.opening) other =
        heap.pageAt disk other := by
    intro other differs
    have there := image_overwrite_other whole atMost sized differs
    rw [pageAt, pageAt, ← there]
    rfl
  refine ⟨Disk.length_files_overwrite .., ?_, count, self, fun other differs _ => others other differs, ?_⟩
  · intro file differs
    exact Disk.content_overwrite_other disk differs _ _
  · refine ⟨?_, ⟨_, length.trans (Nat.mul_comm _ _)⟩, ?_⟩
    · exact (Disk.length_files_overwrite ..).symm ▸ whole.exists_file
    · intro other inside
      by_cases same : other = number
      · exact ⟨page, same ▸ self⟩
      · rw [others other same]
        apply whole.readable
        rw [count] at inside
        omega

theorem Rewritten.grown {number : Nat} {page : Page} {after : Disk} (whole : heap.Whole disk)
    (rewritten : heap.Rewritten disk number page after) (file : Nat) :
    disk.length file ≤ after.length file := by
  rw [Disk.length_eq, Disk.length_eq]
  by_cases same : file = heap.file
  · rw [same, ← extent_mul_size whole, ← extent_mul_size rewritten.whole, rewritten.extent_eq]
    exact Nat.mul_le_mul_right _ (Nat.le_max_left _ _)
  · exact Nat.le_of_eq (congrArg List.length (rewritten.content_other file same)).symm

/-- Writing a page that the file has leaves every file as long as it was. -/
theorem Rewritten.length_eq {number : Nat} {page : Page} {after : Disk} (whole : heap.Whole disk)
    (inside : number < heap.extent disk) (rewritten : heap.Rewritten disk number page after)
    (file : Nat) : after.length file = disk.length file := by
  rw [Disk.length_eq, Disk.length_eq]
  by_cases same : file = heap.file
  · rw [same, ← extent_mul_size whole, ← extent_mul_size rewritten.whole, rewritten.extent_eq,
      Nat.max_eq_left inside]
  · rw [rewritten.content_other file same]

theorem writePage_ends (whole : heap.Whole disk) {number : Nat} {page : Page}
    (small : number < 4294967296) (owns : heap.Owns number page) (inside : number < heap.extent disk) :
    Action.Ends (heap.writePage page) disk
      (fun _ after => heap.Rewritten disk number page.reread after) fun _ _ => False := by
  have sized : page.encode.length = heap.pageSize := by rw [Page.length_encode, owns.size_eq]
  have decoded : Page.decode (heap.page number) heap.schema page.encode = .ok page.reread := by
    rw [← owns.id_eq, ← owns.schema_eq]
    exact Page.decode_encode owns.formed
  have place : page.id.offset heap.pageSize = number * heap.pageSize := by
    rw [owns.id_eq, PageId.offset, heap.number_page small]
  unfold writePage
  dsimp only
  rw [if_neg (fun wrong => wrong sized), Action.ends_modify, place]
  exact rewritten_overwrite whole (Nat.le_of_lt inside) sized decoded

theorem appendPage_ends (whole : heap.Whole disk) :
    Action.Ends heap.appendPage disk
      (fun number after => number = heap.numPages disk ∧ heap.Rewritten disk (heap.pageCount disk)
        (Page.empty (heap.page (heap.pageCount disk)) heap.schema heap.pageSize) after)
      fun _ _ => False := by
  have added := rewritten_overwrite whole (heap.pageCount_le_extent disk)
    List.length_replicate (Page.decode_zeros (heap.page _) heap.schema heap.pageSize)
  exact ⟨rfl, added⟩

theorem readPage_ends (whole : heap.Whole disk) {id : PageId} (own : id.table = heap.table) :
    Action.Ends (heap.readPage id) disk
      (fun page after => id.number < heap.extent disk ∧ heap.pageAt disk id.number = .ok page ∧
        after.files = disk.files)
      fun fault after => heap.extent disk ≤ id.number ∧ fault = .error (.io .unexpectedEof) ∧
        after = disk := by
  unfold readPage
  dsimp only
  rw [if_neg (fun wrong => wrong own), Action.ends_bind, Action.ends_get, Disk.slice_eq]
  change Action.Ends (if (heap.image disk id.number).length < heap.pageSize then _ else _) _ _ _
  by_cases inside : id.number < heap.extent disk
  · rcases whole.readable id.number inside with ⟨page, found⟩
    have read : Page.decode id heap.schema (Bytes.slice (disk.content heap.file)
        (id.offset heap.pageSize) heap.pageSize) = .ok page := by
      rw [pageAt, page_number own] at found
      exact found
    have long := Nat.not_lt.mpr (Nat.le_of_eq (length_image whole inside).symm)
    rw [if_neg long, Action.ends_bind, Action.ends_set, Action.ends_ofExcept, read]
    exact ⟨inside, found, rfl⟩
  · have outside := Nat.le_of_not_lt inside
    rw [if_pos (length_image_lt whole outside), Action.ends_bind, Action.ends_fail]
    exact ⟨outside, rfl, rfl⟩

end HeapFile

end PagedStore
