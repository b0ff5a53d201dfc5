import Mathlib.Data.List.Induction
import PagedStore.Proofs.Disjoint
import PagedStore.Proofs.Row.FixedWidth

/-!
A heap file that is written from nothing is an array of pages. Pages are written in any order, over one
another and with gaps between them. In the end each page is the last one that was written under its
number; a page that was passed over is read as one without rows, since the file system fills a gap with
zeros; and the file ends with the highest page that was written. A page of another size is refused, and
a page that is written changes the bytes of no other. The file tells how many pages it has, unless the
highest of them is the last one that has a number.
-/

namespace PagedStore

namespace Bytes

/-- A stretch between the end of the data and the place of a write is filled with zeros. -/
theorem slice_overwrite_gap {data patch : Bytes} {start first count : Nat} (some_patch : patch ≠ [])
    (past : data.length ≤ first) (before : first + count ≤ start) :
    slice (overwrite data start patch) first count = zeros count := by
  have proper : ¬patch.isEmpty = true := by simpa using some_patch
  have whole : data.take start = data := List.take_of_length_le (by omega)
  obtain ⟨gap, isGap⟩ := Nat.exists_eq_add_of_le past
  have passed : first - data.length = gap := by omega
  have room : count ≤ start - data.length - gap := by omega
  have short : (zeros (start - data.length)).length = start - data.length := List.length_replicate
  rw [overwrite, if_neg proper, whole, padded, slice, List.append_assoc, List.append_assoc,
    List.drop_append, List.drop_eq_nil_of_le past, List.nil_append, passed,
    List.drop_append_of_le_length (by omega), zeros, List.drop_replicate,
    List.take_append_of_le_length (by rw [List.length_replicate]; exact room), List.take_replicate,
    Nat.min_eq_left room, zeros]

end Bytes

namespace Page

/-- The page seen with the columns of an agreeing schema, whose names may differ. -/
def underSchema (page : Page) (schema : Schema) : Page := { page with schema }

/-- What comes back of a page that was written: the same rows in the same slots under the same records,
with the texts that their fields have room for, on a clean page with the columns of the file. -/
structure ComesBack (written : Page) (schema : Schema) (read : Page) : Prop where
  id_eq : read.id = written.id
  schema_eq : read.schema = schema
  size_eq : read.size = written.size
  clean : read.isDirty = false
  slotCount_eq : read.slotCount = written.slotCount
  isUsed_eq : ∀ slot, read.isUsed slot = written.isUsed slot
  record_eq : ∀ slot, (read.row? slot).map Row.record = (written.row? slot).map Row.record
  values : ∀ slot row, written.row? slot = some row →
    ∃ back, read.row? slot = some back ∧ List.Forall₂ Value.FittedTo row.values back.values

variable {page : Page} {schema : Schema}

theorem formed_underSchema (formed : page.Formed) (agrees : page.schema.agrees schema) :
    (page.underSchema schema).Formed where
  slotCount_eq := by
    have count := formed.slotCount_eq
    rw [Schema.width_eq_of_agrees agrees] at count
    exact count
  length_bits := formed.length_bits
  usage_eq := formed.usage_eq
  holds slot row stored := by
    have held := formed.holds slot row stored
    have sameTypes := (Schema.agrees_iff row.schema page.schema).mp held.agrees
    have pageTypes := (Schema.agrees_iff page.schema schema).mp agrees
    exact ⟨(Schema.agrees_iff row.schema schema).mpr (sameTypes.trans pageTypes), held.typed,
      held.record_eq⟩

theorem encode_underSchema (agrees : page.schema.agrees schema) :
    (page.underSchema schema).encode = page.encode := by
  have width : (page.underSchema schema).schema.width = page.schema.width :=
    (Schema.width_eq_of_agrees agrees).symm
  rw [encode, encode, width]
  rfl

theorem exists_comesBack (formed : page.Formed) (agrees : page.schema.agrees schema) :
    ∃ read, decode page.id schema page.encode = .ok read ∧ page.ComesBack schema read := by
  have formedHere := formed_underSchema formed agrees
  have decoded := decode_encode formedHere
  rw [encode_underSchema agrees] at decoded
  refine ⟨_, decoded, rfl, rfl, rfl, rfl, slotCount_reread _, isUsed_reread _,
    record_reread formedHere, ?_⟩
  intro slot row stored
  have values := values_reread formedHere slot
  have there : (page.underSchema schema).row? slot = some row := stored
  rw [there] at values
  obtain ⟨back, found, kept⟩ := Option.map_eq_some_iff.mp values
  refine ⟨back, found, ?_⟩
  rw [kept, List.forall₂_map_right_iff, List.forall₂_same]
  exact fun value _ => value.fittedTo_kept

end Page

namespace HeapFile

structure Suits (heap : HeapFile) (page : Page) : Prop where
  table_eq : page.id.table = heap.table
  agrees : page.schema.agrees heap.schema
  reachable : page.Reachable

/-- The pages of the right size among those that are written. -/
def taken (heap : HeapFile) (pages : List Page) : List Page :=
  pages.filter fun page => page.size = heap.pageSize

def lastAt (pages : List Page) (number : Nat) : Option Page :=
  (pages.filter fun page => page.id.number = number).getLast?

/-- One more than the highest number of a page, zero if there is no page. -/
def reach (pages : List Page) : Nat :=
  pages.foldl (fun most page => max most (page.id.number + 1)) 0

/-- The disk after the pages have been written one after the other; a write that fails leaves it as it
had changed it by then. -/
def afterWrites (heap : HeapFile) (disk : Disk) (pages : List Page) : Disk :=
  pages.foldl (fun disk page => ((heap.writePage page).outcome disk).2) disk

structure Placed (heap : HeapFile) (before : Disk) (page : Page) (after : Disk) : Prop where
  self : heap.image after page.id.number = page.encode
  others : ∀ other, other ≠ page.id.number → other < heap.extent before →
    heap.image after other = heap.image before other
  gap : ∀ other, heap.extent before ≤ other → other < page.id.number →
    heap.image after other = Bytes.zeros heap.pageSize
  files : ∀ file, file ≠ heap.file → after.content file = before.content file

/-- The file is the array of the last pages written under each number. It tells how many they are if
that is less than 2^32. -/
structure IsArray (heap : HeapFile) (pages : List Page) (disk : Disk) : Prop where
  extent_eq : heap.extent disk = reach pages
  told : (heap.numPages disk).toNat = if reach pages = 4294967296 then 0 else reach pages
  last : ∀ id page, id.table = heap.table → lastAt pages id.number = some page →
    ∃ read, heap.readPage id disk = .ok read (disk.countRead heap.opening) ∧
      page.ComesBack heap.schema read
  skipped : ∀ id, id.table = heap.table → lastAt pages id.number = none → id.number < reach pages →
    heap.readPage id disk =
      .ok (Page.empty id heap.schema heap.pageSize) (disk.countRead heap.opening)
  past : ∀ id, id.table = heap.table → reach pages ≤ id.number →
    heap.readPage id disk = .error (.error (.io .unexpectedEof)) disk
  refused : ∀ page : Page, page.size ≠ heap.pageSize →
    heap.writePage page disk = .error (.error (.wrongPageSize heap.pageSize page.size)) disk
  placed : ∀ page : Page, page.size = heap.pageSize →
    ∃ after, heap.writePage page disk = .ok () after ∧ heap.Placed disk page after

structure Laid (heap : HeapFile) (pages : List Page) (disk : Disk) : Prop where
  exists_file : heap.file < disk.files.length
  length_eq : (disk.content heap.file).length = reach pages * heap.pageSize
  last : ∀ number page, lastAt pages number = some page → heap.image disk number = page.encode
  skipped : ∀ number, lastAt pages number = none → number < reach pages →
    heap.image disk number = Bytes.zeros heap.pageSize

variable {heap : HeapFile} {disk : Disk} {pages : List Page} {page : Page} {number : Nat}

theorem taken_concat (heap : HeapFile) (pages : List Page) (page : Page) :
    heap.taken (pages ++ [page]) =
      heap.taken pages ++ if page.size = heap.pageSize then [page] else [] := by
  by_cases sized : page.size = heap.pageSize <;> simp [taken, sized]

theorem lastAt_concat (pages : List Page) (page : Page) (number : Nat) :
    lastAt (pages ++ [page]) number =
      if page.id.number = number then some page else lastAt pages number := by
  by_cases same : page.id.number = number <;> simp [lastAt, same]

theorem reach_concat (pages : List Page) (page : Page) :
    reach (pages ++ [page]) = max (reach pages) (page.id.number + 1) := by
  simp [reach]

theorem reach_le (pages : List Page) : reach pages ≤ 4294967296 := by
  induction pages using List.reverseRecOn with
  | nil => exact Nat.zero_le _
  | append_singleton pages page ih =>
    rw [reach_concat]
    exact Nat.max_le.mpr ⟨ih, page.id.number_lt⟩

theorem lt_reach_of_lastAt (found : lastAt pages number = some page) : number < reach pages := by
  induction pages using List.reverseRecOn with
  | nil => simp [lastAt] at found
  | append_singleton pages other ih =>
    rw [lastAt_concat] at found
    rw [reach_concat]
    split at found
    · next same => omega
    · have earlier := ih found
      omega

theorem of_lastAt (found : lastAt pages number = some page) :
    page ∈ pages ∧ page.id.number = number := by
  have member := List.mem_of_getLast? found
  simpa using member

/-- A file of whole pages has the bytes of those pages, and no others. -/
theorem covers_iff {count : Nat}
    (length : (disk.content heap.file).length = count * heap.pageSize) :
    heap.Covers disk number ↔ number < count := by
  rw [Covers, length, Nat.mul_le_mul_right_iff heap.size_pos, Nat.succ_le_iff]

theorem length_image_of_covers (covers : heap.Covers disk number) :
    (heap.image disk number).length = heap.pageSize := by
  rw [Covers, Nat.succ_mul] at covers
  rw [image, Bytes.slice, List.length_take, List.length_drop]
  omega

theorem length_image_past {count : Nat}
    (length : (disk.content heap.file).length = count * heap.pageSize) (past : count ≤ number) :
    (heap.image disk number).length < heap.pageSize := by
  have size_pos := heap.size_pos
  have further := Nat.mul_le_mul_right heap.pageSize past
  rw [image, Bytes.slice, List.length_take, List.length_drop]
  omega

/-- Reading a page is reading its bytes, if all of them are there. -/
theorem readPage_eq (disk : Disk) {id : PageId} (own : id.table = heap.table) :
    heap.readPage id disk =
      if (heap.image disk id.number).length < heap.pageSize then
        .error (.error (.io .unexpectedEof)) disk
      else match heap.pageAt disk id.number with
        | .ok page => .ok page (disk.countRead heap.opening)
        | .error cause => .error (.error cause) (disk.countRead heap.opening) := by
  have image : disk.slice heap.file (id.offset heap.pageSize) heap.pageSize =
      heap.image disk id.number := disk.slice_eq ..
  unfold readPage
  dsimp only
  rw [if_neg (fun wrong => wrong own), Action.bind_apply, Action.get_apply]
  dsimp only
  rw [image]
  by_cases torn : (heap.image disk id.number).length < heap.pageSize
  · rw [if_pos torn, if_pos torn]
    rfl
  · rw [if_neg torn, if_neg torn, pageAt, page_number own]
    cases Page.decode id heap.schema (heap.image disk id.number) <;> rfl

theorem writePage_refused (wrong : page.size ≠ heap.pageSize) (disk : Disk) :
    heap.writePage page disk = .error (.error (.wrongPageSize heap.pageSize page.size)) disk := by
  unfold writePage
  simp only [Page.length_encode, if_pos wrong]
  rfl

theorem writePage_taken (sized : page.size = heap.pageSize) (disk : Disk) :
    heap.writePage page disk = .ok ()
      ((disk.overwrite heap.file (page.id.number * heap.pageSize) page.encode).countWrite
        heap.opening) := by
  unfold writePage
  simp only [Page.length_encode, sized, ne_eq, not_true, if_false]
  rfl

section

variable (exists_file : heap.file < disk.files.length) {count : Nat}
  (length : (disk.content heap.file).length = count * heap.pageSize)
  (sized : page.size = heap.pageSize)

include sized in
theorem encode_ne_nil : page.encode ≠ [] := by
  intro none
  have size := Page.length_encode page
  rw [none, sized] at size
  exact absurd size (Nat.ne_of_lt heap.size_pos)

include exists_file length sized in
/-- One write makes the file long enough for the page and not longer. -/
theorem length_overwrite_page :
    ((disk.overwrite heap.file (page.id.number * heap.pageSize) page.encode).content
      heap.file).length = max count (page.id.number + 1) * heap.pageSize := by
  rw [Disk.content_overwrite_self disk exists_file,
    Bytes.length_overwrite _ _ (encode_ne_nil sized), length, Page.length_encode, sized,
    ← Nat.succ_mul, ← Nat.mul_max_mul_right]

include exists_file length sized in
/-- What one write leaves. The pages of a file do not overlap, so the bytes of another page stay as they
are if the file has them, and are zeros if they lie in the gap. -/
theorem placed_overwrite :
    heap.Placed disk page
      ((disk.overwrite heap.file (page.id.number * heap.pageSize) page.encode).countWrite
        heap.opening) := by
  have full : page.encode.length = heap.pageSize := by rw [Page.length_encode, sized]
  have pages : heap.extent disk = count := extent_eq_of_length length
  have content := Disk.content_overwrite_self disk exists_file (page.id.number * heap.pageSize)
    page.encode
  have written := fun number => congrArg
    (fun content => Bytes.slice content (number * heap.pageSize) heap.pageSize) content
  constructor
  · refine (written page.id.number).trans ?_
    rw [← full]
    exact Bytes.slice_overwrite_self ..
  · intro other differs inside
    rw [pages] at inside
    apply image_overwrite_elsewhere ((covers_iff length).mpr inside)
    intro _
    rw [full]
    exact apart_of_ne differs
  · intro other past before
    rw [pages] at past
    have further := Nat.mul_le_mul_right heap.pageSize past
    have below : (other + 1) * heap.pageSize ≤ page.id.number * heap.pageSize :=
      Nat.mul_le_mul_right _ before
    rw [Nat.succ_mul] at below
    exact (written other).trans
      (Bytes.slice_overwrite_gap (encode_ne_nil sized) (length ▸ further) below)
  · intro file differs
    exact Disk.content_overwrite_other disk differs ..

end

/-- What one write preserves. -/
theorem laid_concat (laid : heap.Laid pages disk)
    (sized : page.size = heap.pageSize) :
    heap.Laid (pages ++ [page])
      ((disk.overwrite heap.file (page.id.number * heap.pageSize) page.encode).countWrite
        heap.opening) := by
  have placed := placed_overwrite laid.exists_file laid.length_eq sized
  have extent : heap.extent disk = reach pages := extent_eq_of_length laid.length_eq
  constructor
  · exact Nat.lt_of_lt_of_eq laid.exists_file (Disk.length_files_overwrite ..).symm
  · rw [reach_concat]
    exact length_overwrite_page laid.exists_file laid.length_eq sized
  · intro number last found
    rw [lastAt_concat] at found
    split at found
    · next same =>
      obtain rfl := Option.some.inj found
      rw [← same]
      exact placed.self
    · next differs =>
      have inside := lt_reach_of_lastAt found
      rw [placed.others number (Ne.symm differs) (extent ▸ inside), laid.last number last found]
  · intro number skipped inside
    rw [lastAt_concat] at skipped
    split at skipped
    · contradiction
    · next differs =>
      by_cases known : number < reach pages
      · rw [placed.others number (Ne.symm differs) (extent ▸ known),
          laid.skipped number skipped known]
      · -- the page lies between the old end of the file and the page that is written
        have past : heap.extent disk ≤ number := extent ▸ Nat.le_of_not_lt known
        rw [reach_concat] at inside
        exact placed.gap number past (by omega)

/-- What all writes preserve. -/
theorem laid_afterWrites (exists_file : heap.file < disk.files.length)
    (bare : disk.content heap.file = []) (pages : List Page) :
    heap.Laid (heap.taken pages) (heap.afterWrites disk pages) := by
  induction pages using List.reverseRecOn with
  | nil =>
    refine ⟨exists_file, ?_, ?_, ?_⟩
    · simp [taken, reach, afterWrites, bare]
    · simp [taken, lastAt]
    · simp [taken, reach]
  | append_singleton pages page ih =>
    rw [afterWrites, List.foldl_concat, ← afterWrites, taken_concat, Action.outcome]
    by_cases sized : page.size = heap.pageSize
    · rw [if_pos sized, writePage_taken sized]
      exact laid_concat ih sized
    · rw [if_neg sized, writePage_refused sized, List.append_nil]
      exact ih

theorem isArray_of_laid (laid : heap.Laid pages disk) (suits : ∀ page ∈ pages, heap.Suits page) :
    heap.IsArray pages disk where
  extent_eq := extent_eq_of_length laid.length_eq
  told := by
    have atMost := reach_le pages
    rw [numPages, extent_eq_of_length laid.length_eq, UInt32.toNat_ofNat']
    split <;> omega
  last id page own found := by
    obtain ⟨member, isNumber⟩ := of_lastAt found
    have suited := suits page member
    have covers := (covers_iff laid.length_eq).mpr (lt_reach_of_lastAt found)
    have same : page.id = id := PageId.ext_number (suited.table_eq.trans own.symm) isNumber
    obtain ⟨read, decoded, back⟩ :=
      Page.exists_comesBack (Page.formed_of_reachable suited.reachable) suited.agrees
    refine ⟨read, ?_, back⟩
    rw [readPage_eq disk own,
      if_neg (Nat.not_lt.mpr (Nat.le_of_eq (length_image_of_covers covers).symm)),
      pageAt, page_number own, laid.last id.number page found, ← same, decoded]
  skipped id own skipped inside := by
    have covers := (covers_iff laid.length_eq).mpr inside
    rw [readPage_eq disk own,
      if_neg (Nat.not_lt.mpr (Nat.le_of_eq (length_image_of_covers covers).symm)),
      pageAt, page_number own, laid.skipped id.number skipped inside, Page.decode_zeros]
  past id own past := by
    rw [readPage_eq disk own, if_pos (length_image_past laid.length_eq past)]
  refused page wrong := writePage_refused wrong disk
  placed page sized :=
    ⟨_, writePage_taken sized disk, placed_overwrite laid.exists_file laid.length_eq sized⟩

/-- A file that starts without bytes is an array of independent pages after any writes. -/
theorem isArray_afterWrites (exists_file : heap.file < disk.files.length)
    (bare : disk.content heap.file = []) {pages : List Page}
    (suits : ∀ page ∈ pages, page.size = heap.pageSize → heap.Suits page) :
    heap.IsArray (heap.taken pages) (heap.afterWrites disk pages) := by
  apply isArray_of_laid (laid_afterWrites exists_file bare pages)
  intro page member
  obtain ⟨written, sized⟩ := List.mem_filter.mp member
  exact suits page written (of_decide_eq_true sized)

def pairsFile : HeapFile :=
  ⟨0, 0, (Schema.single (.unnamed .integer)).append (.single (.unnamed .integer)), 10⟩

def pairsDisk : Disk := ⟨[⟨"pairs", .ofBytes []⟩], [.none]⟩

def pairsPage (number size : Nat) (value : Int32) : Page :=
  (Page.empty (pairsFile.page number) pairsFile.schema size).edited
    (.insert ⟨pairsFile.schema, [.integer value, .integer (-value)], rfl, none⟩)

/-- Page 2 is written before page 0 and then once more, page 1 is passed over, and a page that is too
large is refused. -/
theorem isArray_afterWrites_of_pairs :
    let pages := [pairsPage 2 10 5, pairsPage 0 10 6, pairsPage 3 11 7, pairsPage 2 10 8]
    let disk := pairsFile.afterWrites pairsDisk pages
    pairsFile.IsArray (pairsFile.taken pages) disk ∧ pairsFile.numPages disk = 3 ∧
      disk.content 0 = [1, 6, 0, 0, 0, 250, 255, 255, 255, 0] ++ Bytes.zeros 10 ++
        [1, 8, 0, 0, 0, 248, 255, 255, 255, 0] := by
  intro pages disk
  have suits : ∀ page ∈ pages, page.size = pairsFile.pageSize → pairsFile.Suits page := by
    intro page member _
    simp only [pages, List.mem_cons, List.not_mem_nil, or_false] at member
    rcases member with rfl | rfl | rfl | rfl <;>
      exact ⟨rfl, rfl, _, [.insert _], .empty .., rfl⟩
  have there : pairsFile.file < pairsDisk.files.length := by decide
  exact ⟨isArray_afterWrites there rfl suits, by decide +kernel, by decide +kernel⟩

/-- A page is written under the highest number that there is, and the file tells that it has no page. -/
theorem pages_untold :
    let page := Page.empty (pairsFile.page 4294967295) pairsFile.schema 10
    pairsFile.Suits page ∧ page.size = pairsFile.pageSize ∧
      reach (pairsFile.taken [page]) = 4294967296 ∧
      pairsFile.numPages (pairsFile.afterWrites pairsDisk [page]) = 0 :=
  ⟨⟨rfl, rfl, _, [], .empty .., rfl⟩, rfl, by decide +kernel, by decide +kernel⟩

end HeapFile

end PagedStore
