import Mathlib.Logic.Function.Basic
import PagedStore.Proofs.WholeFile

/-!
The reference of a store: its two maps from pages to contents, without files and without a pool. What
may happen to a store is described here on the maps alone: pages may have been saved, a page without
rows may have been added behind the last one, a row may have come into a slot or left it, and a page
may have been discarded. A row goes to the first free slot of its table.
-/

namespace PagedStore

namespace Contents

def Full (slots : Nat) (contents : Contents) : Prop :=
  ∀ slot < slots, (contents slot).isSome

structure Opens (slots : Nat) (contents : Contents) (slot : Nat) : Prop where
  inside : slot < slots
  free : contents slot = none
  taken : ∀ earlier < slot, (contents earlier).isSome

theorem not_full_of_opens {slots slot : Nat} {contents : Contents}
    (opens : contents.Opens slots slot) : ¬ contents.Full slots := by
  intro full
  have taken := full slot opens.inside
  rw [opens.free] at taken
  contradiction

theorem opens_unique {slots slot other : Nat} {contents : Contents}
    (opens : contents.Opens slots slot) (otherOpens : contents.Opens slots other) :
    slot = other := by
  rcases Nat.lt_trichotomy slot other with before | same | after
  · have taken := otherOpens.taken slot before
    rw [opens.free] at taken
    contradiction
  · exact same
  · have taken := opens.taken other after
    rw [otherOpens.free] at taken
    contradiction

theorem opens_blank {slots : Nat} (room : 0 < slots) : blank.Opens slots 0 :=
  ⟨room, rfl, fun _ before => absurd before (Nat.not_lt_zero _)⟩

end Contents

namespace Page

variable {page : Page}

theorem usage_getElem (formed : page.Formed) {slot : Nat} (inside : slot < page.usage.length) :
    page.usage[slot] = (page.contents slot).isSome := by
  have used := isUsed_eq formed slot
  rw [isUsed, List.getElem?_eq_getElem inside, Option.getD_some] at used
  rw [used, isSome_contents]

theorem length_usage (formed : page.Formed) : page.usage.length = page.slotCount := by
  rw [formed.usage_eq, List.length_map]
  rfl

theorem firstFree_eq_some_iff (formed : page.Formed) (slot : Nat) :
    page.firstFree? = some slot ↔ page.contents.Opens page.slotCount slot := by
  have length := length_usage formed
  rw [firstFree?, List.findIdx?_eq_some_iff_getElem]
  constructor
  · rintro ⟨inside, free, taken⟩
    rw [usage_getElem formed, beq_iff_eq, Option.isSome_eq_false_iff, Option.isNone_iff_eq_none]
      at free
    refine ⟨length ▸ inside, free, ?_⟩
    intro earlier before
    have used := taken earlier before
    rw [usage_getElem formed, beq_iff_eq, Bool.not_eq_false] at used
    exact used
  · rintro ⟨inside, free, taken⟩
    refine ⟨length.symm ▸ inside, ?_, ?_⟩
    · rw [usage_getElem formed, free]
      rfl
    · intro earlier before
      rw [usage_getElem formed, taken earlier before]
      decide

theorem freeCount_eq_zero_iff (formed : page.Formed) :
    page.freeCount = 0 ↔ page.contents.Full page.slotCount := by
  have length := length_usage formed
  rw [freeCount, List.count_eq_zero]
  constructor
  · intro none slot inside
    have used := List.getElem_mem (length.symm ▸ inside : slot < page.usage.length)
    rw [usage_getElem formed] at used
    cases taken : (page.contents slot).isSome with
    | true => rfl
    | false => exact absurd (taken ▸ used) none
  · intro full free
    rcases List.mem_iff_getElem.mp free with ⟨slot, inside, isFree⟩
    rw [usage_getElem formed, full slot (length ▸ inside)] at isFree
    contradiction

theorem exists_firstFree (room : page.freeCount ≠ 0) :
    ∃ slot, page.firstFree? = some slot := by
  cases found : page.firstFree? with
  | some slot => exact ⟨slot, rfl⟩
  | none =>
    apply absurd _ room
    rw [freeCount, List.count_eq_zero]
    intro free
    have used := List.findIdx?_eq_none_iff.mp found false free
    contradiction

theorem isUsed_iff_contents (formed : page.Formed) (slot : Nat) :
    page.isUsed slot ↔ (page.contents slot).isSome := by
  rw [isUsed_eq formed, isSome_contents]

theorem delete_of_taken (formed : page.Formed) {row : Row} {record : RecordId}
    (placed : row.record = some record) (own : page.id = record.page)
    (taken : (page.contents record.slot.toNat).isSome) :
    page.delete row = .ok (page.setSlot record.slot.toNat none) := by
  rw [delete_eq_ok_iff]
  exact ⟨record, placed, own.symm, (isUsed_iff_contents formed _).mpr taken, rfl⟩

theorem delete_of_free (formed : page.Formed) {row : Row} {record : RecordId}
    (placed : row.record = some record) (free : page.contents record.slot.toNat = none) :
    page.delete row = .error (.notOnPage record) := by
  rw [delete, placed]
  dsimp only
  rw [if_neg]
  rintro ⟨-, used⟩
  rw [isUsed_iff_contents formed, free] at used
  contradiction

end Page

structure HeapFile.FirstFree (heap : HeapFile) (current : PageId → Option Contents)
    (number slot : Nat) : Prop where
  full : ∀ earlier < number, ∃ contents, current (heap.page earlier) = some contents ∧
    contents.Full heap.slotCount
  opens : ∃ contents, current (heap.page number) = some contents ∧
    contents.Opens heap.slotCount slot

theorem HeapFile.firstFree_unique {heap : HeapFile} {current : PageId → Option Contents}
    {number slot otherNumber otherSlot : Nat} (first : heap.FirstFree current number slot)
    (other : heap.FirstFree current otherNumber otherSlot) :
    number = otherNumber ∧ slot = otherSlot := by
  rcases first.opens with ⟨contents, found, opens⟩
  rcases other.opens with ⟨otherContents, otherFound, otherOpens⟩
  rcases Nat.lt_trichotomy number otherNumber with before | same | after
  · rcases other.full number before with ⟨earlier, there, full⟩
    obtain rfl := Option.some.inj (found.symm.trans there)
    exact absurd full (Contents.not_full_of_opens opens)
  · subst same
    obtain rfl := Option.some.inj (found.symm.trans otherFound)
    exact ⟨rfl, Contents.opens_unique opens otherOpens⟩
  · rcases first.full otherNumber after with ⟨earlier, there, full⟩
    obtain rfl := Option.some.inj (otherFound.symm.trans there)
    exact absurd full (Contents.not_full_of_opens otherOpens)

/-- Past the last page number the pages come round again, and all of them were full before. -/
theorem HeapFile.FirstFree.small {heap : HeapFile} {current : PageId → Option Contents}
    {number slot : Nat} (first : heap.FirstFree current number slot) : number < 4294967296 := by
  apply Nat.lt_of_not_le
  intro large
  rcases first.opens with ⟨contents, found, opens⟩
  have before : number % 4294967296 < number :=
    Nat.lt_of_lt_of_le (Nat.mod_lt _ (Nat.two_pow_pos 32)) large
  rcases first.full _ before with ⟨earlier, there, full⟩
  rw [heap.page_mod] at there
  obtain rfl := Option.some.inj (found.symm.trans there)
  exact Contents.not_full_of_opens opens full

/-- What the files hold of each page and what a reader finds on it. -/
structure Reference where
  durable : PageId → Option Contents
  current : PageId → Option Contents

namespace Reference

structure Saved (before after : Reference) : Prop where
  current_eq : after.current = before.current
  durable_or : ∀ id, after.durable id = before.durable id ∨ after.durable id = before.current id

def written (reference : Reference) (id : PageId) : Reference :=
  { reference with durable := Function.update reference.durable id (reference.current id) }

def appended (reference : Reference) (id : PageId) : Reference where
  durable := Function.update reference.durable id (some Contents.blank)
  current := Function.update reference.current id (some Contents.blank)

def placed (reference : Reference) (id : PageId) (slot : Nat) (values : Option (List Value)) :
    Reference :=
  { reference with
    current := Function.update reference.current id
      ((reference.current id).map fun contents => Function.update contents slot values) }

def discarded (reference : Reference) (id : PageId) : Reference :=
  { reference with current := Function.update reference.current id (reference.durable id) }

theorem saved_trans {first second third : Reference} (left : first.Saved second)
    (right : second.Saved third) : first.Saved third where
  current_eq := right.current_eq.trans left.current_eq
  durable_or := by
    intro id
    rcases right.durable_or id with kept | copied
    · rw [kept]
      exact left.durable_or id
    · rw [copied, left.current_eq]
      exact Or.inr rfl

theorem saved_appended {before after : Reference} (saved : before.Saved after) (id : PageId) :
    (before.appended id).Saved (after.appended id) where
  current_eq := by
    dsimp only [appended]
    rw [saved.current_eq]
  durable_or := by
    intro other
    dsimp only [appended]
    by_cases same : other = id
    · rw [same, Function.update_self, Function.update_self]
      exact Or.inl rfl
    · rw [Function.update_of_ne same, Function.update_of_ne same, Function.update_of_ne same]
      exact saved.durable_or other

structure Setting where
  files : TableId → Option HeapFile
  hospitable : Prop

variable (setting : Setting) (before : Reference)

/-- Why a page cannot be fetched. -/
inductive Missing (id : PageId) : Error → Prop where
  | table (unknown : setting.files id.table = none) : Missing id (.tableNotFound id.table)
  | page {file : HeapFile} (registered : setting.files id.table = some file)
      (absent : before.current id = none) : Missing id (.io .unexpectedEof)
  | room (unhospitable : ¬ setting.hospitable) : Missing id .outOfPages

variable {setting before} in
/-- A page that is there can be missing for one reason alone. -/
theorem roomless_of_missing {id : PageId} {file : HeapFile} {cause : Error}
    (registered : setting.files id.table = some file) (there : (before.current id).isSome)
    (missing : before.Missing setting id cause) : cause = .outOfPages ∧ ¬ setting.hospitable := by
  cases missing with
  | table unknown =>
    rw [registered] at unknown
    contradiction
  | page _ absent =>
    rw [absent] at there
    contradiction
  | room unhospitable => exact ⟨rfl, unhospitable⟩

structure Spans (file : HeapFile) (count : Nat) : Prop where
  count_lt : count < 4294967296
  isSome_iff : ∀ number < 4294967296, (before.current (file.page number)).isSome ↔ number < count

/-- Every page of the file up to a number has no free slot. -/
def FullBefore (file : HeapFile) (count : Nat) : Prop :=
  ∀ number < count, ∃ contents, before.current (file.page number) = some contents ∧
    contents.Full file.slotCount

/-- Pages may have been saved, and a file whose pages were all full may have one more page. -/
inductive Grows (file : HeapFile) (after : Reference) : Prop where
  | saved (saved : before.Saved after)
  | appended {count : Nat} (spans : before.Spans file count) (full : before.FullBefore file count)
      (saved : (before.appended (file.page count)).Saved after)

/-- Why a row cannot be stored in a file. -/
inductive Unstorable (file : HeapFile) (row : Row) : Error → Prop where
  | unfit {cause : Error} (refused : row.checkAgainst file.schema = .error cause) :
      Unstorable file row cause
  | narrow {count : Nat} (fits : row.checkAgainst file.schema = .ok ())
      (slotless : file.slotCount = 0) (spans : before.Spans file count) :
      Unstorable file row (.pageFull (file.page count))

/-- Why a row cannot be deleted. -/
inductive Undeletable (row : Row) : Error → Prop where
  | unplaced (nowhere : row.record = none) : Undeletable row .missingRecordId
  | missing {record : RecordId} {cause : Error} (placed : row.record = some record)
      (missing : before.Missing setting record.page cause) : Undeletable row cause
  | free {record : RecordId} {file : HeapFile} {contents : Contents}
      (placed : row.record = some record) (registered : setting.files record.page.table = some file)
      (there : before.current record.page = some contents)
      (free : contents record.slot.toNat = none) : Undeletable row (.notOnPage record)

theorem spans_iff {before : Reference} {file : HeapFile} {count : Nat} : before.Spans file count ↔
    count < 4294967296 ∧
      ∀ number < 4294967296, (before.current (file.page number)).isSome ↔ number < count :=
  ⟨fun spans => ⟨spans.count_lt, spans.isSome_iff⟩, fun both => ⟨both.1, both.2⟩⟩

theorem spans_congr {before after : Reference} (same : after.current = before.current)
    {file : HeapFile} {count : Nat} : after.Spans file count ↔ before.Spans file count := by
  rw [spans_iff, spans_iff, same]

theorem fullBefore_congr {before after : Reference} (same : after.current = before.current)
    {file : HeapFile} {count : Nat} :
    after.FullBefore file count ↔ before.FullBefore file count := by
  rw [FullBefore, FullBefore, same]

theorem fullBefore_succ {before : Reference} {file : HeapFile} {count : Nat} {contents : Contents}
    (full : before.FullBefore file count) (there : before.current (file.page count) = some contents)
    (isFull : contents.Full file.slotCount) : before.FullBefore file (count + 1) := by
  intro number below
  rcases Nat.lt_or_eq_of_le (Nat.le_of_lt_succ below) with earlier | rfl
  · exact full number earlier
  · exact ⟨contents, there, isFull⟩

theorem spans_unique {before : Reference} {file : HeapFile} {count other : Nat}
    (spans : before.Spans file count) (otherSpans : before.Spans file other) : count = other := by
  have agree : ∀ number < 4294967296, number < count ↔ number < other := fun number small =>
    (spans.isSome_iff number small).symm.trans (otherSpans.isSome_iff number small)
  apply Nat.le_antisymm
  · apply Nat.le_of_not_lt
    intro more
    exact Nat.lt_irrefl _ ((agree other otherSpans.count_lt).mp more)
  · apply Nat.le_of_not_lt
    intro more
    exact Nat.lt_irrefl _ ((agree count spans.count_lt).mpr more)

end Reference

end PagedStore
