import PagedStore.Proofs.Cache.Reference
import PagedStore.Store.Cache

/-!
Coherent stores. What a store holds is seen through two maps from pages to contents: the durable one
is read off the files, and the current one prefers the copy in memory where there is one. A store is
coherent if its files are made of whole pages and each copy in memory is a page of its file that the
file already agrees with unless the copy is dirty. The lemmas say which changes of the disk and of the
pool keep a store coherent and what they do to the two maps.
-/

namespace PagedStore

section Policy

variable {μ : Type} [EvictionPolicy μ]

/-- What a policy remembers after some calls. -/
inductive Eviction.Leads (memory : μ) : μ → Prop where
  | refl : Leads memory memory
  | access {later : μ} (page : PageId) (leads : Leads memory later) :
      Leads memory (EvictionPolicy.access later page)
  | forget {later : μ} (page : PageId) (leads : Leads memory later) :
      Leads memory (EvictionPolicy.forget later page)
  | victim {later : μ} (cached : List PageId) (leads : Leads memory later) :
      Leads memory (EvictionPolicy.victim later cached).2

/-- Whatever calls come first, the policy names a cached page whenever there is one. -/
def Eviction.Obliging (memory : μ) : Prop :=
  ∀ later, Leads memory later → ∀ cached : List PageId, cached ≠ [] →
    ∃ page ∈ cached, (EvictionPolicy.victim later cached).1 = some page

theorem Eviction.leads_trans {first second third : μ} (left : Leads first second)
    (right : Leads second third) : Leads first third := by
  induction right with
  | refl => exact left
  | access page _ ih => exact .access page ih
  | forget page _ ih => exact .forget page ih
  | victim cached _ ih => exact .victim cached ih

structure Pool.Follows (before after : Pool μ) : Prop where
  capacity_eq : after.capacity = before.capacity
  leads : Eviction.Leads before.memory after.memory

theorem Pool.follows_refl (pool : Pool μ) : pool.Follows pool := ⟨rfl, .refl⟩

theorem Pool.follows_trans {first second third : Pool μ} (left : first.Follows second)
    (right : second.Follows third) : first.Follows third :=
  ⟨right.capacity_eq.trans left.capacity_eq, Eviction.leads_trans left.leads right.leads⟩

end Policy

namespace Eviction

theorem foldl_pick_mem (sooner : PageId → PageId → Bool) (cached : List PageId) (best : PageId) :
    ∃ page ∈ best :: cached, cached.foldl
      (fun best page => match best with
        | none => some page
        | some chosen => if sooner page chosen then some page else some chosen)
      (some best) = some page := by
  induction cached generalizing best with
  | nil => exact ⟨best, List.mem_cons_self, rfl⟩
  | cons first rest ih =>
    rw [List.foldl_cons]
    dsimp only
    by_cases replaced : sooner first best
    · rw [if_pos replaced]
      rcases ih first with ⟨page, member, picked⟩
      exact ⟨page, List.mem_cons_of_mem _ member, picked⟩
    · rw [if_neg replaced]
      rcases ih best with ⟨page, member, picked⟩
      refine ⟨page, ?_, picked⟩
      rcases List.mem_cons.mp member with same | later
      · exact same ▸ List.mem_cons_self
      · exact List.mem_cons_of_mem _ (List.mem_cons_of_mem _ later)

theorem exists_pick (sooner : PageId → PageId → Bool) {cached : List PageId}
    (nonempty : cached ≠ []) : ∃ page ∈ cached, pick sooner cached = some page := by
  cases cached with
  | nil => contradiction
  | cons first rest => exact foldl_pick_mem sooner rest first

theorem eq_of_leads_oblivious {policy later : Oblivious} (leads : Leads policy later) :
    later = policy := by
  induction leads with
  | refl => rfl
  | access _ _ ih => exact ih
  | forget _ _ ih => exact ih
  | victim _ _ ih => exact ih

theorem obliging_of_picks {policy : Oblivious} (picks : policy = .first ∨ policy = .last) :
    Obliging policy := by
  intro later leads cached nonempty
  obtain rfl := eq_of_leads_oblivious leads
  rcases picks with rfl | rfl
  · exact exists_pick _ nonempty
  · exact exists_pick _ nonempty

end Eviction

structure RowTrait where
  holds : List Value → Prop
  of_kept : ∀ values, values.map Value.kept = values → holds values

/-- No text of the row would be cut. -/
def RowTrait.exact : RowTrait := ⟨fun values => values.map Value.kept = values, fun _ same => same⟩

def Page.Keeps (trait : RowTrait) (page : Page) : Prop :=
  ∀ slot row, page.row? slot = some row → trait.holds row.values

theorem Page.keeps_of_decode (trait : RowTrait) {id : PageId} {schema : Schema} {image : Bytes}
    {page : Page} (decoded : Page.decode id schema image = .ok page) : page.Keeps trait := by
  intro slot row stored
  have read := Page.readSlot_of_decode decoded (Page.lt_slotCount_of_row stored)
  rw [stored] at read
  rcases Page.decodeSlot_eq_ok_iff.mp read with ⟨-, isNone⟩ | ⟨-, unstamped, rowDecoded, isSome⟩
  · contradiction
  · obtain rfl := Option.some.inj isSome
    apply trait.of_kept
    exact Row.kept_of_decodeValues (Row.decode_eq_some_iff.mp rowDecoded).1

namespace Store

variable {μ : Type}

/-- What the file of a page holds of it, if the file tells of the page. -/
def durable (store : Store μ) (id : PageId) : Option Contents :=
  match store.catalog.file? id.table with
  | none => none
  | some file =>
      if id.number < file.pageCount store.disk then
        match file.pageAt store.disk id.number with
        | .ok page => some page.contents
        | .error _ => none
      else none

/-- What a reader of such a page finds on it. -/
def current (store : Store μ) (id : PageId) : Option Contents :=
  (store.durable id).map fun held =>
    match store.pool.frame? id with
    | some frame => frame.page.contents
    | none => held

/-- What is on a page of a file, whether or not the file tells of the page. -/
def onPage (store : Store μ) (id : PageId) : Option Contents :=
  match store.pool.frame? id with
  | some frame => some frame.page.contents
  | none => (store.catalog.file? id.table).bind fun file =>
      if id.number < file.extent store.disk then
        match file.pageAt store.disk id.number with
        | .ok page => some page.contents
        | .error _ => none
      else none

def held (store : Store μ) (record : RecordId) : Option (List Value) :=
  (store.onPage record.page).bind fun contents => contents record.slot.toNat

def reference (store : Store μ) : Reference := ⟨store.durable, store.current⟩

def Sound (store : Store μ) : Prop :=
  ∀ table file, store.catalog.file? table = some file → file.table = table ∧ file.Whole store.disk

/-- Every registered file has fewer than 2^32 pages, so it tells of all of them. -/
def Few (store : Store μ) : Prop :=
  ∀ table file, store.catalog.file? table = some file → file.extent store.disk < 4294967296

structure Backed (store : Store μ) (id : PageId) (page : Page) : Prop where
  exists_file : ∃ file, store.catalog.file? id.table = some file ∧ file.Owns id.number page ∧
    id.number < file.extent store.disk
  clean : page.isDirty = false → ∀ held, store.durable id = some held → page.contents = held

structure Coherent (store : Store μ) : Prop where
  sound : store.Sound
  backed : ∀ id frame, store.pool.frame? id = some frame → store.Backed id frame.page

def Keeps (trait : RowTrait) (store : Store μ) : Prop :=
  ∀ id frame, store.pool.frame? id = some frame → frame.page.Keeps trait

variable {store : Store μ}

theorem durable_of_pageAt {id : PageId} {file : HeapFile} {page : Page}
    (registered : store.catalog.file? id.table = some file)
    (inside : id.number < file.pageCount store.disk)
    (found : file.pageAt store.disk id.number = .ok page) : store.durable id = some page.contents := by
  rw [durable, registered]
  dsimp only
  rw [if_pos inside, found]

theorem onPage_of_pageAt {id : PageId} {file : HeapFile} {page : Page}
    (uncached : store.pool.frame? id = none) (registered : store.catalog.file? id.table = some file)
    (inside : id.number < file.extent store.disk)
    (found : file.pageAt store.disk id.number = .ok page) : store.onPage id = some page.contents := by
  rw [onPage, uncached, registered]
  dsimp only [Option.bind_some]
  rw [if_pos inside, found]

theorem durable_of_unregistered {id : PageId} (unknown : store.catalog.file? id.table = none) :
    store.durable id = none := by
  rw [durable, unknown]

theorem durable_of_outside {id : PageId} {file : HeapFile}
    (registered : store.catalog.file? id.table = some file)
    (outside : file.pageCount store.disk ≤ id.number) : store.durable id = none := by
  rw [durable, registered]
  exact if_neg (Nat.not_lt.mpr outside)

theorem isSome_current (store : Store μ) (id : PageId) :
    (store.current id).isSome = (store.durable id).isSome :=
  Option.isSome_map

theorem current_of_cached {id : PageId} {frame : Frame}
    (cached : store.pool.frame? id = some frame) :
    store.current id = (store.durable id).map fun _ => frame.page.contents := by
  rw [current, cached]

theorem current_of_present {id : PageId} {frame : Frame}
    (cached : store.pool.frame? id = some frame) (present : (store.current id).isSome) :
    store.current id = some frame.page.contents := by
  rw [current_of_cached cached] at present ⊢
  obtain ⟨held, same⟩ := Option.isSome_iff_exists.mp (Option.isSome_map ▸ present)
  rw [same, Option.map_some]

/-- Whoever finds something on a cached page finds what is in memory. -/
theorem contents_of_current {id : PageId} {frame : Frame} {contents : Contents}
    (cached : store.pool.frame? id = some frame) (found : store.current id = some contents) :
    frame.page.contents = contents := by
  rw [current_of_cached cached] at found
  obtain ⟨held, -, same⟩ := Option.map_eq_some_iff.mp found
  exact same

theorem current_of_uncached {id : PageId} (uncached : store.pool.frame? id = none) :
    store.current id = store.durable id := by
  rw [current, uncached]
  exact Option.map_id'

/-- Files only get longer, so a store with few pages had few pages before. -/
theorem few_of_grown {after : Store μ} (catalog : after.catalog = store.catalog)
    (grown : ∀ file, store.disk.length file ≤ after.disk.length file) (few : after.Few) :
    store.Few := fun table file registered =>
  Nat.lt_of_le_of_lt (HeapFile.extent_mono (grown file.file)) (few table file (catalog ▸ registered))

theorem pageCount_eq_extent (few : store.Few) {table : TableId} {file : HeapFile}
    (registered : store.catalog.file? table = some file) :
    file.pageCount store.disk = file.extent store.disk :=
  HeapFile.pageCount_eq_extent (few table file registered)

/-- A reader finds what is on the page. -/
theorem onPage_of_current {id : PageId} {contents : Contents}
    (found : store.current id = some contents) : store.onPage id = some contents := by
  cases cached : store.pool.frame? id with
  | some frame =>
    rw [onPage, cached, ← contents_of_current cached found]
  | none =>
    rw [current_of_uncached cached, durable] at found
    rw [onPage, cached]
    cases registered : store.catalog.file? id.table with
    | none =>
      rw [registered] at found
      contradiction
    | some file =>
      rw [registered] at found
      dsimp only [Option.bind_some] at found ⊢
      split at found
      · next told => rwa [if_pos (Nat.lt_of_lt_of_le told (file.pageCount_le_extent store.disk))]
      · contradiction

/-- In a store with few pages a reader finds all that there is. -/
theorem current_of_few (coherent : store.Coherent) (few : store.Few) : store.current = store.onPage := by
  funext id
  cases cached : store.pool.frame? id with
  | some frame =>
    obtain ⟨⟨file, registered, -, inside⟩, -⟩ := coherent.backed id frame cached
    have whole := (coherent.sound id.table file registered).2
    obtain ⟨page, found⟩ := whole.readable id.number inside
    rw [← pageCount_eq_extent few registered] at inside
    rw [current_of_cached cached, durable_of_pageAt registered inside found, onPage, cached]
    rfl
  | none =>
    rw [current_of_uncached cached, durable, onPage, cached]
    cases registered : store.catalog.file? id.table with
    | none => rfl
    | some file =>
      dsimp only [Option.bind_some]
      rw [pageCount_eq_extent few registered]

theorem exists_durable (sound : store.Sound) {id : PageId} {file : HeapFile}
    (registered : store.catalog.file? id.table = some file)
    (inside : id.number < file.pageCount store.disk) :
    ∃ page, file.pageAt store.disk id.number = .ok page ∧ file.Owns id.number page ∧
      store.durable id = some page.contents := by
  have whole := (sound id.table file registered).2
  have within := Nat.lt_of_lt_of_le inside (file.pageCount_le_extent store.disk)
  rcases whole.readable id.number within with ⟨page, found⟩
  exact ⟨page, found, HeapFile.owns_of_pageAt whole within found,
    durable_of_pageAt registered inside found⟩

theorem isSome_durable_iff (sound : store.Sound) {id : PageId} {file : HeapFile}
    (registered : store.catalog.file? id.table = some file) :
    (store.durable id).isSome ↔ id.number < file.pageCount store.disk := by
  constructor
  · intro present
    apply Nat.lt_of_not_le
    intro outside
    rw [durable_of_outside registered outside] at present
    contradiction
  · intro inside
    rcases exists_durable sound registered inside with ⟨page, -, -, same⟩
    rw [same]
    rfl

theorem isSome_current_iff (sound : store.Sound) {id : PageId} {file : HeapFile}
    (registered : store.catalog.file? id.table = some file) :
    (store.current id).isSome ↔ id.number < file.pageCount store.disk := by
  rw [isSome_current]
  exact isSome_durable_iff sound registered

/-- The current map decides how many pages a table has. -/
theorem spans_pageCount (sound : store.Sound) {file : HeapFile}
    (registered : store.catalog.file? file.table = some file) :
    store.reference.Spans file (file.pageCount store.disk) where
  count_lt := file.pageCount_lt store.disk
  isSome_iff := by
    intro number small
    have own : store.catalog.file? (file.page number).table = some file := registered
    refine (isSome_current_iff sound own).trans ?_
    rw [file.number_page small]

theorem pageCount_eq_of_current {other : Store μ} (sound : store.Sound)
    (otherSound : other.Sound) {file : HeapFile}
    (registered : store.catalog.file? file.table = some file)
    (otherRegistered : other.catalog.file? file.table = some file)
    (same : other.current = store.current) :
    file.pageCount other.disk = file.pageCount store.disk := by
  have spans := spans_pageCount otherSound otherRegistered
  exact Reference.spans_unique ((Reference.spans_congr same).mp spans)
    (spans_pageCount sound registered)

theorem durable_congr {ν : Type} {other : Store ν} (catalog : other.catalog = store.catalog)
    (files : other.disk.files = store.disk.files) : other.durable = store.durable := by
  funext id
  rw [durable, durable, catalog]
  cases store.catalog.file? id.table with
  | none => rfl
  | some file =>
    have content := Disk.content_congr files file.file
    dsimp only
    rw [HeapFile.pageCount_congr content, HeapFile.pageAt_congr content]

theorem sound_congr {ν : Type} {other : Store ν} (catalog : other.catalog = store.catalog)
    (files : other.disk.files = store.disk.files) (sound : store.Sound) : other.Sound := by
  intro table file registered
  rw [catalog] at registered
  rcases sound table file registered with ⟨own, whole⟩
  have content := Disk.content_congr files file.file
  exact ⟨own, HeapFile.whole_congr (congrArg List.length files) content whole⟩

theorem eq_of_table_eq (sound : store.Sound) {table other : TableId} {file otherFile : HeapFile}
    (registered : store.catalog.file? table = some file)
    (otherRegistered : store.catalog.file? other = some otherFile)
    (same : otherFile.file = file.file) : other = table := by
  rw [← (sound table file registered).1, ← (sound other otherFile otherRegistered).1,
    HeapFile.table, HeapFile.table, same]

theorem page_number_eq (sound : store.Sound) {id : PageId} {file : HeapFile}
    (registered : store.catalog.file? id.table = some file) : file.page id.number = id :=
  HeapFile.page_number (sound id.table file registered).1.symm

theorem sound_rewritten (sound : store.Sound) {id : PageId} {file : HeapFile} {page : Page}
    {disk : Disk} (registered : store.catalog.file? id.table = some file)
    (rewritten : file.Rewritten store.disk id.number page disk) : Sound { store with disk } := by
  intro table other found
  rcases sound table other found with ⟨own, whole⟩
  refine ⟨own, ?_⟩
  by_cases sameFile : other.file = file.file
  · have sameTable := eq_of_table_eq sound registered found sameFile
    obtain rfl : file = other := by
      have found : store.catalog.file? table = some other := found
      rw [sameTable, registered] at found
      exact Option.some.inj found
    exact rewritten.whole
  · exact HeapFile.whole_congr rewritten.length_files (rewritten.content_other _ sameFile) whole

theorem extent_of_rewritten (sound : store.Sound) {id : PageId} {file : HeapFile} {page : Page}
    {disk : Disk} (registered : store.catalog.file? id.table = some file)
    (rewritten : file.Rewritten store.disk id.number page disk) {table : TableId}
    {other : HeapFile} (found : store.catalog.file? table = some other) :
    other.extent disk = if table = id.table then max (other.extent store.disk) (id.number + 1)
      else other.extent store.disk := by
  by_cases same : table = id.table
  · obtain rfl : file = other := Option.some.inj (registered.symm.trans (same ▸ found))
    rw [if_pos same, rewritten.extent_eq]
  · rw [if_neg same]
    apply HeapFile.extent_congr
    apply rewritten.content_other
    intro sameFile
    exact same (eq_of_table_eq sound registered found sameFile)

theorem extent_le_of_rewritten (sound : store.Sound) {id : PageId} {file : HeapFile} {page : Page}
    {disk : Disk} (registered : store.catalog.file? id.table = some file)
    (rewritten : file.Rewritten store.disk id.number page disk) {table : TableId}
    {other : HeapFile} (found : store.catalog.file? table = some other) :
    other.extent store.disk ≤ other.extent disk := by
  rw [extent_of_rewritten sound registered rewritten found]
  split
  · exact Nat.le_max_left _ _
  · exact Nat.le_refl _

theorem pageAt_of_rewritten (sound : store.Sound) {id other : PageId} {file otherFile : HeapFile}
    {page : Page} {disk : Disk} (registered : store.catalog.file? id.table = some file)
    (rewritten : file.Rewritten store.disk id.number page disk) (differs : other ≠ id)
    (found : store.catalog.file? other.table = some otherFile)
    (inside : other.number < otherFile.extent store.disk) :
    otherFile.pageAt disk other.number = otherFile.pageAt store.disk other.number := by
  by_cases same : other.table = id.table
  · obtain rfl : file = otherFile := Option.some.inj (registered.symm.trans (same ▸ found))
    exact rewritten.pageAt_other _ (PageId.number_ne same differs) inside
  · apply HeapFile.pageAt_congr
    apply rewritten.content_other
    intro sameFile
    exact same (eq_of_table_eq sound registered found sameFile)

/-- Where the file tells of the page before and after, and the page has stayed, the durable map stays. -/
theorem durable_of_same {id : PageId} {file : HeapFile} {disk : Disk}
    (registered : store.catalog.file? id.table = some file)
    (told : id.number < file.pageCount disk ↔ id.number < file.pageCount store.disk)
    (same : id.number < file.pageCount store.disk →
      file.pageAt disk id.number = file.pageAt store.disk id.number) :
    durable { store with disk } id = store.durable id := by
  rw [durable, durable, registered]
  dsimp only
  by_cases inside : id.number < file.pageCount store.disk
  · rw [if_pos inside, if_pos (told.mpr inside), same inside]
  · rw [if_neg inside, if_neg (fun now => inside (told.mp now))]

/-- Writing a page leaves the durable map at another one, if that one is told of as before. -/
theorem durable_of_other (sound : store.Sound) {id other : PageId} {file : HeapFile} {page : Page}
    {disk : Disk} (registered : store.catalog.file? id.table = some file)
    (rewritten : file.Rewritten store.disk id.number page disk) (differs : other ≠ id)
    (told : ∀ otherFile, store.catalog.file? other.table = some otherFile →
      (other.number < otherFile.pageCount disk ↔ other.number < otherFile.pageCount store.disk)) :
    durable { store with disk } other = store.durable other := by
  cases found : store.catalog.file? other.table with
  | none =>
    rw [durable_of_unregistered found]
    exact durable_of_unregistered found
  | some otherFile =>
    apply durable_of_same found (told otherFile found)
    intro inside
    exact pageAt_of_rewritten sound registered rewritten differs found
      (Nat.lt_of_lt_of_le inside (otherFile.pageCount_le_extent store.disk))

/-- Writing a page that the file has changes the durable map at that page alone. -/
theorem durable_rewritten (sound : store.Sound) {id : PageId} {file : HeapFile} {page : Page}
    {disk : Disk} (registered : store.catalog.file? id.table = some file)
    (inside : id.number < file.extent store.disk)
    (rewritten : file.Rewritten store.disk id.number page disk) :
    durable { store with disk } =
      Function.update store.durable id ((store.durable id).map fun _ => page.contents) := by
  have extents : ∀ {table other}, store.catalog.file? table = some other →
      other.pageCount disk = other.pageCount store.disk := by
    intro table other found
    have extent := extent_of_rewritten sound registered rewritten found
    rw [HeapFile.pageCount_eq_mod, HeapFile.pageCount_eq_mod, extent]
    split
    · next same =>
      obtain rfl : file = other := Option.some.inj (registered.symm.trans (same ▸ found))
      rw [Nat.max_eq_left inside]
    · rfl
  funext other
  by_cases same : other = id
  · subst same
    rw [Function.update_self]
    by_cases told : other.number < file.pageCount store.disk
    · obtain ⟨kept, -, -, before⟩ := exists_durable sound registered told
      rw [before]
      refine durable_of_pageAt registered ?_ rewritten.pageAt_self
      rw [extents registered]
      exact told
    · rw [durable_of_outside registered (Nat.le_of_not_lt told)]
      refine durable_of_outside registered ?_
      rw [extents registered]
      exact Nat.le_of_not_lt told
  · rw [Function.update_of_ne same]
    apply durable_of_other sound registered rewritten same
    intro otherFile found
    rw [extents found]

/-- A page that has been added behind the last one comes into the durable map, if it can be counted. -/
theorem durable_extended (sound : store.Sound) {id : PageId} {file : HeapFile} {page : Page}
    {disk : Disk} (registered : store.catalog.file? id.table = some file)
    (behind : id.number = file.extent store.disk) (room : file.extent store.disk + 1 < 4294967296)
    (rewritten : file.Rewritten store.disk id.number page disk) :
    durable { store with disk } = Function.update store.durable id (some page.contents) := by
  have extent : file.extent disk = file.extent store.disk + 1 := by
    rw [rewritten.extent_eq, behind]
    exact Nat.max_eq_right (Nat.le_succ _)
  have before := HeapFile.pageCount_eq_extent (Nat.lt_of_succ_lt room)
  have now : file.pageCount disk = file.extent store.disk + 1 := by
    rw [HeapFile.pageCount_eq_extent (extent ▸ room), extent]
  funext other
  by_cases same : other = id
  · subst same
    rw [Function.update_self]
    refine durable_of_pageAt registered ?_ rewritten.pageAt_self
    rw [now, behind]
    exact Nat.lt_succ_self _
  · rw [Function.update_of_ne same]
    apply durable_of_other sound registered rewritten same
    intro otherFile found
    by_cases sameTable : other.table = id.table
    · obtain rfl : file = otherFile :=
        Option.some.inj (registered.symm.trans (sameTable ▸ found))
      have differs := PageId.number_ne sameTable same
      rw [now, before]
      omega
    · rw [HeapFile.pageCount_eq_mod, HeapFile.pageCount_eq_mod,
        extent_of_rewritten sound registered rewritten found, if_neg sameTable]

/-- A page that has been added to a file of too many pages changes nothing in the durable map, or makes
the whole file leave it. -/
theorem durable_of_overrun (sound : store.Sound) {id : PageId} {file : HeapFile} {page : Page}
    {disk : Disk} (registered : store.catalog.file? id.table = some file)
    (behind : id.number = file.pageCount store.disk) (full : 4294967296 ≤ file.extent store.disk + 1)
    (rewritten : file.Rewritten store.disk id.number page disk) {other : PageId} {held : Contents}
    (now : durable { store with disk } other = some held) : store.durable other = some held := by
  cases found : store.catalog.file? other.table with
  | none =>
    have gone : durable { store with disk } other = none := durable_of_unregistered found
    rw [gone] at now
    contradiction
  | some otherFile =>
    have told : other.number < otherFile.pageCount disk := by
      apply (isSome_durable_iff (sound_rewritten sound registered rewritten) found).mp
      rw [now]
      rfl
    have same : other ≠ id ∧ otherFile.pageCount disk = otherFile.pageCount store.disk := by
      have extent := extent_of_rewritten sound registered rewritten found
      rw [HeapFile.pageCount_eq_mod] at behind
      rw [HeapFile.pageCount_eq_mod, extent] at told ⊢
      rw [HeapFile.pageCount_eq_mod]
      split at told
      · next sameTable =>
        obtain rfl : file = otherFile :=
          Option.some.inj (registered.symm.trans (sameTable ▸ found))
        rw [if_pos sameTable]
        refine ⟨?_, by omega⟩
        rintro rfl
        omega
      · next sameTable =>
        rw [if_neg sameTable]
        exact ⟨fun same => sameTable (congrArg PageId.table same), rfl⟩
    rw [← now]
    symm
    apply durable_of_other sound registered rewritten same.1
    intro again foundAgain
    obtain rfl := Option.some.inj (found.symm.trans foundAgain)
    rw [same.2]

theorem coherent_rewritten (coherent : store.Coherent) {id : PageId} {file : HeapFile} {page : Page}
    {disk : Disk} (registered : store.catalog.file? id.table = some file)
    (rewritten : file.Rewritten store.disk id.number page disk)
    (agrees : ∀ other frame, store.pool.frame? other = some frame → frame.page.isDirty = false →
      ∀ held, durable { store with disk } other = some held → frame.page.contents = held) :
    Coherent { store with disk } := by
  refine ⟨sound_rewritten coherent.sound registered rewritten, ?_⟩
  intro other frame cached
  rcases coherent.backed other frame cached with ⟨⟨otherFile, found, owns, inside⟩, -⟩
  have grown := extent_le_of_rewritten coherent.sound registered rewritten found
  exact ⟨⟨otherFile, found, owns, Nat.lt_of_lt_of_le inside grown⟩, agrees other frame cached⟩

theorem coherent_withPool (coherent : store.Coherent) {pool : Pool μ}
    (backed : ∀ id frame, pool.frame? id = some frame → store.Backed id frame.page) :
    Coherent { store with pool } :=
  ⟨coherent.sound, fun id frame cached =>
    let held := backed id frame cached
    ⟨held.exists_file, held.clean⟩⟩

variable [EvictionPolicy μ]

structure Saves (before after : Store μ) : Prop where
  coherent : after.Coherent
  catalog_eq : after.catalog = before.catalog
  follows : before.pool.Follows after.pool
  length_eq : ∀ file, after.disk.length file = before.disk.length file
  current_eq : after.current = before.current
  durable_or : ∀ id, after.durable id = before.durable id ∨ after.durable id = before.current id
  keeps : ∀ trait, before.Keeps trait → after.Keeps trait

theorem saved_of_saves {before after : Store μ} (saves : Saves before after) :
    before.reference.Saved after.reference :=
  ⟨saves.current_eq, saves.durable_or⟩

theorem saves_refl (coherent : store.Coherent) : Saves store store :=
  ⟨coherent, rfl, Pool.follows_refl _, fun _ => rfl, rfl, fun _ => Or.inl rfl, fun _ keeps => keeps⟩

theorem saves_trans {first second third : Store μ} (left : Saves first second)
    (right : Saves second third) : Saves first third where
  coherent := right.coherent
  catalog_eq := right.catalog_eq.trans left.catalog_eq
  follows := Pool.follows_trans left.follows right.follows
  length_eq := fun file => (right.length_eq file).trans (left.length_eq file)
  current_eq := right.current_eq.trans left.current_eq
  durable_or := by
    intro id
    rcases right.durable_or id with kept | copied
    · rw [kept]
      exact left.durable_or id
    · rw [copied, left.current_eq]
      exact Or.inr rfl
  keeps := fun trait keeps => right.keeps trait (left.keeps trait keeps)

theorem saves_sameFrames (coherent : store.Coherent) {pool : Pool μ}
    (follows : store.pool.Follows pool) (frames : pool.frames = store.pool.frames) :
    Saves store { store with pool } := by
  have same : ∀ id, pool.frame? id = store.pool.frame? id := by
    intro id
    rw [Pool.frame?, Pool.frame?, frames]
  refine ⟨?_, rfl, follows, fun _ => rfl, ?_, fun _ => Or.inl rfl, ?_⟩
  · apply coherent_withPool coherent
    intro id frame cached
    exact coherent.backed id frame (same id ▸ cached)
  · funext id
    rw [current, current]
    dsimp only
    rw [same id]
    rfl
  · intro trait keeps id frame cached
    exact keeps id frame (same id ▸ cached)

theorem saves_sameFiles (coherent : store.Coherent) {disk : Disk}
    (same : disk.files = store.disk.files) : Saves store { store with disk } := by
  have catalog : ({ store with disk } : Store μ).catalog = store.catalog := rfl
  have durable : Store.durable { store with disk } = store.durable := durable_congr catalog same
  refine ⟨⟨sound_congr catalog same coherent.sound, ?_⟩, rfl, Pool.follows_refl _, ?_, ?_, ?_,
    fun _ keeps => keeps⟩
  · intro id frame cached
    rcases coherent.backed id frame cached with ⟨⟨file, registered, owns, inside⟩, clean⟩
    refine ⟨⟨file, registered, owns, ?_⟩, fun isClean => durable ▸ clean isClean⟩
    exact HeapFile.extent_congr (Disk.content_congr same file.file) ▸ inside
  · intro file
    rw [Disk.length_eq, Disk.length_eq, Disk.content_congr same]
  · funext id
    rw [Store.current, Store.current, durable]
  · intro id
    exact Or.inl (congrFun durable id)

theorem saves_marked (coherent : store.Coherent) {id : PageId}
    (written : store.durable id = store.current id) :
    Saves store { store with pool := store.pool.alter id fun page => page.marked none } := by
  have lookup := Pool.frame_alter store.pool id
  refine ⟨?_, rfl, ⟨rfl, .refl⟩, fun _ => rfl, ?_, fun _ => Or.inl rfl, ?_⟩
  · apply coherent_withPool coherent
    intro other frame cached
    rw [lookup other] at cached
    split at cached
    · next same =>
      subst same
      rcases Option.map_eq_some_iff.mp cached with ⟨old, wasCached, rfl⟩
      rcases (coherent.backed other old wasCached).exists_file with ⟨file, found, owns, inside⟩
      refine ⟨⟨file, found, ⟨owns.id_eq, owns.schema_eq, owns.size_eq, ?_⟩, inside⟩, ?_⟩
      · exact Page.formed_marked owns.formed none
      · intro _ held there
        have same : old.page.contents = held :=
          contents_of_current wasCached (written.symm.trans there)
        exact same
    · exact coherent.backed other frame cached
  · funext other
    rw [current, current]
    dsimp only
    rw [lookup other]
    by_cases same : other = id
    · rw [if_pos same]
      cases store.pool.frame? other <;> rfl
    · rw [if_neg same]
      rfl
  · intro trait keeps other frame cached
    rw [lookup other] at cached
    split at cached
    · rcases Option.map_eq_some_iff.mp cached with ⟨old, wasCached, rfl⟩
      exact keeps other old wasCached
    · exact keeps other frame cached

theorem saves_drop (coherent : store.Coherent) {id : PageId}
    (written : store.durable id = store.current id) :
    Saves store { store with pool := store.pool.drop id } := by
  have lookup := Pool.frame_drop store.pool id
  have stays : ∀ other frame, (store.pool.drop id).frame? other = some frame →
      store.pool.frame? other = some frame := by
    intro other frame cached
    rw [lookup other] at cached
    split at cached
    · contradiction
    · exact cached
  refine ⟨?_, rfl, ⟨rfl, .refl⟩, fun _ => rfl, ?_, fun _ => Or.inl rfl, ?_⟩
  · apply coherent_withPool coherent
    intro other frame cached
    exact coherent.backed other frame (stays other frame cached)
  · funext other
    by_cases same : other = id
    · rw [current, lookup other, if_pos same, same]
      exact Option.map_id'.trans written
    · rw [current, lookup other, if_neg same]
      rfl
  · intro trait keeps other frame cached
    exact keeps other frame (stays other frame cached)

theorem saves_place (coherent : store.Coherent) {id : PageId} {page : Page}
    (uncached : store.pool.frame? id = none) (backed : store.Backed id page)
    (clean : page.isDirty = false) (exact : ∀ trait, page.Keeps trait) :
    Saves store { store with pool := store.pool.place id page } := by
  have lookup := fun other => Pool.frame_place store.pool id other page
  refine ⟨?_, rfl, ⟨rfl, .refl⟩, fun _ => rfl, ?_, fun _ => Or.inl rfl, ?_⟩
  · apply coherent_withPool coherent
    intro other frame cached
    rw [lookup other] at cached
    split at cached
    · next same =>
      obtain rfl := Option.some.inj cached
      exact same ▸ backed
    · exact coherent.backed other frame cached
  · funext other
    by_cases same : other = id
    · rw [current, lookup other, if_pos same, same, current_of_uncached uncached]
      cases held : store.durable id with
      | none => exact congrArg (Option.map _) held
      | some contents =>
        refine (congrArg (Option.map _) held).trans ?_
        exact congrArg some (backed.clean clean contents held)
    · rw [current, lookup other, if_neg same]
      rfl
  · intro trait keeps other frame cached
    rw [lookup other] at cached
    split at cached
    · obtain rfl := Option.some.inj cached
      exact exact trait
    · exact keeps other frame cached

end Store

end PagedStore
