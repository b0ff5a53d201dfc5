import Mathlib.Logic.Relation
import PagedStore.Proofs.Cache.Refinement

/-!
What a request does to a store, step by step. A shift is one move of the pool or of the disk: a page
is counted, saved, accessed or let go, the policy is asked. A file grows between shifts, and a page
enters after some shifts that make room for it. A request is a run of such motions, to which a successful insertion or
deletion adds one revision of a cached page and a discard the loss of one. Nothing is assumed of the
files, the catalog or the policy, and requests that fail are covered like the others.
-/

namespace PagedStore

namespace Eviction

variable {μ : Type} [EvictionPolicy μ]

structure Dutiful (memory : μ) : Prop where
  obliging : Obliging memory
  silent : ∀ later, Leads memory later → (EvictionPolicy.victim later []).1 = none

theorem dutiful_of_leads {memory later : μ} (leads : Leads memory later) (dutiful : Dutiful memory) :
    Dutiful later where
  obliging := fun last more => dutiful.obliging last (leads_trans leads more)
  silent := fun last more => dutiful.silent last (leads_trans leads more)

end Eviction

theorem Pool.pages_alter {μ : Type} (pool : Pool μ) (id : PageId) (change : Page → Page) :
    (pool.alter id change).pages = pool.pages :=
  Keyed.keys_alter id (Frame.altered change) pool.frames

structure Page.Takes (page : Page) (slot : Nat) (row : Option Row) : Prop where
  inside : slot < page.slotCount
  turns : (page.row? slot).isSome = !row.isSome
  holds : ∀ stored, row = some stored → page.Holds slot stored

namespace Page

theorem row_of_firstFree {page : Page} (formed : page.Formed) {slot : Nat}
    (free : page.firstFree? = some slot) : page.row? slot = none := by
  have unused := ((firstFree_eq_some_iff formed slot).mp free).free
  rw [contents, Option.map_eq_none_iff] at unused
  exact unused

theorem takes_of_insert {page changed : Page} (formed : page.Formed) {row : Row} {record : RecordId}
    (inserted : page.insert row = .ok (record, changed)) :
    ∃ slot, page.Takes slot (some (row.stamped (RecordId.ofSlot page.id slot))) ∧
      changed = page.setSlot slot (some (row.stamped (RecordId.ofSlot page.id slot))) := by
  rcases insert_eq_ok_iff.mp inserted with ⟨checked, slot, free, rfl, rfl⟩
  rcases (Row.checkAgainst_eq_ok_iff row page.schema).mp checked with ⟨agrees, typed⟩
  refine ⟨slot, ⟨firstFree_lt free, ?_, ?_⟩, rfl⟩
  · rw [row_of_firstFree formed free]
    rfl
  · intro stored same
    obtain rfl := Option.some.inj same
    exact ⟨agrees, typed, rfl⟩

theorem takes_of_delete {page changed : Page} (formed : page.Formed) {row : Row}
    (deleted : page.delete row = .ok changed) :
    ∃ record, row.record = some record ∧ record.page = page.id ∧
      page.Takes record.slot.toNat none ∧ changed = page.setSlot record.slot.toNat none := by
  rcases delete_eq_ok_iff.mp deleted with ⟨record, placed, own, used, rfl⟩
  refine ⟨record, placed, own, ⟨isUsed_lt used, ?_, ?_⟩, rfl⟩
  · rw [← isUsed_eq formed, used]
    rfl
  · intro stored absent
    contradiction

end Page

/-- The disk with a page of zeros behind the pages that the file tells of. -/
def HeapFile.lengthened (heap : HeapFile) (disk : Disk) : Disk :=
  (disk.overwrite heap.file (heap.pageCount disk * heap.pageSize)
    (Bytes.zeros heap.pageSize)).countWrite heap.opening

namespace Store

variable {μ : Type} {store : Store μ}

def lengthened (store : Store μ) (file : HeapFile) : Store μ :=
  { store with disk := file.lengthened store.disk }

/-- The cached copy of the page is not dirty, or no file can take it. -/
def Unwritable (store : Store μ) (id : PageId) : Prop :=
  ∀ frame, store.pool.frame? id = some frame → frame.page.isDirty = true →
    ∀ file, store.catalog.file? frame.page.id.table = some file →
      frame.page.encode.length ≠ file.pageSize

/-- Each cached page is kept under its own name and is well formed. -/
def Tidy (store : Store μ) : Prop :=
  ∀ id frame, store.pool.frame? id = some frame → frame.page.id = id ∧ frame.page.Formed

structure Revised [EvictionPolicy μ] (before : Store μ) (transaction : Transaction) (id : PageId)
    (slot : Nat) (row : Option Row) (frame : Frame) (after : Store μ) : Prop where
  cached : ∃ old, before.pool.frame? id = some old ∧ old.page.Takes slot row ∧
    frame = old.altered fun page => (page.setSlot slot row).marked (some transaction)
  after_eq : after =
    { before with pool := (before.pool.alter id fun _ => frame.page).noteAccess id }

/-- One move of the pool or of the disk. -/
inductive Shift [EvictionPolicy μ] : Store μ → Store μ → Prop where
  | read (store : Store μ) (opening : Nat) :
      Shift store { store with disk := store.disk.countRead opening }
  | save {store : Store μ} {id : PageId} {frame : Frame} {file : HeapFile}
      (cached : store.pool.frame? id = some frame) (dirty : frame.page.isDirty = true)
      (registered : store.catalog.file? frame.page.id.table = some file)
      (sized : frame.page.encode.length = file.pageSize) :
      Shift store { store with
        disk := (store.disk.overwrite file.file (frame.page.id.offset file.pageSize)
          frame.page.encode).countWrite file.opening
        pool := store.pool.alter id fun page => page.marked none }
  | list (store : Store μ) : Shift store { store with pool := store.pool.afterListing }
  | ask (store : Store μ) : Shift store { store with pool := store.pool.askVictim.2 }
  | touch {store : Store μ} {id : PageId} (cached : (store.pool.frame? id).isSome) :
      Shift store { store with pool := store.pool.noteAccess id }
  | leave {store : Store μ} {id : PageId} (unwritable : store.Unwritable id) :
      Shift store { store with pool := (store.pool.drop id).noteRemoval id }

abbrev Shifts [EvictionPolicy μ] : Store μ → Store μ → Prop := Relation.ReflTransGen Shift

structure Fits [EvictionPolicy μ] (store : Store μ) : Prop where
  dutiful : Eviction.Dutiful store.pool.memory
  size_le : store.pool.size ≤ store.pool.capacity

/-- A shift, the writing of a page without rows where the pages end that a file tells of, or the
arrival of a page that was read before some shifts made room for it. -/
inductive Motion [EvictionPolicy μ] : Store μ → Store μ → Prop where
  | shift {before after : Store μ} (shift : Shift before after) : Motion before after
  | grow {store : Store μ} {table : TableId} {file : HeapFile}
      (registered : store.catalog.file? table = some file) :
      Motion store (store.lengthened file)
  | enter {before middle : Store μ} {id : PageId} {file : HeapFile} {page : Page}
      (uncached : before.pool.frame? id = none)
      (registered : before.catalog.file? id.table = some file) (own : file.table = id.table)
      (whole : (file.image before.disk id.number).length = file.pageSize)
      (decoded : Page.decode id file.schema (file.image before.disk id.number) = .ok page)
      (shifts : Shifts before middle)
      (room : before.Fits → middle.pool.size < middle.pool.capacity) :
      Motion before { middle with pool := (middle.pool.place id page).noteAccess id }

abbrev Moved [EvictionPolicy μ] : Store μ → Store μ → Prop := Relation.ReflTransGen Motion

section Shifts

variable [EvictionPolicy μ] {after : Store μ}

theorem catalog_of_shift (shift : Shift store after) : after.catalog = store.catalog := by
  cases shift <;> rfl

theorem follows_of_shift (shift : Shift store after) : store.pool.Follows after.pool := by
  cases shift with
  | read opening => exact Pool.follows_refl _
  | save cached dirty registered sized => exact ⟨rfl, .refl⟩
  | list => exact ⟨rfl, .refl⟩
  | ask => exact ⟨rfl, .victim _ .refl⟩
  | touch cached => exact ⟨rfl, .access _ .refl⟩
  | leave unwritable => exact ⟨rfl, .forget _ .refl⟩

/-- No page comes into memory by a shift. -/
theorem uncached_of_shift (shift : Shift store after) {id : PageId}
    (uncached : store.pool.frame? id = none) : after.pool.frame? id = none := by
  cases shift with
  | read opening => exact uncached
  | save cached dirty registered sized =>
    refine (Pool.frame_alter store.pool _ id _).trans ?_
    rw [uncached, Option.map_none, ite_self]
  | list => exact uncached
  | ask => exact uncached
  | touch cached => exact uncached
  | leave unwritable =>
    refine (Pool.frame_drop store.pool _ id).trans ?_
    rw [uncached, ite_self]

theorem size_of_shift (shift : Shift store after) : after.pool.size ≤ store.pool.size := by
  cases shift with
  | read opening => exact Nat.le_refl _
  | save cached dirty registered sized => exact Nat.le_of_eq (List.length_map _)
  | list => exact Nat.le_refl _
  | ask => exact Nat.le_refl _
  | touch cached => exact Nat.le_refl _
  | leave unwritable => exact List.length_filter_le _ _

theorem fits_of_shift (shift : Shift store after) (fits : store.Fits) : after.Fits where
  dutiful := Eviction.dutiful_of_leads (follows_of_shift shift).leads fits.dutiful
  size_le := by
    rw [(follows_of_shift shift).capacity_eq]
    exact Nat.le_trans (size_of_shift shift) fits.size_le

/-- What every shift keeps, a run of shifts keeps. -/
theorem keeps_of_shifts {P : Store μ → Prop} (keeps : ∀ a b, Shift a b → P a → P b)
    (shifts : Shifts store after) (holds : P store) : P after := by
  induction shifts with
  | refl => exact holds
  | tail _ shift ih => exact keeps _ _ shift ih

theorem catalog_of_shifts (shifts : Shifts store after) : after.catalog = store.catalog :=
  keeps_of_shifts (P := fun now => now.catalog = store.catalog)
    (fun _ _ shift same => (catalog_of_shift shift).trans same) shifts rfl

theorem follows_of_shifts (shifts : Shifts store after) : store.pool.Follows after.pool :=
  keeps_of_shifts (P := fun now => store.pool.Follows now.pool)
    (fun _ _ shift follows => Pool.follows_trans follows (follows_of_shift shift)) shifts
    (Pool.follows_refl _)

theorem uncached_of_shifts (shifts : Shifts store after) {id : PageId}
    (uncached : store.pool.frame? id = none) : after.pool.frame? id = none :=
  keeps_of_shifts (fun _ _ shift => uncached_of_shift shift) shifts uncached

theorem fits_of_shifts (shifts : Shifts store after) (fits : store.Fits) : after.Fits :=
  keeps_of_shifts (fun _ _ shift => fits_of_shift shift) shifts fits

theorem moved_of_shifts (shifts : Shifts store after) : Moved store after :=
  shifts.lift id fun _ _ => Motion.shift

end Shifts

section Requests

variable [EvictionPolicy μ]

structure Attempted (before : Store μ) (id : PageId) (after : Store μ) : Prop where
  shifts : Shifts before after
  unwritable : after.Unwritable id
  pages_eq : after.pool.pages = before.pool.pages

theorem writeBack_shifts (store : Store μ) (id : PageId) :
    Action.Ends (writeBack id) store (fun _ after => Attempted store id after)
      fun _ after => Attempted store id after := by
  unfold writeBack
  rw [Action.ends_bind, Action.ends_get]
  cases cached : store.pool.frame? id with
  | none =>
    refine ⟨.refl, ?_, rfl⟩
    intro frame found
    rw [cached] at found
    contradiction
  | some frame =>
    have unwritable : (frame.page.isDirty = true → ∀ file,
        store.catalog.file? frame.page.id.table = some file →
          frame.page.encode.length ≠ file.pageSize) → store.Unwritable id := by
      intro untakable other found
      obtain rfl := Option.some.inj (cached.symm.trans found)
      exact untakable
    dsimp only
    cases dirty : frame.page.isDirty with
    | false =>
      rw [if_neg Bool.false_ne_true]
      refine ⟨.refl, unwritable ?_, rfl⟩
      intro isDirty
      rw [dirty] at isDirty
      contradiction
    | true =>
      rw [if_pos rfl, Action.ends_bind, Action.ends_ofExcept]
      cases registered : store.catalog.file? frame.page.id.table with
      | none =>
        rw [Catalog.file_of_none registered]
        refine ⟨.refl, unwritable ?_, rfl⟩
        intro _ file found
        rw [registered] at found
        contradiction
      | some file =>
        rw [Catalog.file_of_some registered]
        dsimp only
        rw [Action.ends_bind, onDisk, Action.ends_within, HeapFile.writePage]
        dsimp only
        by_cases sized : frame.page.encode.length = file.pageSize
        · rw [if_neg (fun wrong => wrong sized), Action.ends_modify]
          refine ⟨.single (.save cached dirty registered sized), ?_, Pool.pages_alter ..⟩
          intro other found isDirty
          replace found := (Pool.frame_alter store.pool id id _).symm.trans found
          rw [if_pos rfl, cached, Option.map_some] at found
          obtain rfl := Option.some.inj found
          exact absurd isDirty Bool.false_ne_true
        · rw [if_pos sized]
          refine ⟨.refl, unwritable ?_, rfl⟩
          intro _ other found
          obtain rfl := Option.some.inj (registered.symm.trans found)
          exact sized

/-- A dutiful policy names a cached page when it names one. -/
theorem mem_pages_of_victim (fits : store.Fits) {id : PageId}
    (answer : store.pool.askVictim.1 = some id) : id ∈ store.pool.pages := by
  have named : (EvictionPolicy.victim store.pool.memory store.pool.listed).1 = some id := answer
  by_cases listed : store.pool.listed = []
  · rw [listed, fits.dutiful.silent _ .refl] at named
    contradiction
  · obtain ⟨page, member, picked⟩ := fits.dutiful.obliging _ .refl _ listed
    obtain rfl := Option.some.inj (named.symm.trans picked)
    exact (Pool.mem_listed_iff store.pool id).mp member

omit [EvictionPolicy μ] in
theorem size_drop_lt {pool : Pool μ} {id : PageId} (member : id ∈ pool.pages) :
    (pool.drop id).size < pool.size := by
  obtain ⟨entry, isEntry, rfl⟩ := List.mem_map.mp member
  exact List.length_filter_lt_length_iff_exists.mpr ⟨entry, isEntry, by simp⟩

theorem evict_shifts (store : Store μ) :
    Action.Ends evict store
      (fun _ after => Shifts store after ∧ (store.Fits → after.pool.size < after.pool.capacity))
      fun fault after => fault = .error .outOfPages ∧ store.pool.askVictim.1 = none ∧
        Shifts store after := by
  have asked : Shifts store { store with pool := store.pool.askVictim.2 } := .single (.ask store)
  unfold evict
  rw [Action.ends_bind, Action.ends_get]
  dsimp only
  rw [Action.ends_bind, Action.ends_set]
  cases answer : store.pool.askVictim.1 with
  | none =>
    rw [Action.ends_fail]
    exact ⟨rfl, rfl, asked⟩
  | some id =>
    dsimp only
    rw [Action.ends_bind, Action.ends_attempt]
    have left : ∀ middle : Store μ, Attempted { store with pool := store.pool.askVictim.2 } id middle →
        Shifts store { middle with pool := (middle.pool.drop id).noteRemoval id } ∧
          (store.Fits → (middle.pool.drop id).size < middle.pool.capacity) := by
      intro middle attempted
      have shifts := asked.trans attempted.shifts
      refine ⟨shifts.tail (.leave attempted.unwritable), ?_⟩
      intro fits
      have member : id ∈ middle.pool.pages :=
        attempted.pages_eq ▸ mem_pages_of_victim fits answer
      exact Nat.lt_of_lt_of_le (size_drop_lt member) (fits_of_shifts shifts fits).size_le
    exact Action.ends_imp (writeBack_shifts _ id) (fun _ => left) fun _ => left

theorem bringIn_moves {before : Store μ} {id : PageId} {file : HeapFile} {page : Page}
    (uncached : before.pool.frame? id = none) (registered : before.catalog.file? id.table = some file)
    (own : file.table = id.table)
    (whole : (file.image before.disk id.number).length = file.pageSize)
    (decoded : Page.decode id file.schema (file.image before.disk id.number) = .ok page)
    (shifts : Shifts before store) :
    Action.Ends (bringIn id page) store
      (fun frame after => Moved before after ∧ after.pool.frame? id = some frame)
      fun _ after => Moved before after := by
  have placed : ∀ now : Store μ, Shifts before now →
      (before.Fits → now.pool.size < now.pool.capacity) →
      Moved before { now with pool := (now.pool.place id page).noteAccess id } ∧
        ((now.pool.place id page).noteAccess id).frame? id = some (now.pool.nextFrame page) := by
    intro now reached room
    refine ⟨.single (.enter uncached registered own whole decoded reached room), ?_⟩
    exact (Pool.frame_place now.pool id id page).trans (if_pos rfl)
  unfold bringIn
  rw [Action.ends_bind, Action.ends_get]
  cases full : store.pool.isFull with
  | false =>
    rw [if_neg Bool.false_ne_true]
    apply placed store shifts
    intro _
    exact Nat.lt_of_not_le (of_decide_eq_false full)
  | true =>
    rw [if_pos rfl, Action.ends_bind]
    apply Action.ends_imp (evict_shifts store)
    · rintro _ middle ⟨evicted, room⟩
      exact placed middle (shifts.trans evicted) fun fits => room (fits_of_shifts shifts fits)
    · rintro _ after ⟨-, -, asked⟩
      exact moved_of_shifts (shifts.trans asked)

theorem readPage_reads (file : HeapFile) (id : PageId) (disk : Disk) :
    Action.Ends (file.readPage id) disk
      (fun page after => file.table = id.table ∧
        (file.image disk id.number).length = file.pageSize ∧
        Page.decode id file.schema (file.image disk id.number) = .ok page ∧
        after = disk.countRead file.opening)
      fun _ after => after = disk ∨ after = disk.countRead file.opening := by
  unfold HeapFile.readPage
  dsimp only
  by_cases own : id.table = file.table
  · have image : disk.slice file.file (id.offset file.pageSize) file.pageSize =
        file.image disk id.number := disk.slice_eq ..
    rw [if_neg (fun wrong => wrong own), Action.ends_bind, Action.ends_get, image]
    have short : (file.image disk id.number).length ≤ file.pageSize := List.length_take_le _ _
    by_cases torn : (file.image disk id.number).length < file.pageSize
    · rw [if_pos torn, Action.ends_bind, Action.ends_fail]
      exact Or.inl rfl
    · rw [if_neg torn, Action.ends_bind, Action.ends_set, Action.ends_ofExcept]
      cases decoded : Page.decode id file.schema (file.image disk id.number) with
      | error cause => exact Or.inr rfl
      | ok page => exact ⟨own.symm, Nat.le_antisymm short (Nat.le_of_not_lt torn), rfl, rfl⟩
  · rw [if_pos own, Action.ends_bind, Action.ends_fail]
    exact Or.inl rfl

theorem fetch_moves (store : Store μ) (id : PageId) :
    Action.Ends (fetch id) store
      (fun frame after => Moved store after ∧ after.pool.frame? id = some frame)
      fun _ after => Moved store after := by
  unfold fetch
  rw [Action.ends_bind, Action.ends_get]
  cases cached : store.pool.frame? id with
  | some frame =>
    exact ⟨.single (.shift (.touch (cached ▸ rfl))), cached⟩
  | none =>
    dsimp only
    rw [Action.ends_bind, Action.ends_ofExcept]
    cases registered : store.catalog.file? id.table with
    | none => rw [Catalog.file_of_none registered]
    | some file =>
      rw [Catalog.file_of_some registered]
      dsimp only
      rw [Action.ends_bind, onDisk, Action.ends_within]
      apply Action.ends_imp (readPage_reads file id store.disk)
      · rintro page _ ⟨own, whole, decoded, rfl⟩
        exact bringIn_moves cached registered own whole decoded (.single (.read store file.opening))
      · rintro _ _ (rfl | rfl)
        · exact .refl
        · exact .single (.shift (.read store file.opening))

end Requests

end Store

end PagedStore
