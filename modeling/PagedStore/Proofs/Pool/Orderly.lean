import PagedStore.Proofs.Disjoint
import PagedStore.Proofs.Pool.Requests

/-!
Orderly stores. Every registered file is registered under its own table, and every cached page is a
page of the file that is registered for it, which has all of its bytes. A store that begins without
cached pages is orderly and stays so, whatever its files hold. In an orderly store a dirty page can
always be written back, and the page that enters is the one that its file holds at that moment.
-/

namespace PagedStore

/-- Each file is registered under its own table. -/
def Catalog.Filed (catalog : Catalog) : Prop :=
  ∀ entry ∈ catalog.tables, entry.2.file.table = entry.1

namespace Catalog

variable {catalog : Catalog}

theorem filed_empty : Catalog.empty.Filed := by
  intro entry member
  contradiction

/-- Registering a file keeps to this, so it holds of every catalog that has been built. -/
theorem filed_add (filed : catalog.Filed) (file : HeapFile) (name : String) :
    (catalog.add file name).Filed := by
  intro entry member
  rw [add, Keyed.put, List.mem_append, List.mem_singleton] at member
  rcases member with other | rfl
  · exact filed entry (List.mem_of_mem_filter (List.mem_of_mem_filter other))
  · rfl

theorem table_of_filed (filed : catalog.Filed) {table : TableId} {file : HeapFile}
    (registered : catalog.file? table = some file) : file.table = table := by
  obtain ⟨info, found, rfl⟩ := Option.map_eq_some_iff.mp registered
  obtain ⟨before, after, split, -⟩ := List.lookup_eq_some_iff.mp found
  have member : (table, info) ∈ catalog.tables := by
    rw [split]
    exact List.mem_append_right _ List.mem_cons_self
  exact filed (table, info) member

end Catalog

namespace Store

variable {μ : Type} {store : Store μ}

structure Orderly (store : Store μ) : Prop where
  filed : store.catalog.Filed
  backed : ∀ id frame, store.pool.frame? id = some frame → ∃ file,
    store.catalog.file? id.table = some file ∧ file.Owns id.number frame.page ∧
      file.Covers store.disk id.number

theorem page_of_filed (filed : store.catalog.Filed) {id : PageId} {file : HeapFile}
    (registered : store.catalog.file? id.table = some file) : file.page id.number = id :=
  HeapFile.page_number (Catalog.table_of_filed filed registered).symm

theorem tidy_of_orderly (orderly : store.Orderly) : store.Tidy := by
  intro id frame cached
  obtain ⟨file, registered, owns, -⟩ := orderly.backed id frame cached
  exact ⟨owns.id_eq.trans (page_of_filed orderly.filed registered), owns.formed⟩

theorem orderly_of_unused (filed : store.catalog.Filed) (unused : store.pool.frames = []) :
    store.Orderly := by
  refine ⟨filed, ?_⟩
  intro id frame cached
  rw [Pool.frame?, unused] at cached
  contradiction

/-- Two registered files with the same content are one. -/
theorem file_eq_of_same (filed : store.catalog.Filed) {table other : TableId}
    {file otherFile : HeapFile} (registered : store.catalog.file? table = some file)
    (otherRegistered : store.catalog.file? other = some otherFile)
    (same : file.file = otherFile.file) : table = other ∧ file = otherFile := by
  have tables : table = other := by
    rw [← Catalog.table_of_filed filed registered, ← Catalog.table_of_filed filed otherRegistered,
      HeapFile.table, HeapFile.table, same]
  rw [tables] at registered
  exact ⟨tables, Option.some.inj (registered.symm.trans otherRegistered)⟩

theorem sized_of_owns {file : HeapFile} {number : Nat} {page : Page} (owns : file.Owns number page) :
    page.encode.length = file.pageSize := by
  rw [Page.length_encode, owns.size_eq]

theorem owns_marked {file : HeapFile} {number : Nat} {page : Page} (owns : file.Owns number page)
    (mark : Option Transaction) : file.Owns number (page.marked mark) :=
  ⟨owns.id_eq, owns.schema_eq, owns.size_eq, Page.formed_marked owns.formed mark⟩

/-- The pool and the disk may change as long as the cached pages are pages of their files and no file
gets shorter. -/
theorem orderly_of_backed {after : Store μ} (orderly : store.Orderly)
    (catalog : after.catalog = store.catalog)
    (grown : ∀ file, (store.disk.content file).length ≤ (after.disk.content file).length)
    (known : ∀ id frame, after.pool.frame? id = some frame →
      (∃ old mark, store.pool.frame? id = some old ∧ frame.page = old.page.marked mark) ∨
      ∃ file, store.catalog.file? id.table = some file ∧ file.Owns id.number frame.page ∧
        file.Covers store.disk id.number) : after.Orderly := by
  refine ⟨catalog.symm ▸ orderly.filed, ?_⟩
  intro id frame cached
  rw [catalog]
  rcases known id frame cached with ⟨old, mark, there, same⟩ | ⟨file, registered, owns, covers⟩
  · obtain ⟨file, registered, owns, covers⟩ := orderly.backed id old there
    exact ⟨file, registered, same ▸ owns_marked owns mark, Nat.le_trans covers (grown file.file)⟩
  · exact ⟨file, registered, owns, Nat.le_trans covers (grown file.file)⟩

theorem orderly_withPool (orderly : store.Orderly) {pool : Pool μ}
    (known : ∀ id frame, pool.frame? id = some frame →
      (∃ old mark, store.pool.frame? id = some old ∧ frame.page = old.page.marked mark) ∨
      ∃ file, store.catalog.file? id.table = some file ∧ file.Owns id.number frame.page ∧
        file.Covers store.disk id.number) : Orderly { store with pool } :=
  orderly_of_backed orderly rfl (fun _ => Nat.le_refl _) known

theorem known_of_same {before after : Store μ} {id : PageId} {frame : Frame}
    (cached : after.pool.frame? id = some frame)
    (same : after.pool.frame? id = before.pool.frame? id) :
    ∃ old mark, before.pool.frame? id = some old ∧ frame.page = old.page.marked mark :=
  ⟨frame, frame.page.dirtiedBy, same.symm.trans cached, rfl⟩

variable [EvictionPolicy μ] {after : Store μ}

theorem grown_of_shift (shift : Shift store after) (file : Nat) :
    (store.disk.content file).length ≤ (after.disk.content file).length := by
  cases shift with
  | read opening => exact Nat.le_refl _
  | save cached dirty registered sized => exact Disk.length_content_overwrite ..
  | list => exact Nat.le_refl _
  | ask => exact Nat.le_refl _
  | touch cached => exact Nat.le_refl _
  | leave unwritable => exact Nat.le_refl _

theorem orderly_drop (orderly : store.Orderly) (id : PageId) :
    Orderly { store with pool := (store.pool.drop id).noteRemoval id } := by
  apply orderly_withPool orderly
  intro other frame cached
  have lookup := (Pool.frame_drop store.pool id other).symm.trans cached
  split at lookup
  · contradiction
  · exact Or.inl ⟨frame, frame.page.dirtiedBy, lookup, rfl⟩

theorem orderly_of_shift (shift : Shift store after) (orderly : store.Orderly) : after.Orderly := by
  have grown := grown_of_shift shift
  have catalog := catalog_of_shift shift
  have same : (∀ id, after.pool.frame? id = store.pool.frame? id) → after.Orderly :=
    fun frames => orderly_of_backed orderly catalog grown
      fun id frame cached => Or.inl (known_of_same cached (frames id))
  cases shift with
  | read opening => exact same fun _ => rfl
  | @save id saved file there dirty registered sized =>
    apply orderly_of_backed orderly catalog grown
    intro other frame cached
    have lookup := (Pool.frame_alter store.pool id other _).symm.trans cached
    split at lookup
    · obtain ⟨old, wasCached, rfl⟩ := Option.map_eq_some_iff.mp lookup
      exact Or.inl ⟨old, none, wasCached, rfl⟩
    · exact Or.inl ⟨frame, frame.page.dirtiedBy, lookup, rfl⟩
  | list => exact same fun _ => rfl
  | ask => exact same fun _ => rfl
  | touch cached => exact same fun _ => rfl
  | leave unwritable => exact orderly_drop orderly _

theorem grown_of_shifts (shifts : Shifts store after) (file : Nat) :
    (store.disk.content file).length ≤ (after.disk.content file).length :=
  keeps_of_shifts (P := fun now => (store.disk.content file).length ≤ (now.disk.content file).length)
    (fun _ _ shift less => Nat.le_trans less (grown_of_shift shift file)) shifts (Nat.le_refl _)

theorem orderly_of_shifts (shifts : Shifts store after) (orderly : store.Orderly) : after.Orderly :=
  keeps_of_shifts (fun _ _ => orderly_of_shift) shifts orderly

omit [EvictionPolicy μ] in
theorem owns_of_image {id : PageId} {file : HeapFile} {page : Page} (own : file.table = id.table)
    (whole : (file.image store.disk id.number).length = file.pageSize)
    (decoded : Page.decode id file.schema (file.image store.disk id.number) = .ok page) :
    file.Owns id.number page := by
  obtain ⟨-, idEq, schemaEq, sizeEq, -, -⟩ := Page.decode_eq_ok_iff.mp decoded
  exact ⟨idEq.trans (HeapFile.page_number own.symm).symm, schemaEq, sizeEq.trans whole,
    Page.formed_decode decoded⟩

theorem owns_takes {file : HeapFile} {number slot : Nat} {page : Page} {row : Option Row}
    (owns : file.Owns number page) (takes : page.Takes slot row) :
    file.Owns number (page.setSlot slot row) :=
  ⟨owns.id_eq, owns.schema_eq, owns.size_eq, formed_of_takes owns.formed takes⟩

theorem closed_orderly : Closed (Orderly (μ := μ)) where
  motion := by
    intro before after motion orderly
    cases motion with
    | shift shift => exact orderly_of_shift shift orderly
    | grow registered =>
      exact orderly_of_backed orderly rfl (Disk.length_content_overwrite _ _ _ _)
        fun id frame cached => Or.inl (known_of_same cached rfl)
    | @enter middle id file page uncached registered own whole decoded shifts room =>
      have now := orderly_of_shifts shifts orderly
      have still : middle.catalog.file? id.table = some file :=
        (catalog_of_shifts shifts).symm ▸ registered
      apply orderly_withPool now
      intro other frame cached
      have lookup := (Pool.frame_place middle.pool id other page).symm.trans cached
      split at lookup
      · next same =>
        subst same
        obtain rfl := Option.some.inj lookup
        exact Or.inr ⟨file, still, owns_of_image own whole decoded,
          Nat.le_trans (HeapFile.covers_of_image whole) (grown_of_shifts shifts file.file)⟩
      · exact Or.inl ⟨frame, frame.page.dirtiedBy, lookup, rfl⟩
  revised := by
    intro before after transaction id slot row frame revised orderly
    have lookup := frame_of_revised revised
    obtain ⟨⟨old, there, takes, rfl⟩, rfl⟩ := revised
    apply orderly_withPool orderly
    intro other found cached
    rw [lookup] at cached
    split at cached
    · next same =>
      subst same
      obtain rfl := Option.some.inj cached
      obtain ⟨file, registered, owns, covers⟩ := orderly.backed other old there
      exact Or.inr ⟨file, registered, owns_marked (owns_takes owns takes) _, covers⟩
    · exact Or.inl ⟨found, found.page.dirtiedBy, cached, rfl⟩
  dropped := fun _ orderly => orderly_drop orderly _

omit [EvictionPolicy μ] in
theorem writable_of_orderly (orderly : store.Orderly) {id : PageId}
    (unwritable : store.Unwritable id) {frame : Frame}
    (cached : store.pool.frame? id = some frame) : frame.page.isDirty = false := by
  obtain ⟨file, registered, owns, -⟩ := orderly.backed id frame cached
  have named := (tidy_of_orderly orderly id frame cached).1
  cases dirty : frame.page.isDirty with
  | false => rfl
  | true =>
    exact absurd (sized_of_owns owns) (unwritable frame cached dirty file (named ▸ registered))

theorem grown_of_motion (motion : Motion store after) (file : Nat) :
    (store.disk.content file).length ≤ (after.disk.content file).length := by
  cases motion with
  | shift shift => exact grown_of_shift shift file
  | grow registered => exact Disk.length_content_overwrite ..
  | @enter middle id heap page uncached registered own whole decoded shifts room =>
    have grown := grown_of_shifts shifts file
    exact grown

theorem grown_of_moved (moved : Moved store after) (file : Nat) :
    (store.disk.content file).length ≤ (after.disk.content file).length :=
  keeps_of_moved (P := fun now => (store.disk.content file).length ≤ (now.disk.content file).length)
    (fun _ _ motion less => Nat.le_trans less (grown_of_motion motion file)) moved (Nat.le_refl _)

theorem few_of_moved (moved : Moved store after) (few : after.Few) : store.Few := by
  apply few_of_grown (catalog_of_moved moved) _ few
  intro file
  rw [Disk.length_eq, Disk.length_eq]
  exact grown_of_moved moved file

theorem few_of_revised {id : PageId} {transaction : Transaction} {slot : Nat} {row : Option Row}
    {frame : Frame} (revised : Revised store transaction id slot row frame after)
    (few : after.Few) : store.Few := by
  obtain ⟨-, rfl⟩ := revised
  exact few

/-- What motions keep in stores with few pages, a run of motions keeps that ends in such a store. -/
theorem keeps_of_few_moved {P : Store μ → Prop} (keeps : ∀ a b, Motion a b → a.Few → P a → P b)
    (moved : Moved store after) (few : after.Few) (holds : P store) : P after := by
  induction moved with
  | refl => exact holds
  | @tail middle last moved motion ih =>
    have fewThen : middle.Few := few_of_moved (.single motion) few
    exact keeps _ _ motion fewThen (ih fewThen)

theorem closed_of_few {P : Store μ → Prop}
    (motion : ∀ {before after : Store μ}, Motion before after → before.Few → P before → P after)
    (revised : ∀ {before after : Store μ} {transaction : Transaction} {id : PageId} {slot : Nat}
      {row : Option Row} {frame : Frame}, Revised before transaction id slot row frame after →
        P before → P after)
    (dropped : ∀ {before : Store μ} {id : PageId}, (before.pool.frame? id).isSome → P before →
      P { before with pool := (before.pool.drop id).noteRemoval id }) :
    Closed fun now => now.Few → P now where
  motion := fun moves holds few =>
    have fewThen := few_of_moved (.single moves) few
    motion moves fewThen (holds fewThen)
  revised := fun revision holds few => revised revision (holds (few_of_revised revision few))
  dropped := fun cached holds few => dropped cached (holds few)

/-- A file that has too many pages keeps them. -/
theorem closed_many : Closed fun now : Store μ => ¬ now.Few where
  motion := fun motion many few => many (few_of_moved (.single motion) few)
  revised := fun revised many few => many (few_of_revised revised few)
  dropped := fun _ many few => many few

theorem few_of_did {operation : Operation} {answer : Except Fault Answer}
    (did : Did store operation answer after) (few : after.Few) : store.Few := by
  by_contra many
  exact keeps_of_did closed_many did many few

theorem few_of_after (tidy : store.Tidy) {operations : List Operation}
    (few : (store.after operations).Few) : store.Few := by
  by_contra many
  exact (keeps_after closed_many tidy many operations).2 few

/-- The bytes of a page change only when its cached copy is saved. -/
theorem image_after_shift (orderly : store.Orderly) (shift : Shift store after) {id : PageId}
    {file : HeapFile} (registered : store.catalog.file? id.table = some file)
    (covers : file.Covers store.disk id.number) :
    file.image after.disk id.number = file.image store.disk id.number ∨
      ∃ frame, store.pool.frame? id = some frame ∧
        file.image after.disk id.number = frame.page.encode := by
  cases shift with
  | read opening => exact Or.inl rfl
  | @save saved frame other cached dirty found sized =>
    have named := (tidy_of_orderly orderly saved frame cached).1
    rw [named] at found ⊢
    by_cases same : id = saved
    · subst same
      obtain rfl := Option.some.inj (registered.symm.trans found)
      exact Or.inr ⟨frame, cached, HeapFile.image_overwrite_self covers sized⟩
    · left
      apply HeapFile.image_overwrite_elsewhere covers
      intro sameFile
      obtain ⟨tables, rfl⟩ := file_eq_of_same orderly.filed registered found sameFile.symm
      rw [sized]
      exact HeapFile.apart_of_ne (PageId.number_ne tables same)
  | list => exact Or.inl rfl
  | ask => exact Or.inl rfl
  | touch cached => exact Or.inl rfl
  | leave unwritable => exact Or.inl rfl

omit [EvictionPolicy μ] in
/-- A file that tells of all its pages grows behind them. -/
theorem image_of_grow (orderly : store.Orderly) (few : store.Few) {table : TableId}
    {file other : HeapFile} (found : store.catalog.file? table = some other) {id : PageId}
    (registered : store.catalog.file? id.table = some file)
    (covers : file.Covers store.disk id.number) :
    file.image (other.lengthened store.disk) id.number = file.image store.disk id.number := by
  apply HeapFile.image_overwrite_elsewhere covers
  intro same
  obtain ⟨-, rfl⟩ := file_eq_of_same orderly.filed registered found same.symm
  rw [pageCount_eq_extent few registered]
  exact Or.inl (HeapFile.covers_le_end covers)

theorem image_of_shift (orderly : store.Orderly) (shift : Shift store after) {id : PageId}
    {file : HeapFile} (uncached : store.pool.frame? id = none)
    (registered : store.catalog.file? id.table = some file)
    (covers : file.Covers store.disk id.number) :
    file.image after.disk id.number = file.image store.disk id.number := by
  rcases image_after_shift orderly shift registered covers with same | ⟨frame, cached, -⟩
  · exact same
  · rw [uncached] at cached
    contradiction

theorem image_of_shifts (orderly : store.Orderly) (shifts : Shifts store after) {id : PageId}
    {file : HeapFile} (uncached : store.pool.frame? id = none)
    (registered : store.catalog.file? id.table = some file)
    (covers : file.Covers store.disk id.number) :
    file.image after.disk id.number = file.image store.disk id.number := by
  induction shifts with
  | refl => rfl
  | @tail middle last shifts shift ih =>
    have now := image_of_shift (orderly_of_shifts shifts orderly) shift
      (uncached_of_shifts shifts uncached) ((catalog_of_shifts shifts).symm ▸ registered)
      (Nat.le_trans covers (grown_of_shifts shifts file.file))
    exact now.trans ih

end Store

end PagedStore
