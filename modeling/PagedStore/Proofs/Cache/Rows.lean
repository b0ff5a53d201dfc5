import PagedStore.Proofs.Cache.Moves
import PagedStore.Store.Rows

/-!
Storing and deleting rows in a coherent store. A page that has been replaced in memory is out of step
with its file until it is marked as changed, so the two happen together: between the fetch and the mark
nothing else moves. A row is stored in the first free slot of its table, which grows by one page if all
pages are full, and it is refused for reasons that do not depend on the pool, unless the policy refuses
to let a page go.
-/

namespace PagedStore.Store

variable {μ : Type} {store middle : Store μ}

structure Replaced (middle : Store μ) (id : PageId) (page : Page) (frame : Frame)
    (after : Store μ) : Prop where
  cached : ∃ old, middle.pool.frame? id = some old ∧ frame = old.altered fun _ => page
  owned : ∃ file, middle.catalog.file? id.table = some file ∧ file.Owns id.number page
  after_eq : after = { middle with pool := middle.pool.alter id fun _ => page }

theorem id_eq_of_owned (coherent : middle.Coherent) {id : PageId} {page : Page}
    (owned : ∃ file, middle.catalog.file? id.table = some file ∧ file.Owns id.number page) :
    page.id = id := by
  rcases owned with ⟨file, registered, owns⟩
  rw [owns.id_eq, page_number_eq coherent.sound registered]

theorem replacePage_ends (coherent : middle.Coherent) {id : PageId} {page : Page} {old : Frame}
    (cached : middle.pool.frame? id = some old)
    (owned : ∃ file, middle.catalog.file? id.table = some file ∧ file.Owns id.number page) :
    Action.Ends (replacePage old page) middle (fun frame after => Replaced middle id page frame after)
      fun _ _ => False := by
  refine ⟨⟨old, cached, rfl⟩, owned, ?_⟩
  rw [id_eq_of_owned coherent owned]

structure Edits (middle : Store μ) (id : PageId) (slot : Nat) (row : Option Row) (page : Page) :
    Prop where
  owned : ∃ file, middle.catalog.file? id.table = some file ∧ file.Owns id.number page
  contents_eq : ∃ contents, middle.current id = some contents ∧ page.contents =
    Function.update contents slot (row.map fun row => row.values.map Value.kept)

theorem owns_setSlot {file : HeapFile} {number slot : Nat} {page : Page} {row : Option Row}
    (owns : file.Owns number page) (formed : (page.setSlot slot row).Formed) :
    file.Owns number (page.setSlot slot row) :=
  ⟨owns.id_eq, owns.schema_eq, owns.size_eq, formed⟩

theorem edits_setSlot (coherent : middle.Coherent) {id : PageId} {old : Frame}
    (cached : middle.pool.frame? id = some old) (present : (middle.current id).isSome) {slot : Nat}
    (inside : slot < old.page.slotCount)
    {row : Option Row} (formed : (old.page.setSlot slot row).Formed) :
    Edits middle id slot row (old.page.setSlot slot row) where
  owned := by
    rcases coherent.backed id old cached with ⟨⟨file, registered, owns, -⟩, -⟩
    exact ⟨file, registered, owns_setSlot owns formed⟩
  contents_eq := by
    refine ⟨old.page.contents, current_of_present cached present, ?_⟩
    funext other
    rw [Page.contents_setSlot old.page inside]
    by_cases same : other = slot
    · rw [if_pos same, same, Function.update_self]
    · rw [if_neg same, Function.update_of_ne same]

/-- A page keeps a trait if the row that comes into one of its slots has it. -/
theorem keeps_setSlot {trait : RowTrait} {id : PageId} {old : Frame}
    (cached : middle.pool.frame? id = some old) (keeps : middle.Keeps trait) {slot : Nat}
    (inside : slot < old.page.slotCount) {row : Option Row}
    (fits : ∀ stored ∈ row, trait.holds stored.values) :
    (old.page.setSlot slot row).Keeps trait := by
  intro other stored found
  rw [Page.row_setSlot old.page inside] at found
  split at found
  · exact fits stored found
  · exact keeps id old cached other stored found

/-- The page has no rows but those in memory and one with these values. -/
def Admits (middle : Store μ) (values : List Value) (page : Page) : Prop :=
  ∀ trait : RowTrait, middle.Keeps trait → trait.holds values → page.Keeps trait

theorem admits_setSlot {id : PageId} {old : Frame} (cached : middle.pool.frame? id = some old)
    {slot : Nat} (inside : slot < old.page.slotCount) (row : Row) :
    Admits middle row.values (old.page.setSlot slot (some row)) := by
  intro trait keeps fits
  apply keeps_setSlot cached keeps inside
  rintro stored same
  obtain rfl := Option.mem_some.mp same
  exact fits

def Stores (middle : Store μ) (file : HeapFile) (row : Row) (number slot : Nat) (frame : Frame)
    (after : Store μ) : Prop :=
  file.FirstFree middle.current number slot ∧ ∃ page, Admits middle row.values page ∧
    Edits middle (file.page number) slot
      (row.stamped (RecordId.ofSlot (file.page number) slot)) page ∧
    Replaced middle (file.page number) page frame after

theorem storeOn_ends (coherent : middle.Coherent) {file : HeapFile} {number : Nat} {old : Frame}
    (registered : middle.catalog.file? (file.page number).table = some file)
    (cached : middle.pool.frame? (file.page number) = some old) {row : Row}
    (fits : row.checkAgainst file.schema = .ok ()) {slot : Nat}
    (firstFree : file.FirstFree middle.current number slot) :
    Action.Ends (storeOn old row) middle
      (fun frame after => Stores middle file row number slot frame after) fun _ _ => False := by
  rcases coherent.backed _ old cached with ⟨⟨other, found, owns, -⟩, -⟩
  obtain rfl : file = other := Option.some.inj (registered.symm.trans found)
  rcases firstFree.opens with ⟨contents, there, opens⟩
  obtain rfl := contents_of_current cached there
  rw [← HeapFile.slotCount_of_owns owns, ← Page.firstFree_eq_some_iff owns.formed] at opens
  have own : old.page.id = file.page number := owns.id_eq.trans (HeapFile.page_number rfl)
  have inserted : old.page.insert row = .ok (RecordId.ofSlot (file.page number) slot,
      old.page.setSlot slot (row.stamped (RecordId.ofSlot (file.page number) slot))) := by
    rw [Page.insert_eq_ok_iff, owns.schema_eq, own]
    exact ⟨fits, slot, opens, rfl, rfl⟩
  have edits := edits_setSlot coherent cached (there ▸ rfl) (Page.firstFree_lt opens)
    (Page.formed_insert owns.formed inserted)
  unfold storeOn
  rw [inserted, Action.ends_bind, Action.ends_ofExcept]
  dsimp only
  apply Action.ends_of_never_fails (replacePage_ends coherent cached edits.owned)
  intro frame after replaced
  have admits := admits_setSlot cached (Page.firstFree_lt opens)
    (row.stamped (RecordId.ofSlot (file.page number) slot))
  exact ⟨firstFree, _, admits, edits, replaced⟩

/-- A cached page of a store with few pages is one that its file tells of. -/
theorem present_of_cached (coherent : store.Coherent) (few : store.Few) {id : PageId} {frame : Frame}
    (cached : store.pool.frame? id = some frame) : (store.current id).isSome := by
  obtain ⟨⟨file, registered, -, inside⟩, -⟩ := coherent.backed id frame cached
  rw [isSome_current_iff coherent.sound registered, pageCount_eq_extent few registered]
  exact inside

/-- Whatever page it is, storing a row on it replaces it in memory or leaves all as it was. -/
theorem storeOn_replaces (coherent : middle.Coherent) {id : PageId} {old : Frame}
    (cached : middle.pool.frame? id = some old) (row : Row) :
    Action.Ends (storeOn old row) middle
      (fun frame after => ∃ page, Admits middle row.values page ∧ Replaced middle id page frame after)
      fun fault after => (∃ cause, fault = .error cause) ∧ after = middle := by
  obtain ⟨⟨file, registered, owns, -⟩, -⟩ := coherent.backed id old cached
  unfold storeOn
  rw [Action.ends_bind, Action.ends_ofExcept]
  cases inserted : old.page.insert row with
  | error cause => exact ⟨⟨cause, rfl⟩, rfl⟩
  | ok stored =>
    obtain ⟨record, page⟩ := stored
    have formed := Page.formed_insert owns.formed inserted
    obtain ⟨-, slot, free, -, rfl⟩ := Page.insert_eq_ok_iff.mp inserted
    have admits := admits_setSlot cached (Page.firstFree_lt free) (row.stamped (some record))
    apply Action.ends_of_never_fails (replacePage_ends coherent cached
      ⟨file, registered, owns_setSlot owns formed⟩)
    exact fun frame after replaced => ⟨_, admits, replaced⟩

structure Appended (before : Store μ) (id : PageId) (after : Store μ) : Prop where
  coherent : after.Coherent
  catalog_eq : after.catalog = before.catalog
  pool_eq : after.pool = before.pool
  reference_eq : after.reference = before.reference.appended id
  grown : ∀ file, before.disk.length file ≤ after.disk.length file

/-- No page behind the end of its file is in memory. -/
theorem uncached_of_outside (coherent : store.Coherent) {id : PageId} {file : HeapFile}
    (registered : store.catalog.file? id.table = some file)
    (outside : file.extent store.disk ≤ id.number) : store.pool.frame? id = none := by
  cases cached : store.pool.frame? id with
  | none => rfl
  | some frame =>
    obtain ⟨other, found, -, inside⟩ := (coherent.backed id frame cached).exists_file
    obtain rfl := Option.some.inj (registered.symm.trans found)
    exact absurd inside (Nat.not_lt_of_le outside)

theorem appended_of_rewritten (coherent : store.Coherent) {file : HeapFile} {disk : Disk}
    (registered : store.catalog.file? file.table = some file)
    (room : file.extent store.disk + 1 < 4294967296)
    (rewritten : file.Rewritten store.disk (file.pageCount store.disk)
      (Page.empty (file.page (file.pageCount store.disk)) file.schema file.pageSize) disk) :
    Appended store (file.page (file.pageCount store.disk)) { store with disk } := by
  have whole := (coherent.sound file.table file registered).2
  have told := HeapFile.pageCount_eq_extent (Nat.lt_of_succ_lt room)
  let id := file.page (file.pageCount store.disk)
  have number : id.number = file.pageCount store.disk :=
    file.number_page (file.pageCount_lt store.disk)
  have own : store.catalog.file? id.table = some file := registered
  have behind := number.trans told
  have uncached := uncached_of_outside coherent own (Nat.le_of_eq behind.symm)
  rw [← number] at rewritten
  have durable : Store.durable { store with disk } =
      Function.update store.durable id (some Contents.blank) := by
    rw [durable_extended coherent.sound own behind room rewritten, Page.contents_empty]
  refine ⟨?_, rfl, rfl, ?_, rewritten.grown whole⟩
  · apply coherent_rewritten coherent own rewritten
    intro other frame cached clean held now
    rw [durable] at now
    by_cases same : other = id
    · rw [same, uncached] at cached
      contradiction
    · rw [Function.update_of_ne same] at now
      exact (coherent.backed other frame cached).clean clean held now
  · have current : Store.current { store with disk } =
        Function.update store.current id (some Contents.blank) := by
      funext other
      by_cases same : other = id
      · have now : Store.current { store with disk } id = Store.durable { store with disk } id :=
          current_of_uncached uncached
        rw [same, now, durable, Function.update_self, Function.update_self]
      · rw [Store.current, Function.update_of_ne same, Store.current, durable,
          Function.update_of_ne same]
    rw [reference, durable, current]
    rfl

theorem coherent_of_overrun (coherent : store.Coherent) {file : HeapFile} {page : Page} {disk : Disk}
    (registered : store.catalog.file? file.table = some file)
    (full : 4294967296 ≤ file.extent store.disk + 1)
    (rewritten : file.Rewritten store.disk (file.pageCount store.disk) page disk) :
    Coherent { store with disk } ∧ ¬ Few { store with disk } := by
  let id := file.page (file.pageCount store.disk)
  have number : id.number = file.pageCount store.disk :=
    file.number_page (file.pageCount_lt store.disk)
  have own : store.catalog.file? id.table = some file := registered
  have extent := rewritten.extent_eq
  rw [← number] at rewritten
  refine ⟨?_, ?_⟩
  · apply coherent_rewritten coherent own rewritten
    intro other frame cached clean held now
    exact (coherent.backed other frame cached).clean clean held
      (durable_of_overrun coherent.sound own number full rewritten now)
  · intro few
    have less : file.extent disk < 4294967296 := few file.table file registered
    have told := file.pageCount_eq_mod store.disk
    omega

theorem keeps_of_samePool {after : Store μ} (same : after.pool = store.pool) {trait : RowTrait}
    (keeps : store.Keeps trait) : after.Keeps trait := by
  rw [Keeps, same]
  exact keeps

/-- A page is added behind the last one, unless the file has got more pages than it can tell of. -/
theorem appendPage_ends [EvictionPolicy μ] (coherent : store.Coherent) {file : HeapFile}
    (registered : store.catalog.file? file.table = some file) :
    Action.Ends (onDisk file.appendPage) store
      (fun number after => number = file.numPages store.disk ∧ Carries store after ∧
        (after.Few → Appended store (file.page (file.pageCount store.disk)) after))
      fun _ _ => False := by
  have whole := (coherent.sound file.table file registered).2
  rw [onDisk, Action.ends_within]
  apply Action.ends_of_never_fails (HeapFile.appendPage_ends whole)
  rintro number disk ⟨rfl, rewritten⟩
  by_cases room : file.extent store.disk + 1 < 4294967296
  · have added := appended_of_rewritten coherent registered room rewritten
    have lasts : Lasts store { store with disk } :=
      ⟨added.coherent, rfl, Pool.follows_refl _, added.grown⟩
    exact ⟨rfl, ⟨lasts, fun _ => keeps_of_samePool rfl⟩, fun _ => added⟩
  · obtain ⟨still, many⟩ :=
      coherent_of_overrun coherent registered (Nat.le_of_not_lt room) rewritten
    have lasts : Lasts store { store with disk } :=
      ⟨still, rfl, Pool.follows_refl _, rewritten.grown whole⟩
    exact ⟨rfl, ⟨lasts, fun _ => keeps_of_samePool rfl⟩, fun few => absurd few many⟩

variable [EvictionPolicy μ]

structure Grown (before : Store μ) (file : HeapFile) (after : Store μ) : Prop extends
    Carries before after where
  grows : before.reference.Grows file after.reference

theorem grown_of_saves {after : Store μ} (saves : Saves store after) (file : HeapFile) :
    Grown store file after :=
  ⟨carries_of_saves saves, .saved (saved_of_saves saves)⟩

structure Settled (middle : Store μ) (id : PageId) (page : Page) (transaction : Transaction)
    (frame : Frame) (after : Store μ) : Prop where
  coherent : after.Coherent
  catalog_eq : after.catalog = middle.catalog
  follows : middle.pool.Follows after.pool
  disk_eq : after.disk = middle.disk
  current_eq : after.current =
    Function.update middle.current id ((middle.current id).map fun _ => page.contents)
  cached : after.pool.frame? id = some frame
  page_eq : frame.page = page.marked (some transaction)
  keeps : ∀ trait, middle.Keeps trait → page.Keeps trait → after.Keeps trait

structure Changed (middle : Store μ) (id : PageId) (slot : Nat) (row : Option Row)
    (transaction : Transaction) (frame : Frame) (after : Store μ) : Prop where
  coherent : after.Coherent
  catalog_eq : after.catalog = middle.catalog
  follows : middle.pool.Follows after.pool
  disk_eq : after.disk = middle.disk
  reference_eq : after.reference =
    middle.reference.placed id slot (row.map fun row => row.values.map Value.kept)
  cached : after.pool.frame? id = some frame
  dirtiedBy_eq : frame.page.dirtiedBy = some transaction

theorem durable_of_settled {after : Store μ} {id : PageId} {page : Page} {transaction : Transaction}
    {frame : Frame} (settled : Settled middle id page transaction frame after) :
    after.durable = middle.durable :=
  durable_congr settled.catalog_eq (congrArg Disk.files settled.disk_eq)

theorem lasts_of_settled {after : Store μ} {id : PageId} {page : Page} {transaction : Transaction}
    {frame : Frame} (settled : Settled middle id page transaction frame after) :
    Lasts middle after :=
  ⟨settled.coherent, settled.catalog_eq, settled.follows, fun _ => Nat.le_of_eq (settled.disk_eq ▸ rfl)⟩

theorem changed_of_settled {after : Store μ} {id : PageId} {slot : Nat} {row : Option Row}
    {page : Page} {transaction : Transaction} {frame : Frame}
    (edits : Edits middle id slot row page)
    (settled : Settled middle id page transaction frame after) :
    Changed middle id slot row transaction frame after where
  coherent := settled.coherent
  catalog_eq := settled.catalog_eq
  follows := settled.follows
  disk_eq := settled.disk_eq
  reference_eq := by
    rcases edits.contents_eq with ⟨contents, there, same⟩
    rw [reference, durable_of_settled settled, settled.current_eq, same, Reference.placed, reference]
    dsimp only
    rw [there]
    rfl
  cached := settled.cached
  dirtiedBy_eq := by
    rw [settled.page_eq]
    rfl

theorem grown_of_appended {scanned appended after : Store μ} {file : HeapFile}
    (coherent : store.Coherent) (registered : store.catalog.file? file.table = some file)
    (scan : Saves store scanned) (full : store.reference.FullBefore file (file.pageCount store.disk))
    (added : Appended scanned (file.page (file.pageCount store.disk)) appended)
    (saves : Saves appended after) : Grown store file after where
  toCarries := by
    have before := scan.follows
    rw [← added.pool_eq] at before
    have adds : Lasts store appended := ⟨added.coherent, added.catalog_eq.trans scan.catalog_eq,
      before, fun file => scan.length_eq file ▸ added.grown file⟩
    have carries : Carries store appended :=
      ⟨adds, fun trait keeps => keeps_of_samePool added.pool_eq (scan.keeps trait keeps)⟩
    exact carries_trans carries (carries_of_saves saves)
  grows := by
    have savedBefore := Reference.saved_appended (saved_of_saves scan)
      (file.page (file.pageCount store.disk))
    rw [← added.reference_eq] at savedBefore
    exact .appended (spans_pageCount coherent.sound registered) full
      (Reference.saved_trans savedBefore (saved_of_saves saves))

theorem settle_ends (coherent : middle.Coherent) {id : PageId} {page : Page} {frame : Frame}
    {replaced : Store μ} (replacement : Replaced middle id page frame replaced)
    (transaction : Transaction) :
    Action.Ends (settle transaction frame) replaced
      (fun settled after => Settled middle id page transaction settled after) fun _ _ => False := by
  rcases replacement with ⟨⟨old, cached, rfl⟩, owned, rfl⟩
  rcases (coherent.backed id old cached).exists_file with ⟨other, registered, -, inside⟩
  have named := id_eq_of_owned coherent owned
  rcases owned with ⟨file, found, owns⟩
  obtain rfl : file = other := Option.some.inj (found.symm.trans registered)
  have lookup : ∀ other, (((middle.pool.alter id fun _ => page).alter id
      fun page => page.marked (some transaction)).noteAccess id).frame? other =
        if other = id then some (old.altered fun _ => page.marked (some transaction))
        else middle.pool.frame? other := by
    intro other
    refine (Pool.frame_alter _ id other _).trans ?_
    rw [Pool.frame_alter middle.pool id other]
    by_cases same : other = id
    · rw [if_pos same, if_pos same, if_pos same, same, cached]
      rfl
    · rw [if_neg same, if_neg same, if_neg same]
  have dirty : (page.marked (some transaction)).isDirty = true := rfl
  unfold settle
  dsimp only [Frame.altered]
  rw [named]
  refine ⟨?_, rfl, ⟨rfl, .access id .refl⟩, rfl, ?_, ?_, rfl, ?_⟩
  · apply coherent_withPool coherent
    intro other kept there
    rw [lookup other] at there
    split at there
    · next same =>
      subst same
      obtain rfl := Option.some.inj there
      refine ⟨⟨file, registered, ⟨owns.id_eq, owns.schema_eq, owns.size_eq, ?_⟩, inside⟩, ?_⟩
      · exact Page.formed_marked owns.formed _
      · intro clean
        rw [Frame.altered, dirty] at clean
        contradiction
    · exact coherent.backed other kept there
  · funext other
    rw [current]
    dsimp only
    rw [lookup other]
    by_cases same : other = id
    · rw [if_pos same, same, Function.update_self, current, Option.map_map]
      rfl
    · rw [if_neg same, Function.update_of_ne same]
      rfl
  · rw [lookup id, if_pos rfl]
    rfl
  · intro trait keeps pageKeeps other kept there
    rw [lookup other] at there
    split at there
    · obtain rfl := Option.some.inj there
      exact pageKeeps
    · exact keeps other kept there

theorem storeOnFirst_ends (coherent : store.Coherent) {file : HeapFile}
    (registered : store.catalog.file? file.table = some file) {row : Row}
    (fits : row.checkAgainst file.schema = .ok ()) {first count : Nat}
    (present : ∀ number < first + count, (store.current (file.page number)).isSome)
    (full : store.reference.FullBefore file first) :
    Action.Ends (storeOnFirst row ((List.range' first count).map file.page)) store
      (fun stored after => match stored with
        | none => Saves store after ∧ store.reference.FullBefore file (first + count)
        | some frame => ∃ middle number slot, Saves store middle ∧
            Stores middle file row number slot frame after)
      fun fault after => fault = .error .outOfPages ∧ ¬ store.Hospitable ∧ Saves store after := by
  induction count generalizing first store with
  | zero => exact ⟨saves_refl coherent, full⟩
  | succ count ih =>
    rw [List.range'_succ, List.map_cons, storeOnFirst, Action.ends_bind]
    have registeredHere : store.catalog.file? (file.page first).table = some file := registered
    apply Action.ends_imp (fetch_ends_of_present coherent registeredHere (present first (by omega)))
    · rintro frame middle ⟨saves, cached⟩
      have registeredNow : middle.catalog.file? (file.page first).table = some file :=
        saves.catalog_eq ▸ registered
      rcases saves.coherent.backed _ frame cached with ⟨⟨other, found, owns, -⟩, -⟩
      obtain rfl : file = other := Option.some.inj (registeredNow.symm.trans found)
      have slots := HeapFile.slotCount_of_owns owns
      have here : (middle.current (file.page first)).isSome := by
        rw [saves.current_eq]
        exact present first (by omega)
      have fullNow : middle.reference.FullBefore file first :=
        (Reference.fullBefore_congr (saved_of_saves saves).current_eq).mpr full
      by_cases noRoom : frame.page.freeCount = 0
      · rw [if_pos noRoom]
        have fullHere := (Page.freeCount_eq_zero_iff owns.formed).mp noRoom
        rw [slots] at fullHere
        have fullNext : middle.reference.FullBefore file (first + 1) :=
          Reference.fullBefore_succ fullNow (current_of_present cached here) fullHere
        have presentNow : ∀ number < first + 1 + count,
            (middle.current (file.page number)).isSome := by
          intro number below
          rw [saves.current_eq]
          exact present number (by omega)
        apply Action.ends_imp (ih saves.coherent registeredNow presentNow fullNext)
        · intro stored after ends
          cases stored with
          | none =>
            rcases ends with ⟨later, fullAfter⟩
            rw [Reference.fullBefore_congr (saved_of_saves saves).current_eq, Nat.add_right_comm] at fullAfter
            exact ⟨saves_trans saves later, fullAfter⟩
          | some stored =>
            rcases ends with ⟨last, number, slot, later, stores⟩
            exact ⟨last, number, slot, saves_trans saves later, stores⟩
        · rintro fault after ⟨rfl, unhospitable, later⟩
          exact ⟨rfl, fun hospitable => unhospitable (hospitable_of_saves saves hospitable),
            saves_trans saves later⟩
      · rw [if_neg noRoom, Action.ends_map]
        rcases Page.exists_firstFree noRoom with ⟨slot, free⟩
        have opens := (Page.firstFree_eq_some_iff owns.formed slot).mp free
        rw [slots] at opens
        have firstFree : file.FirstFree middle.current first slot :=
          ⟨fullNow, frame.page.contents, current_of_present cached here, opens⟩
        apply Action.ends_of_never_fails (storeOn_ends saves.coherent registeredNow cached fits firstFree)
        intro stored after stores
        exact ⟨middle, first, slot, saves, stores⟩
    · exact fun fault after failure => failure

/-- A row goes to a page without rows that has just been added, if all pages before it are full. -/
theorem storeOnNew_ends {appended : Store μ} {file : HeapFile}
    (registered : store.catalog.file? file.table = some file) {row : Row}
    (fits : row.checkAgainst file.schema = .ok ()) (slots : file.slotCount ≠ 0)
    (full : store.reference.FullBefore file (file.pageCount store.disk))
    (added : Appended store (file.page (file.pageCount store.disk)) appended) :
    Action.Ends (do storeOn (← fetch (file.page (file.pageCount store.disk))) row) appended
      (fun frame after => ∃ middle number slot, Saves appended middle ∧
        Stores middle file row number slot frame after)
      fun fault after => fault = .error .outOfPages ∧ ¬ appended.Hospitable ∧
        Saves appended after := by
  let number := file.pageCount store.disk
  have registeredNow : appended.catalog.file? file.table = some file :=
    added.catalog_eq ▸ registered
  have currentNow : appended.current =
      Function.update store.current (file.page number) (some Contents.blank) :=
    congrArg Reference.current added.reference_eq
  have there : (appended.current (file.page number)).isSome := by
    rw [currentNow, Function.update_self]
    rfl
  rw [Action.ends_bind]
  apply Action.ends_imp (fetch_ends_of_present added.coherent registeredNow there)
  · rintro frame middle ⟨saves, cached⟩
    have registeredThen : middle.catalog.file? (file.page number).table = some file :=
      saves.catalog_eq ▸ registeredNow
    have firstFree : file.FirstFree middle.current number 0 := by
      rw [saves.current_eq, currentNow]
      refine ⟨?_, Contents.blank, Function.update_self .., ?_⟩
      · intro earlier before
        have small := file.pageCount_lt store.disk
        have differs : file.page earlier ≠ file.page number := fun same =>
          Nat.ne_of_lt before (HeapFile.page_injective (Nat.lt_trans before small) small same)
        rw [Function.update_of_ne differs]
        exact full earlier before
      · exact Contents.opens_blank (Nat.pos_of_ne_zero slots)
    apply Action.ends_of_never_fails (storeOn_ends saves.coherent registeredThen cached fits firstFree)
    intro stored after stores
    exact ⟨middle, number, 0, saves, stores⟩
  · exact fun fault after failure => failure

theorem hospitable_of_appended {appended : Store μ} {id : PageId}
    (added : Appended store id appended) (hospitable : store.Hospitable) :
    appended.Hospitable := by
  apply hospitable_of_follows _ hospitable
  rw [added.pool_eq]
  exact Pool.follows_refl _

/-- The row has not been stored, because it cannot be or because the policy let no page go. -/
inductive NotStored (before : Store μ) (file : HeapFile) (row : Row) (after : Store μ) :
    Error → Prop where
  | unstorable {cause : Error} (unstorable : before.reference.Unstorable file row cause)
      (saves : Saves before after) : NotStored before file row after cause
  | room (fits : row.checkAgainst file.schema = .ok ()) (unhospitable : ¬ before.Hospitable)
      (grown : Grown before file after) : NotStored before file row after .outOfPages

/-- What is known of a row that went to a page which has just been added, however many pages there are. -/
theorem storeOnAdded_ends {appended : Store μ} (coherent : appended.Coherent) (id : PageId) (row : Row) :
    Action.Ends (do storeOn (← fetch id) row) appended
      (fun frame after => ∃ middle page, Saves appended middle ∧ Admits middle row.values page ∧
        Replaced middle id page frame after)
      fun fault after => (∃ cause, fault = .error cause) ∧ Saves appended after := by
  rw [Action.ends_bind]
  apply Action.ends_imp (fetch_ends coherent id)
  · rintro frame middle ⟨saves, cached⟩
    apply Action.ends_imp (storeOn_replaces saves.coherent cached row)
    · exact fun stored after ⟨page, replaced⟩ => ⟨middle, page, saves, replaced⟩
    · rintro fault after ⟨refused, rfl⟩
      exact ⟨refused, saves⟩
  · exact fun fault after ⟨cause, refused, _, saves⟩ => ⟨⟨cause, refused⟩, saves⟩

/-- The row is on a page that has not been marked yet, in the first free slot of the file if no file has
come to 2^32 pages by then. -/
def StoredIn (before : Store μ) (file : HeapFile) (row : Row) (frame : Frame) (after : Store μ) :
    Prop :=
  ∃ middle id page, Carries before middle ∧ Admits middle row.values page ∧
    Replaced middle id page frame after ∧ (middle.Few → row.checkAgainst file.schema = .ok () ∧
      ∃ number slot, Grown before file middle ∧ file.FirstFree middle.current number slot ∧
        id = file.page number ∧ Edits middle id slot (row.stamped (RecordId.ofSlot id slot)) page)

/-- Once all pages are found to be full, the row goes to a page that is added. -/
theorem storeAppended_ends (coherent : store.Coherent) {file : HeapFile}
    (registered : store.catalog.file? file.table = some file) {row : Row}
    (fits : row.checkAgainst file.schema = .ok ()) (slots : file.slotCount ≠ 0) {scanned : Store μ}
    (scan : Saves store scanned)
    (full : store.reference.FullBefore file (file.pageCount store.disk)) :
    Action.Ends (do
        let number ← onDisk file.appendPage
        let frame ← fetch (file.page number.toNat)
        storeOn frame row) scanned
      (StoredIn store file row)
      fun fault after => ∃ cause, fault = .error cause ∧ Carries store after ∧
        (after.Few → NotStored store file row after cause) := by
  have registeredNow : scanned.catalog.file? file.table = some file := scan.catalog_eq ▸ registered
  have sameCount : file.pageCount scanned.disk = file.pageCount store.disk :=
    pageCount_eq_of_current coherent.sound scan.coherent.sound registered registeredNow scan.current_eq
  have fullNow : scanned.reference.FullBefore file (file.pageCount scanned.disk) := by
    rw [sameCount]
    exact (Reference.fullBefore_congr (saved_of_saves scan).current_eq).mpr full
  rw [Action.ends_bind]
  apply Action.ends_of_never_fails (appendPage_ends scan.coherent registeredNow)
  rintro number appended ⟨rfl, adds, added⟩
  have soFar := carries_trans (carries_of_saves scan) adds
  change Action.Ends (do storeOn (← fetch (file.page (file.pageCount scanned.disk))) row) appended _ _
  by_cases few : appended.Few
  · have here := added few
    have there := here
    rw [sameCount] at there
    apply Action.ends_imp (storeOnNew_ends registeredNow fits slots fullNow here)
    · rintro frame after ⟨middle, number, slot, saves, firstFree, page, admits, edits, replaced⟩
      have grown := grown_of_appended coherent registered scan full there saves
      exact ⟨middle, _, page, carries_trans soFar (carries_of_saves saves), admits, replaced,
        fun _ => ⟨fits, number, slot, grown, firstFree, rfl, edits⟩⟩
    · rintro fault after ⟨rfl, unhospitable, saves⟩
      refine ⟨_, rfl, carries_trans soFar (carries_of_saves saves), fun _ => .room fits ?_
        (grown_of_appended coherent registered scan full there saves)⟩
      intro hospitable
      exact unhospitable (hospitable_of_appended here (hospitable_of_saves scan hospitable))
  · -- The page may have taken the place of another one, and only what is kept of that is said.
    apply Action.ends_imp (storeOnAdded_ends adds.coherent _ row)
    · rintro frame after ⟨middle, page, saves, admits, replaced⟩
      exact ⟨middle, _, page, carries_trans soFar (carries_of_saves saves), admits, replaced,
        fun now => absurd ((few_iff_of_saves saves).mp now) few⟩
    · rintro fault after ⟨⟨cause, rfl⟩, saves⟩
      exact ⟨cause, rfl, carries_trans soFar (carries_of_saves saves),
        fun now => absurd ((few_iff_of_saves saves).mp now) few⟩

theorem storeIn_ends (coherent : store.Coherent) {file : HeapFile}
    (registered : store.catalog.file? file.table = some file) (row : Row) :
    Action.Ends (storeIn file row) store
      (StoredIn store file row)
      fun fault after => ∃ cause, fault = .error cause ∧ Carries store after ∧
        (after.Few → NotStored store file row after cause) := by
  have stays := saves_refl coherent
  have carries := carries_of_saves stays
  unfold storeIn
  rw [Action.ends_bind, Action.ends_ofExcept]
  cases fits : row.checkAgainst file.schema with
  | error cause => exact ⟨cause, rfl, carries, fun _ => .unstorable (.unfit fits) stays⟩
  | ok _ =>
    dsimp only
    rw [Action.ends_bind, Action.ends_get]
    by_cases slots : file.slotCount = 0
    · rw [if_pos slots, Action.ends_bind, Action.ends_fail]
      have spans := spans_pageCount coherent.sound registered
      exact ⟨_, rfl, carries, fun _ => .unstorable (.narrow fits slots spans) stays⟩
    · rw [if_neg slots]
      have present : ∀ number < 0 + file.pageCount store.disk,
          (store.current (file.page number)).isSome := by
        intro number below
        rw [Nat.zero_add] at below
        have own : store.catalog.file? (file.page number).table = some file := registered
        apply (isSome_current_iff coherent.sound own).mpr
        rwa [file.number_page (Nat.lt_trans below (file.pageCount_lt store.disk))]
      rw [Action.ends_bind, List.range_eq_range']
      apply Action.ends_imp (storeOnFirst_ends coherent registered fits present
        (fun _ before => absurd before (Nat.not_lt_zero _)))
      · intro stored scanned ends
        cases stored with
        | some frame =>
          rcases ends with ⟨middle, number, slot, saves, firstFree, page, admits, edits, replaced⟩
          exact ⟨middle, _, page, carries_of_saves saves, admits, replaced,
            fun _ => ⟨fits, number, slot, grown_of_saves saves file, firstFree, rfl, edits⟩⟩
        | none =>
          rcases ends with ⟨scan, full⟩
          rw [Nat.zero_add] at full
          exact storeAppended_ends coherent registered fits slots scan full
      · rintro fault after ⟨rfl, unhospitable, saves⟩
        exact ⟨_, rfl, carries_of_saves saves,
          fun _ => .room fits unhospitable (grown_of_saves saves file)⟩

structure Inserted (before : Store μ) (table : TableId) (row : Row) (transaction : Transaction)
    (frame : Frame) (after : Store μ) : Prop where
  exists_place : ∃ file middle number slot, before.catalog.file? table = some file ∧
    row.checkAgainst file.schema = .ok () ∧ Grown before file middle ∧
    file.FirstFree middle.current number slot ∧
    Changed middle (file.page number) slot
      (row.stamped (RecordId.ofSlot (file.page number) slot)) transaction frame after

/-- Why a row cannot be stored in a table. -/
inductive NotInserted (before : Store μ) (table : TableId) (row : Row) (after : Store μ) :
    Error → Prop where
  | table (unknown : before.catalog.file? table = none) (saves : Saves before after) :
      NotInserted before table row after (.tableNotFound table)
  | row {file : HeapFile} {cause : Error} (registered : before.catalog.file? table = some file)
      (notStored : NotStored before file row after cause) :
      NotInserted before table row after cause

theorem insert_ends (coherent : store.Coherent) (transaction : Transaction) (table : TableId)
    (row : Row) :
    Action.Ends (insert transaction table row) store
      (fun frame after => Lasts store after ∧
        (∀ trait : RowTrait, trait.holds row.values → store.Keeps trait → after.Keeps trait) ∧
        (after.Few → Inserted store table row transaction frame after))
      fun fault after => ∃ cause, fault = .error cause ∧ Carries store after ∧
        (after.Few → NotInserted store table row after cause) := by
  unfold insert
  rw [Action.ends_bind, Action.ends_get, Action.ends_bind, Action.ends_ofExcept]
  cases found : store.catalog.file? table with
  | none =>
    have stays := saves_refl coherent
    rw [Catalog.file_of_none found]
    exact ⟨_, rfl, carries_of_saves stays, fun _ => NotInserted.table found stays⟩
  | some file =>
    have own := (coherent.sound table file found).1
    have registered : store.catalog.file? file.table = some file := own.symm ▸ found
    rw [Catalog.file_of_some found]
    dsimp only
    rw [Action.ends_bind]
    apply Action.ends_imp (storeIn_ends coherent registered row)
    · rintro frame replaced ⟨middle, id, page, carries, admits, replacement, stored⟩
      apply Action.ends_of_never_fails (settle_ends carries.coherent replacement transaction)
      intro settled after settlement
      have settles := lasts_of_settled settlement
      refine ⟨lasts_trans carries.toLasts settles, fun trait holds keeps => ?_, fun few => ?_⟩
      · have now := carries.keeps trait keeps
        exact settlement.keeps trait now (admits trait now holds)
      · obtain ⟨fits, number, slot, grown, firstFree, rfl, edits⟩ :=
          stored (few_of_lasts settles few)
        exact ⟨file, middle, number, slot, found, fits, grown, firstFree,
          changed_of_settled edits settlement⟩
    · rintro fault after ⟨cause, rfl, carries, notStored⟩
      exact ⟨cause, rfl, carries, fun few => NotInserted.row found (notStored few)⟩

/-- A row that fits is stored, unless the policy lets no page go. -/
theorem insert_ends_of_fits (coherent : store.Coherent) {file : HeapFile}
    (registered : store.catalog.file? file.table = some file) (slots : file.slotCount ≠ 0) {row : Row}
    (fits : row.checkAgainst file.schema = .ok ()) (transaction : Transaction) :
    Action.Ends (insert transaction file.table row) store
      (fun frame after => Lasts store after ∧
        (∀ trait : RowTrait, trait.holds row.values → store.Keeps trait → after.Keeps trait) ∧
        (after.Few → Inserted store file.table row transaction frame after))
      fun fault after => Carries store after ∧ (after.Few → fault = .error .outOfPages ∧
        ¬ store.Hospitable ∧ Grown store file after) := by
  apply Action.ends_imp (insert_ends coherent transaction file.table row)
  · exact fun _ _ done => done
  · rintro fault after ⟨cause, rfl, carries, refusal⟩
    refine ⟨carries, fun few => ?_⟩
    cases refusal few with
    | table unknown =>
      rw [registered] at unknown
      contradiction
    | row found notStored =>
      obtain rfl := Option.some.inj (registered.symm.trans found)
      cases notStored with
      | unstorable unstorable =>
        cases unstorable with
        | unfit refused =>
          rw [fits] at refused
          contradiction
        | narrow _ slotless => exact absurd slotless slots
      | room _ unhospitable grown => exact ⟨rfl, unhospitable, grown⟩

structure Deleted (before : Store μ) (row : Row) (transaction : Transaction) (frame : Frame)
    (after : Store μ) : Prop where
  exists_place : ∃ record file middle contents, row.record = some record ∧
    before.catalog.file? record.page.table = some file ∧
    before.current record.page = some contents ∧ (contents record.slot.toNat).isSome ∧
    Saves before middle ∧
    Changed middle record.page record.slot.toNat none transaction frame after

theorem deleteIn_ends (coherent : store.Coherent) {file : HeapFile} {row : Row} {record : RecordId}
    (placed : row.record = some record)
    (registered : store.catalog.file? record.page.table = some file) :
    Action.Ends (deleteIn file row) store
      (fun frame after => ∃ middle page, Saves store middle ∧
        (∀ trait : RowTrait, middle.Keeps trait → page.Keeps trait) ∧
        Replaced middle record.page page frame after ∧ (store.Few → ∃ contents,
          store.current record.page = some contents ∧ (contents record.slot.toNat).isSome ∧
          Edits middle record.page record.slot.toNat none page))
      fun fault after => ∃ cause, fault = .error cause ∧ Saves store after ∧
        (store.Few → store.reference.Undeletable store.setting row cause) := by
  have own : record.page.table = file.table := (coherent.sound _ file registered).1.symm
  unfold deleteIn
  rw [placed]
  dsimp only
  rw [if_neg (fun differs => differs own)]
  change Action.Ends (fetch record.page >>= _) store _ _
  rw [Action.ends_bind]
  apply Action.ends_imp (fetch_ends coherent record.page)
  · rintro old middle ⟨saves, cached⟩
    rcases saves.coherent.backed _ old cached with ⟨⟨other, found, owns, -⟩, -⟩
    have present : store.Few → (middle.current record.page).isSome := fun few =>
      present_of_cached saves.coherent ((few_iff_of_saves saves).mpr few) cached
    have there : store.Few → store.current record.page = some old.page.contents := by
      intro few
      rw [← saves.current_eq]
      exact current_of_present cached (present few)
    have named : old.page.id = record.page := by
      rw [owns.id_eq, page_number_eq saves.coherent.sound found]
    rw [Action.ends_bind, Action.ends_ofExcept]
    cases stored : old.page.contents record.slot.toNat with
    | none =>
      rw [Page.delete_of_free owns.formed placed stored]
      exact ⟨_, rfl, saves,
        fun few => Reference.Undeletable.free placed registered (there few) stored⟩
    | some values =>
      have occupied : (old.page.contents record.slot.toNat).isSome := by
        rw [stored]
        rfl
      have deleted := Page.delete_of_taken owns.formed placed named occupied
      have inside := Page.isUsed_lt ((Page.isUsed_iff_contents owns.formed _).mpr occupied)
      have formed := Page.formed_delete owns.formed deleted
      rw [deleted]
      dsimp only
      apply Action.ends_of_never_fails (replacePage_ends saves.coherent cached
        ⟨other, found, owns_setSlot owns formed⟩)
      intro frame after replaced
      refine ⟨middle, _, saves, ?_, replaced, fun few => ⟨_, there few, occupied,
        edits_setSlot saves.coherent cached (present few) inside formed⟩⟩
      intro trait keeps
      apply keeps_setSlot cached keeps inside
      intro row absent
      contradiction
  · rintro fault after ⟨cause, rfl, missing, saves⟩
    exact ⟨cause, rfl, saves, fun _ => Reference.Undeletable.missing placed missing⟩

theorem delete_ends (coherent : store.Coherent) (transaction : Transaction) (row : Row) :
    Action.Ends (delete transaction row) store
      (fun frame after => Carries store after ∧
        (store.Few → Deleted store row transaction frame after))
      fun fault after => ∃ cause, fault = .error cause ∧ Saves store after ∧
        (store.Few → store.reference.Undeletable store.setting row cause) := by
  have stays := saves_refl coherent
  unfold delete
  cases placed : row.record with
  | none => exact ⟨_, rfl, stays, fun _ => Reference.Undeletable.unplaced placed⟩
  | some record =>
    dsimp only
    rw [Action.ends_bind, Action.ends_get, Action.ends_bind, Action.ends_ofExcept]
    cases found : store.catalog.file? record.page.table with
    | none =>
      rw [Catalog.file_of_none found]
      exact ⟨_, rfl, stays,
        fun _ => Reference.Undeletable.missing placed (Reference.Missing.table found)⟩
    | some file =>
      rw [Catalog.file_of_some found]
      dsimp only
      rw [Action.ends_bind]
      apply Action.ends_imp (deleteIn_ends coherent placed found)
      · rintro frame replaced ⟨middle, page, saves, pageKeeps, replacement, edited⟩
        apply Action.ends_of_never_fails (settle_ends saves.coherent replacement transaction)
        intro settled after settlement
        have carries : Carries middle after := ⟨lasts_of_settled settlement,
          fun trait keeps => settlement.keeps trait keeps (pageKeeps trait keeps)⟩
        refine ⟨carries_trans (carries_of_saves saves) carries, fun few => ?_⟩
        obtain ⟨contents, there, occupied, edits⟩ := edited few
        exact ⟨record, file, middle, contents, placed, found, there, occupied, saves,
          changed_of_settled edits settlement⟩
      · intro fault after failure
        exact failure

end PagedStore.Store
