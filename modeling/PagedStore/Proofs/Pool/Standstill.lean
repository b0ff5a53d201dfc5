import PagedStore.Proofs.Pool.Backing
import PagedStore.Proofs.Scan.Fetching

/-!
What fetching a page leaves alone. Pages are read, written back and let go, but no file gets longer and
every page shows the rows that it showed, whatever the files hold and however the fetch ends. So a
store stands still under everything that only fetches.
-/

namespace PagedStore.Store

variable {μ : Type} {store after last : Store μ}

/-- No file has become longer or shorter. -/
def Level (before after : Store μ) : Prop :=
  ∀ file, (after.disk.content file).length = (before.disk.content file).length

structure Still (before after : Store μ) : Prop where
  catalog_eq : after.catalog = before.catalog
  level : Level before after
  reads_iff : ∀ id contents, after.Reads id contents ↔ before.Reads id contents

theorem still_refl (store : Store μ) : Still store store :=
  ⟨rfl, fun _ => rfl, fun _ _ => Iff.rfl⟩

theorem level_trans (left : Level store after) (right : Level after last) : Level store last :=
  fun file => (right file).trans (left file)

theorem still_trans (left : Still store after) (right : Still after last) : Still store last where
  catalog_eq := right.catalog_eq.trans left.catalog_eq
  level := level_trans left.level right.level
  reads_iff := fun id contents => (right.reads_iff id contents).trans (left.reads_iff id contents)

theorem pageCount_of_level (level : Level store after) (file : HeapFile) :
    file.pageCount after.disk = file.pageCount store.disk := by
  rw [HeapFile.pageCount_eq_mod, HeapFile.pageCount_eq_mod, HeapFile.extent_eq, HeapFile.extent_eq,
    level file.file]

theorem few_of_level (catalog : after.catalog = store.catalog) (level : Level store after)
    (few : store.Few) : after.Few := by
  apply few_of_grown catalog.symm _ few
  intro file
  rw [Disk.length_eq, Disk.length_eq]
  exact Nat.le_of_eq (level file)

theorem few_of_still (still : Still store after) (few : store.Few) : after.Few :=
  few_of_level still.catalog_eq still.level few

/-- A page shows one list of rows at most. -/
theorem eq_of_reads_twice {id : PageId} {contents other : Contents} (reads : store.Reads id contents)
    (also : store.Reads id other) : contents = other := by
  cases cached : store.pool.frame? id with
  | some frame => exact (eq_of_reads cached reads).symm.trans (eq_of_reads cached also)
  | none =>
    obtain ⟨file, page, registered, -, decoded, rfl⟩ := onFile_of_reads cached reads
    obtain ⟨same, found, sameRegistered, -, foundDecoded, rfl⟩ := onFile_of_reads cached also
    obtain rfl := Option.some.inj (registered.symm.trans sameRegistered)
    obtain rfl := Except.ok.inj (decoded.symm.trans foundDecoded)
    rfl

/-- Each cached page is kept under its own name, and a file that can take it has all of its bytes. -/
def Grounded (store : Store μ) : Prop :=
  ∀ id frame, store.pool.frame? id = some frame → frame.page.id = id ∧
    ∀ file, store.catalog.file? id.table = some file → frame.page.encode.length = file.pageSize →
      file.Covers store.disk id.number

theorem grounded_of_orderly (orderly : store.Orderly) : store.Grounded := by
  intro id frame cached
  obtain ⟨file, registered, -, covers⟩ := orderly.backed id frame cached
  refine ⟨(tidy_of_orderly orderly id frame cached).1, ?_⟩
  intro other isRegistered _
  obtain rfl := Option.some.inj (registered.symm.trans isRegistered)
  exact covers

variable [EvictionPolicy μ]

theorem level_of_saves (saves : Saves store after) : Level store after := by
  intro file
  rw [← Disk.length_eq, ← Disk.length_eq]
  exact saves.length_eq file

/-- What the file holds of a page that stays out of memory was there before, if no file has grown. -/
theorem onFile_of_level_shifts (orderly : store.Orderly) (shifts : Shifts store after)
    (level : Level store after) {id : PageId} {contents : Contents}
    (uncached : store.pool.frame? id = none) (onFile : after.OnFile id contents) :
    store.OnFile id contents := by
  obtain ⟨file, page, registered, covers, decoded, same⟩ := onFile
  have was : store.catalog.file? id.table = some file := catalog_of_shifts shifts ▸ registered
  have coveredBefore : file.Covers store.disk id.number :=
    Nat.le_trans covers (Nat.le_of_eq (level file.file))
  rw [image_of_shifts orderly shifts uncached was coveredBefore] at decoded
  exact ⟨file, page, was, coveredBefore, decoded, same⟩

omit [EvictionPolicy μ] in
theorem onFile_of_level_grow (orderly : store.Orderly) (few : store.Few) {table : TableId}
    {file : HeapFile} (registered : store.catalog.file? table = some file)
    (level : Level store (store.lengthened file)) {id : PageId} {contents : Contents}
    (onFile : (store.lengthened file).OnFile id contents) : store.OnFile id contents := by
  obtain ⟨own, page, found, covers, decoded, same⟩ := onFile
  have was : store.catalog.file? id.table = some own := found
  have coveredBefore : own.Covers store.disk id.number :=
    Nat.le_trans covers (Nat.le_of_eq (level own.file))
  have image := image_of_grow orderly few registered was coveredBefore
  exact ⟨own, page, was, coveredBefore, image ▸ decoded, same⟩

/-- A motion that makes no file longer shows nothing that was not shown before. -/
theorem reads_of_level_motion (aligned : store.Aligned) (few : store.Few)
    (motion : Motion store after) (level : Level store after) {id : PageId} {contents : Contents}
    (reads : after.Reads id contents) : store.Reads id contents := by
  -- What was shown before is still shown, and a page does not show two things.
  have known : ∀ old, store.Reads id old → store.Reads id contents := by
    intro old was
    rw [← eq_of_reads_twice (reads_of_motion aligned few motion was) reads]
    exact was
  cases cached : store.pool.frame? id with
  | some frame => exact known _ (reads_of_cached cached)
  | none =>
    cases motion with
    | shift shift =>
      have onFile := onFile_of_reads (uncached_of_shift shift cached) reads
      exact reads_of_uncached cached
        (onFile_of_level_shifts aligned.orderly (.single shift) level cached onFile)
    | @grow table file registered =>
      have uncached : (store.lengthened file).pool.frame? id = none := cached
      have onFile := onFile_of_reads uncached reads
      exact reads_of_uncached cached
        (onFile_of_level_grow aligned.orderly few registered level onFile)
    | @enter middle entering file page uncached registered own whole decoded shifts room =>
      have lookup := Pool.frame_place middle.pool entering id page
      split at lookup
      · next same =>
        subst same
        have onFile := (onFile_iff_of_decoded registered whole decoded).mpr rfl
        exact known _ (reads_of_uncached cached onFile)
      · have out : ({ middle with pool := (middle.pool.place entering page).noteAccess entering } :
            Store μ).pool.frame? id = none := lookup.trans (uncached_of_shifts shifts cached)
        have onFile := onFile_of_reads out reads
        exact reads_of_uncached cached
          (onFile_of_level_shifts aligned.orderly shifts level cached onFile)

theorem still_of_moved (aligned : store.Aligned) (moved : Moved store after)
    (level : Level store after) (few : store.Few) : Still store after := by
  have fewThen := few_of_level (catalog_of_moved moved) level few
  refine ⟨catalog_of_moved moved, level,
    fun id contents => ⟨?_, reads_of_moved aligned moved fewThen⟩⟩
  induction moved with
  | refl => exact fun reads => reads
  | @tail middle last moved motion ih =>
    intro reads
    -- Files only grow, so what is level from end to end is level in between.
    have levelTo : Level store middle := fun file =>
      Nat.le_antisymm (Nat.le_trans (grown_of_motion motion file) (Nat.le_of_eq (level file)))
        (grown_of_moved moved file)
    have levelFrom : Level middle last := fun file => (level file).trans (levelTo file).symm
    have fewTo := few_of_level (catalog_of_moved moved) levelTo few
    exact ih levelTo fewTo (reads_of_level_motion (aligned_of_moved aligned moved fewTo) fewTo motion
      levelFrom reads)

omit [EvictionPolicy μ] in
theorem writeBack_level (grounded : store.Grounded) (id : PageId) :
    Action.Ends (writeBack id) store (fun _ after => Level store after)
      fun _ after => Level store after := by
  unfold writeBack
  rw [Action.ends_bind, Action.ends_get]
  cases cached : store.pool.frame? id with
  | none => exact fun _ => rfl
  | some frame =>
    obtain ⟨named, covers⟩ := grounded id frame cached
    dsimp only
    split
    · rw [Action.ends_bind, Action.ends_ofExcept, named]
      cases registered : store.catalog.file? id.table with
      | none =>
        rw [Catalog.file_of_none registered]
        exact fun _ => rfl
      | some file =>
        rw [Catalog.file_of_some registered]
        dsimp only
        rw [Action.ends_bind, onDisk, Action.ends_within, HeapFile.writePage, named]
        dsimp only
        by_cases sized : frame.page.encode.length = file.pageSize
        · rw [if_neg (fun wrong => wrong sized), Action.ends_modify]
          -- The page is written over its own bytes, which the file has.
          intro other
          refine (congrArg List.length (Disk.content_overwrite store.disk file.file
            (id.offset file.pageSize) _ other)).trans ?_
          split
          · next same =>
            rw [same.1]
            apply Bytes.length_overwrite_within
            rw [sized, PageId.offset, ← Nat.succ_mul]
            exact covers file registered sized
          · rfl
        · rw [if_pos sized, Action.ends_bind, Action.ends_fail]
          exact fun _ => rfl
    · exact fun _ => rfl

theorem evict_level (grounded : store.Grounded) :
    Action.Ends evict store (fun _ after => Level store after) fun _ after => Level store after := by
  have asked : Grounded { store with pool := store.pool.askVictim.2 } := grounded
  unfold evict
  rw [Action.ends_bind, Action.ends_get]
  dsimp only
  rw [Action.ends_bind, Action.ends_set]
  cases store.pool.askVictim.1 with
  | none => exact fun _ => rfl
  | some id =>
    dsimp only
    rw [Action.ends_bind, Action.ends_attempt]
    exact Action.ends_imp (writeBack_level asked id) (fun _ _ level => level) fun _ _ level => level

theorem bringIn_level (grounded : store.Grounded) (id : PageId) (page : Page) :
    Action.Ends (bringIn id page) store (fun _ after => Level store after)
      fun _ after => Level store after := by
  unfold bringIn
  rw [Action.ends_bind, Action.ends_get]
  split
  · rw [Action.ends_bind]
    exact Action.ends_imp (evict_level grounded) (fun _ _ level => level) fun _ _ level => level
  · exact fun _ => rfl

theorem fetch_level (grounded : store.Grounded) (id : PageId) :
    Action.Ends (fetch id) store (fun _ after => Level store after)
      fun _ after => Level store after := by
  unfold fetch
  rw [Action.ends_bind, Action.ends_get]
  cases store.pool.frame? id with
  | some frame => exact fun _ => rfl
  | none =>
    dsimp only
    rw [Action.ends_bind, Action.ends_ofExcept]
    cases store.catalog.file id.table with
    | error cause => exact fun _ => rfl
    | ok file =>
      have counted : Grounded { store with disk := store.disk.countRead file.opening } := grounded
      dsimp only
      rw [Action.ends_bind, onDisk, Action.ends_within]
      apply Action.ends_imp (readPage_reads file id store.disk)
      · rintro page _ ⟨-, -, -, rfl⟩
        exact bringIn_level counted id page
      · rintro _ _ (rfl | rfl) <;> exact fun _ => rfl

/-- A fetch shows the same rows on every page, whether it succeeds or not. -/
theorem fetch_still (aligned : store.Aligned) (few : store.Few) (id : PageId) :
    Action.Ends (fetch id) store
      (fun frame after => Still store after ∧ after.Aligned ∧ after.pool.frame? id = some frame)
      fun _ after => Still store after ∧ after.Aligned := by
  have stays : ∀ last, Moved store last → Level store last → Still store last ∧ last.Aligned := by
    intro last moved level
    have still := still_of_moved aligned moved level few
    exact ⟨still, aligned_of_moved aligned moved (few_of_still still few)⟩
  apply Action.ends_imp (Action.ends_and (fetch_moves store id)
    (fetch_level (grounded_of_orderly aligned.orderly) id))
  · rintro frame last ⟨⟨moved, cached⟩, level⟩
    obtain ⟨still, alignedNow⟩ := stays last moved level
    exact ⟨still, alignedNow, cached⟩
  · rintro fault last ⟨moved, level⟩
    exact stays last moved level

/-- Whatever only fetches pages leaves a store with few pages standing still. -/
theorem fetchClosed_still :
    FetchClosed fun before after : Store μ =>
      before.Few → before.Aligned → Still before after ∧ after.Aligned where
  refl := fun store _ aligned => ⟨still_refl store, aligned⟩
  trans := by
    intro first second third left right few aligned
    obtain ⟨still, alignedNow⟩ := left few aligned
    obtain ⟨later, alignedThen⟩ := right (few_of_still still few) alignedNow
    exact ⟨still_trans still later, alignedThen⟩
  fetch := by
    intro store id
    refine Action.ends_given fun few => Action.ends_given fun aligned => ?_
    apply Action.ends_imp (fetch_still aligned few id)
    · exact fun _ _ fetched => ⟨fetched.1, fetched.2.1⟩
    · exact fun _ _ stopped => stopped

end PagedStore.Store
