import PagedStore.Proofs.Cache.Flushing
import PagedStore.Proofs.Pool.Orderly

/-!
What is found on a page and what its file holds of it, for files with any bytes. A cached page that is
not dirty agrees with its file. So a page shows the same rows wherever it is moved, and only a row that
is stored or deleted changes what it shows, as long as no file has more pages than it can tell of.
-/

namespace PagedStore

namespace Store

variable {μ : Type} {store : Store μ}

/-- The file has the whole page, with these rows on it. -/
def OnFile (store : Store μ) (id : PageId) (contents : Contents) : Prop :=
  ∃ file page, store.catalog.file? id.table = some file ∧ file.Covers store.disk id.number ∧
    Page.decode id file.schema (file.image store.disk id.number) = .ok page ∧
    page.contents = contents

/-- Whoever reads the page finds these rows on it, in memory or else in the file. -/
def Reads (store : Store μ) (id : PageId) (contents : Contents) : Prop :=
  match store.pool.frame? id with
  | some frame => frame.page.contents = contents
  | none => store.OnFile id contents

structure Aligned (store : Store μ) : Prop where
  orderly : store.Orderly
  synced : ∀ id frame, store.pool.frame? id = some frame → frame.page.isDirty = false →
    store.OnFile id frame.page.contents

structure Secured (store : Store μ) (id : PageId) (good : Contents → Prop) : Prop where
  reads : ∃ contents, store.Reads id contents ∧ good contents
  onFile : ∃ contents, store.OnFile id contents ∧ good contents

variable {id : PageId} {contents : Contents} {frame : Frame}

theorem reads_of_same (cached : store.pool.frame? id = some frame)
    (same : frame.page.contents = contents) : store.Reads id contents := by
  rw [Reads, cached]
  exact same

theorem reads_of_cached (cached : store.pool.frame? id = some frame) :
    store.Reads id frame.page.contents :=
  reads_of_same cached rfl

theorem reads_of_uncached (uncached : store.pool.frame? id = none)
    (onFile : store.OnFile id contents) : store.Reads id contents := by
  rw [Reads, uncached]
  exact onFile

theorem eq_of_reads (cached : store.pool.frame? id = some frame)
    (reads : store.Reads id contents) : frame.page.contents = contents := by
  rw [Reads, cached] at reads
  exact reads

theorem onFile_of_reads (uncached : store.pool.frame? id = none)
    (reads : store.Reads id contents) : store.OnFile id contents := by
  rw [Reads, uncached] at reads
  exact reads

/-- Only the disk, the catalog and the cached copy matter for what is found. -/
theorem reads_of_congr {after : Store μ} (reads : store.Reads id contents)
    (disk : after.disk = store.disk) (catalog : after.catalog = store.catalog)
    (frame : after.pool.frame? id = store.pool.frame? id) : after.Reads id contents := by
  rw [Reads, frame, OnFile, disk, catalog]
  exact reads

/-- What is found on a page that is not dirty is what its file holds. -/
theorem onFile_of_clean (aligned : store.Aligned) (clean : ¬ store.Dirty id)
    (reads : store.Reads id contents) : store.OnFile id contents := by
  cases cached : store.pool.frame? id with
  | none => exact onFile_of_reads cached reads
  | some frame =>
    rw [← eq_of_reads cached reads]
    apply aligned.synced id frame cached
    cases dirty : frame.page.isDirty with
    | false => rfl
    | true => exact absurd ⟨frame, cached, dirty⟩ clean

theorem aligned_of_unused (filed : store.catalog.Filed) (unused : store.pool.frames = []) :
    store.Aligned := by
  refine ⟨orderly_of_unused filed unused, ?_⟩
  intro id frame cached
  rw [Pool.frame?, unused] at cached
  contradiction

/-- The file holds what it has been given of a page. -/
theorem onFile_of_encoded {file : HeapFile} {page : Page} (filed : store.catalog.Filed)
    (registered : store.catalog.file? id.table = some file)
    (covers : file.Covers store.disk id.number) (owns : file.Owns id.number page)
    (saved : file.image store.disk id.number = page.encode) : store.OnFile id page.contents := by
  refine ⟨file, page.reread, registered, covers, ?_, Page.contents_reread owns.formed⟩
  have read := Page.decode_encode owns.formed
  rw [owns.schema_eq, owns.id_eq, page_of_filed filed registered] at read
  rw [saved]
  exact read

/-- A page that enters is the one that is found in its file. -/
theorem onFile_iff_of_decoded {file : HeapFile} {page : Page}
    (registered : store.catalog.file? id.table = some file)
    (whole : (file.image store.disk id.number).length = file.pageSize)
    (decoded : Page.decode id file.schema (file.image store.disk id.number) = .ok page) :
    store.OnFile id contents ↔ page.contents = contents := by
  constructor
  · rintro ⟨other, held, found, -, otherDecoded, same⟩
    obtain rfl := Option.some.inj (registered.symm.trans found)
    obtain rfl := Except.ok.inj (decoded.symm.trans otherDecoded)
    exact same
  · intro same
    exact ⟨file, page, registered, HeapFile.covers_of_image whole, decoded, same⟩

variable [EvictionPolicy μ] {after : Store μ}

/-- What a file holds of a page stays, or gives way to what was found in memory. -/
theorem onFile_of_shift (orderly : store.Orderly) (shift : Shift store after)
    (onFile : store.OnFile id contents) : after.OnFile id contents ∨
      ∃ frame, store.pool.frame? id = some frame ∧ after.OnFile id frame.page.contents := by
  obtain ⟨file, page, registered, covers, decoded, same⟩ := onFile
  have still : after.catalog.file? id.table = some file := (catalog_of_shift shift).symm ▸ registered
  have coversThen := Nat.le_trans covers (grown_of_shift shift file.file)
  rcases image_after_shift orderly shift registered covers with kept | ⟨frame, cached, saved⟩
  · left
    refine ⟨file, page, still, coversThen, ?_, same⟩
    rw [kept]
    exact decoded
  · right
    obtain ⟨other, found, owns, -⟩ := orderly.backed id frame cached
    obtain rfl := Option.some.inj (registered.symm.trans found)
    exact ⟨frame, cached,
      onFile_of_encoded (orderly_of_shift shift orderly).filed still coversThen owns saved⟩

theorem aligned_of_shift (aligned : store.Aligned) (shift : Shift store after) : after.Aligned := by
  have orderly := aligned.orderly
  refine ⟨orderly_of_shift shift orderly, ?_⟩
  intro id frame cached clean
  have kept : store.pool.frame? id = some frame → after.OnFile id frame.page.contents := by
    intro was
    have onFile := aligned.synced id frame was clean
    rcases onFile_of_shift orderly shift onFile with here | ⟨other, same, here⟩
    · exact here
    · obtain rfl := Option.some.inj (was.symm.trans same)
      exact here
  cases shift with
  | read opening => exact kept cached
  | @save saved old file there dirty registered sized =>
    have lookup := (Pool.frame_alter store.pool saved id _).symm.trans cached
    split at lookup
    · next same =>
      subst same
      obtain ⟨other, was, rfl⟩ := Option.map_eq_some_iff.mp lookup
      obtain rfl := Option.some.inj (there.symm.trans was)
      have named := (tidy_of_orderly orderly id old there).1
      obtain ⟨own, found, owns, covers⟩ := orderly.backed id old there
      rw [named] at registered ⊢
      obtain rfl := Option.some.inj (registered.symm.trans found)
      exact onFile_of_encoded orderly.filed registered (HeapFile.covers_overwrite covers _)
        (owns_marked owns none) (HeapFile.image_overwrite_self covers sized)
    · exact kept lookup
  | list => exact kept cached
  | ask => exact kept cached
  | touch found => exact kept cached
  | leave unwritable =>
    have lookup := (Pool.frame_drop store.pool _ id).symm.trans cached
    split at lookup
    · contradiction
    · exact kept lookup

theorem reads_of_shift (aligned : store.Aligned) (shift : Shift store after)
    (reads : store.Reads id contents) : after.Reads id contents := by
  cases cached : store.pool.frame? id with
  | none =>
    apply reads_of_uncached (uncached_of_shift shift cached)
    rcases onFile_of_shift aligned.orderly shift (onFile_of_reads cached reads) with
      here | ⟨frame, there, -⟩
    · exact here
    · rw [cached] at there
      contradiction
  | some frame =>
    obtain rfl := eq_of_reads cached reads
    cases shift with
    | read opening => exact reads_of_cached cached
    | @save saved old file there dirty registered sized =>
      have lookup := Pool.frame_alter store.pool saved id fun page => page.marked none
      rw [cached, Option.map_some] at lookup
      split at lookup
      · exact reads_of_same lookup rfl
      · exact reads_of_cached lookup
    | list => exact reads_of_cached cached
    | ask => exact reads_of_cached cached
    | touch found => exact reads_of_cached cached
    | @leave gone unwritable =>
      have lookup := Pool.frame_drop store.pool gone id
      split at lookup
      · next same =>
        -- A page that leaves is not dirty by then, so its file holds what was found on it.
        subst same
        have clean := writable_of_orderly aligned.orderly unwritable cached
        have onFile := aligned.synced id frame cached clean
        exact reads_of_uncached lookup onFile
      · exact reads_of_cached (lookup.trans cached)

theorem secured_of_shift (aligned : store.Aligned) (shift : Shift store after)
    {good : Contents → Prop} (secured : store.Secured id good) : after.Secured id good := by
  obtain ⟨⟨contents, reads, isGood⟩, held, onFile, heldGood⟩ := secured
  refine ⟨⟨contents, reads_of_shift aligned shift reads, isGood⟩, ?_⟩
  rcases onFile_of_shift aligned.orderly shift onFile with here | ⟨frame, cached, here⟩
  · exact ⟨held, here, heldGood⟩
  · exact ⟨contents, eq_of_reads cached reads ▸ here, isGood⟩

theorem aligned_of_shifts (aligned : store.Aligned) (shifts : Shifts store after) : after.Aligned :=
  keeps_of_shifts (fun _ _ shift alignedNow => aligned_of_shift alignedNow shift) shifts aligned

theorem reads_of_shifts (aligned : store.Aligned) (shifts : Shifts store after)
    (reads : store.Reads id contents) : after.Reads id contents :=
  (keeps_of_shifts (P := fun now => now.Aligned ∧ now.Reads id contents)
    (fun _ _ shift both => ⟨aligned_of_shift both.1 shift, reads_of_shift both.1 shift both.2⟩)
    shifts ⟨aligned, reads⟩).2

theorem secured_of_shifts (aligned : store.Aligned) (shifts : Shifts store after)
    {good : Contents → Prop} (secured : store.Secured id good) : after.Secured id good :=
  (keeps_of_shifts (P := fun now => now.Aligned ∧ now.Secured id good)
    (fun _ _ shift both => ⟨aligned_of_shift both.1 shift, secured_of_shift both.1 shift both.2⟩)
    shifts ⟨aligned, secured⟩).2

omit [EvictionPolicy μ] in
theorem onFile_of_grow (orderly : store.Orderly) (few : store.Few) {table : TableId}
    {file : HeapFile} (found : store.catalog.file? table = some file)
    (onFile : store.OnFile id contents) : (store.lengthened file).OnFile id contents := by
  obtain ⟨own, page, registered, covers, decoded, same⟩ := onFile
  refine ⟨own, page, registered, HeapFile.covers_overwrite covers file.file, ?_, same⟩
  have image := image_of_grow orderly few found registered covers
  rw [← image] at decoded
  exact decoded

/-- A page shows the same rows wherever it is moved. -/
theorem reads_of_motion (aligned : store.Aligned) (few : store.Few) (motion : Motion store after)
    (reads : store.Reads id contents) : after.Reads id contents := by
  cases motion with
  | shift shift => exact reads_of_shift aligned shift reads
  | grow registered =>
    cases cached : store.pool.frame? id with
    | some frame => exact reads_of_same cached (eq_of_reads cached reads)
    | none =>
      have onFile := onFile_of_reads cached reads
      exact reads_of_uncached cached (onFile_of_grow aligned.orderly few registered onFile)
  | @enter middle entering file page uncached registered own whole decoded shifts room =>
    have lookup := Pool.frame_place middle.pool entering id page
    split at lookup
    · next same =>
      subst same
      have onFile := onFile_of_reads uncached reads
      exact reads_of_same lookup ((onFile_iff_of_decoded registered whole decoded).mp onFile)
    · exact reads_of_congr (reads_of_shifts aligned shifts reads) rfl rfl lookup

theorem secured_of_motion (aligned : store.Aligned) (few : store.Few) (motion : Motion store after)
    {good : Contents → Prop} (secured : store.Secured id good) : after.Secured id good := by
  obtain ⟨contents, reads, isGood⟩ := secured.reads
  refine ⟨⟨contents, reads_of_motion aligned few motion reads, isGood⟩, ?_⟩
  cases motion with
  | shift shift => exact (secured_of_shift aligned shift secured).onFile
  | grow registered =>
    obtain ⟨held, onFile, heldGood⟩ := secured.onFile
    exact ⟨held, onFile_of_grow aligned.orderly few registered onFile, heldGood⟩
  | enter uncached registered own whole decoded shifts room =>
    have now := (secured_of_shifts aligned shifts secured).onFile
    exact now

theorem aligned_of_motion (aligned : store.Aligned) (few : store.Few) (motion : Motion store after) :
    after.Aligned := by
  refine ⟨closed_orderly.motion motion aligned.orderly, ?_⟩
  cases motion with
  | shift shift => exact (aligned_of_shift aligned shift).synced
  | grow registered =>
    intro id frame cached clean
    exact onFile_of_grow aligned.orderly few registered (aligned.synced id frame cached clean)
  | @enter middle entering file page uncached registered own whole decoded shifts room =>
    have alignedNow := aligned_of_shifts aligned shifts
    intro id frame cached clean
    have lookup := (Pool.frame_place middle.pool entering id page).symm.trans cached
    split at lookup
    · next same =>
      subst same
      obtain rfl := Option.some.inj lookup
      have found := (onFile_iff_of_decoded registered whole decoded).mpr rfl
      have reads := reads_of_shifts aligned shifts (reads_of_uncached uncached found)
      have onFile := onFile_of_reads (uncached_of_shifts shifts uncached) reads
      exact onFile
    · exact alignedNow.synced id frame lookup clean

theorem aligned_of_revised {transaction : Transaction} {slot : Nat} {row : Option Row}
    (revised : Revised store transaction id slot row frame after) (aligned : store.Aligned) :
    after.Aligned := by
  refine ⟨closed_orderly.revised revised aligned.orderly, ?_⟩
  intro other found cached clean
  rw [frame_of_revised revised] at cached
  obtain ⟨⟨old, there, -, rfl⟩, rfl⟩ := revised
  split at cached
  · obtain rfl := Option.some.inj cached
    contradiction
  · exact aligned.synced other found cached clean

theorem aligned_of_dropped (cached : (store.pool.frame? id).isSome) (aligned : store.Aligned) :
    Aligned { store with pool := (store.pool.drop id).noteRemoval id } := by
  refine ⟨closed_orderly.dropped cached aligned.orderly, ?_⟩
  intro other frame found clean
  have lookup := (Pool.frame_drop store.pool id other).symm.trans found
  split at lookup
  · contradiction
  · exact aligned.synced other frame lookup clean

theorem closed_aligned : Closed fun now : Store μ => now.Few → now.Aligned :=
  closed_of_few (fun motion few aligned => aligned_of_motion aligned few motion)
    aligned_of_revised aligned_of_dropped

theorem aligned_of_moved (aligned : store.Aligned) (moved : Moved store after) (few : after.Few) :
    after.Aligned :=
  keeps_of_few_moved (fun _ _ motion fewThen alignedThen => aligned_of_motion alignedThen fewThen motion)
    moved few aligned

theorem reads_of_moved (aligned : store.Aligned) (moved : Moved store after) (few : after.Few)
    (reads : store.Reads id contents) : after.Reads id contents :=
  (keeps_of_few_moved (P := fun now => now.Aligned ∧ now.Reads id contents)
    (fun _ _ motion fewThen both => ⟨aligned_of_motion both.1 fewThen motion,
      reads_of_motion both.1 fewThen motion both.2⟩) moved few ⟨aligned, reads⟩).2

theorem secured_of_moved (aligned : store.Aligned) (moved : Moved store after) (few : after.Few)
    {good : Contents → Prop} (secured : store.Secured id good) : after.Secured id good :=
  (keeps_of_few_moved (P := fun now => now.Aligned ∧ now.Secured id good)
    (fun _ _ motion fewThen both => ⟨aligned_of_motion both.1 fewThen motion,
      secured_of_motion both.1 fewThen motion both.2⟩) moved few ⟨aligned, secured⟩).2

end Store

end PagedStore
