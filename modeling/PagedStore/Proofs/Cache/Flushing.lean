import PagedStore.Proofs.Cache.Refinement
import PagedStore.Proofs.Scan.Fetching

/-!
What is written, and how often. A flush of all pages writes each cached page that has changed once, and
no other page. After it no cached page differs from its file, and as long as no row is stored or
deleted none will, so nothing that moves pages in and out of memory writes anything.
-/

namespace PagedStore

namespace Store

variable {μ : Type} {store : Store μ}

def Dirty (store : Store μ) (id : PageId) : Prop :=
  ∃ frame, store.pool.frame? id = some frame ∧ frame.page.isDirty = true

def Flushed (store : Store μ) : Prop := ∀ id, ¬ store.Dirty id

def rewrite (store : Store μ) (disk : Disk) (id : PageId) : Disk :=
  match store.pool.frame? id, store.catalog.file? id.table with
  | some frame, some file =>
      (disk.overwrite file.file (id.offset file.pageSize) frame.page.encode).countWrite file.opening
  | _, _ => disk

structure Undisturbed (before after : Store μ) : Prop where
  files_eq : after.disk.files = before.disk.files
  writes_eq : ∀ opening,
    (after.disk.trafficOf opening).writes = (before.disk.trafficOf opening).writes
  flushed : after.Flushed

theorem rewrite_congr {after : Store μ} {id : PageId} (catalog : after.catalog = store.catalog)
    (frame : after.pool.frame? id = store.pool.frame? id) (disk : Disk) :
    after.rewrite disk id = store.rewrite disk id := by
  rw [rewrite, rewrite, catalog, frame]

theorem dirty_congr {after : Store μ} {id : PageId}
    (frame : after.pool.frame? id = store.pool.frame? id) : after.Dirty id ↔ store.Dirty id := by
  rw [Dirty, Dirty, frame]

theorem writeBack_of_clean {id : PageId} (clean : ¬ store.Dirty id) :
    Action.Ends (writeBack id) store (fun _ after => after = store) fun _ _ => False := by
  unfold writeBack
  rw [Action.ends_bind, Action.ends_get]
  cases cached : store.pool.frame? id with
  | none => exact rfl
  | some frame =>
    cases dirty : frame.page.isDirty with
    | true => exact absurd ⟨frame, cached, dirty⟩ clean
    | false =>
      dsimp only
      rw [dirty, if_neg Bool.false_ne_true]
      exact rfl

theorem writeBack_rewrites (coherent : store.Coherent) {id : PageId} (dirty : store.Dirty id) :
    Action.Ends (writeBack id) store (fun _ after => after.disk = store.rewrite store.disk id)
      fun _ _ => False := by
  obtain ⟨frame, cached, isDirty⟩ := dirty
  obtain ⟨file, registered, owns, -⟩ := (coherent.backed id frame cached).exists_file
  have named : frame.page.id = id := by rw [owns.id_eq, page_number_eq coherent.sound registered]
  have sized : frame.page.encode.length = file.pageSize := by
    rw [Page.length_encode, owns.size_eq]
  unfold writeBack
  rw [Action.ends_bind, Action.ends_get, cached]
  dsimp only
  rw [isDirty, if_pos rfl, named, Catalog.file_of_some registered, Action.ends_bind,
    Action.ends_ofExcept]
  dsimp only
  rw [Action.ends_bind, onDisk, Action.ends_within, HeapFile.writePage]
  dsimp only
  rw [if_neg (fun wrong => wrong sized), Action.ends_modify, named]
  have written : store.rewrite store.disk id =
      (store.disk.overwrite file.file (id.offset file.pageSize) frame.page.encode).countWrite
        file.opening := by
    simp only [rewrite, cached, registered]
  exact written.symm

variable [EvictionPolicy μ]

theorem not_dirty_of_writtenBack {after : Store μ} {id : PageId}
    (back : WrittenBack store id after) : ¬ after.Dirty id := by
  intro ⟨frame, cached, isDirty⟩
  rw [back.frame_eq id, if_pos rfl] at cached
  obtain ⟨old, -, rfl⟩ := Option.map_eq_some_iff.mp cached
  exact Bool.false_ne_true isDirty

/-- Writing back one page after the other writes each dirty one once, wherever it stands in the list
and however often. -/
theorem writeBacks_ends (coherent : store.Coherent) (ids : List PageId) :
    Action.Ends (ids.forM writeBack) store
      (fun _ after => ∃ written : List PageId, written.Nodup ∧
        (∀ id, id ∈ written ↔ id ∈ ids ∧ store.Dirty id) ∧
        after.disk = written.foldl store.rewrite store.disk ∧
        ∀ id, after.Dirty id → store.Dirty id ∧ id ∉ ids) fun _ _ => False := by
  induction ids generalizing store with
  | nil => exact ⟨[], List.nodup_nil, by simp, rfl, fun id dirty => ⟨dirty, List.not_mem_nil⟩⟩
  | cons first rest ih =>
    rw [List.forM_eq_forM, List.forM_cons, ← List.forM_eq_forM, Action.ends_bind]
    by_cases dirty : store.Dirty first
    · apply Action.ends_imp
        (Action.ends_and (writeBack_ends coherent first) (writeBack_rewrites coherent dirty))
      · intro _ middle ⟨back, disk⟩
        have clean := not_dirty_of_writtenBack back
        have kept : ∀ id, id ≠ first → middle.pool.frame? id = store.pool.frame? id := by
          intro id differs
          rw [back.frame_eq id, if_neg differs]
        apply Action.ends_of_never_fails (ih back.saves.coherent)
        intro _ after ⟨written, nodup, member, rewritten, left⟩
        have others : ∀ id ∈ written, id ≠ first := by
          intro id isWritten same
          exact clean (same ▸ ((member id).mp isWritten).2)
        have same : written.foldl middle.rewrite middle.disk =
            written.foldl store.rewrite middle.disk := by
          apply List.foldl_ext
          intro disk id isWritten
          exact rewrite_congr back.saves.catalog_eq (kept id (others id isWritten)) disk
        refine ⟨first :: written, ?_, ?_, ?_, ?_⟩
        · exact List.nodup_cons.mpr ⟨fun again => others first again rfl, nodup⟩
        · intro id
          by_cases isFirst : id = first
          · simp [isFirst, dirty]
          · simp [isFirst, member, dirty_congr (kept id isFirst)]
        · rw [rewritten, same, disk, List.foldl_cons]
        · intro id stillDirty
          obtain ⟨wasDirty, absent⟩ := left id stillDirty
          have differs : id ≠ first := fun same => clean (same ▸ wasDirty)
          exact ⟨(dirty_congr (kept id differs)).mp wasDirty, by simp [differs, absent]⟩
      · exact fun _ _ impossible => impossible.1
    · apply Action.ends_imp (writeBack_of_clean dirty)
      · rintro _ _ rfl
        apply Action.ends_of_never_fails (ih coherent)
        intro _ after ⟨written, nodup, member, rewritten, left⟩
        refine ⟨written, nodup, ?_, rewritten, ?_⟩
        · intro id
          by_cases isFirst : id = first
          · simp [isFirst, member, dirty]
          · simp [isFirst, member]
        · intro id stillDirty
          obtain ⟨wasDirty, absent⟩ := left id stillDirty
          have differs : id ≠ first := fun same => dirty (same ▸ wasDirty)
          exact ⟨wasDirty, by simp [differs, absent]⟩
      · exact fun _ _ impossible => impossible

/-- A flush of all pages writes each dirty page once and leaves none. -/
theorem flushAll_rewrites (coherent : store.Coherent) :
    Action.Ends flushAll store
      (fun _ after => after.Flushed ∧ ∃ written : List PageId, written.Nodup ∧
        (∀ id, id ∈ written ↔ store.Dirty id) ∧
        after.disk = written.foldl store.rewrite store.disk) fun _ _ => False := by
  have listed : Saves store { store with pool := store.pool.afterListing } :=
    saves_sameFrames coherent ⟨rfl, .refl⟩ rfl
  unfold flushAll
  rw [Action.ends_bind]
  apply Action.ends_of_never_fails (writeBacks_ends listed.coherent store.pool.listed)
  intro _ after ⟨written, nodup, member, rewritten, left⟩
  have isListed : ∀ id, store.Dirty id → id ∈ store.pool.listed := by
    intro id ⟨frame, cached, _⟩
    rw [Pool.mem_listed_iff, ← Pool.isSome_frame_iff, cached, Option.isSome_some]
  refine ⟨?_, written, nodup, ?_, rewritten⟩
  · intro id dirty
    obtain ⟨wasDirty, absent⟩ := left id dirty
    exact absent (isListed id wasDirty)
  · intro id
    rw [member id]
    exact ⟨fun both => both.2, fun dirty => ⟨isListed id dirty, dirty⟩⟩

end Store

namespace Store

variable {μ : Type} {store : Store μ}

theorem undisturbed_refl (flushed : store.Flushed) : Undisturbed store store :=
  ⟨rfl, fun _ => rfl, flushed⟩

theorem undisturbed_trans {first second third : Store μ} (left : Undisturbed first second)
    (right : Undisturbed second third) : Undisturbed first third where
  files_eq := right.files_eq.trans left.files_eq
  writes_eq := fun opening => (right.writes_eq opening).trans (left.writes_eq opening)
  flushed := right.flushed

/-- The pool may change as long as every page in it was there before or is clean. -/
theorem undisturbed_withPool (flushed : store.Flushed) {pool : Pool μ}
    (known : ∀ id frame, pool.frame? id = some frame →
      store.pool.frame? id = some frame ∨ frame.page.isDirty = false) :
    Undisturbed store { store with pool } where
  files_eq := rfl
  writes_eq := fun _ => rfl
  flushed := by
    intro id ⟨frame, cached, dirty⟩
    rcases known id frame cached with before | clean
    · exact flushed id ⟨frame, before, dirty⟩
    · rw [clean] at dirty
      contradiction

theorem undisturbed_read (flushed : store.Flushed) (opening : Nat) :
    Undisturbed store { store with disk := store.disk.countRead opening } where
  files_eq := rfl
  writes_eq := by
    intro other
    simp only [Disk.trafficOf, Disk.countRead, List.getElem?_modify]
    cases store.disk.traffic[other]? with
    | none => rfl
    | some traffic =>
      by_cases same : opening = other
      · simp [same]
      · simp [same]
  flushed := flushed

theorem undisturbed_writeBack (flushed : store.Flushed) (id : PageId) :
    Action.Ends (writeBack id) store (fun _ after => Undisturbed store after) fun _ _ => False := by
  apply Action.ends_of_never_fails (writeBack_of_clean (flushed id))
  rintro _ _ rfl
  exact undisturbed_refl flushed

theorem undisturbed_forM (flushed : store.Flushed) {action : PageId → Action (Store μ) Unit}
    (each : ∀ store : Store μ, store.Flushed → ∀ id,
      Action.Ends (action id) store (fun _ after => Undisturbed store after) fun _ _ => False)
    (ids : List PageId) :
    Action.Ends (ids.forM action) store (fun _ after => Undisturbed store after)
      fun _ _ => False := by
  induction ids generalizing store with
  | nil => exact undisturbed_refl flushed
  | cons first rest ih =>
    rw [List.forM_eq_forM, List.forM_cons, ← List.forM_eq_forM, Action.ends_bind]
    apply Action.ends_of_never_fails (each store flushed first)
    intro _ middle here
    apply Action.ends_of_never_fails (ih here.flushed)
    exact fun _ _ later => undisturbed_trans here later

theorem undisturbed_afterListing (flushed : store.Flushed) :
    Undisturbed store { store with pool := store.pool.afterListing } :=
  undisturbed_withPool flushed fun _ _ cached => Or.inl cached

theorem undisturbed_flushTransaction (flushed : store.Flushed) (transaction : Transaction) :
    Action.Ends (flushTransaction transaction) store (fun _ after => Undisturbed store after)
      fun _ _ => False := by
  have listed := undisturbed_afterListing flushed
  have each : ∀ now : Store μ, now.Flushed → ∀ id, Action.Ends
      (do if dirtiedBy? (← get) id = some transaction then writeBack id) now
      (fun _ after => Undisturbed now after) fun _ _ => False := by
    intro now flushedNow id
    rw [Action.ends_bind, Action.ends_get]
    split
    · exact undisturbed_writeBack flushedNow id
    · exact undisturbed_refl flushedNow
  unfold flushTransaction
  rw [Action.ends_bind]
  apply Action.ends_of_never_fails (undisturbed_forM listed.flushed each store.pool.listed)
  exact fun _ _ written => undisturbed_trans listed written

theorem undisturbed_flushAll (flushed : store.Flushed) :
    Action.Ends flushAll store (fun _ after => Undisturbed store after) fun _ _ => False := by
  have listed := undisturbed_afterListing flushed
  unfold flushAll
  rw [Action.ends_bind]
  apply Action.ends_of_never_fails (undisturbed_forM listed.flushed
    (fun _ flushedNow id => undisturbed_writeBack flushedNow id) store.pool.listed)
  exact fun _ _ written => undisturbed_trans listed written

variable [EvictionPolicy μ]

theorem undisturbed_noteAccess (flushed : store.Flushed) (id : PageId) :
    Undisturbed store { store with pool := store.pool.noteAccess id } :=
  undisturbed_withPool flushed fun _ _ cached => Or.inl cached

theorem undisturbed_drop (flushed : store.Flushed) (id : PageId) :
    Undisturbed store { store with pool := (store.pool.drop id).noteRemoval id } := by
  apply undisturbed_withPool flushed
  intro other frame cached
  have dropped := (Pool.frame_drop store.pool id other).symm.trans cached
  split at dropped
  · contradiction
  · exact Or.inl dropped

theorem undisturbed_evict (flushed : store.Flushed) :
    Action.Ends evict store (fun _ after => Undisturbed store after)
      fun _ after => Undisturbed store after := by
  have asked : Undisturbed store { store with pool := store.pool.askVictim.2 } :=
    undisturbed_withPool flushed fun _ _ cached => Or.inl cached
  unfold evict
  rw [Action.ends_bind, Action.ends_get]
  dsimp only
  rw [Action.ends_bind, Action.ends_set]
  cases store.pool.askVictim.1 with
  | none => exact asked
  | some id =>
    dsimp only
    rw [Action.ends_bind, Action.ends_attempt]
    apply Action.ends_of_never_fails (undisturbed_writeBack asked.flushed id)
    intro _ middle back
    exact undisturbed_trans asked (undisturbed_trans back (undisturbed_drop back.flushed id))

theorem undisturbed_bringIn (flushed : store.Flushed) (id : PageId) {page : Page}
    (clean : page.isDirty = false) :
    Action.Ends (bringIn id page) store (fun _ after => Undisturbed store after)
      fun _ after => Undisturbed store after := by
  have placed : ∀ now : Store μ, now.Flushed →
      Undisturbed now { now with pool := (now.pool.place id page).noteAccess id } := by
    intro now flushedNow
    apply undisturbed_withPool flushedNow
    intro other frame cached
    have found := (Pool.frame_place now.pool id other page).symm.trans cached
    split at found
    · obtain rfl := Option.some.inj found
      exact Or.inr clean
    · exact Or.inl found
  unfold bringIn
  rw [Action.ends_bind, Action.ends_get]
  cases store.pool.isFull with
  | false =>
    rw [if_neg Bool.false_ne_true]
    exact placed store flushed
  | true =>
    rw [if_pos rfl, Action.ends_bind]
    apply Action.ends_imp (undisturbed_evict flushed)
    · intro _ middle evicted
      exact undisturbed_trans evicted (placed middle evicted.flushed)
    · exact fun _ _ evicted => evicted

theorem undisturbed_fetch (flushed : store.Flushed) (id : PageId) :
    Action.Ends (fetch id) store (fun _ after => Undisturbed store after)
      fun _ after => Undisturbed store after := by
  unfold fetch
  rw [Action.ends_bind, Action.ends_get]
  cases store.pool.frame? id with
  | some frame => exact undisturbed_noteAccess flushed id
  | none =>
    dsimp only
    rw [Action.ends_bind, Action.ends_ofExcept]
    cases store.catalog.file id.table with
    | error cause => exact undisturbed_refl flushed
    | ok file =>
      have clean : ∀ {image page}, Page.decode id file.schema image = .ok page →
          page.isDirty = false := by
        intro image page decoded
        rw [Page.isDirty, (Page.decode_eq_ok_iff.mp decoded).2.2.2.2.2]
        rfl
      dsimp only
      rw [Action.ends_bind, onDisk, Action.ends_within, HeapFile.readPage]
      dsimp only
      by_cases foreign : id.table ≠ file.table
      · rw [if_pos foreign]
        exact undisturbed_refl flushed
      · rw [if_neg foreign, Action.ends_bind, Action.ends_get]
        split
        · exact undisturbed_refl flushed
        · rw [Action.ends_bind, Action.ends_set, Action.ends_ofExcept]
          have read := undisturbed_read flushed file.opening
          split
          · next page decoded =>
            apply Action.ends_imp (undisturbed_bringIn read.flushed id (clean decoded))
            · exact fun _ _ brought => undisturbed_trans read brought
            · exact fun _ _ brought => undisturbed_trans read brought
          · exact read

/-- Whatever only fetches pages leaves a flushed store undisturbed. -/
theorem fetchClosed_undisturbed :
    FetchClosed fun before after : Store μ => before.Flushed → Undisturbed before after where
  refl := fun _ flushed => undisturbed_refl flushed
  trans := fun left right flushed =>
    undisturbed_trans (left flushed) (right (left flushed).flushed)
  fetch := fun _ id => Action.ends_given fun flushed => undisturbed_fetch flushed id

end Store

/-- The request stores and deletes no row. -/
def Operation.Moves : Operation → Prop
  | insert _ _ _ | delete _ _ => False
  | _ => True

namespace Store

variable {μ : Type} {store : Store μ} [EvictionPolicy μ]

theorem undisturbed_discard (flushed : store.Flushed) (id : PageId) :
    Action.Ends (discard id) store (fun _ after => Undisturbed store after) fun _ _ => False := by
  unfold discard
  rw [Action.ends_bind, Action.ends_get]
  split
  · exact undisturbed_drop flushed id
  · exact undisturbed_refl flushed

/-- A flushed store stays as it is on disk whatever pages are moved. -/
theorem undisturbed_outcome (flushed : store.Flushed) {operation : Operation}
    (moves : operation.Moves) : Undisturbed store (store.outcome operation).2 := by
  have ends : Action.Ends (perform operation) store (fun _ after => Undisturbed store after)
      fun _ after => Undisturbed store after := by
    cases operation with
    | fetch id =>
      unfold perform
      rw [Action.ends_bind]
      exact undisturbed_fetch flushed id
    | insert _ _ _ => exact moves.elim
    | delete _ _ => exact moves.elim
    | evict =>
      unfold perform
      rw [Action.ends_bind]
      exact undisturbed_evict flushed
    | flushPage id =>
      unfold perform flushPage
      rw [Action.ends_bind, Action.ends_bind, Action.ends_get, Action.ends_bind]
      apply Action.ends_of_never_fails (undisturbed_writeBack flushed id)
      exact fun _ _ undisturbed => undisturbed
    | flushTransaction transaction =>
      unfold perform
      rw [Action.ends_bind]
      apply Action.ends_of_never_fails (undisturbed_flushTransaction flushed transaction)
      exact fun _ _ undisturbed => undisturbed
    | flushAll =>
      unfold perform
      rw [Action.ends_bind]
      apply Action.ends_of_never_fails (undisturbed_flushAll flushed)
      exact fun _ _ undisturbed => undisturbed
    | discard id =>
      unfold perform
      rw [Action.ends_bind]
      apply Action.ends_of_never_fails (undisturbed_discard flushed id)
      exact fun _ _ undisturbed => undisturbed
  exact Action.after_of_ends ends

end Store

end PagedStore
