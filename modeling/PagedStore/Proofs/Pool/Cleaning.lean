import PagedStore.Proofs.Cache.Flushing
import PagedStore.Proofs.Pool.Orderly

/-!
Writing back as a function. In an orderly store a page can always be written back, so a walk that
writes back pages, all of them or those of one transaction, never fails and ends in the store that a
fold over the list gives. Two cached pages are written to places that do not meet, so the order of the
walk does not matter.
-/

namespace PagedStore

namespace Store

variable {μ : Type} {store : Store μ}

def cleaned (store : Store μ) (id : PageId) : Store μ :=
  match store.pool.frame? id with
  | some frame =>
      if frame.page.isDirty then
        { store with
          disk := store.rewrite store.disk id
          pool := store.pool.alter id fun page => page.marked none }
      else store
  | none => store

theorem writeBack_eq (orderly : store.Orderly) (id : PageId) :
    writeBack id store = .ok () (store.cleaned id) := by
  have ends : Action.Ends (writeBack id) store (fun _ after => after = store.cleaned id)
      fun _ _ => False := by
    unfold writeBack
    rw [Action.ends_bind, Action.ends_get]
    cases cached : store.pool.frame? id with
    | none =>
      rw [cleaned, cached]
      exact rfl
    | some frame =>
      obtain ⟨file, registered, owns, -⟩ := orderly.backed id frame cached
      have named := (tidy_of_orderly orderly id frame cached).1
      dsimp only
      cases dirty : frame.page.isDirty with
      | false =>
        rw [cleaned, cached, if_neg Bool.false_ne_true]
        dsimp only
        rw [dirty, if_neg Bool.false_ne_true]
        exact rfl
      | true =>
        rw [if_pos rfl, named, Catalog.file_of_some registered, Action.ends_bind,
          Action.ends_ofExcept]
        dsimp only
        rw [Action.ends_bind, onDisk, Action.ends_within, HeapFile.writePage]
        dsimp only
        rw [if_neg (fun wrong => wrong (sized_of_owns owns)), Action.ends_modify, named]
        rw [cleaned, cached]
        dsimp only
        rw [if_pos dirty, rewrite, cached, registered]
        exact rfl
  unfold Action.Ends at ends
  cases ended : writeBack id store with
  | ok value after =>
    rw [ended] at ends
    exact congrArg (EStateM.Result.ok ()) ends
  | error fault after =>
    rw [ended] at ends
    exact ends.elim

theorem frame_cleaned (id other : PageId) : (store.cleaned id).pool.frame? other =
    if other = id then (store.pool.frame? id).map (Frame.altered fun page => page.marked none)
    else store.pool.frame? other := by
  rw [cleaned]
  cases cached : store.pool.frame? id with
  | none =>
    dsimp only
    split
    · next same => rw [same, cached, Option.map_none]
    · rfl
  | some frame =>
    dsimp only
    split
    · refine (Pool.frame_alter store.pool id other _).trans ?_
      split
      · next same => rw [same, cached]
      · rfl
    · next clean =>
      have unmarked : frame.page.dirtiedBy = none :=
        Option.not_isSome_iff_eq_none.mp clean
      split
      · next same =>
        rw [same, cached, Option.map_some, Frame.altered, Page.marked, ← unmarked]
      · rfl

theorem catalog_cleaned (id : PageId) : (store.cleaned id).catalog = store.catalog := by
  rw [cleaned]
  split
  · split <;> rfl
  · rfl

/-- Two cached pages are written to places that do not meet. -/
theorem rewrite_comm (orderly : store.Orderly) {id other : PageId} (differs : id ≠ other) :
    store.rewrite (store.rewrite store.disk id) other =
      store.rewrite (store.rewrite store.disk other) id := by
  cases cached : store.pool.frame? id with
  | none => simp only [rewrite, cached]
  | some frame =>
    cases otherCached : store.pool.frame? other with
    | none => simp only [rewrite, otherCached]
    | some otherFrame =>
      obtain ⟨file, registered, owns, covers⟩ := orderly.backed id frame cached
      obtain ⟨otherFile, otherRegistered, otherOwns, otherCovers⟩ :=
        orderly.backed other otherFrame otherCached
      have swapped : (store.disk.overwrite file.file (id.offset file.pageSize)
            frame.page.encode).overwrite otherFile.file (other.offset otherFile.pageSize)
              otherFrame.page.encode =
          (store.disk.overwrite otherFile.file (other.offset otherFile.pageSize)
            otherFrame.page.encode).overwrite file.file (id.offset file.pageSize)
              frame.page.encode := by
        apply Disk.overwrite_comm
        intro same
        obtain ⟨tables, rfl⟩ := file_eq_of_same orderly.filed registered otherRegistered same
        have apart : (id.number + 1) * file.pageSize ≤ other.number * file.pageSize ∨
            other.number * file.pageSize + file.pageSize ≤ id.number * file.pageSize :=
          HeapFile.apart_of_ne (PageId.number_ne tables differs)
        rw [HeapFile.Covers, Nat.succ_mul] at covers otherCovers
        rw [Nat.succ_mul] at apart
        rw [sized_of_owns owns, sized_of_owns otherOwns]
        exact ⟨covers, otherCovers, apart⟩
      simp only [rewrite, cached, otherCached, registered, otherRegistered]
      rw [Disk.overwrite_countWrite, Disk.overwrite_countWrite, swapped, Disk.countWrite_comm]

theorem cleaned_of_clean {id : PageId} (clean : ¬ store.Dirty id) : store.cleaned id = store := by
  rw [cleaned]
  cases cached : store.pool.frame? id with
  | none => rfl
  | some frame =>
    dsimp only
    rw [if_neg (fun dirty => clean ⟨frame, cached, dirty⟩)]

theorem cleaned_of_dirty {id : PageId} (dirty : store.Dirty id) : store.cleaned id =
    { store with
      disk := store.rewrite store.disk id
      pool := store.pool.alter id fun page => page.marked none } := by
  obtain ⟨frame, cached, isDirty⟩ := dirty
  rw [cleaned, cached]
  dsimp only
  rw [if_pos isDirty]

theorem frame_cleaned_of_ne {id other : PageId} (differs : other ≠ id) :
    (store.cleaned id).pool.frame? other = store.pool.frame? other := by
  rw [frame_cleaned, if_neg differs]

theorem cleaned_comm (orderly : store.Orderly) {id other : PageId} (differs : id ≠ other) :
    (store.cleaned id).cleaned other = (store.cleaned other).cleaned id := by
  have otherFrame : (store.cleaned id).pool.frame? other = store.pool.frame? other :=
    frame_cleaned_of_ne differs.symm
  have frame : (store.cleaned other).pool.frame? id = store.pool.frame? id :=
    frame_cleaned_of_ne differs
  have otherKept := dirty_congr otherFrame
  have kept := dirty_congr frame
  by_cases dirty : store.Dirty id
  · by_cases otherDirty : store.Dirty other
    · rw [cleaned_of_dirty (otherKept.mpr otherDirty), cleaned_of_dirty (kept.mpr dirty),
        rewrite_congr (catalog_cleaned id) otherFrame, rewrite_congr (catalog_cleaned other) frame,
        cleaned_of_dirty dirty, cleaned_of_dirty otherDirty]
      dsimp only
      rw [rewrite_comm orderly differs]
      congr 1
      exact congrArg (fun frames => { store.pool with frames })
        (Keyed.alter_comm differs.symm _ _ store.pool.frames)
    · rw [cleaned_of_clean (fun now => otherDirty (otherKept.mp now)), cleaned_of_clean otherDirty]
  · rw [cleaned_of_clean dirty, cleaned_of_clean (fun now => dirty (kept.mp now))]

theorem orderly_cleaned (orderly : store.Orderly) (id : PageId) : (store.cleaned id).Orderly := by
  apply orderly_of_backed orderly (catalog_cleaned id)
  · intro file
    by_cases dirty : store.Dirty id
    · rw [cleaned_of_dirty dirty]
      dsimp only
      rw [rewrite]
      split
      · exact Disk.length_content_overwrite ..
      · exact Nat.le_refl _
    · exact Nat.le_of_eq (by rw [cleaned_of_clean dirty])
  · intro other frame cached
    have lookup := (frame_cleaned id other).symm.trans cached
    split at lookup
    · next same =>
      obtain ⟨old, there, rfl⟩ := Option.map_eq_some_iff.mp lookup
      exact Or.inl ⟨old, none, same ▸ there, rfl⟩
    · exact Or.inl ⟨frame, frame.page.dirtiedBy, lookup, rfl⟩

structure Walks (action : PageId → Action (Store μ) Unit) (step : Store μ → PageId → Store μ) :
    Prop where
  each : ∀ {now : Store μ}, now.Orderly → ∀ id, action id now = .ok () (step now id)
  keeps : ∀ {now : Store μ}, now.Orderly → ∀ id, (step now id).Orderly

section Walks

variable {action : PageId → Action (Store μ) Unit} {step : Store μ → PageId → Store μ}

theorem forM_of_walks (walks : Walks action step) (ids : List PageId) (orderly : store.Orderly) :
    ids.forM action store = .ok () (ids.foldl step store) := by
  induction ids generalizing store with
  | nil => rfl
  | cons id rest ih =>
    rw [List.forM_eq_forM, List.forM_cons, Action.bind_apply, walks.each orderly id]
    exact ih (walks.keeps orderly id)

/-- If the steps can be taken in either order, the order of the list does not matter. -/
theorem forM_perm (walks : Walks action step)
    (comm : ∀ now : Store μ, now.Orderly → ∀ id other, id ≠ other →
      step (step now id) other = step (step now other) id)
    {left right : List PageId} (perm : left.Perm right) (orderly : store.Orderly) :
    left.forM action store = right.forM action store := by
  rw [forM_of_walks walks left orderly, forM_of_walks walks right orderly]
  congr 1
  induction perm generalizing store with
  | nil => rfl
  | cons id _ ih => exact ih (walks.keeps orderly id)
  | swap id other rest =>
    by_cases same : id = other
    · rw [same]
    · rw [List.foldl_cons, List.foldl_cons, comm store orderly other id (Ne.symm same)]
      rfl
  | trans _ _ ihLeft ihRight => exact (ihLeft orderly).trans (ihRight orderly)

end Walks

theorem walks_cleaned : Walks (writeBack (μ := μ)) cleaned :=
  ⟨fun orderly id => writeBack_eq orderly id, fun orderly id => orderly_cleaned orderly id⟩

theorem forM_writeBack_perm {left right : List PageId} (perm : left.Perm right)
    (orderly : store.Orderly) : left.forM writeBack store = right.forM writeBack store :=
  forM_perm walks_cleaned (fun _ orderlyNow _ _ differs => cleaned_comm orderlyNow differs) perm
    orderly

theorem dirtiedBy_cleaned {id other : PageId} (differs : other ≠ id) :
    dirtiedBy? (store.cleaned id) other = dirtiedBy? store other := by
  rw [dirtiedBy?, dirtiedBy?, frame_cleaned_of_ne differs]

/-- The store with a cached page cleaned if the transaction was the last to change it. -/
def cleanedOf (transaction : Transaction) (store : Store μ) (id : PageId) : Store μ :=
  if dirtiedBy? store id = some transaction then store.cleaned id else store

theorem dirtiedBy_cleanedOf (transaction : Transaction) {id other : PageId}
    (differs : other ≠ id) :
    dirtiedBy? (cleanedOf transaction store id) other = dirtiedBy? store other := by
  rw [cleanedOf]
  split
  · exact dirtiedBy_cleaned differs
  · rfl

theorem cleanedOf_comm (orderly : store.Orderly) (transaction : Transaction) {id other : PageId}
    (differs : id ≠ other) :
    cleanedOf transaction (cleanedOf transaction store id) other =
      cleanedOf transaction (cleanedOf transaction store other) id := by
  have otherKept : dirtiedBy? (cleanedOf transaction store id) other = dirtiedBy? store other :=
    dirtiedBy_cleanedOf transaction differs.symm
  have kept : dirtiedBy? (cleanedOf transaction store other) id = dirtiedBy? store id :=
    dirtiedBy_cleanedOf transaction differs
  rw [cleanedOf, otherKept, cleanedOf.eq_1 transaction (cleanedOf transaction store other), kept]
  by_cases chosen : dirtiedBy? store id = some transaction
  · by_cases otherChosen : dirtiedBy? store other = some transaction
    · simp only [cleanedOf, if_pos chosen, if_pos otherChosen]
      exact cleaned_comm orderly differs
    · simp only [cleanedOf, if_pos chosen, if_neg otherChosen]
  · simp only [cleanedOf, if_neg chosen]

theorem writeBackOf_eq (orderly : store.Orderly) (transaction : Transaction) (id : PageId) :
    (do if dirtiedBy? (← get) id = some transaction then writeBack id : Action (Store μ) Unit) store =
      .ok () (cleanedOf transaction store id) := by
  rw [Action.bind_apply]
  change (if dirtiedBy? store id = some transaction then writeBack id else pure ()) store = _
  rw [cleanedOf]
  split
  · exact writeBack_eq orderly id
  · rfl

theorem orderly_cleanedOf (orderly : store.Orderly) (transaction : Transaction) (id : PageId) :
    (cleanedOf transaction store id).Orderly := by
  rw [cleanedOf]
  split
  · exact orderly_cleaned orderly id
  · exact orderly

theorem walks_cleanedOf (transaction : Transaction) :
    Walks (μ := μ) (fun id => do if dirtiedBy? (← get) id = some transaction then writeBack id)
      (cleanedOf transaction) :=
  ⟨fun orderly id => writeBackOf_eq orderly transaction id,
    fun orderly id => orderly_cleanedOf orderly transaction id⟩

theorem forM_writeBackOf_perm (transaction : Transaction) {left right : List PageId}
    (perm : left.Perm right) (orderly : store.Orderly) :
    (left.forM fun id => do if dirtiedBy? (← get) id = some transaction then writeBack id) store =
      (right.forM fun id => do if dirtiedBy? (← get) id = some transaction then writeBack id)
        store :=
  forM_perm (walks_cleanedOf transaction)
    (fun _ orderlyNow _ _ differs => cleanedOf_comm orderlyNow transaction differs) perm orderly

theorem dirtiedBy_cleanedOf_self (transaction : Transaction) (id : PageId) :
    dirtiedBy? (cleanedOf transaction store id) id ≠ some transaction := by
  rw [cleanedOf]
  split
  · rw [dirtiedBy?, frame_cleaned, if_pos rfl]
    cases store.pool.frame? id with
    | none => exact Option.some_ne_none _ ∘ Eq.symm
    | some frame => exact Option.some_ne_none _ ∘ Eq.symm
  · next other => exact other

/-- Once the walk has passed a page, or if the page was not the transaction's before, the transaction is
not the one that made it dirty. -/
theorem dirtiedBy_foldl_cleanedOf (transaction : Transaction) {id : PageId} (ids : List PageId)
    (passed : dirtiedBy? store id = some transaction → id ∈ ids) :
    dirtiedBy? (ids.foldl (cleanedOf transaction) store) id ≠ some transaction := by
  induction ids generalizing store with
  | nil => exact fun owned => List.not_mem_nil (passed owned)
  | cons first rest ih =>
    apply ih
    intro owned
    by_cases same : id = first
    · subst same
      exact absurd owned (dirtiedBy_cleanedOf_self transaction id)
    · rw [dirtiedBy_cleanedOf transaction same] at owned
      exact (List.mem_cons.mp (passed owned)).resolve_left same

/-- A flush of a transaction succeeds in an orderly store, and no page is dirty by the transaction any
more. -/
theorem flushTransaction_disowns (orderly : store.Orderly) (transaction : Transaction) :
    Action.Ends (flushTransaction transaction) store
      (fun _ after => ∀ id, dirtiedBy? after id ≠ some transaction) fun _ _ => False := by
  have listed : Orderly { store with pool := store.pool.afterListing } :=
    orderly_withPool orderly fun id frame cached => Or.inl (known_of_same cached rfl)
  unfold flushTransaction
  rw [Action.ends_bind]
  change Action.Ends (store.pool.listed.forM _) { store with pool := store.pool.afterListing } _ _
  unfold Action.Ends
  rw [forM_of_walks (walks_cleanedOf transaction) _ listed]
  intro id
  apply dirtiedBy_foldl_cleanedOf
  intro owned
  obtain ⟨frame, cached, -⟩ := Option.bind_eq_some_iff.mp owned
  rw [Pool.mem_listed_iff, ← Pool.isSome_frame_iff]
  exact Option.isSome_of_eq_some cached

end Store

end PagedStore
