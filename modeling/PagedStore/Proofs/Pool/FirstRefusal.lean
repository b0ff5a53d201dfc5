import PagedStore.Proofs.Pool.Cleaning
import PagedStore.Proofs.Pool.Sources

/-!
A flush of all pages in a store whose tables change. A dirty page is refused if its table is not
registered any more, or if it is registered by now with pages of another size. The flush walks over the
cached pages in some order and stops at the first that is refused. The pages before it have been
written, and the pages behind it stay as they were even if they could have been written.
-/

namespace PagedStore

/-- Why a page cannot be written to the file that is registered for its table. -/
inductive Catalog.Obstacle (catalog : Catalog) (id : PageId) (page : Page) : Error → Prop where
  | unregistered (unknown : catalog.file? id.table = none) :
      Obstacle catalog id page (.tableNotFound id.table)
  | otherSize {file : HeapFile} (registered : catalog.file? id.table = some file)
      (differs : page.size ≠ file.pageSize) :
      Obstacle catalog id page (.wrongPageSize file.pageSize page.size)

namespace Store

variable {μ : Type} {store : Store μ}

/-- The page is cached and dirty, and it cannot be written. -/
def Refused (store : Store μ) (id : PageId) (cause : Error) : Prop :=
  ∃ frame, store.pool.frame? id = some frame ∧ frame.page.isDirty = true ∧
    store.catalog.Obstacle id frame.page cause

/-- The page is not refused, be it that it is not cached, that it is clean or that it can be written. -/
def Accepted (store : Store μ) (id : PageId) : Prop := ∀ cause, ¬ store.Refused id cause

structure Home (store : Store μ) (id : PageId) (frame : Frame) (file : HeapFile) : Prop where
  cached : store.pool.frame? id = some frame
  registered : store.catalog.file? id.table = some file
  comes : store.ComesFrom id frame.page file

/-- A page that is at home can be written. -/
theorem accepted_of_home {id : PageId} {frame : Frame} {file : HeapFile}
    (home : store.Home id frame file) : store.Accepted id := by
  rintro cause ⟨found, cached, -, refuses⟩
  obtain rfl := Option.some.inj (home.cached.symm.trans cached)
  cases refuses with
  | unregistered unknown =>
    rw [home.registered] at unknown
    contradiction
  | otherSize registered differs =>
    obtain rfl := Option.some.inj (home.registered.symm.trans registered)
    exact differs home.comes.owns.size_eq

theorem writeBack_cleans (tidy : store.Tidy) (id : PageId) :
    Action.Ends (writeBack id) store
      (fun _ after => after = store.cleaned id ∧ store.Accepted id)
      fun fault after => after = store ∧ ∃ cause, fault = .error cause ∧ store.Refused id cause := by
  unfold writeBack
  rw [Action.ends_bind, Action.ends_get]
  cases cached : store.pool.frame? id with
  | none =>
    refine ⟨by rw [cleaned, cached], ?_⟩
    rintro cause ⟨frame, there, -⟩
    rw [cached] at there
    contradiction
  | some frame =>
    have named := (tidy id frame cached).1
    dsimp only
    cases dirty : frame.page.isDirty with
    | false =>
      rw [if_neg Bool.false_ne_true]
      refine ⟨?_, ?_⟩
      · rw [cleaned, cached]
        dsimp only
        rw [dirty, if_neg Bool.false_ne_true]
      · rintro cause ⟨found, there, isDirty, -⟩
        obtain rfl := Option.some.inj (cached.symm.trans there)
        rw [dirty] at isDirty
        contradiction
    | true =>
      rw [if_pos rfl, Action.ends_bind, Action.ends_ofExcept, named]
      cases registered : store.catalog.file? id.table with
      | none =>
        rw [Catalog.file_of_none registered]
        exact ⟨rfl, _, rfl, frame, cached, dirty, .unregistered registered⟩
      | some file =>
        rw [Catalog.file_of_some registered]
        dsimp only
        rw [Action.ends_bind, onDisk, Action.ends_within, HeapFile.writePage]
        dsimp only
        rw [Page.length_encode]
        by_cases sized : frame.page.size = file.pageSize
        · rw [if_neg (fun wrong => wrong sized), Action.ends_modify, named]
          refine ⟨?_, ?_⟩
          · rw [cleaned, cached]
            dsimp only
            rw [if_pos dirty, rewrite, cached, registered]
          · rintro cause ⟨found, there, -, refuses⟩
            obtain rfl := Option.some.inj (cached.symm.trans there)
            cases refuses with
            | unregistered unknown =>
              rw [registered] at unknown
              contradiction
            | otherSize other differs =>
              obtain rfl := Option.some.inj (registered.symm.trans other)
              exact differs sized
        · rw [if_pos sized, Action.ends_bind, Action.ends_fail]
          exact ⟨rfl, _, rfl, frame, cached, dirty, .otherSize registered sized⟩

theorem refused_cleaned_iff {id other : PageId} (differs : other ≠ id) {cause : Error} :
    (store.cleaned id).Refused other cause ↔ store.Refused other cause := by
  simp only [Refused, catalog_cleaned, frame_cleaned_of_ne differs]

/-- A page that has been cleaned is not refused. -/
theorem accepted_cleaned_self (id : PageId) : (store.cleaned id).Accepted id := by
  rintro cause ⟨frame, cached, dirty, -⟩
  rw [frame_cleaned, if_pos rfl] at cached
  obtain ⟨old, -, rfl⟩ := Option.map_eq_some_iff.mp cached
  contradiction

theorem tidy_cleaned (tidy : store.Tidy) (id : PageId) : (store.cleaned id).Tidy := by
  intro other frame cached
  rw [frame_cleaned] at cached
  split at cached
  · next same =>
    subst same
    obtain ⟨old, was, rfl⟩ := Option.map_eq_some_iff.mp cached
    exact ⟨(tidy other old was).1, Page.formed_marked (tidy other old was).2 none⟩
  · exact tidy other frame cached

/-- The walk cleans page after page up to the first that is refused. -/
theorem forM_writeBack_stops (tidy : store.Tidy) (ids : List PageId) :
    Action.Ends (ids.forM writeBack) store
      (fun _ after => after = ids.foldl cleaned store ∧ ∀ id ∈ ids, store.Accepted id)
      fun fault after => ∃ walked id later cause, ids = walked ++ id :: later ∧
        (∀ other ∈ walked, store.Accepted other) ∧ store.Refused id cause ∧
          fault = .error cause ∧ after = walked.foldl cleaned store := by
  induction ids generalizing store with
  | nil => exact ⟨rfl, fun _ member => absurd member List.not_mem_nil⟩
  | cons first rest ih =>
    rw [List.forM_eq_forM, List.forM_cons, ← List.forM_eq_forM, Action.ends_bind]
    apply Action.ends_imp (writeBack_cleans tidy first)
    · rintro _ _ ⟨rfl, accepted⟩
      have before : ∀ id, (store.cleaned first).Accepted id → store.Accepted id := by
        intro id later cause refused
        by_cases same : id = first
        · exact accepted cause (same ▸ refused)
        · exact later cause ((refused_cleaned_iff same).mpr refused)
      apply Action.ends_imp (ih (tidy_cleaned tidy first))
      · rintro _ _ ⟨rfl, others⟩
        exact ⟨rfl, List.forall_mem_cons.mpr ⟨accepted, fun id member => before id (others id member)⟩⟩
      · rintro _ _ ⟨walked, id, later, cause, rfl, others, refused, rfl, rfl⟩
        refine ⟨first :: walked, id, later, cause, rfl, ?_, ?_, rfl, rfl⟩
        · exact List.forall_mem_cons.mpr
            ⟨accepted, fun other member => before other (others other member)⟩
        · by_cases same : id = first
          · subst same
            exact absurd refused (accepted_cleaned_self id cause)
          · exact (refused_cleaned_iff same).mp refused
    · rintro _ _ ⟨rfl, cause, rfl, refused⟩
      exact ⟨[], first, rest, cause, rfl, fun _ member => absurd member List.not_mem_nil, refused, rfl,
        rfl⟩

theorem image_cleaned (filed : store.catalog.Filed) {id other : PageId}
    (accepted : store.Accepted other) {frame : Frame} {file : HeapFile}
    (home : store.Home id frame file) :
    file.image (store.cleaned other).disk id.number =
      if id = other ∧ frame.page.isDirty then frame.page.encode
      else file.image store.disk id.number := by
  by_cases dirty : store.Dirty other
  · obtain ⟨written, there, isDirty⟩ := dirty
    rw [cleaned_of_dirty ⟨written, there, isDirty⟩]
    cases registered : store.catalog.file? other.table with
    | none => exact absurd ⟨written, there, isDirty, .unregistered registered⟩ (accepted _)
    | some target =>
      have sized : written.page.encode.length = target.pageSize := by
        rw [Page.length_encode]
        by_contra differs
        exact accepted _ ⟨written, there, isDirty, .otherSize registered differs⟩
      simp only [rewrite, there, registered]
      by_cases same : id = other
      · subst same
        obtain rfl := Option.some.inj (home.cached.symm.trans there)
        obtain rfl := Option.some.inj (home.registered.symm.trans registered)
        rw [if_pos ⟨rfl, isDirty⟩]
        exact HeapFile.image_overwrite_self home.comes.covers sized
      · rw [if_neg (fun both => same both.1)]
        apply HeapFile.image_overwrite_elsewhere home.comes.covers
        intro sameFile
        obtain ⟨tables, rfl⟩ :=
          file_eq_of_same filed home.registered registered sameFile.symm
        rw [sized]
        exact HeapFile.apart_of_ne (PageId.number_ne tables same)
  · rw [cleaned_of_clean dirty, if_neg]
    rintro ⟨rfl, isDirty⟩
    exact dirty ⟨frame, home.cached, isDirty⟩

theorem accepted_cleaned {id other : PageId} (accepted : store.Accepted other) :
    (store.cleaned id).Accepted other := by
  by_cases same : other = id
  · subst same
    exact accepted_cleaned_self other
  · exact fun cause refused => accepted cause ((refused_cleaned_iff same).mp refused)

theorem grown_cleaned (id : PageId) (file : Nat) :
    (store.disk.content file).length ≤ ((store.cleaned id).disk.content file).length := by
  by_cases dirty : store.Dirty id
  · rw [cleaned_of_dirty dirty, rewrite]
    split
    · exact Disk.length_content_overwrite ..
    · exact Nat.le_refl _
  · exact Nat.le_of_eq (by rw [cleaned_of_clean dirty])

/-- A copy that is at home stays there, whatever is cleaned. -/
theorem home_cleaned {id : PageId} {frame : Frame} {file : HeapFile}
    (home : store.Home id frame file) (other : PageId) :
    (store.cleaned other).Home id
      (if id = other then frame.altered fun page => page.marked none else frame) file := by
  have registered : (store.cleaned other).catalog.file? id.table = some file :=
    (catalog_cleaned other).symm ▸ home.registered
  have covers := Nat.le_trans home.comes.covers (grown_cleaned other file.file)
  by_cases same : id = other
  · subst same
    rw [if_pos rfl]
    refine ⟨?_, registered, home.comes.table_eq, owns_marked home.comes.owns none, covers⟩
    rw [frame_cleaned, if_pos rfl, home.cached, Option.map_some]
  · rw [if_neg same]
    refine ⟨?_, registered, home.comes.table_eq, home.comes.owns, covers⟩
    rw [frame_cleaned_of_ne same, home.cached]

theorem home_listed {id : PageId} {frame : Frame} {file : HeapFile}
    (home : store.Home id frame file) :
    Home { store with pool := store.pool.afterListing } id frame file :=
  ⟨home.cached, home.registered, comesFrom_of_grown home.comes fun _ => Nat.le_refl _⟩

/-- What cleaning a list of pages makes of a page that is at home: it is clean and saved if it is in the
list, and as before otherwise. -/
theorem home_foldl_cleaned (filed : store.catalog.Filed) {ids : List PageId}
    (accepted : ∀ other ∈ ids, store.Accepted other) {id : PageId} {frame : Frame} {file : HeapFile}
    (home : store.Home id frame file) :
    (ids.foldl cleaned store).pool.frame? id =
        some (if id ∈ ids then frame.altered fun page => page.marked none else frame) ∧
      file.image (ids.foldl cleaned store).disk id.number =
        if id ∈ ids ∧ frame.page.isDirty then frame.page.encode
        else file.image store.disk id.number := by
  induction ids generalizing store frame with
  | nil => simp [home.cached]
  | cons first rest ih =>
    have accepts := accepted first List.mem_cons_self
    have later : ∀ other ∈ rest, (store.cleaned first).Accepted other :=
      fun other member => accepted_cleaned (accepted other (List.mem_cons_of_mem first member))
    have filedNow : (store.cleaned first).catalog.Filed := by
      rw [catalog_cleaned]
      exact filed
    obtain ⟨cached, image⟩ := ih filedNow later (home_cleaned home first)
    rw [image_cleaned filed accepts home] at image
    rw [List.foldl_cons, cached, image]
    by_cases same : id = first
    · subst same
      -- The page is clean from here on, so nothing but its own turn has written it.
      have clean : (frame.altered fun page => page.marked none).page.isDirty = false := rfl
      have twice : (frame.altered fun page => page.marked none).altered
          (fun page => page.marked none) = frame.altered fun page => page.marked none := rfl
      simp [clean, twice]
    · simp [same]

end Store

namespace Traced

variable {μ : Type} {state : Traced μ}

structure AtHome (state : Traced μ) (id : PageId) (frame : Frame) (file : HeapFile) : Prop where
  cached : state.store.pool.frame? id = some frame
  source_eq : state.source id = some file
  registered : state.store.catalog.file? id.table = some file

theorem home_of_sound (sound : state.Sound) {id : PageId} {frame : Frame} {file : HeapFile}
    (atHome : state.AtHome id frame file) : state.store.Home id frame file := by
  obtain ⟨-, source, isSource, comes⟩ := sound.known id frame atHome.cached
  obtain rfl := Option.some.inj (atHome.source_eq.symm.trans isSource)
  exact ⟨atHome.cached, atHome.registered, comes⟩

/-- The pages that the walk has passed are clean, and those that were dirty are saved. Of the other pages
no copy and no byte has changed. -/
structure SavedUpTo (state : Traced μ) (walked : List PageId) (after : Store μ) : Prop where
  passed : ∀ id ∈ walked, ∀ frame file, state.AtHome id frame file →
    after.pool.frame? id = some (frame.altered fun page => page.marked none) ∧
      file.image after.disk id.number =
        if frame.page.isDirty then frame.page.encode else file.image state.store.disk id.number
  others : ∀ id, id ∉ walked → ∀ frame file, state.AtHome id frame file →
    after.pool.frame? id = some frame ∧
      file.image after.disk id.number = file.image state.store.disk id.number

theorem savedUpTo_foldl (sound : state.Sound) {walked : List PageId}
    (accepted : ∀ id ∈ walked, state.store.Accepted id) :
    state.SavedUpTo walked
      (walked.foldl Store.cleaned { state.store with pool := state.store.pool.afterListing }) := by
  let listed : Store μ := { state.store with pool := state.store.pool.afterListing }
  have atHome : ∀ {id frame file}, state.AtHome id frame file → listed.Home id frame file :=
    fun here => Store.home_listed (home_of_sound sound here)
  have filed : listed.catalog.Filed := sound.filed
  have accepts : ∀ id ∈ walked, listed.Accepted id := accepted
  constructor
  · intro id member frame file here
    simpa [member] using Store.home_foldl_cleaned filed accepts (atHome here)
  · intro id absent frame file here
    simpa [absent] using Store.home_foldl_cleaned filed accepts (atHome here)

variable [EvictionPolicy μ]

theorem flushAll_stops (sound : state.Sound) :
    Action.Ends (Store.perform .flushAll) state.store
      (fun answer after => answer = .done ∧ state.SavedUpTo state.store.pool.listed after)
      fun fault after => ∃ walked id later cause,
        state.store.pool.listed = walked ++ id :: later ∧ state.store.Refused id cause ∧
          fault = .error cause ∧ state.SavedUpTo walked after := by
  have tidy : Store.Tidy { state.store with pool := state.store.pool.afterListing } :=
    tidy_of_sound sound
  unfold Store.perform Store.flushAll
  rw [Action.ends_bind, Action.ends_bind]
  apply Action.ends_imp (Store.forM_writeBack_stops tidy state.store.pool.listed)
  · rintro _ _ ⟨rfl, accepted⟩
    exact ⟨rfl, savedUpTo_foldl sound accepted⟩
  · rintro _ _ ⟨walked, id, later, cause, listed, accepted, refused, rfl, rfl⟩
    exact ⟨walked, id, later, cause, listed, refused, rfl, savedUpTo_foldl sound accepted⟩

/-- A flush of all pages, whatever has been registered in between and in whatever order it walks, saves
the pages up to the first that is refused and leaves those behind it as they are. A page is refused only
if its table is not registered any more to the file that the page was read from. -/
theorem saved_up_to_refusal {origin : Store μ} (filed : origin.catalog.Filed)
    (unused : origin.pool.frames = []) (deeds : List Deed) {now : Traced μ}
    (reached : (Traced.unused origin).after deeds = now) :
    ∃ walked rest, now.store.pool.listed = walked ++ rest ∧
      now.SavedUpTo walked (now.store.outcome .flushAll).2 ∧
      (rest = [] ∧ (now.store.outcome .flushAll).1 = .ok .done ∨
        ∃ id later cause, rest = id :: later ∧
          (now.store.outcome .flushAll).1 = .error (.error cause) ∧
          now.store.Refused id cause ∧ ∀ frame file, ¬ now.AtHome id frame file) := by
  have sound : now.Sound := reached ▸ sound_after (sound_unused filed unused) deeds
  rcases Action.outcome_of_ends (flushAll_stops sound) with
    ⟨answer, replied, rfl, saved⟩ | ⟨fault, replied, walked, id, later, cause, listed, refused, rfl, saved⟩
  · exact ⟨now.store.pool.listed, [], (List.append_nil _).symm, saved, Or.inl ⟨rfl, replied⟩⟩
  · refine ⟨walked, id :: later, listed, saved,
      Or.inr ⟨id, later, cause, rfl, replied, refused, ?_⟩⟩
    intro frame file atHome
    exact Store.accepted_of_home (home_of_sound sound atHome) cause refused

/-- A row is stored in a table, then in another one that has taken its name. -/
def replacedTable : List Deed :=
  [.create "a.dat" Store.oneRowFile.schema 16 "t",
    .request (.insert ⟨1⟩ (.file 0) (Store.integerRow 7)),
    .create "b.dat" Store.oneRowFile.schema 16 "t",
    .request (.insert ⟨1⟩ (.file 1) (Store.integerRow 8))]

def replaced : Traced Eviction.Oblivious := (unused Store.vacant).after replacedTable

theorem saved_up_to_refusal_of_replaced_table :
    (Store.vacant.catalog.Filed ∧ Store.vacant.pool.frames = [] ∧
      (unused Store.vacant).after replacedTable = replaced) ∧
    ∃ walked rest, replaced.store.pool.listed = walked ++ rest ∧
      replaced.SavedUpTo walked (replaced.store.outcome .flushAll).2 := by
  refine ⟨⟨Catalog.filed_empty, rfl, rfl⟩, ?_⟩
  have filed : Store.vacant.catalog.Filed := Catalog.filed_empty
  have unused : Store.vacant.pool.frames = [] := rfl
  obtain ⟨walked, rest, listed, saved, -⟩ := saved_up_to_refusal filed unused replacedTable rfl
  exact ⟨walked, rest, listed, saved⟩

/-- The flush meets the page of the first table, which is not registered any more, and leaves the page of
the second one dirty although it could be written. -/
theorem left_dirty_behind_refusal :
    (replaced.store.outcome .flushAll).1 = .error (.error (.tableNotFound (.file 0))) ∧
      ∃ frame file, replaced.AtHome ⟨.file 1, 0⟩ frame file ∧
        (replaced.store.outcome .flushAll).2.pool.frame? ⟨.file 1, 0⟩ = some frame ∧
        frame.page.isDirty = true ∧
        file.image (replaced.store.outcome .flushAll).2.disk 0 ≠ frame.page.encode := by
  have cached : (replaced.store.pool.frame? ⟨.file 1, 0⟩).isSome := by decide +kernel
  have registered : (replaced.store.catalog.file? (.file 1)).isSome := by decide +kernel
  have home : replaced.source ⟨.file 1, 0⟩ = replaced.store.catalog.file? (.file 1) := by
    decide +kernel
  have kept : (replaced.store.outcome .flushAll).2.pool.frame? ⟨.file 1, 0⟩ =
      replaced.store.pool.frame? ⟨.file 1, 0⟩ := by decide +kernel
  have found := (Option.some_get cached).symm
  have known := (Option.some_get registered).symm
  refine ⟨by decide +kernel, _, _, ⟨found, home.trans known, known⟩, kept.trans found, ?_, ?_⟩
  · decide +kernel +revert
  · decide +kernel +revert

end Traced

end PagedStore
