import PagedStore.Proofs.Pool.Orderly

/-!
Where the cached pages come from, in a store whose tables change. Tables are made and registered in
between the requests, so the file that is registered for a table need not be the one that a cached page
of it was read from. The source of a page is that file. It is followed from deed to deed beside the
store, and a cached page stays a page of its source.
-/

namespace PagedStore

/-- Something that is done to a store: a request, or a table that is registered or made. -/
inductive Deed where
  | request (operation : Operation)
  | add (file : HeapFile) (name : String)
  | create (path : String) (schema : Schema) (size : PageSize) (name : String)

namespace Store

variable {μ : Type} {store after : Store μ}

structure ComesFrom (store : Store μ) (id : PageId) (page : Page) (file : HeapFile) : Prop where
  table_eq : file.table = id.table
  owns : file.Owns id.number page
  covers : file.Covers store.disk id.number

structure Relists (before after : Store μ) : Prop where
  pool_eq : after.pool = before.pool
  content_eq : ∀ file, after.disk.content file = before.disk.content file
  catalog : after.catalog = before.catalog ∨
    ∃ file name, after.catalog = before.catalog.add file name

theorem content_openFile (path : String) (disk : Disk) :
    Action.Ends (Disk.openFile path) disk
      (fun _ after => ∀ file, after.content file = disk.content file) fun _ after => after = disk := by
  unfold Disk.openFile
  rw [Action.ends_bind, Action.ends_get]
  cases disk.wanted path with
  | error cause => exact rfl
  | ok found =>
    obtain ⟨name, there⟩ := found
    cases there with
    | some index => exact fun _ => rfl
    | none =>
      intro file
      simp only [Disk.content, Disk.held, Disk.countOpening, Disk.create, List.getElem?_append]
      split
      · rfl
      · next outside =>
        rw [List.getElem?_eq_none (Nat.le_of_not_lt outside)]
        cases file - disk.files.length <;> rfl

theorem createTable_relists (store : Store μ) (path : String) (schema : Schema) (size : PageSize)
    (name : String) :
    Action.Ends (createTable path schema size name) store (fun _ after => Relists store after)
      fun _ after => Relists store after := by
  unfold createTable onDisk HeapFile.openAt
  rw [Action.ends_bind, Action.ends_within, Action.ends_bind]
  apply Action.ends_imp (content_openFile path store.disk)
  · rintro ⟨file, opening⟩ disk same
    exact ⟨rfl, same, Or.inr ⟨_, name, rfl⟩⟩
  · rintro _ _ rfl
    exact ⟨rfl, fun _ => rfl, Or.inl rfl⟩

theorem filed_of_relists (relists : Relists store after) (filed : store.catalog.Filed) :
    after.catalog.Filed := by
  rcases relists.catalog with same | ⟨file, name, added⟩
  · exact same ▸ filed
  · exact added ▸ Catalog.filed_add filed file name

variable [EvictionPolicy μ]

def carryOut : Deed → Action (Store μ) Unit
  | .request operation => do let _ ← perform operation
  | .add file name => do let _ ← register file name
  | .create path schema size name => do let _ ← createTable path schema size name

def upon (store : Store μ) (deed : Deed) : Store μ := (Action.outcome (carryOut deed) store).2

theorem upon_request (store : Store μ) (operation : Operation) :
    store.upon (.request operation) = (store.outcome operation).2 := by
  have told : Action.Ends (carryOut (.request operation)) store
      (fun _ after => (store.outcome operation).2 = after)
      fun _ after => (store.outcome operation).2 = after := by
    unfold carryOut
    rw [Action.ends_bind]
    exact Action.ends_leaves_outcome (perform operation) store
  exact (Action.after_of_ends told).symm

/-- A deed that is not a request leaves the pages in memory and the bytes on the disk as they were. -/
theorem upon_relists (store : Store μ) {deed : Deed} (other : ∀ operation, deed ≠ .request operation) :
    Relists store (store.upon deed) := by
  have ends : Action.Ends (carryOut deed) store (fun _ after => Relists store after)
      fun _ after => Relists store after := by
    cases deed with
    | request operation => exact absurd rfl (other operation)
    | add file name => exact ⟨rfl, fun _ => rfl, Or.inr ⟨file, name, rfl⟩⟩
    | create path schema size name =>
      unfold carryOut
      rw [Action.ends_bind]
      exact createTable_relists store path schema size name
  exact Action.after_of_ends ends

/-- After a shift a cached page is the one that was cached before, but for its mark. -/
theorem frame_of_shift (shift : Shift store after) {id : PageId} {frame : Frame}
    (cached : after.pool.frame? id = some frame) : ∃ old mark,
      store.pool.frame? id = some old ∧ frame = old.altered fun page => page.marked mark := by
  have same : store.pool.frame? id = some frame → ∃ old mark,
      store.pool.frame? id = some old ∧ frame = old.altered fun page => page.marked mark :=
    fun was => ⟨frame, frame.page.dirtiedBy, was, rfl⟩
  cases shift with
  | read opening => exact same cached
  | save there dirty registered sized =>
    have lookup := (Pool.frame_alter store.pool _ id _).symm.trans cached
    split at lookup
    · obtain ⟨old, was, rfl⟩ := Option.map_eq_some_iff.mp lookup
      exact ⟨old, none, was, rfl⟩
    · exact same lookup
  | list => exact same cached
  | ask => exact same cached
  | touch there => exact same cached
  | leave unwritable =>
    have lookup := (Pool.frame_drop store.pool _ id).symm.trans cached
    split at lookup
    · contradiction
    · exact same lookup

theorem issued_of_shift (shift : Shift store after) : after.pool.issued = store.pool.issued := by
  cases shift <;> rfl

omit [EvictionPolicy μ] in
theorem comesFrom_marked {id : PageId} {page : Page} {file : HeapFile}
    (comes : store.ComesFrom id page file) (mark : Option Transaction) :
    store.ComesFrom id (page.marked mark) file :=
  ⟨comes.table_eq, owns_marked comes.owns mark, comes.covers⟩

omit [EvictionPolicy μ] in
theorem comesFrom_of_grown {id : PageId} {page : Page} {file : HeapFile}
    (comes : store.ComesFrom id page file)
    (grown : ∀ file, (store.disk.content file).length ≤ (after.disk.content file).length) :
    after.ComesFrom id page file :=
  ⟨comes.table_eq, comes.owns, Nat.le_trans comes.covers (grown file.file)⟩

structure Sourced (bound : Nat) (allowed : PageId → Nat → HeapFile → Prop) (catalog : Catalog)
    (now : Store μ) : Prop where
  catalog_eq : now.catalog = catalog
  issued_le : bound ≤ now.pool.issued
  known : ∀ id frame, now.pool.frame? id = some frame → frame.copy < now.pool.issued ∧
    ∃ file, allowed id frame.copy file ∧ now.ComesFrom id frame.page file

variable {bound : Nat} {allowed : PageId → Nat → HeapFile → Prop} {catalog : Catalog}

theorem sourced_of_shift (shift : Shift store after) (sourced : store.Sourced bound allowed catalog) :
    after.Sourced bound allowed catalog := by
  refine ⟨(catalog_of_shift shift).trans sourced.catalog_eq, ?_, ?_⟩
  · rw [issued_of_shift shift]
    exact sourced.issued_le
  · intro id frame cached
    obtain ⟨old, mark, was, rfl⟩ := frame_of_shift shift cached
    obtain ⟨made, file, isSource, comes⟩ := sourced.known id old was
    refine ⟨(issued_of_shift shift).symm ▸ made, file, isSource, ?_⟩
    exact comesFrom_of_grown (comesFrom_marked comes mark) (grown_of_shift shift)

/-- A new copy comes from the file that is registered, so if that is allowed nothing else is needed. -/
theorem closed_sourced (fresh : ∀ id copy file, bound ≤ copy → catalog.file? id.table = some file →
    allowed id copy file) : Closed (Sourced (μ := μ) bound allowed catalog) where
  motion := by
    intro before after motion sourced
    cases motion with
    | shift shift => exact sourced_of_shift shift sourced
    | grow registered =>
      refine ⟨sourced.catalog_eq, sourced.issued_le, fun id frame cached => ?_⟩
      obtain ⟨made, file, isSource, comes⟩ := sourced.known id frame cached
      exact ⟨made, file, isSource, comesFrom_of_grown comes fun _ =>
        Disk.length_content_overwrite ..⟩
    | @enter middle id file page uncached registered own whole decoded shifts room =>
      have now := keeps_of_shifts (fun _ _ => sourced_of_shift) shifts sourced
      refine ⟨now.catalog_eq, Nat.le_succ_of_le now.issued_le, ?_⟩
      intro other frame cached
      have lookup := (Pool.frame_place middle.pool id other page).symm.trans cached
      split at lookup
      · next same =>
        subst same
        obtain rfl := Option.some.inj lookup
        refine ⟨Nat.lt_succ_self _, file, ?_, own, owns_of_image own whole decoded,
          Nat.le_trans (HeapFile.covers_of_image whole) (grown_of_shifts shifts file.file)⟩
        exact fresh other _ file now.issued_le (sourced.catalog_eq ▸ registered)
      · obtain ⟨made, file, isSource, comes⟩ := now.known other frame lookup
        exact ⟨Nat.lt_succ_of_lt made, file, isSource, comesFrom_of_grown comes fun _ => Nat.le_refl _⟩
  revised := by
    intro before after transaction id slot row frame revised sourced
    have lookup := frame_of_revised revised
    obtain ⟨⟨old, there, takes, rfl⟩, rfl⟩ := revised
    refine ⟨sourced.catalog_eq, sourced.issued_le, ?_⟩
    intro other found cached
    rw [lookup] at cached
    split at cached
    · next same =>
      subst same
      obtain rfl := Option.some.inj cached
      obtain ⟨made, file, isSource, comes⟩ := sourced.known other old there
      exact ⟨made, file, isSource, comes.table_eq,
        owns_marked (owns_takes comes.owns takes) _, comes.covers⟩
    · obtain ⟨made, file, isSource, comes⟩ := sourced.known other found cached
      exact ⟨made, file, isSource, comesFrom_of_grown comes fun _ => Nat.le_refl _⟩
  dropped := by
    intro before id _ sourced
    refine ⟨sourced.catalog_eq, sourced.issued_le, ?_⟩
    intro other frame cached
    have lookup := (Pool.frame_drop before.pool id other).symm.trans cached
    split at lookup
    · contradiction
    · obtain ⟨made, file, isSource, comes⟩ := sourced.known other frame lookup
      exact ⟨made, file, isSource, comesFrom_of_grown comes fun _ => Nat.le_refl _⟩

omit [EvictionPolicy μ] in
theorem sourced_of_relists (relists : Relists store after)
    (sourced : store.Sourced bound allowed catalog) : after.Sourced bound allowed after.catalog := by
  have issued := congrArg Pool.issued relists.pool_eq
  refine ⟨rfl, issued.symm ▸ sourced.issued_le, ?_⟩
  intro id frame cached
  obtain ⟨made, file, isAllowed, comes⟩ := sourced.known id frame (relists.pool_eq ▸ cached)
  refine ⟨Nat.lt_of_lt_of_eq made issued.symm, file, isAllowed, comesFrom_of_grown comes ?_⟩
  exact fun heap => Nat.le_of_eq (congrArg List.length (relists.content_eq heap)).symm

theorem catalog_upon_request (tidy : store.Tidy) (operation : Operation) :
    (store.upon (.request operation)).catalog = store.catalog := by
  rw [upon_request]
  exact keeps_of_did (closed_catalog store.catalog) (did_outcome tidy operation) rfl

/-- Deeds keep the pages to the files that are allowed, if those that are registered after them are. -/
theorem sourced_upon (tidy : store.Tidy) (sourced : store.Sourced bound allowed store.catalog)
    (deed : Deed) (fresh : ∀ id copy file, bound ≤ copy →
      (store.upon deed).catalog.file? id.table = some file → allowed id copy file) :
    (store.upon deed).Sourced bound allowed (store.upon deed).catalog := by
  by_cases isRequest : ∃ operation, deed = .request operation
  · obtain ⟨operation, rfl⟩ := isRequest
    rw [catalog_upon_request tidy operation] at fresh ⊢
    rw [upon_request]
    exact keeps_of_did (closed_sourced fresh) (did_outcome tidy operation) sourced
  · have relists := upon_relists store fun operation isThis => isRequest ⟨operation, isThis⟩
    exact sourced_of_relists relists sourced

/-- Whatever is done, each file stays registered under its own table. -/
theorem filed_upon (tidy : store.Tidy) (filed : store.catalog.Filed) (deed : Deed) :
    (store.upon deed).catalog.Filed := by
  by_cases isRequest : ∃ operation, deed = .request operation
  · obtain ⟨operation, rfl⟩ := isRequest
    rw [catalog_upon_request tidy operation]
    exact filed
  · have relists := upon_relists store fun operation isThis => isRequest ⟨operation, isThis⟩
    exact filed_of_relists relists filed

def vacant : Store Eviction.Oblivious where
  disk := ⟨[], []⟩
  catalog := Catalog.empty
  pool := Pool.empty 2 .refusing Listing.byArrival

end Store

structure Traced (μ : Type) where
  store : Store μ
  source : PageId → Option HeapFile

namespace Traced

variable {μ : Type} {state : Traced μ}

/-- A store without cached pages, so there is nothing to be traced. -/
def unused (store : Store μ) : Traced μ := ⟨store, fun _ => none⟩

structure Sound (state : Traced μ) : Prop where
  filed : state.store.catalog.Filed
  known : ∀ id frame, state.store.pool.frame? id = some frame →
    frame.copy < state.store.pool.issued ∧
      ∃ file, state.source id = some file ∧ state.store.ComesFrom id frame.page file

theorem sound_unused {store : Store μ} (filed : store.catalog.Filed)
    (empty : store.pool.frames = []) : (unused store).Sound := by
  refine ⟨filed, ?_⟩
  intro id frame cached
  rw [unused, Pool.frame?, empty] at cached
  contradiction

theorem tidy_of_sound (sound : state.Sound) : state.store.Tidy := by
  intro id frame cached
  obtain ⟨-, file, -, comes⟩ := sound.known id frame cached
  exact ⟨comes.owns.id_eq.trans (HeapFile.page_number comes.table_eq.symm), comes.owns.formed⟩

variable [EvictionPolicy μ]

/-- After a deed a copy that was there before has the source that it had, and a new one was read from
the file that is registered for its table. -/
def upon (state : Traced μ) (deed : Deed) : Traced μ :=
  let after := state.store.upon deed
  { store := after
    source := fun id => (after.pool.frame? id).bind fun frame =>
      if frame.copy < state.store.pool.issued then state.source id
      else after.catalog.file? id.table }

def after (state : Traced μ) (deeds : List Deed) : Traced μ := deeds.foldl upon state

theorem store_after (state : Traced μ) (deeds : List Deed) :
    (state.after deeds).store = deeds.foldl Store.upon state.store := by
  induction deeds generalizing state with
  | nil => rfl
  | cons deed rest ih => exact ih (state.upon deed)

theorem sound_upon (sound : state.Sound) (deed : Deed) : (state.upon deed).Sound := by
  let bound := state.store.pool.issued
  let allowed (id : PageId) (copy : Nat) (file : HeapFile) : Prop :=
    (if copy < bound then state.source id
      else (state.store.upon deed).catalog.file? id.table) = some file
  have begins : state.store.Sourced bound allowed state.store.catalog := by
    refine ⟨rfl, Nat.le_refl _, ?_⟩
    intro id frame cached
    obtain ⟨made, file, isSource, comes⟩ := sound.known id frame cached
    exact ⟨made, file, (if_pos made).trans isSource, comes⟩
  have fresh : ∀ id copy file, bound ≤ copy →
      (state.store.upon deed).catalog.file? id.table = some file → allowed id copy file :=
    fun _ _ _ isNew registered => (if_neg (Nat.not_lt.mpr isNew)).trans registered
  have ends := Store.sourced_upon (tidy_of_sound sound) begins deed fresh
  refine ⟨Store.filed_upon (tidy_of_sound sound) sound.filed deed, ?_⟩
  intro id frame cached
  obtain ⟨made, file, isAllowed, comes⟩ := ends.known id frame cached
  exact ⟨made, file, (congrArg (Option.bind · _) cached).trans isAllowed, comes⟩

theorem sound_after (sound : state.Sound) (deeds : List Deed) : (state.after deeds).Sound := by
  induction deeds generalizing state with
  | nil => exact sound
  | cons deed rest ih => exact ih (sound_upon sound deed)

end Traced

end PagedStore
