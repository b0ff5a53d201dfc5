import PagedStore.Eviction.Logged
import PagedStore.Proofs.Pool.Echo

/-!
The pool and its policy agree about what is cached. The calls that a policy receives are followed
with the policy that writes them down. At every moment the cached pages are those with an access and
no removal since, and whenever a victim is asked for, the list is that of the cached pages, each once.
This needs nothing of the policy. One that answers with a page of the list, if there is any, also
keeps the pool within its capacity.
-/

namespace PagedStore

namespace Eviction

/-- An access to the page has been reported, and no removal of it since. -/
def Reported (calls : List Call) (id : PageId) : Prop :=
  ∃ since before, calls = since ++ .access id :: before ∧ .forget id ∉ since

/-- Whenever a victim was asked for, the list had the reported pages of that moment, each once. -/
def Attentive (calls : List Call) : Prop :=
  ∀ later cached answer earlier, calls = later ++ .victim cached answer :: earlier →
    cached.Nodup ∧ ∀ id, id ∈ cached ↔ Reported earlier id

theorem reported_cons {call : Call} {calls : List Call} {id : PageId}
    (other : call ≠ .access id) :
    Reported (call :: calls) id ↔ call ≠ .forget id ∧ Reported calls id := by
  constructor
  · rintro ⟨since, before, split, kept⟩
    cases since with
    | nil => exact absurd (List.cons.inj split).1 other
    | cons first rest =>
      obtain ⟨rfl, same⟩ := List.cons.inj split
      rw [List.mem_cons, not_or] at kept
      exact ⟨Ne.symm kept.1, rest, before, same, kept.2⟩
  · rintro ⟨stays, since, before, rfl, kept⟩
    refine ⟨call :: since, before, rfl, ?_⟩
    rw [List.mem_cons, not_or]
    exact ⟨Ne.symm stays, kept⟩

theorem reported_access (page id : PageId) (calls : List Call) :
    Reported (.access page :: calls) id ↔ id = page ∨ Reported calls id := by
  by_cases same : id = page
  · subst same
    exact ⟨fun _ => Or.inl rfl, fun _ => ⟨[], calls, rfl, List.not_mem_nil⟩⟩
  · rw [reported_cons (by simpa using Ne.symm same)]
    simp [same]

theorem reported_forget (page id : PageId) (calls : List Call) :
    Reported (.forget page :: calls) id ↔ Reported calls id ∧ id ≠ page := by
  rw [reported_cons (by simp)]
  simp [and_comm, eq_comm]

theorem reported_victim (cached : List PageId) (answer : Option PageId) (id : PageId)
    (calls : List Call) : Reported (.victim cached answer :: calls) id ↔ Reported calls id := by
  rw [reported_cons (by simp)]
  simp

theorem attentive_cons {call : Call} {calls : List Call} (attentive : Attentive calls)
    (asked : ∀ cached answer, call = .victim cached answer →
      cached.Nodup ∧ ∀ id, id ∈ cached ↔ Reported calls id) : Attentive (call :: calls) := by
  intro later cached answer earlier split
  cases later with
  | nil =>
    obtain ⟨same, rfl⟩ := List.cons.inj split
    exact asked cached answer same
  | cons first rest => exact attentive rest cached answer earlier (List.cons.inj split).2

structure Accounts (calls : List Call) (pages : List PageId) : Prop where
  nodup : pages.Nodup
  reported : ∀ id, id ∈ pages ↔ Reported calls id
  attentive : Attentive calls

theorem accounts_nil : Accounts [] [] where
  nodup := List.nodup_nil
  reported := by
    intro id
    refine ⟨fun member => absurd member List.not_mem_nil, ?_⟩
    rintro ⟨since, before, split, -⟩
    cases since <;> cases split
  attentive := by
    intro later cached answer earlier split
    cases later <;> cases split

variable {calls : List Call} {pages : List PageId}

theorem accounts_access (accounts : Accounts calls pages) {id : PageId} {now : List PageId}
    (nodup : now.Nodup) (member : ∀ other, other ∈ now ↔ other = id ∨ other ∈ pages) :
    Accounts (.access id :: calls) now where
  nodup := nodup
  reported := by
    intro other
    rw [member, reported_access, accounts.reported]
  attentive := attentive_cons accounts.attentive fun _ _ absurd => by cases absurd

theorem accounts_forget (accounts : Accounts calls pages) {id : PageId} {now : List PageId}
    (nodup : now.Nodup) (member : ∀ other, other ∈ now ↔ other ∈ pages ∧ other ≠ id) :
    Accounts (.forget id :: calls) now where
  nodup := nodup
  reported := by
    intro other
    rw [member, reported_forget, accounts.reported]
  attentive := attentive_cons accounts.attentive fun _ _ absurd => by cases absurd

theorem accounts_victim (accounts : Accounts calls pages) {cached : List PageId}
    (perm : cached.Perm pages) (answer : Option PageId) :
    Accounts (.victim cached answer :: calls) pages where
  nodup := accounts.nodup
  reported := by
    intro id
    rw [reported_victim, accounts.reported]
  attentive := by
    apply attentive_cons accounts.attentive
    intro asked _ same
    obtain ⟨rfl, -⟩ := Call.victim.inj same
    refine ⟨perm.nodup_iff.mpr accounts.nodup, ?_⟩
    intro id
    rw [perm.mem_iff, accounts.reported]

theorem accounts_again (accounts : Accounts calls pages) {id : PageId} (member : id ∈ pages) :
    Accounts (.access id :: calls) pages := by
  apply accounts_access accounts accounts.nodup
  intro other
  refine ⟨Or.inr, ?_⟩
  rintro (rfl | known)
  · exact member
  · exact known

end Eviction

namespace Store

variable {μ : Type}

section Logged

variable [EvictionPolicy μ] {store : Store (Eviction.Logged μ)}

def Accounted (store : Store (Eviction.Logged μ)) : Prop :=
  Eviction.Accounts store.pool.memory.calls store.pool.pages

theorem accounted_drop (accounted : store.Accounted) (id : PageId) :
    Accounted { store with pool := (store.pool.drop id).noteRemoval id } :=
  Eviction.accounts_forget accounted (Keyed.nodup_keys_erase id accounted.nodup)
    fun other => Keyed.mem_keys_erase id other store.pool.frames

theorem accounted_of_shift {after : Store (Eviction.Logged μ)} (shift : Shift store after)
    (accounted : store.Accounted) : after.Accounted := by
  cases shift with
  | read opening => exact accounted
  | @save id frame file cached dirty registered sized =>
    change Eviction.Accounts _ (store.pool.alter id fun page => page.marked none).pages
    rw [Pool.pages_alter]
    exact accounted
  | list => exact accounted
  | ask =>
    exact Eviction.accounts_victim accounted (store.pool.listing.perm store.pool.turn _) _
  | @touch id cached =>
    exact Eviction.accounts_again accounted ((Pool.isSome_frame_iff store.pool id).mp cached)
  | leave unwritable => exact accounted_drop accounted _

theorem closed_accounted : Closed (Accounted (μ := μ)) where
  motion := by
    intro before after motion accounted
    cases motion with
    | shift shift => exact accounted_of_shift shift accounted
    | grow registered => exact accounted
    | @enter middle id file page uncached registered own whole decoded shifts room =>
      have now := keeps_of_shifts (fun _ _ => accounted_of_shift) shifts accounted
      exact Eviction.accounts_access now (Keyed.nodup_keys_put id _ now.nodup)
        fun other => Keyed.mem_keys_put id other _ middle.pool.frames
  revised := by
    rintro before after transaction id slot row frame ⟨⟨old, cached, -, -⟩, rfl⟩ accounted
    change Eviction.Accounts _ (before.pool.alter id fun _ => frame.page).pages
    rw [Pool.pages_alter]
    apply Eviction.accounts_again accounted
    rw [← Pool.isSome_frame_iff, cached, Option.isSome_some]
  dropped := fun _ accounted => accounted_drop accounted _

end Logged

/-- The store with a policy that behaves as before and writes down what it is told. -/
def logged (store : Store μ) : Store (Eviction.Logged μ) := store.seen ⟨Eviction.Logged.start, id⟩

def unlogged : View (Eviction.Logged μ) μ := ⟨Eviction.Logged.inner, id⟩

def Readable (store : Store μ) (id : PageId) : Prop :=
  ∃ file page disk, store.catalog.file? id.table = some file ∧
    file.readPage id store.disk = .ok page disk

variable [EvictionPolicy μ]

omit [EvictionPolicy μ] in
theorem echoes_listPages (store : Store (Eviction.Logged μ)) :
    Echoes unlogged listPages listPages store :=
  echoes_get (echoes_then (echoes_modify rfl) fun _ _ => echoes_pure _)

theorem faithful_unlogged : Faithful (unlogged (μ := μ)) fun _ => True where
  closed := ⟨fun _ _ => trivial, fun _ _ => trivial, fun _ _ => trivial⟩
  access := fun _ _ => rfl
  forget := fun _ _ => rfl
  asks := fun _ _ _ => rfl
  flushesAll := by
    intro store _ _
    exact echoes_then (echoes_listPages store) fun ids => echoes_forM echoes_writeBack ids
  flushes := by
    intro transaction store _ _
    exact echoes_then (echoes_listPages store) fun ids =>
      echoes_forM (echoes_writeBackOf transaction) ids

theorem closed_fits : Closed (Fits (μ := μ)) where
  motion := by
    intro before after motion fits
    cases motion with
    | shift shift => exact fits_of_shift shift fits
    | grow registered => exact ⟨fits.dutiful, fits.size_le⟩
    | @enter middle id file page uncached registered own whole decoded shifts room =>
      have now := fits_of_shifts shifts fits
      refine ⟨Eviction.dutiful_of_leads (.access id .refl) now.dutiful, ?_⟩
      have grown : (middle.pool.place id page).size ≤ middle.pool.size + 1 := by
        rw [Pool.size, Pool.place, Keyed.put, List.length_append, List.length_singleton]
        exact Nat.succ_le_succ (List.length_filter_le _ _)
      exact Nat.le_trans grown (room fits)
  revised := by
    rintro before after transaction id slot row frame ⟨-, rfl⟩ fits
    refine ⟨Eviction.dutiful_of_leads (.access id .refl) fits.dutiful, ?_⟩
    exact Nat.le_trans (Nat.le_of_eq (List.length_map _)) fits.size_le
  dropped := by
    intro before id _ fits
    refine ⟨Eviction.dutiful_of_leads (.forget id .refl) fits.dutiful, ?_⟩
    exact Nat.le_trans (List.length_filter_le _ _) fits.size_le

theorem closed_capacity (capacity : Nat) :
    Closed fun now : Store μ => now.pool.capacity = capacity where
  motion := fun motion same => (follows_of_motion motion).capacity_eq.trans same
  revised := by
    rintro before after transaction id slot row frame ⟨-, rfl⟩ same
    exact same
  dropped := fun _ same => same

/-- Without room for a single page, a page that could be read cannot be fetched. -/
theorem fetch_of_no_room {store : Store μ} (fits : store.Fits) (none : store.pool.capacity = 0)
    {id : PageId} (readable : store.Readable id) :
    (store.outcome (.fetch id)).1 = .error (.error .outOfPages) := by
  obtain ⟨file, page, disk, registered, read⟩ := readable
  have empty : store.pool.frames = [] :=
    List.eq_nil_of_length_eq_zero (Nat.le_zero.mp (none ▸ fits.size_le))
  have uncached : store.pool.frame? id = Option.none := by
    rw [Pool.frame?, empty]
    rfl
  have listed : store.pool.listed = [] := by
    have perm := store.pool.listing.perm store.pool.turn store.pool.pages
    have noPages : store.pool.pages = [] := by
      rw [Pool.pages, empty]
      rfl
    rw [noPages] at perm
    exact (congrArg _ noPages).trans perm.eq_nil
  have refuses : (EvictionPolicy.victim store.pool.memory store.pool.listed).1 = Option.none :=
    listed.symm ▸ fits.dutiful.silent _ .refl
  have full : store.pool.isFull = true := by
    rw [Pool.isFull, none]
    rfl
  have ends : Action.Ends (perform (.fetch id)) store (fun _ _ => False)
      fun fault _ => fault = .error .outOfPages := by
    unfold perform fetch
    rw [Action.ends_bind, Action.ends_bind, Action.ends_get, uncached]
    dsimp only
    rw [Action.ends_bind, Action.ends_ofExcept, Catalog.file_of_some registered]
    dsimp only
    rw [Action.ends_bind, onDisk, Action.ends_within, Action.Ends, read]
    dsimp only
    unfold bringIn evict
    rw [Action.ends_bind, Action.ends_get]
    dsimp only
    rw [if_pos full, Action.ends_bind, Action.ends_bind, Action.ends_get]
    dsimp only [Pool.askVictim]
    rw [Action.ends_bind, Action.ends_set, refuses]
    rfl
  rcases Action.outcome_of_ends ends with ⟨_, _, impossible⟩ | ⟨fault, refused, rfl⟩
  · exact impossible.elim
  · exact refused

/-- Whatever the policy answers and whatever the requests are, the cached pages are those whose access
has been reported without a removal since, the policy is always shown all of them and each once, and
each is kept under its own name. The policy that writes down its calls makes no difference to the run.
A policy that answers with a page of the list whenever there is one, and only then, keeps the pool
within its capacity; if that is zero, no page can be fetched. -/
theorem cached_pages_as_reported (origin : Store μ) (unused : origin.pool.frames = [])
    (operations : List Operation) :
    (origin.logged.after operations).seen unlogged = origin.after operations ∧
    (∀ operation, ((origin.logged.after operations).outcome operation).1 =
      ((origin.after operations).outcome operation).1) ∧
    (origin.after operations).pool.pages.Nodup ∧
    (∀ id frame, (id, frame) ∈ (origin.after operations).pool.frames → frame.page.id = id) ∧
    (∀ id, id ∈ (origin.after operations).pool.pages ↔
      Eviction.Reported (origin.logged.after operations).pool.memory.calls id) ∧
    Eviction.Attentive (origin.logged.after operations).pool.memory.calls ∧
    (Eviction.Dutiful origin.pool.memory →
      (origin.after operations).pool.size ≤ origin.pool.capacity ∧
      (origin.pool.capacity = 0 → (origin.after operations).pool.frames = [] ∧
        ∀ id, (origin.after operations).Readable id →
          ((origin.after operations).outcome (.fetch id)).1 = .error (.error .outOfPages))) := by
  have tidyLogged : origin.logged.Tidy := tidy_of_unused unused
  have tidyOrigin : origin.Tidy := tidy_of_unused unused
  have accountedOrigin : origin.logged.Accounted := by
    have noPages : origin.logged.pool.pages = [] := congrArg Keyed.keys unused
    rw [Accounted, noPages]
    exact Eviction.accounts_nil
  obtain ⟨tidyThen, accounted⟩ := keeps_after closed_accounted tidyLogged accountedOrigin operations
  obtain ⟨tidy, capacity⟩ := keeps_after (closed_capacity _) tidyOrigin rfl operations
  have same : (origin.logged.after operations).seen unlogged = origin.after operations :=
    (after_seen faithful_unlogged tidyLogged trivial operations).symm
  have pages : (origin.after operations).pool.pages =
      (origin.logged.after operations).pool.pages := by
    rw [← same]
    rfl
  have nodup : (origin.after operations).pool.pages.Nodup := pages ▸ accounted.nodup
  refine ⟨same, ?_, nodup, ?_, ?_, accounted.attentive, ?_⟩
  · intro operation
    rw [← same]
    exact (outcome_seen faithful_unlogged tidyThen trivial operation).symm
  · intro id frame member
    exact (tidy id frame (Keyed.lookup_of_mem nodup member)).1
  · intro id
    rw [pages]
    exact accounted.reported id
  · intro dutiful
    have begins : origin.Fits := by
      refine ⟨dutiful, ?_⟩
      rw [Pool.size, unused]
      exact Nat.zero_le _
    have fits := (keeps_after closed_fits tidyOrigin begins operations).2
    refine ⟨capacity ▸ fits.size_le, ?_⟩
    intro none
    have noRoom : (origin.after operations).pool.capacity = 0 := capacity.trans none
    refine ⟨List.eq_nil_of_length_eq_zero (Nat.le_zero.mp (noRoom ▸ fits.size_le)), ?_⟩
    exact fun id readable => fetch_of_no_room fits noRoom readable

/-- The table with one row behind a pool that has no room, whose policy lets the first page go. -/
def roomlessStore : Store Eviction.Oblivious :=
  { oneRowStore with pool := Pool.empty 0 .first Listing.byArrival }

theorem cached_pages_as_reported_without_room :
    (roomlessStore.pool.frames = [] ∧ Eviction.Dutiful roomlessStore.pool.memory ∧
      roomlessStore.pool.capacity = 0 ∧
      (roomlessStore.after [.fetch ⟨.file 0, 0⟩, .evict]).Readable ⟨.file 0, 0⟩) ∧
    (roomlessStore.after [.fetch ⟨.file 0, 0⟩, .evict]).pool.size ≤ roomlessStore.pool.capacity ∧
    ((roomlessStore.after [.fetch ⟨.file 0, 0⟩, .evict]).outcome (.fetch ⟨.file 0, 0⟩)).1 =
      .error (.error .outOfPages) := by
  have dutiful : Eviction.Dutiful roomlessStore.pool.memory := by
    refine ⟨Eviction.obliging_of_picks (Or.inl rfl), ?_⟩
    intro later leads
    rw [Eviction.eq_of_leads_oblivious leads]
    rfl
  have readable : (roomlessStore.after [.fetch ⟨.file 0, 0⟩, .evict]).Readable ⟨.file 0, 0⟩ :=
    ⟨oneRowFile, _, _, rfl, rfl⟩
  have agree := cached_pages_as_reported roomlessStore rfl [.fetch ⟨.file 0, 0⟩, .evict]
  obtain ⟨bounded, roomless⟩ := agree.2.2.2.2.2.2 dutiful
  exact ⟨⟨rfl, dutiful, rfl, readable⟩, bounded, (roomless rfl).2 _ readable⟩

end Store

end PagedStore
