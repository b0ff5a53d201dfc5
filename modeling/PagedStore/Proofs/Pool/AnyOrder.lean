import PagedStore.Proofs.Eviction.Recency
import PagedStore.Proofs.Pool.Cleaning
import PagedStore.Proofs.Pool.Echo

/-!
The order in which a pool lists its pages shows nowhere if the policy is LRU-K. The policy names the
same page whatever the order, and a flush that walks the list ends in the same store. So two runs that
list their pages in different orders stay equal but for the listing.
-/

namespace PagedStore

def Listing.backwards : Listing := ⟨fun _ pages => pages.reverse, fun _ pages => pages.reverse_perm⟩

namespace Store

variable {store : Store Eviction.LruK}

def Ranked (store : Store Eviction.LruK) : Prop := store.pool.memory.Ranks store.pool.pages

theorem ranked_access (ranked : store.Ranked) {id : PageId} (cached : (store.pool.frame? id).isSome) :
    (EvictionPolicy.access store.pool.memory id).Ranks store.pool.pages := by
  apply Eviction.LruK.ranks_access ranked
  intro other
  refine ⟨Or.inr, ?_⟩
  rintro (rfl | known)
  · exact (Pool.isSome_frame_iff store.pool other).mp cached
  · exact known

theorem ranked_drop (ranked : store.Ranked) (id : PageId) :
    Ranked { store with pool := (store.pool.drop id).noteRemoval id } :=
  Eviction.LruK.ranks_forget ranked fun other => Keyed.mem_keys_erase id other store.pool.frames

theorem ranked_of_shift {after : Store Eviction.LruK} (shift : Shift store after)
    (ranked : store.Ranked) : after.Ranked := by
  cases shift with
  | read opening => exact ranked
  | @save id frame file cached dirty registered sized =>
    change store.pool.memory.Ranks (store.pool.alter id fun page => page.marked none).pages
    rw [Pool.pages_alter]
    exact ranked
  | list => exact ranked
  | ask => exact ranked
  | touch cached => exact ranked_access ranked cached
  | leave unwritable => exact ranked_drop ranked _

theorem closed_ranked : Closed Ranked where
  motion := by
    intro before after motion ranked
    cases motion with
    | shift shift => exact ranked_of_shift shift ranked
    | grow registered => exact ranked
    | @enter middle id file page uncached registered own whole decoded shifts room =>
      have now := keeps_of_shifts (fun _ _ => ranked_of_shift) shifts ranked
      exact Eviction.LruK.ranks_access now
        fun other => Keyed.mem_keys_put id other _ middle.pool.frames
  revised := by
    rintro before after transaction id slot row frame ⟨⟨old, cached, -, -⟩, rfl⟩ ranked
    change (EvictionPolicy.access before.pool.memory id).Ranks
      (before.pool.alter id fun _ => frame.page).pages
    rw [Pool.pages_alter]
    exact ranked_access ranked (cached ▸ rfl)
  dropped := fun _ ranked => ranked_drop ranked _

def relisted (listing : Listing) : View Eviction.LruK Eviction.LruK := ⟨id, fun _ => listing⟩

variable (listing : Listing)

theorem listed_perm (store : Store Eviction.LruK) :
    (store.seen (relisted listing)).pool.listed.Perm store.pool.listed :=
  (listing.perm store.pool.turn store.pool.pages).trans
    (store.pool.listing.perm store.pool.turn store.pool.pages).symm

theorem asks_relisted (ranked : store.Ranked) :
    (store.pool.seen (relisted listing)).askVictim =
      (store.pool.askVictim.1, store.pool.askVictim.2.seen (relisted listing)) := by
  have same : store.pool.memory.victim (listing.arrange store.pool.turn store.pool.pages) =
      store.pool.memory.victim store.pool.listed :=
    Eviction.LruK.victim_perm ranked (listing.perm store.pool.turn store.pool.pages)
      (store.pool.listing.perm store.pool.turn store.pool.pages)
  exact congrArg (fun answer => (answer, store.pool.askVictim.2.seen (relisted listing))) same

/-- A walk over the list that ends alike in any order echoes under another listing. -/
theorem echoes_walk {action : PageId → Action (Store Eviction.LruK) Unit}
    (each : ∀ id now, Echoes (relisted listing) (action id) (action id) now)
    (anyOrder : ∀ {left right : List PageId}, left.Perm right →
      left.forM action { store with pool := store.pool.afterListing } =
        right.forM action { store with pool := store.pool.afterListing }) :
    Echoes (relisted listing) (do (← listPages).forM action) (do (← listPages).forM action) store := by
  have echoed := echoes_forM each (store.seen (relisted listing)).pool.listed
    { store with pool := store.pool.afterListing }
  rw [Echoes, anyOrder (listed_perm listing store)] at echoed
  exact echoed

theorem faithful_relisted :
    Faithful (relisted listing) fun now => Ranked now ∧ Orderly now where
  closed := closed_and closed_ranked closed_orderly
  access := fun _ _ => rfl
  forget := fun _ _ => rfl
  asks := fun _ _ both => asks_relisted listing both.1
  flushesAll := by
    intro store _ both
    have listed := orderly_of_shift (.list store) both.2
    exact echoes_walk listing echoes_writeBack fun perm => forM_writeBack_perm perm listed
  flushes := by
    intro transaction store _ both
    have listed := orderly_of_shift (.list store) both.2
    exact echoes_walk listing (echoes_writeBackOf transaction)
      fun perm => forM_writeBackOf_perm transaction perm listed

/-- A pool with an LRU-K policy that begins empty, over files that are registered under their own
tables: after every run the pages with a history are the cached ones, and a run that lists the pages in
any other order answers the same and ends in the same store, with the same cached pages, the same
pages gone in the same order, the same bytes and the same traffic. -/
theorem independent_of_listing (origin : Store Eviction.LruK) (filed : origin.catalog.Filed)
    (unused : origin.pool.frames = []) (fresh : origin.pool.memory.histories = [])
    (listing : Listing) (operations : List Operation) :
    (Keyed.keys (origin.after operations).pool.memory.histories).Perm
        (origin.after operations).pool.pages ∧
      (∀ id, id ∈ (origin.after operations).pool.pages ↔
        (origin.after operations).pool.memory.history id ≠ []) ∧
      (origin.seen (relisted listing)).after operations =
        (origin.after operations).seen (relisted listing) ∧
      ∀ operation, (((origin.seen (relisted listing)).after operations).outcome operation).1 =
        ((origin.after operations).outcome operation).1 := by
  have noPages : origin.pool.pages = [] := congrArg Keyed.keys unused
  have orderly := orderly_of_unused filed unused
  have tidy := tidy_of_unused unused
  have ranked : origin.Ranked := by
    rw [Ranked, noPages]
    exact Eviction.LruK.ranks_start fresh
  have nodup : origin.pool.pages.Nodup := noPages ▸ List.nodup_nil
  have faithful := faithful_relisted listing
  obtain ⟨tidyThen, both⟩ := keeps_after faithful.closed tidy ⟨ranked, orderly⟩ operations
  obtain ⟨-, nodupThen⟩ := keeps_after closed_nodup tidy nodup operations
  have same := after_seen faithful tidy ⟨ranked, orderly⟩ operations
  refine ⟨?_, ?_, same, ?_⟩
  · exact (List.perm_ext_iff_of_nodup both.1.nodup nodupThen).mpr both.1.known
  · intro id
    refine ⟨both.1.accessed id, ?_⟩
    intro touched
    rw [← both.1.known, ← Keyed.isSome_lookup_iff]
    cases found : (origin.after operations).pool.memory.histories.lookup id with
    | some times => rfl
    | none =>
      rw [Eviction.LruK.history, found] at touched
      exact absurd rfl touched
  · intro operation
    rw [same]
    exact outcome_seen faithful tidyThen both operation

/-- The table with one row behind a pool of one page that lets go by the second-last access. -/
def recentStore : Store Eviction.LruK where
  disk := oneRowStore.disk
  catalog := oneRowStore.catalog
  pool := Pool.empty 1 ⟨2, by decide, 0, []⟩ Listing.byArrival

theorem independent_of_listing_backwards :
    (recentStore.catalog.Filed ∧ recentStore.pool.frames = [] ∧
      recentStore.pool.memory.histories = []) ∧
    (recentStore.seen (relisted Listing.backwards)).after [.fetch ⟨.file 0, 0⟩, .flushAll, .evict] =
      (recentStore.after [.fetch ⟨.file 0, 0⟩, .flushAll, .evict]).seen
        (relisted Listing.backwards) := by
  have filed : recentStore.catalog.Filed := Catalog.filed_add Catalog.filed_empty oneRowFile "a"
  have same := independent_of_listing recentStore filed rfl rfl Listing.backwards
    [.fetch ⟨.file 0, 0⟩, .flushAll, .evict]
  exact ⟨⟨filed, rfl, rfl⟩, same.2.2.1⟩

end Store

end PagedStore
