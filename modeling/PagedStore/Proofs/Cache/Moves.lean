import PagedStore.Proofs.Cache.Coherence

/-!
Moving pages in a coherent store. Writing back, evicting, fetching and flushing are followed from a
coherent store to what they leave behind. Nothing that they do changes what a reader finds on any page.
Writing back copies what is current into the file and cannot fail. A page that cannot be fetched is
one that no file has, or one for which the policy let no other page go.
-/

namespace PagedStore

namespace Store

variable {μ : Type} {store : Store μ}

theorem uncached_of_not_listed {id : PageId} (unlisted : id ∉ store.pool.listed) :
    store.pool.frame? id = none := by
  rw [Pool.mem_listed_iff, ← Pool.isSome_frame_iff] at unlisted
  exact Option.not_isSome_iff_eq_none.mp unlisted

variable [EvictionPolicy μ]

structure Lasts (before after : Store μ) : Prop where
  coherent : after.Coherent
  catalog_eq : after.catalog = before.catalog
  follows : before.pool.Follows after.pool
  grown : ∀ file, before.disk.length file ≤ after.disk.length file

theorem lasts_trans {first second third : Store μ} (left : Lasts first second)
    (right : Lasts second third) : Lasts first third where
  coherent := right.coherent
  catalog_eq := right.catalog_eq.trans left.catalog_eq
  follows := Pool.follows_trans left.follows right.follows
  grown := fun file => Nat.le_trans (left.grown file) (right.grown file)

structure Carries (before after : Store μ) : Prop extends Lasts before after where
  keeps : ∀ trait, before.Keeps trait → after.Keeps trait

theorem carries_of_saves {after : Store μ} (saves : Saves store after) : Carries store after where
  coherent := saves.coherent
  catalog_eq := saves.catalog_eq
  follows := saves.follows
  grown := fun file => Nat.le_of_eq (saves.length_eq file).symm
  keeps := saves.keeps

theorem lasts_of_saves {after : Store μ} (saves : Saves store after) : Lasts store after :=
  (carries_of_saves saves).toLasts

theorem carries_trans {first second third : Store μ} (left : Carries first second)
    (right : Carries second third) : Carries first third :=
  ⟨lasts_trans left.toLasts right.toLasts, fun trait keeps => right.keeps trait (left.keeps trait keeps)⟩

theorem few_of_lasts {after : Store μ} (lasts : Lasts store after) (few : after.Few) : store.Few :=
  few_of_grown lasts.catalog_eq lasts.grown few

theorem few_iff_of_saves {after : Store μ} (saves : Saves store after) : after.Few ↔ store.Few := by
  refine ⟨few_of_lasts (lasts_of_saves saves), fun few table file registered => ?_⟩
  rw [HeapFile.extent_congr_length (saves.length_eq file.file)]
  exact few table file (saves.catalog_eq ▸ registered)

structure WrittenBack (before : Store μ) (id : PageId) (after : Store μ) : Prop where
  saves : Saves before after
  durable_eq : after.durable = Function.update before.durable id (before.current id)
  frame_eq : ∀ other, after.pool.frame? other =
    if other = id then (before.pool.frame? id).map (Frame.altered fun page => page.marked none)
    else before.pool.frame? other

theorem WrittenBack.written {after : Store μ} {id : PageId} (back : WrittenBack store id after) :
    after.durable id = after.current id := by
  rw [back.durable_eq, back.saves.current_eq, Function.update_self]

theorem writtenBack_of_agrees (coherent : store.Coherent) {id : PageId}
    (written : store.durable id = store.current id)
    (clean : ∀ frame, store.pool.frame? id = some frame → frame.page.isDirty = false) :
    WrittenBack store id store := by
  refine ⟨saves_refl coherent, ?_, ?_⟩
  · rw [← written, Function.update_eq_self]
  · intro other
    split
    · next same =>
      subst same
      cases cached : store.pool.frame? other with
      | none => rfl
      | some frame =>
        have unmarked : frame.page.dirtiedBy = none := Option.not_isSome_iff_eq_none.mp
          (Bool.not_eq_true _ ▸ clean frame cached)
        rw [Option.map_some, Frame.altered, Page.marked, ← unmarked]
    · rfl

theorem writtenBack_of_rewritten (coherent : store.Coherent) {id : PageId} {frame : Frame}
    {file : HeapFile} {disk : Disk} (cached : store.pool.frame? id = some frame)
    (dirty : frame.page.isDirty = true) (registered : store.catalog.file? id.table = some file)
    (owns : file.Owns id.number frame.page) (inside : id.number < file.extent store.disk)
    (rewritten : file.Rewritten store.disk id.number frame.page.reread disk) :
    WrittenBack store id
      { store with disk, pool := store.pool.alter id fun page => page.marked none } := by
  have whole := (coherent.sound id.table file registered).2
  have contents := Page.contents_reread owns.formed
  have current := current_of_cached cached
  have durable : Store.durable { store with disk } =
      Function.update store.durable id (store.current id) := by
    rw [durable_rewritten coherent.sound registered inside rewritten, contents, current]
  have wrote : Saves store { store with disk } := by
    refine ⟨?_, rfl, Pool.follows_refl _, rewritten.length_eq whole inside, ?_, ?_,
      fun _ keeps => keeps⟩
    · apply coherent_rewritten coherent registered rewritten
      intro other found there clean held now
      rw [durable] at now
      by_cases same : other = id
      · subst same
        obtain rfl := Option.some.inj (cached.symm.trans there)
        rw [dirty] at clean
        contradiction
      · rw [Function.update_of_ne same] at now
        exact (coherent.backed other found there).clean clean held now
    · funext other
      by_cases same : other = id
      · subst same
        have now := congrFun durable other
        rw [Function.update_self] at now
        have shown := current_of_cached
          (show ({ store with disk } : Store μ).pool.frame? other = some frame from cached)
        rw [shown, now, current, Option.map_map]
        rfl
      · rw [Store.current, Store.current, durable, Function.update_of_ne same]
    · intro other
      rw [durable]
      by_cases same : other = id
      · rw [same, Function.update_self]
        exact Or.inr rfl
      · rw [Function.update_of_ne same]
        exact Or.inl rfl
  have agrees : Store.durable { store with disk } id = Store.current { store with disk } id := by
    rw [durable, Function.update_self, wrote.current_eq]
  refine ⟨saves_trans wrote (saves_marked wrote.coherent agrees), durable, ?_⟩
  intro other
  refine (Pool.frame_alter store.pool id other _).trans ?_
  split
  · next same => rw [same]
  · rfl

theorem writeBack_ends (coherent : store.Coherent) (id : PageId) :
    Action.Ends (writeBack id) store (fun _ after => WrittenBack store id after)
      fun _ _ => False := by
  unfold writeBack
  rw [Action.ends_bind, Action.ends_get]
  cases cached : store.pool.frame? id with
  | none =>
    rw [Action.ends_pure]
    apply writtenBack_of_agrees coherent (current_of_uncached cached).symm
    intro frame found
    rw [cached] at found
    contradiction
  | some frame =>
    rcases coherent.backed id frame cached with ⟨⟨file, registered, owns, inside⟩, agrees⟩
    dsimp only
    cases dirty : frame.page.isDirty with
    | false =>
      rw [if_neg Bool.false_ne_true, Action.ends_pure]
      apply writtenBack_of_agrees coherent
      · rw [current_of_cached cached]
        cases held : store.durable id with
        | none => rfl
        | some contents => exact congrArg some (agrees dirty contents held).symm
      · intro other found
        obtain rfl := Option.some.inj (cached.symm.trans found)
        exact dirty
    | true =>
      have whole := (coherent.sound id.table file registered).2
      have sameTable : frame.page.id.table = id.table := by
        rw [owns.id_eq, page_number_eq coherent.sound registered]
      rw [if_pos rfl, sameTable, Catalog.file_of_some registered, Action.ends_bind,
        Action.ends_ofExcept]
      dsimp only
      rw [Action.ends_bind, onDisk, Action.ends_within]
      apply Action.ends_of_never_fails (HeapFile.writePage_ends whole id.number_lt owns inside)
      intro _ disk rewritten
      exact writtenBack_of_rewritten coherent cached dirty registered owns inside rewritten

theorem backed_of_saves {after : Store μ} (saves : Saves store after) {id : PageId} {page : Page}
    (uncached : store.pool.frame? id = none) (backed : store.Backed id page) :
    after.Backed id page := by
  rcases backed with ⟨⟨file, registered, owns, inside⟩, agrees⟩
  have registeredAfter : after.catalog.file? id.table = some file := saves.catalog_eq ▸ registered
  have durable : after.durable id = store.durable id := by
    rcases saves.durable_or id with kept | copied
    · exact kept
    · rw [copied, current_of_uncached uncached]
  refine ⟨⟨file, registeredAfter, owns, ?_⟩, fun isClean held now => ?_⟩
  · rw [HeapFile.extent_congr_length (saves.length_eq file.file)]
    exact inside
  · exact agrees isClean held (durable.symm.trans now)

theorem flushPage_ends (coherent : store.Coherent) (id : PageId) :
    Action.Ends (flushPage id) store
      (fun cached after => cached = (store.pool.frame? id).isSome ∧ WrittenBack store id after)
      fun _ _ => False := by
  unfold flushPage
  rw [Action.ends_bind, Action.ends_get, Action.ends_bind]
  apply Action.ends_of_never_fails (writeBack_ends coherent id)
  intro _ after back
  exact ⟨rfl, back⟩

/-- Every page of the listing that is chosen when its turn comes has been written back. The choice of
a page must not depend on what has happened to the others. -/
theorem writeBackWhere_ends (chosen : Store μ → PageId → Prop)
    [∀ store id, Decidable (chosen store id)]
    (apart : ∀ before id after, WrittenBack before id after →
      ∀ other, other ≠ id → (chosen after other ↔ chosen before other))
    (coherent : store.Coherent) (ids : List PageId) :
    Action.Ends (ids.forM fun id => do if chosen (← get) id then writeBack id) store
      (fun _ after => Saves store after ∧ after.durable = fun id =>
        if id ∈ ids ∧ chosen store id then store.current id else store.durable id)
      fun _ _ => False := by
  induction ids generalizing store with
  | nil =>
    refine ⟨saves_refl coherent, ?_⟩
    funext id
    rw [if_neg (fun claim => List.not_mem_nil claim.1)]
  | cons id rest ih =>
    rw [List.forM_eq_forM, List.forM_cons, ← List.forM_eq_forM, Action.ends_bind, Action.ends_bind,
      Action.ends_get]
    by_cases isChosen : chosen store id
    · rw [if_pos isChosen]
      apply Action.ends_of_never_fails (writeBack_ends coherent id)
      intro _ middle back
      apply Action.ends_of_never_fails (ih back.saves.coherent)
      rintro _ after ⟨saves, durable⟩
      refine ⟨saves_trans back.saves saves, ?_⟩
      rw [durable, back.saves.current_eq, back.durable_eq]
      funext other
      by_cases same : other = id
      · rw [same, Function.update_self, ite_self, if_pos ⟨List.mem_cons_self, isChosen⟩]
      · have stays := apart store id middle back other same
        rw [Function.update_of_ne same]
        simp only [List.mem_cons, same, false_or, stays]
    · rw [if_neg isChosen]
      apply Action.ends_of_never_fails (ih coherent)
      rintro _ after ⟨saves, durable⟩
      refine ⟨saves, ?_⟩
      rw [durable]
      funext other
      by_cases same : other = id
      · rw [same, if_neg (fun claim => isChosen claim.2), if_neg (fun claim => isChosen claim.2)]
      · simp only [List.mem_cons, same, false_or]

theorem listPages_ends (coherent : store.Coherent) :
    Action.Ends listPages store
      (fun ids after => ids = store.pool.listed ∧ Saves store after ∧
        after.durable = store.durable ∧ after.pool.frames = store.pool.frames)
      fun _ _ => False :=
  ⟨rfl, saves_sameFrames coherent ⟨rfl, .refl⟩ rfl, rfl, rfl⟩

theorem flushAll_ends (coherent : store.Coherent) :
    Action.Ends flushAll store
      (fun _ after => Saves store after ∧ after.durable = store.current) fun _ _ => False := by
  unfold flushAll
  rw [Action.ends_bind]
  apply Action.ends_of_never_fails (listPages_ends coherent)
  rintro _ listed ⟨rfl, saves, durable, -⟩
  have everyPage := writeBackWhere_ends (fun _ _ => True)
    (fun _ _ _ _ _ _ => Iff.rfl) saves.coherent store.pool.listed
  apply Action.ends_of_never_fails everyPage
  rintro _ after ⟨written, durableAfter⟩
  refine ⟨saves_trans saves written, ?_⟩
  rw [durableAfter, saves.current_eq, durable]
  funext id
  by_cases isListed : id ∈ store.pool.listed
  · rw [if_pos ⟨isListed, trivial⟩]
  · rw [if_neg (fun claim => isListed claim.1),
      current_of_uncached (uncached_of_not_listed isListed)]

theorem dirtiedBy_of_writtenBack {before after : Store μ} {id : PageId}
    (back : WrittenBack before id after) {other : PageId} (differs : other ≠ id) :
    dirtiedBy? after other = dirtiedBy? before other := by
  rw [dirtiedBy?, dirtiedBy?, back.frame_eq other, if_neg differs]

theorem flushTransaction_ends (coherent : store.Coherent) (transaction : Transaction) :
    Action.Ends (flushTransaction transaction) store
      (fun _ after => Saves store after ∧ after.durable = fun id =>
        if dirtiedBy? store id = some transaction then store.current id else store.durable id)
      fun _ _ => False := by
  unfold flushTransaction
  rw [Action.ends_bind]
  apply Action.ends_of_never_fails (listPages_ends coherent)
  rintro _ listed ⟨rfl, saves, durable, sameFrames⟩
  have owners : ∀ id, dirtiedBy? listed id = dirtiedBy? store id := by
    intro id
    rw [dirtiedBy?, dirtiedBy?, Pool.frame?, Pool.frame?, sameFrames]
  have ownPages := writeBackWhere_ends
    (fun store id => dirtiedBy? store id = some transaction)
    (fun before id after back other differs => by rw [dirtiedBy_of_writtenBack back differs])
    saves.coherent store.pool.listed
  apply Action.ends_of_never_fails ownPages
  rintro _ after ⟨written, durableAfter⟩
  refine ⟨saves_trans saves written, ?_⟩
  rw [durableAfter, saves.current_eq, durable]
  funext id
  rw [owners id]
  by_cases isListed : id ∈ store.pool.listed
  · simp only [isListed, true_and]
  · have uncached := uncached_of_not_listed isListed
    rw [if_neg (fun claim => isListed claim.1), current_of_uncached uncached, ite_self]

theorem discard_ends (coherent : store.Coherent) (id : PageId) :
    Action.Ends (discard id) store
      (fun _ after => after.Coherent ∧ after.catalog = store.catalog ∧
        store.pool.Follows after.pool ∧ after.disk = store.disk ∧
        after.reference = store.reference.discarded id ∧ ∀ trait, store.Keeps trait → after.Keeps trait)
      fun _ _ => False := by
  unfold discard
  rw [Action.ends_bind, Action.ends_get]
  have lookup := Pool.frame_drop store.pool id
  have stays : ∀ other frame, (store.pool.drop id).frame? other = some frame →
      store.pool.frame? other = some frame := by
    intro other frame found
    rw [lookup other] at found
    split at found
    · contradiction
    · exact found
  have dropped : Store.current { store with pool := store.pool.drop id } =
      Function.update store.current id (store.durable id) := by
    funext other
    rw [Store.current, lookup other]
    by_cases same : other = id
    · rw [if_pos same, same, Function.update_self]
      exact Option.map_id'
    · rw [if_neg same, Function.update_of_ne same]
      rfl
  cases cached : store.pool.frame? id with
  | none =>
    refine ⟨coherent, rfl, Pool.follows_refl _, rfl, ?_, fun _ keeps => keeps⟩
    rw [Reference.discarded, reference]
    dsimp only
    rw [← current_of_uncached cached, Function.update_eq_self]
  | some frame =>
    refine ⟨?_, rfl, ⟨rfl, .forget id .refl⟩, rfl, ?_, ?_⟩
    · apply coherent_withPool coherent
      intro other kept found
      exact coherent.backed other kept (stays other kept found)
    · rw [Reference.discarded, reference, reference]
      exact congrArg (Reference.mk store.durable) dropped
    · intro trait keeps other kept found
      exact keeps other kept (stays other kept found)

structure Hospitable (store : Store μ) : Prop where
  capacity_pos : 0 < store.pool.capacity
  obliging : Eviction.Obliging store.pool.memory

/-- The policy names no page to leave. -/
def Refuses (store : Store μ) : Prop :=
  (EvictionPolicy.victim store.pool.memory store.pool.listed).1 = none

theorem not_refuses (hospitable : store.Hospitable) (full : store.pool.isFull) :
    ¬ store.Refuses := by
  have some_frame : store.pool.frames ≠ [] := by
    intro none
    have pos := hospitable.capacity_pos
    rw [Pool.isFull, Pool.size, none, decide_eq_true_eq] at full
    exact absurd full (Nat.not_le.mpr pos)
  have listed : store.pool.listed ≠ [] := by
    intro none
    have perm := store.pool.listing.perm store.pool.turn store.pool.pages
    have empty : store.pool.pages = [] := by
      rw [Pool.listed] at none
      rw [none] at perm
      exact perm.symm.eq_nil
    rw [Pool.pages, Keyed.keys, List.map_eq_nil_iff] at empty
    exact some_frame empty
  intro refuses
  rcases hospitable.obliging _ .refl store.pool.listed listed with ⟨page, -, answer⟩
  rw [Refuses, answer] at refuses
  contradiction

theorem hospitable_of_follows {after : Store μ} (follows : store.pool.Follows after.pool)
    (hospitable : store.Hospitable) : after.Hospitable where
  capacity_pos := follows.capacity_eq ▸ hospitable.capacity_pos
  obliging := fun later leads =>
    hospitable.obliging later (Eviction.leads_trans follows.leads leads)

theorem hospitable_of_saves {after : Store μ} (saves : Saves store after)
    (hospitable : store.Hospitable) : after.Hospitable :=
  hospitable_of_follows saves.follows hospitable

/-- The page that leaves is the one that the policy names, and its file has all of it then. -/
theorem evict_ends (coherent : store.Coherent) :
    Action.Ends evict store
      (fun _ after => ∃ id, Saves store after ∧
        after.durable = Function.update store.durable id (store.current id) ∧
        ∀ other, after.pool.frame? other = if other = id then none else store.pool.frame? other)
      fun fault after => fault = .error .outOfPages ∧ store.Refuses ∧ Saves store after ∧
        after.durable = store.durable := by
  let asked : Store μ := { store with pool := store.pool.askVictim.2 }
  have askedSaves : Saves store asked :=
    saves_sameFrames coherent ⟨rfl, .victim store.pool.listed .refl⟩ rfl
  have askedFrame : ∀ other, asked.pool.frame? other = store.pool.frame? other := fun _ => rfl
  unfold evict
  rw [Action.ends_bind, Action.ends_get]
  dsimp only
  rw [Action.ends_bind, Action.ends_set]
  cases answer : store.pool.askVictim.1 with
  | none =>
    rw [Action.ends_fail]
    exact ⟨rfl, answer, askedSaves, rfl⟩
  | some id =>
    dsimp only
    rw [Action.ends_bind, Action.ends_attempt]
    apply Action.ends_of_never_fails (writeBack_ends askedSaves.coherent id)
    intro _ middle back
    have dropped := saves_drop back.saves.coherent back.written
    have told : Saves { middle with pool := middle.pool.drop id }
        { middle with pool := (middle.pool.drop id).noteRemoval id } :=
      saves_sameFrames dropped.coherent ⟨rfl, .forget id .refl⟩ rfl
    refine ⟨id, saves_trans askedSaves (saves_trans back.saves (saves_trans dropped told)), ?_, ?_⟩
    · exact back.durable_eq
    · intro other
      refine (Pool.frame_drop middle.pool id other).trans ?_
      rw [back.frame_eq other]
      by_cases same : other = id
      · rw [if_pos same, if_pos same]
      · rw [if_neg same, if_neg same, if_neg same, askedFrame]

theorem place_ends (coherent : store.Coherent) {id : PageId} {page : Page}
    (uncached : store.pool.frame? id = none) (backed : store.Backed id page)
    (clean : page.isDirty = false) (exact : ∀ trait, page.Keeps trait) :
    Action.Ends (do
        let frame := (← get).pool.nextFrame page
        modifyPool fun pool => (pool.place id page).noteAccess id
        pure frame) store
      (fun frame after => Saves store after ∧ after.pool.frame? id = some frame ∧ frame.page = page)
      fun _ _ => False := by
  have placed := saves_place coherent uncached backed clean exact
  have told : Saves { store with pool := store.pool.place id page }
      { store with pool := (store.pool.place id page).noteAccess id } :=
    saves_sameFrames placed.coherent ⟨rfl, .access id .refl⟩ rfl
  have found : ((store.pool.place id page).noteAccess id).frame? id =
      some (store.pool.nextFrame page) := by
    refine (Pool.frame_place store.pool id id page).trans ?_
    rw [if_pos rfl]
  exact ⟨saves_trans placed told, found, rfl⟩

theorem bringIn_ends (coherent : store.Coherent) {id : PageId} {page : Page}
    (uncached : store.pool.frame? id = none) (backed : store.Backed id page)
    (clean : page.isDirty = false) (exact : ∀ trait, page.Keeps trait) :
    Action.Ends (bringIn id page) store
      (fun frame after => Saves store after ∧ after.pool.frame? id = some frame ∧ frame.page = page)
      fun fault after => fault = .error .outOfPages ∧ ¬ store.Hospitable ∧ Saves store after := by
  unfold bringIn
  rw [Action.ends_bind, Action.ends_get]
  cases full : store.pool.isFull with
  | false =>
    rw [if_neg Bool.false_ne_true]
    apply Action.ends_of_never_fails (place_ends coherent uncached backed clean exact)
    intro frame after ends
    exact ends
  | true =>
    rw [if_pos rfl, Action.ends_bind]
    apply Action.ends_imp (evict_ends coherent)
    · rintro _ middle ⟨victim, saves, -, frames⟩
      have absent : middle.pool.frame? id = none := by
        rw [frames id, uncached, ite_self]
      have still := backed_of_saves saves uncached backed
      apply Action.ends_of_never_fails (place_ends saves.coherent absent still clean exact)
      rintro frame after ⟨placed, cached, samePage⟩
      exact ⟨saves_trans saves placed, cached, samePage⟩
    · rintro fault after ⟨rfl, refuses, saves, -⟩
      exact ⟨rfl, fun hospitable => not_refuses hospitable full refuses, saves⟩

def setting (store : Store μ) : Reference.Setting := ⟨store.catalog.file?, store.Hospitable⟩

theorem fetch_ends (coherent : store.Coherent) (id : PageId) :
    Action.Ends (fetch id) store
      (fun frame after => Saves store after ∧ after.pool.frame? id = some frame)
      fun fault after => ∃ cause, fault = .error cause ∧ store.reference.Missing store.setting id cause ∧
        Saves store after := by
  unfold fetch
  rw [Action.ends_bind, Action.ends_get]
  cases cached : store.pool.frame? id with
  | some frame =>
    exact ⟨saves_sameFrames coherent ⟨rfl, .access id .refl⟩ rfl, cached⟩
  | none =>
    dsimp only
    cases registered : store.catalog.file? id.table with
    | none =>
      rw [Catalog.file_of_none registered, Action.ends_bind, Action.ends_ofExcept]
      exact ⟨_, rfl, Reference.Missing.table registered, saves_refl coherent⟩
    | some file =>
      have whole := (coherent.sound id.table file registered).2
      rw [Catalog.file_of_some registered, Action.ends_bind, Action.ends_ofExcept]
      dsimp only
      rw [Action.ends_bind, onDisk, Action.ends_within]
      have own := (coherent.sound id.table file registered).1.symm
      apply Action.ends_imp (HeapFile.readPage_ends whole own)
      · rintro page disk ⟨inside, found, sameFiles⟩
        have owns := HeapFile.owns_of_pageAt whole inside found
        have unmarked := (Page.decode_eq_ok_iff.mp found).2.2.2.2.2
        have clean : page.isDirty = false := by
          rw [Page.isDirty, unmarked]
          rfl
        have counted := saves_sameFiles coherent sameFiles
        have backed : store.Backed id page := by
          refine ⟨⟨file, registered, owns, inside⟩, fun _ held now => ?_⟩
          have told := (isSome_durable_iff coherent.sound registered).mp (now ▸ rfl)
          rw [durable_of_pageAt registered told found] at now
          exact Option.some.inj now
        have stillBacked := backed_of_saves counted cached backed
        apply Action.ends_imp
          (bringIn_ends counted.coherent cached stillBacked clean fun trait => Page.keeps_of_decode trait found)
        · rintro frame after ⟨saves, there, -⟩
          exact ⟨saves_trans counted saves, there⟩
        · rintro fault after ⟨rfl, unhospitable, saves⟩
          refine ⟨_, rfl, Reference.Missing.room ?_, saves_trans counted saves⟩
          intro hospitable
          exact unhospitable (hospitable_of_saves counted hospitable)
      · rintro fault disk ⟨outside, rfl, rfl⟩
        have absent : store.current id = none := by
          rw [current_of_uncached cached]
          exact durable_of_outside registered
            (Nat.le_trans (file.pageCount_le_extent store.disk) outside)
        exact ⟨_, rfl, Reference.Missing.page registered absent, saves_refl coherent⟩

/-- A page that is there is fetched, unless the policy lets no page go. -/
theorem fetch_ends_of_present (coherent : store.Coherent) {id : PageId} {file : HeapFile}
    (registered : store.catalog.file? id.table = some file) (present : (store.current id).isSome) :
    Action.Ends (fetch id) store
      (fun frame after => Saves store after ∧ after.pool.frame? id = some frame)
      fun fault after => fault = .error .outOfPages ∧ ¬ store.Hospitable ∧ Saves store after := by
  apply Action.ends_imp (fetch_ends coherent id)
  · exact fun _ _ fetched => fetched
  · rintro fault after ⟨cause, rfl, missing, saves⟩
    obtain ⟨rfl, unhospitable⟩ := Reference.roomless_of_missing registered present missing
    exact ⟨rfl, unhospitable, saves⟩

end Store

end PagedStore
