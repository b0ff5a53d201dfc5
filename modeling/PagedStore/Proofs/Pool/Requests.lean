import PagedStore.Proofs.Pool.Motion

/-!
Every request is a run of motions, and at most one revision or loss of a page at its end. This is the
one place where the actions on rows and the flushes are followed; what the motions, the revision and
the loss keep is then kept by every sequence of requests. The last part carries the invariants that
hold of any store whatever its files and its catalog.
-/

namespace PagedStore

theorem Pool.alter_marked {μ : Type} (pool : Pool μ) (id : PageId) (page : Page)
    (change : Page → Page) :
    (pool.alter id fun _ => page).alter id change = pool.alter id fun _ => change page := by
  rw [alter, alter, alter, Keyed.alter_alter]
  rfl

namespace Store

variable {μ : Type} {store : Store μ} [EvictionPolicy μ]

structure Turned (before : Store μ) (id : PageId) (slot : Nat) (row : Option Row) (frame : Frame)
    (after : Store μ) : Prop where
  cached : ∃ old, before.pool.frame? id = some old ∧ old.page.Takes slot row ∧
    frame = old.altered fun page => page.setSlot slot row
  named : frame.page.id = id
  after_eq : after = { before with pool := before.pool.alter id fun _ => frame.page }

theorem settle_revises {middle turned : Store μ} {id : PageId} {slot : Nat} {row : Option Row}
    {frame : Frame} (turn : Turned middle id slot row frame turned) (transaction : Transaction) :
    Action.Ends (settle transaction frame) turned
      (fun settled after => Revised middle transaction id slot row settled after)
      fun _ _ => False := by
  obtain ⟨⟨old, cached, takes, rfl⟩, named, rfl⟩ := turn
  refine ⟨⟨old, cached, takes, rfl⟩, ?_⟩
  have marked := Pool.alter_marked middle.pool id (old.page.setSlot slot row)
    fun page => page.marked (some transaction)
  rw [named]
  exact congrArg (fun pool => { middle with pool := Pool.noteAccess pool id }) marked

omit [EvictionPolicy μ] in
theorem proper_of_decode {id : PageId} {schema : Schema} {image : Bytes} {page : Page}
    (decoded : Page.decode id schema image = .ok page) : page.id = id ∧ page.Formed :=
  ⟨(Page.decode_eq_ok_iff.mp decoded).2.1, Page.formed_decode decoded⟩

theorem tidy_of_shift {after : Store μ} (shift : Shift store after) (tidy : store.Tidy) :
    after.Tidy := by
  intro id frame cached
  cases shift with
  | read opening => exact tidy id frame cached
  | save found dirty registered sized =>
    have lookup := (Pool.frame_alter store.pool _ id _).symm.trans cached
    split at lookup
    · obtain ⟨old, there, rfl⟩ := Option.map_eq_some_iff.mp lookup
      exact ⟨(tidy id old there).1, Page.formed_marked (tidy id old there).2 none⟩
    · exact tidy id frame lookup
  | list => exact tidy id frame cached
  | ask => exact tidy id frame cached
  | touch found => exact tidy id frame cached
  | leave unwritable =>
    have lookup := (Pool.frame_drop store.pool _ id).symm.trans cached
    split at lookup
    · contradiction
    · exact tidy id frame lookup

theorem tidy_of_place (tidy : store.Tidy) {id : PageId} {page : Page}
    (proper : page.id = id ∧ page.Formed) :
    Tidy { store with pool := (store.pool.place id page).noteAccess id } := by
  intro other frame cached
  have lookup := (Pool.frame_place store.pool id other page).symm.trans cached
  split at lookup
  · next same =>
    obtain rfl := Option.some.inj lookup
    exact same ▸ proper
  · exact tidy other frame lookup

theorem tidy_of_motion {after : Store μ} (motion : Motion store after) (tidy : store.Tidy) :
    after.Tidy := by
  cases motion with
  | shift shift => exact tidy_of_shift shift tidy
  | grow registered => exact fun id frame cached => tidy id frame cached
  | enter uncached registered own whole decoded shifts room =>
    exact tidy_of_place (keeps_of_shifts (fun _ _ => tidy_of_shift) shifts tidy)
      (proper_of_decode decoded)

theorem catalog_of_motion {after : Store μ} (motion : Motion store after) :
    after.catalog = store.catalog := by
  cases motion with
  | shift shift => exact catalog_of_shift shift
  | grow registered => rfl
  | enter uncached registered own whole decoded shifts room =>
    have same := catalog_of_shifts shifts
    exact same

theorem follows_of_motion {after : Store μ} (motion : Motion store after) :
    store.pool.Follows after.pool := by
  cases motion with
  | shift shift => exact follows_of_shift shift
  | grow registered => exact Pool.follows_refl _
  | enter uncached registered own whole decoded shifts room =>
    exact Pool.follows_trans (follows_of_shifts shifts) ⟨rfl, .access _ .refl⟩

/-- What every motion keeps, a run of motions keeps. -/
theorem keeps_of_moved {P : Store μ → Prop} (keeps : ∀ a b, Motion a b → P a → P b)
    {after : Store μ} (moved : Moved store after) (holds : P store) : P after := by
  induction moved with
  | refl => exact holds
  | tail _ motion ih => exact keeps _ _ motion ih

theorem tidy_of_moved {after : Store μ} (moved : Moved store after) (tidy : store.Tidy) :
    after.Tidy :=
  keeps_of_moved (fun _ _ => tidy_of_motion) moved tidy

theorem catalog_of_moved {after : Store μ} (moved : Moved store after) :
    after.catalog = store.catalog :=
  keeps_of_moved (P := fun now => now.catalog = store.catalog)
    (fun _ _ motion same => (catalog_of_motion motion).trans same) moved rfl

omit [EvictionPolicy μ] in
theorem storeOn_turns (tidy : store.Tidy) {id : PageId} {frame : Frame}
    (cached : store.pool.frame? id = some frame) (row : Row) :
    Action.Ends (storeOn frame row) store
      (fun stored after => ∃ slot,
        Turned store id slot (some (row.stamped (RecordId.ofSlot id slot))) stored after)
      fun _ after => after = store := by
  obtain ⟨named, formed⟩ := tidy id frame cached
  unfold storeOn
  rw [Action.ends_bind, Action.ends_ofExcept]
  cases inserted : frame.page.insert row with
  | error cause => exact rfl
  | ok placed =>
    obtain ⟨slot, takes, same⟩ := Page.takes_of_insert formed inserted
    rw [named] at takes same
    dsimp only
    rw [same]
    have own : (frame.page.setSlot slot
        (some (row.stamped (RecordId.ofSlot id slot)))).id = id := named
    unfold replacePage
    rw [own]
    exact ⟨slot, ⟨frame, cached, takes, rfl⟩, named, rfl⟩

def Lodged (before : Store μ) (row : Row) (frame : Frame) (after : Store μ) : Prop :=
  ∃ middle id slot, Moved before middle ∧
    Turned middle id slot (some (row.stamped (RecordId.ofSlot id slot))) frame after

theorem storeOnFirst_moves (tidy : store.Tidy) (row : Row) (ids : List PageId) :
    Action.Ends (storeOnFirst row ids) store
      (fun stored after => match stored with
        | none => Moved store after
        | some frame => Lodged store row frame after)
      fun _ after => Moved store after := by
  induction ids generalizing store with
  | nil => exact .refl
  | cons id rest ih =>
    rw [storeOnFirst, Action.ends_bind]
    apply Action.ends_imp (fetch_moves store id)
    · rintro frame middle ⟨moved, cached⟩
      have tidyNow := tidy_of_moved moved tidy
      by_cases full : frame.page.freeCount = 0
      · rw [if_pos full]
        apply Action.ends_imp (ih tidyNow)
        · intro stored after ends
          cases stored with
          | none => exact moved.trans ends
          | some stored =>
            obtain ⟨last, other, slot, later, turned⟩ := ends
            exact ⟨last, other, slot, moved.trans later, turned⟩
        · exact fun _ _ later => moved.trans later
      · rw [if_neg full, Action.ends_map]
        apply Action.ends_imp (storeOn_turns tidyNow cached row)
        · rintro stored after ⟨slot, turned⟩
          exact ⟨middle, id, slot, moved, turned⟩
        · rintro _ _ rfl
          exact moved
    · exact fun _ _ moved => moved

omit [EvictionPolicy μ] in
theorem appendPage_appends (file : HeapFile) (disk : Disk) :
    Action.Ends file.appendPage disk
      (fun number after => number = file.numPages disk ∧ after = file.lengthened disk)
      fun _ _ => False :=
  ⟨rfl, rfl⟩

theorem storeIn_moves (tidy : store.Tidy) {table : TableId} {file : HeapFile}
    (registered : store.catalog.file? table = some file) (row : Row) :
    Action.Ends (storeIn file row) store (fun frame after => Lodged store row frame after)
      fun _ after => Moved store after := by
  unfold storeIn
  rw [Action.ends_bind, Action.ends_ofExcept]
  cases row.checkAgainst file.schema with
  | error cause => exact .refl
  | ok _ =>
    dsimp only
    rw [Action.ends_bind, Action.ends_get]
    split
    · exact .refl
    · rw [Action.ends_bind]
      apply Action.ends_imp (storeOnFirst_moves tidy row _)
      · intro stored middle ends
        cases stored with
        | some frame => exact ends
        | none =>
          have now : middle.catalog.file? table = some file := by
            rw [catalog_of_moved ends, registered]
          dsimp only
          rw [Action.ends_bind, onDisk, Action.ends_within]
          apply Action.ends_of_never_fails (appendPage_appends file middle.disk)
          rintro number _ ⟨rfl, rfl⟩
          have grown := ends.tail (.grow now)
          rw [Action.ends_bind]
          apply Action.ends_imp (fetch_moves _ (file.page (file.pageCount middle.disk)))
          · rintro frame last ⟨moved, cached⟩
            have reached := grown.trans moved
            apply Action.ends_imp (storeOn_turns (tidy_of_moved reached tidy) cached row)
            · rintro stored after ⟨slot, turned⟩
              exact ⟨last, _, slot, reached, turned⟩
            · rintro _ _ rfl
              exact reached
          · exact fun _ _ moved => grown.trans moved
      · exact fun _ _ moved => moved

theorem insert_moves (tidy : store.Tidy) (transaction : Transaction) (table : TableId) (row : Row) :
    Action.Ends (insert transaction table row) store
      (fun frame after => ∃ middle id slot, Moved store middle ∧ Revised middle transaction id slot
        (some (row.stamped (RecordId.ofSlot id slot))) frame after)
      fun _ after => Moved store after := by
  unfold insert
  rw [Action.ends_bind, Action.ends_get, Action.ends_bind, Action.ends_ofExcept]
  cases registered : store.catalog.file? table with
  | none => rw [Catalog.file_of_none registered]
  | some file =>
    rw [Catalog.file_of_some registered]
    dsimp only
    rw [Action.ends_bind]
    apply Action.ends_imp (storeIn_moves tidy registered row)
    · rintro frame placed ⟨middle, id, slot, moved, turned⟩
      apply Action.ends_of_never_fails (settle_revises turned transaction)
      intro settled after revised
      exact ⟨middle, id, slot, moved, revised⟩
    · exact fun _ _ moved => moved

theorem deleteIn_moves (tidy : store.Tidy) (file : HeapFile) (row : Row) :
    Action.Ends (deleteIn file row) store
      (fun frame after => ∃ middle record, Moved store middle ∧ row.record = some record ∧
        Turned middle record.page record.slot.toNat none frame after)
      fun _ after => Moved store after := by
  unfold deleteIn
  cases placed : row.record with
  | none => exact .refl
  | some record =>
    dsimp only
    split
    · exact .refl
    · rw [Action.ends_bind]
      apply Action.ends_imp (fetch_moves store record.page)
      · rintro frame middle ⟨moved, cached⟩
        obtain ⟨named, formed⟩ := tidy_of_moved moved tidy record.page frame cached
        rw [Action.ends_bind, Action.ends_ofExcept]
        cases deleted : frame.page.delete row with
        | error cause => exact moved
        | ok page =>
          obtain ⟨stored, found, -, takes, same⟩ := Page.takes_of_delete formed deleted
          obtain rfl := Option.some.inj (placed.symm.trans found)
          have own : (frame.page.setSlot record.slot.toNat none).id = record.page := named
          dsimp only
          rw [same]
          unfold replacePage
          rw [own]
          exact ⟨middle, record, moved, rfl, ⟨frame, cached, takes, rfl⟩, named, rfl⟩
      · exact fun _ _ moved => moved

theorem delete_moves (tidy : store.Tidy) (transaction : Transaction) (row : Row) :
    Action.Ends (delete transaction row) store
      (fun frame after => ∃ middle record, Moved store middle ∧ row.record = some record ∧
        Revised middle transaction record.page record.slot.toNat none frame after)
      fun _ after => Moved store after := by
  unfold delete
  cases placed : row.record with
  | none => exact .refl
  | some record =>
    dsimp only
    rw [Action.ends_bind, Action.ends_get, Action.ends_bind, Action.ends_ofExcept]
    cases registered : store.catalog.file? record.page.table with
    | none => rw [Catalog.file_of_none registered]
    | some file =>
      rw [Catalog.file_of_some registered]
      dsimp only
      rw [Action.ends_bind]
      apply Action.ends_imp (deleteIn_moves tidy file row)
      · rintro frame turnedStore ⟨middle, own, moved, found, turned⟩
        apply Action.ends_of_never_fails (settle_revises turned transaction)
        intro settled after revised
        exact ⟨middle, own, moved, placed.symm.trans found, revised⟩
      · exact fun _ _ moved => moved

/-- Pages that are written back one after the other are moved by shifts alone. -/
theorem forM_shifts {action : PageId → Action (Store μ) Unit}
    (each : ∀ store id, Action.Ends (action id) store (fun _ after => Shifts store after)
      fun _ after => Shifts store after) (ids : List PageId) (store : Store μ) :
    Action.Ends (ids.forM action) store (fun _ after => Shifts store after)
      fun _ after => Shifts store after := by
  induction ids generalizing store with
  | nil => exact .refl
  | cons id rest ih =>
    rw [List.forM_eq_forM, List.forM_cons, ← List.forM_eq_forM, Action.ends_bind]
    apply Action.ends_imp (each store id)
    · intro _ middle shifts
      exact Action.ends_imp (ih middle) (fun _ _ later => shifts.trans later)
        fun _ _ later => shifts.trans later
    · exact fun _ _ shifts => shifts

theorem flushAll_shifts (store : Store μ) :
    Action.Ends flushAll store (fun _ after => Shifts store after)
      fun _ after => Shifts store after := by
  have listed : Shifts store _ := .single (.list store)
  unfold flushAll
  rw [Action.ends_bind]
  apply Action.ends_imp (forM_shifts _ store.pool.listed _)
  · exact fun _ _ shifts => listed.trans shifts
  · exact fun _ _ shifts => listed.trans shifts
  · intro now id
    exact Action.ends_imp (writeBack_shifts now id) (fun _ _ attempted => attempted.shifts)
      fun _ _ attempted => attempted.shifts

theorem flushTransaction_shifts (store : Store μ) (transaction : Transaction) :
    Action.Ends (flushTransaction transaction) store (fun _ after => Shifts store after)
      fun _ after => Shifts store after := by
  have listed : Shifts store _ := .single (.list store)
  unfold flushTransaction
  rw [Action.ends_bind]
  apply Action.ends_imp (forM_shifts _ store.pool.listed _)
  · exact fun _ _ shifts => listed.trans shifts
  · exact fun _ _ shifts => listed.trans shifts
  · intro now id
    rw [Action.ends_bind, Action.ends_get]
    split
    · exact Action.ends_imp (writeBack_shifts now id) (fun _ _ attempted => attempted.shifts)
        fun _ _ attempted => attempted.shifts
    · exact .refl

/-- The request is not meant to change rows, or it has failed. -/
def Quiet (operation : Operation) (answer : Except Fault Answer) : Prop :=
  match operation, answer with
  | .insert _ _ _, .ok _ | .delete _ _, .ok _ => False
  | _, _ => True

/-- What a request has done to a store. -/
inductive Did (before : Store μ) : Operation → Except Fault Answer → Store μ → Prop where
  | moved {operation : Operation} {answer : Except Fault Answer} {after : Store μ}
      (quiet : Quiet operation answer) (moved : Moved before after) : Did before operation answer after
  | inserted {transaction : Transaction} {table : TableId} {row : Row} {middle after : Store μ}
      {id : PageId} {slot : Nat} {frame : Frame} (moved : Moved before middle)
      (revised : Revised middle transaction id slot
        (some (row.stamped (RecordId.ofSlot id slot))) frame after) :
      Did before (.insert transaction table row) (.ok (.page frame.page)) after
  | deleted {transaction : Transaction} {row : Row} {record : RecordId} {middle after : Store μ}
      {frame : Frame} (moved : Moved before middle) (placed : row.record = some record)
      (revised : Revised middle transaction record.page record.slot.toNat none frame after) :
      Did before (.delete transaction row) (.ok (.page frame.page)) after
  | discarded {id : PageId} (cached : (before.pool.frame? id).isSome) :
      Did before (.discard id) (.ok .done)
        { before with pool := (before.pool.drop id).noteRemoval id }

theorem discard_did (store : Store μ) (id : PageId) :
    Action.Ends (perform (.discard id)) store
      (fun answer after => Did store (.discard id) (.ok answer) after) fun _ _ => False := by
  unfold perform discard
  rw [Action.ends_bind, Action.ends_bind, Action.ends_get]
  split
  · next cached => exact .discarded cached
  · exact .moved trivial .refl

/-- Every request ends in one of these ways. -/
theorem perform_did (tidy : store.Tidy) (operation : Operation) :
    Action.Ends (perform operation) store
      (fun answer after => Did store operation (.ok answer) after)
      fun fault after => Did store operation (.error fault) after := by
  cases operation with
  | fetch id =>
    unfold perform
    rw [Action.ends_bind]
    apply Action.ends_imp (fetch_moves store id)
    · exact fun _ _ done => .moved trivial done.1
    · exact fun _ _ moved => .moved trivial moved
  | insert transaction table row =>
    unfold perform
    rw [Action.ends_bind]
    apply Action.ends_imp (insert_moves tidy transaction table row)
    · rintro frame after ⟨middle, id, slot, moved, revised⟩
      exact .inserted moved revised
    · exact fun _ _ moved => .moved trivial moved
  | delete transaction row =>
    unfold perform
    rw [Action.ends_bind]
    apply Action.ends_imp (delete_moves tidy transaction row)
    · rintro frame after ⟨middle, record, moved, placed, revised⟩
      exact .deleted moved placed revised
    · exact fun _ _ moved => .moved trivial moved
  | evict =>
    unfold perform
    rw [Action.ends_bind]
    apply Action.ends_imp (evict_shifts store)
    · exact fun _ _ done => .moved trivial (moved_of_shifts done.1)
    · exact fun _ _ refused => .moved trivial (moved_of_shifts refused.2.2)
  | flushPage id =>
    unfold perform flushPage
    rw [Action.ends_bind, Action.ends_bind, Action.ends_get, Action.ends_bind]
    apply Action.ends_imp (writeBack_shifts store id)
    · exact fun _ _ attempted => .moved trivial (moved_of_shifts attempted.shifts)
    · exact fun _ _ attempted => .moved trivial (moved_of_shifts attempted.shifts)
  | flushTransaction transaction =>
    unfold perform
    rw [Action.ends_bind]
    apply Action.ends_imp (flushTransaction_shifts store transaction)
    · exact fun _ _ shifts => .moved trivial (moved_of_shifts shifts)
    · exact fun _ _ shifts => .moved trivial (moved_of_shifts shifts)
  | flushAll =>
    unfold perform
    rw [Action.ends_bind]
    apply Action.ends_imp (flushAll_shifts store)
    · exact fun _ _ shifts => .moved trivial (moved_of_shifts shifts)
    · exact fun _ _ shifts => .moved trivial (moved_of_shifts shifts)
  | discard id =>
    exact Action.ends_of_never_fails (discard_did store id) fun _ _ did => did

theorem did_outcome (tidy : store.Tidy) (operation : Operation) :
    Did store operation (store.outcome operation).1 (store.outcome operation).2 := by
  rcases Action.outcome_of_ends (perform_did tidy operation) with
    ⟨answer, answered, did⟩ | ⟨fault, refused, did⟩
  · exact answered.symm ▸ did
  · exact refused.symm ▸ did

structure Closed (P : Store μ → Prop) : Prop where
  motion : ∀ {before after : Store μ}, Motion before after → P before → P after
  revised : ∀ {before after : Store μ} {transaction : Transaction} {id : PageId} {slot : Nat}
    {row : Option Row} {frame : Frame}, Revised before transaction id slot row frame after →
      P before → P after
  dropped : ∀ {before : Store μ} {id : PageId}, (before.pool.frame? id).isSome → P before →
    P { before with pool := (before.pool.drop id).noteRemoval id }

theorem keeps_of_did {P : Store μ → Prop} (closed : Closed P) {operation : Operation}
    {answer : Except Fault Answer} {after : Store μ} (did : Did store operation answer after)
    (holds : P store) : P after := by
  have keeps : ∀ {middle : Store μ}, Moved store middle → P middle :=
    fun moved => keeps_of_moved (fun _ _ => closed.motion) moved holds
  cases did with
  | moved quiet moved => exact keeps moved
  | inserted moved revised => exact closed.revised revised (keeps moved)
  | deleted moved placed revised => exact closed.revised revised (keeps moved)
  | discarded cached => exact closed.dropped cached holds

theorem closed_and {P Q : Store μ → Prop} (left : Closed P) (right : Closed Q) :
    Closed fun now => P now ∧ Q now where
  motion := fun motion both => ⟨left.motion motion both.1, right.motion motion both.2⟩
  revised := fun revised both => ⟨left.revised revised both.1, right.revised revised both.2⟩
  dropped := fun cached both => ⟨left.dropped cached both.1, right.dropped cached both.2⟩

theorem frame_of_revised {before after : Store μ} {transaction : Transaction} {id : PageId}
    {slot : Nat} {row : Option Row} {frame : Frame}
    (revised : Revised before transaction id slot row frame after) (other : PageId) :
    after.pool.frame? other = if other = id then some frame else before.pool.frame? other := by
  obtain ⟨⟨old, cached, -, rfl⟩, rfl⟩ := revised
  refine (Pool.frame_alter before.pool id other _).trans ?_
  by_cases same : other = id
  · rw [if_pos same, if_pos same, same, cached]
    rfl
  · rw [if_neg same, if_neg same]

theorem formed_of_takes {page : Page} (formed : page.Formed) {slot : Nat} {row : Option Row}
    (takes : page.Takes slot row) : (page.setSlot slot row).Formed :=
  Page.formed_setSlot formed takes.inside takes.holds

theorem closed_tidy : Closed (Tidy (μ := μ)) where
  motion := tidy_of_motion
  revised := by
    intro before after transaction id slot row frame revised tidy other found cached
    rw [frame_of_revised revised] at cached
    split at cached
    · next same =>
      subst same
      obtain rfl := Option.some.inj cached
      obtain ⟨⟨old, there, takes, rfl⟩, -⟩ := revised
      obtain ⟨named, formed⟩ := tidy other old there
      exact ⟨named, Page.formed_marked (formed_of_takes formed takes) _⟩
    · exact tidy other found cached
  dropped := by
    intro before id _ tidy other found cached
    have lookup := (Pool.frame_drop before.pool id other).symm.trans cached
    split at lookup
    · contradiction
    · exact tidy other found lookup

omit [EvictionPolicy μ] in
theorem tidy_of_unused (unused : store.pool.frames = []) : store.Tidy := by
  intro id frame cached
  rw [Pool.frame?, unused] at cached
  contradiction

theorem nodup_of_shift {after : Store μ} (shift : Shift store after)
    (nodup : store.pool.pages.Nodup) : after.pool.pages.Nodup := by
  cases shift with
  | read opening => exact nodup
  | @save id frame file cached dirty registered sized =>
    change (store.pool.alter id fun page => page.marked none).pages.Nodup
    rw [Pool.pages_alter]
    exact nodup
  | list => exact nodup
  | ask => exact nodup
  | touch cached => exact nodup
  | leave unwritable => exact Keyed.nodup_keys_erase _ nodup

theorem closed_nodup : Closed fun now : Store μ => now.pool.pages.Nodup where
  motion := by
    intro before after motion nodup
    cases motion with
    | shift shift => exact nodup_of_shift shift nodup
    | grow registered => exact nodup
    | enter uncached registered own whole decoded shifts room =>
      have still := keeps_of_shifts (P := fun now => now.pool.pages.Nodup)
        (fun _ _ => nodup_of_shift) shifts nodup
      exact Keyed.nodup_keys_put _ _ still
  revised := by
    rintro before after transaction id slot row frame ⟨-, rfl⟩ nodup
    change (before.pool.alter id fun _ => frame.page).pages.Nodup
    rw [Pool.pages_alter]
    exact nodup
  dropped := fun _ nodup => Keyed.nodup_keys_erase _ nodup

theorem closed_catalog (catalog : Catalog) : Closed fun now : Store μ => now.catalog = catalog where
  motion := fun motion same => (catalog_of_motion motion).trans same
  revised := by
    rintro before after transaction id slot row frame ⟨-, rfl⟩ same
    exact same
  dropped := fun _ same => same

/-- What is closed holds after every sequence of requests. -/
theorem keeps_after {P : Store μ → Prop} (closed : Closed P) (tidy : store.Tidy) (holds : P store)
    (operations : List Operation) : (store.after operations).Tidy ∧ P (store.after operations) := by
  induction operations generalizing store with
  | nil => exact ⟨tidy, holds⟩
  | cons operation rest ih =>
    have did := did_outcome tidy operation
    exact ih (keeps_of_did closed_tidy did tidy) (keeps_of_did closed did holds)

end Store

end PagedStore
