import PagedStore.Proofs.Cache.Moves
import PagedStore.Proofs.Scan.Cells
import PagedStore.Store.Cursor

/-!
A cursor goes through the cells of its table. Looking for the next row moves pages in and out of
memory and changes nothing else, so a cursor that stands in front of a cell finds the first row from
there on in what is current, or that there is none. It never runs out of turns, and it fails only if
the policy lets no page go.
-/

namespace PagedStore

namespace Beside

variable {μ α β γ : Type} {own : α} {other : β} {store : Store μ}

theorem ends_own {done : α → α × Store μ → Prop} {failed : Fault → α × Store μ → Prop} :
    Action.Ends Beside.own (own, store) done failed ↔ done own (own, store) :=
  Iff.rfl

theorem ends_modifyOwn (change : α → α) {done : Unit → α × Store μ → Prop}
    {failed : Fault → α × Store μ → Prop} :
    Action.Ends (modifyOwn change) (own, store) done failed ↔ done () (change own, store) :=
  Iff.rfl

theorem ends_onStore (action : Action (Store μ) γ) {done : γ → α × Store μ → Prop}
    {failed : Fault → α × Store μ → Prop} :
    Action.Ends (onStore action) (own, store) done failed ↔
      Action.Ends action store (fun value after => done value (own, after))
        fun fault after => failed fault (own, after) :=
  Action.ends_within ..

theorem ends_onFirst (action : Action (α × Store μ) γ) {done : γ → (α × β) × Store μ → Prop}
    {failed : Fault → (α × β) × Store μ → Prop} :
    Action.Ends (onFirst action) ((own, other), store) done failed ↔
      Action.Ends action (own, store) (fun value after => done value ((after.1, other), after.2))
        fun fault after => failed fault ((after.1, other), after.2) :=
  Action.ends_within ..

theorem ends_onSecond (action : Action (β × Store μ) γ) {done : γ → (α × β) × Store μ → Prop}
    {failed : Fault → (α × β) × Store μ → Prop} :
    Action.Ends (onSecond action) ((own, other), store) done failed ↔
      Action.Ends action (other, store) (fun value after => done value ((own, after.1), after.2))
        fun fault after => failed fault ((own, after.1), after.2) :=
  Action.ends_within ..

end Beside

namespace Store

variable {μ : Type} {store : Store μ}

/-- The number of cells of a table. -/
def cellCount (store : Store μ) (file : HeapFile) : Nat :=
  file.pageCount store.disk * file.slotCount

structure Shows (store : Store μ) (file : HeapFile) (index : Nat) (row : Row) : Prop where
  record_eq : row.record = some
    (RecordId.ofSlot (file.page (index / file.slotCount)) (index % file.slotCount))
  cell_eq : file.cell store.current index = some (row.values.map Value.kept)
  types_eq : row.values.map Value.type = file.schema.types
  keeps : ∀ trait, store.Keeps trait → trait.holds row.values

theorem exists_owned_of_current (coherent : store.Coherent) {id : PageId} {file : HeapFile}
    (registered : store.catalog.file? id.table = some file) {contents : Contents}
    (found : store.current id = some contents) :
    ∃ page, file.Owns id.number page ∧ page.contents = contents := by
  cases cached : store.pool.frame? id with
  | some frame =>
    rcases (coherent.backed id frame cached).exists_file with ⟨other, isRegistered, owns, -⟩
    obtain rfl := Option.some.inj (registered.symm.trans isRegistered)
    exact ⟨frame.page, owns, contents_of_current cached found⟩
  | none =>
    have inside : id.number < file.pageCount store.disk := by
      rw [← isSome_current_iff coherent.sound registered, found]
      rfl
    rcases exists_durable coherent.sound registered inside with ⟨page, -, owns, durable⟩
    rw [current_of_uncached cached, durable] at found
    exact ⟨page, owns, Option.some.inj found⟩

theorem slot_lt_of_current (coherent : store.Coherent) {id : PageId} {file : HeapFile}
    (registered : store.catalog.file? id.table = some file) {contents : Contents}
    (found : store.current id = some contents) {slot : Nat} {values : List Value}
    (stored : contents slot = some values) : slot < file.slotCount := by
  rcases exists_owned_of_current coherent registered found with ⟨page, owns, rfl⟩
  rcases Option.map_eq_some_iff.mp stored with ⟨row, isRow, -⟩
  rw [← HeapFile.slotCount_of_owns owns]
  exact Page.lt_slotCount_of_row isRow

theorem lt_cellCount (coherent : store.Coherent) {file : HeapFile}
    (registered : store.catalog.file? file.table = some file) {index : Nat}
    (there : file.cell store.current index ≠ none) : index < store.cellCount file := by
  have small := HeapFile.small_of_cell there
  rcases Option.ne_none_iff_exists'.mp there with ⟨values, held⟩
  rw [HeapFile.cell_of_small small] at held
  rcases Option.bind_eq_some_iff.mp held with ⟨contents, found, stored⟩
  have registeredPage : store.catalog.file? (file.page (index / file.slotCount)).table = some file :=
    registered
  have inside := slot_lt_of_current coherent registeredPage found stored
  rw [cellCount, ← Nat.div_lt_iff_lt_mul (Nat.lt_of_le_of_lt (Nat.zero_le _) inside)]
  apply ((spans_pageCount coherent.sound registered).isSome_iff _ small).mp
  exact Option.isSome_of_eq_some found

theorem cell_of_cached (coherent : store.Coherent) {file : HeapFile}
    (registered : store.catalog.file? file.table = some file) {number slot : Nat}
    (told : number < file.pageCount store.disk) {frame : Frame}
    (cached : store.pool.frame? (file.page number) = some frame) (inside : slot < file.slotCount) :
    file.cell store.current (file.cellIndex number slot) = frame.page.contents slot := by
  have small := Nat.lt_trans told (file.pageCount_lt store.disk)
  have present := ((spans_pageCount coherent.sound registered).isSome_iff number small).mpr told
  have found : store.current (file.page number) = some frame.page.contents :=
    current_of_present cached present
  rw [HeapFile.cell_cellIndex small inside, found]
  rfl

theorem shows_of_row (coherent : store.Coherent) {file : HeapFile}
    (registered : store.catalog.file? file.table = some file) {number slot : Nat}
    (told : number < file.pageCount store.disk) {frame : Frame}
    (cached : store.pool.frame? (file.page number) = some frame) {row : Row}
    (stored : frame.page.row? slot = some row) :
    store.Shows file (file.cellIndex number slot) row ∧
      file.cellIndex number slot < store.cellCount file ∧ slot < file.slotCount := by
  rcases coherent.backed _ frame cached with ⟨⟨other, found, owns, -⟩, -⟩
  obtain rfl : file = other := Option.some.inj (registered.symm.trans found)
  have inside : slot < file.slotCount :=
    HeapFile.slotCount_of_owns owns ▸ Page.lt_slotCount_of_row stored
  have held := owns.formed.holds slot row stored
  have agrees := (Schema.agrees_iff _ _).mp held.agrees
  refine ⟨⟨?_, ?_, ?_, ?_⟩, HeapFile.cellIndex_lt inside told, inside⟩
  · rw [HeapFile.div_cellIndex inside, HeapFile.mod_cellIndex inside, held.record_eq, owns.id_eq,
      HeapFile.page_number rfl]
  · rw [cell_of_cached coherent registered told cached inside, Page.contents, stored]
    rfl
  · rw [← owns.schema_eq, ← agrees]
    exact held.typed
  · intro trait keeps
    exact keeps _ frame cached slot row stored

theorem shows_of_saves [EvictionPolicy μ] {after : Store μ} (saves : Saves store after)
    {file : HeapFile} {index : Nat} {row : Row} (shows : after.Shows file index row) : store.Shows file index row where
  record_eq := shows.record_eq
  cell_eq := saves.current_eq ▸ shows.cell_eq
  types_eq := shows.types_eq
  keeps := fun trait keeps => shows.keeps trait (saves.keeps trait keeps)

end Store

namespace Cursor

variable {μ : Type} {store : Store μ} {file : HeapFile} {cursor : Cursor}

structure StandsAt (file : HeapFile) (cursor : Cursor) (place : Nat) : Prop where
  opened : cursor.opened = true
  found_eq : cursor.found = none
  slot_le : cursor.slot ≤ file.slotCount
  place_eq : place = file.cellIndex cursor.page.toNat cursor.slot

/-- What looking for the next row from a place on has found, and where the cursor stands then. -/
def Sought (before : Store μ) (file : HeapFile) (place : Nat) (found : Option Row)
    (after : Cursor × Store μ) : Prop :=
  match found with
  | some row => ∃ index,
      file.NextCell before.current (before.cellCount file) place index ∧
        before.Shows file index row ∧ StandsAt file after.1 (index + 1)
  | none => file.Bare before.current (before.cellCount file) place ∧
      ∃ beyond, place ≤ beyond ∧ before.cellCount file ≤ beyond ∧ StandsAt file after.1 beyond

theorem toNat_succ_of_lt {page : UInt32} {count : Nat} (before : page.toNat < count)
    (small : count < 4294967296) : (page + 1).toNat = page.toNat + 1 := by
  rw [UInt32.toNat_add]
  exact Nat.mod_eq_of_lt (Nat.lt_of_le_of_lt before small)

theorem ends_checkOpen (opened : cursor.opened = true) {done : Unit → Cursor × Store μ → Prop}
    {failed : Fault → Cursor × Store μ → Prop} :
    Action.Ends checkOpen (cursor, store) done failed ↔ done () (cursor, store) := by
  unfold checkOpen
  rw [Action.ends_bind, Beside.ends_own, opened]
  rfl

/-- Behind the last page nothing is left to be found. -/
theorem sought_past_end {place : Nat} (stands : StandsAt file cursor place)
    (past : file.pageCount store.disk ≤ cursor.page.toNat) :
    Sought store file place none (cursor, store) := by
  have beyond : store.cellCount file ≤ place := by
    have rows := Nat.mul_le_mul_right file.slotCount past
    rw [stands.place_eq, HeapFile.cellIndex, Store.cellCount]
    omega
  refine ⟨?_, place, Nat.le_refl place, beyond, stands⟩
  intro index atLeast inside
  exact absurd inside (Nat.not_lt.mpr (Nat.le_trans beyond atLeast))

variable [EvictionPolicy μ]

theorem cellCount_of_saves {middle : Store μ} (coherent : store.Coherent)
    (saves : Store.Saves store middle) (registered : store.catalog.file? file.table = some file) :
    middle.cellCount file = store.cellCount file := by
  have registeredNow : middle.catalog.file? file.table = some file :=
    saves.catalog_eq ▸ registered
  rw [Store.cellCount, Store.cellCount, Store.pageCount_eq_of_current coherent.sound
    saves.coherent.sound registered registeredNow saves.current_eq]

/-- What was sought from a later place on has been sought from an earlier one, if the cells between
them hold no row. -/
theorem sought_of_free {middle : Store μ} (saves : Store.Saves store middle)
    (sameCount : middle.cellCount file = store.cellCount file) {place later : Nat}
    {found : Option Row} {after : Cursor × Store μ} (ahead : place ≤ later)
    (free : ∀ index, place ≤ index → index < later → file.cell store.current index = none)
    (sought : Sought middle file later found after) : Sought store file place found after := by
  unfold Sought at sought ⊢
  rw [saves.current_eq, sameCount] at sought
  cases found with
  | some row =>
    rcases sought with ⟨index, ⟨atLeast, inside, between⟩, shows, stands⟩
    refine ⟨index, ⟨Nat.le_trans ahead atLeast, inside, ?_⟩, Store.shows_of_saves saves shows, stands⟩
    intro earlier past before
    by_cases reached : later ≤ earlier
    · exact between earlier reached before
    · exact free earlier past (Nat.lt_of_not_le reached)
  | none =>
    rcases sought with ⟨bare, beyond, past, isBeyond, stands⟩
    refine ⟨?_, beyond, Nat.le_trans ahead past, isBeyond, stands⟩
    intro index past inside
    by_cases reached : later ≤ index
    · exact bare index reached inside
    · exact free index past (Nat.lt_of_not_le reached)

structure Turned (store : Store μ) (file : HeapFile) (number : Nat) (frame : Frame)
    (middle : Store μ) : Prop where
  saves : Store.Saves store middle
  cached : middle.pool.frame? (file.page number) = some frame
  registered : middle.catalog.file? file.table = some file
  told : number < file.pageCount middle.disk
  cellCount_eq : middle.cellCount file = store.cellCount file

theorem turned_of_saves {frame : Frame} {middle : Store μ} {number : Nat} (coherent : store.Coherent)
    (registered : store.catalog.file? file.table = some file)
    (told : number < file.pageCount store.disk) (saves : Store.Saves store middle)
    (cached : middle.pool.frame? (file.page number) = some frame) :
    Turned store file number frame middle where
  saves := saves
  cached := cached
  registered := saves.catalog_eq ▸ registered
  told := Store.pageCount_eq_of_current coherent.sound saves.coherent.sound registered
    (saves.catalog_eq ▸ registered) saves.current_eq ▸ told
  cellCount_eq := cellCount_of_saves coherent saves registered

theorem cell_of_turned {frame : Frame} {middle : Store μ} {number slot : Nat}
    (turned : Turned store file number frame middle) (inside : slot < file.slotCount)
    (free : frame.page.row? slot = none) :
    file.cell store.current (file.cellIndex number slot) = none := by
  rw [← turned.saves.current_eq, Store.cell_of_cached turned.saves.coherent turned.registered
    turned.told turned.cached inside, Page.contents, free]
  rfl

theorem sought_of_row {frame : Frame} {middle : Store μ} {place slot : Nat} {row : Row}
    (stands : StandsAt file cursor place) (turned : Turned store file cursor.page.toNat frame middle)
    (found : frame.page.nextRow? cursor.slot = some (slot, row)) :
    Sought store file place (some row) ({ cursor with slot := slot + 1 }, middle) := by
  rcases Page.nextRow_eq_some found with ⟨after, stored, free⟩
  obtain ⟨shows, inside, slotInside⟩ :=
    Store.shows_of_row turned.saves.coherent turned.registered turned.told turned.cached stored
  refine ⟨file.cellIndex cursor.page.toNat slot, ⟨?_, turned.cellCount_eq ▸ inside, ?_⟩,
    Store.shows_of_saves turned.saves shows, stands.opened, stands.found_eq, slotInside, rfl⟩
  · rw [stands.place_eq]
    exact HeapFile.cellIndex_le after
  · intro earlier atLeast before
    rw [stands.place_eq] at atLeast
    apply HeapFile.cell_eq_none_between _ atLeast before
    intro between past sooner
    exact cell_of_turned turned (Nat.lt_trans sooner slotInside) (free between past sooner)

/-- A page without a row from the cursor on is skipped. -/
theorem sought_of_next_page {frame : Frame} {middle : Store μ} {place : Nat} {sought : Option Row}
    {after : Cursor × Store μ} (stands : StandsAt file cursor place)
    (turned : Turned store file cursor.page.toNat frame middle)
    (missing : frame.page.nextRow? cursor.slot = none)
    (result : Sought middle file (file.cellIndex (cursor.page.toNat + 1) 0) sought after) :
    Sought store file place sought after := by
  rw [HeapFile.cellIndex_succ] at result
  apply sought_of_free turned.saves turned.cellCount_eq _ _ result
  · rw [stands.place_eq]
    exact HeapFile.cellIndex_le stands.slot_le
  · intro index atLeast before
    rw [stands.place_eq] at atLeast
    apply HeapFile.cell_eq_none_between _ atLeast before
    intro between past inside
    exact cell_of_turned turned inside (Page.nextRow_eq_none missing past)

theorem search_ends (coherent : store.Coherent)
    (registered : store.catalog.file? file.table = some file) {place : Nat}
    (stands : StandsAt file cursor place) {turns : Nat}
    (enough : file.pageCount store.disk - cursor.page.toNat < turns) :
    Action.Ends (search file turns) (cursor, store)
      (fun found after => Store.Saves store after.2 ∧ Sought store file place found after)
      fun fault after => fault = .error .outOfPages ∧ ¬ store.Hospitable ∧
        Store.Saves store after.2 := by
  -- Each turn either ends the search or moves to the next page, of which there are fewer left.
  induction turns generalizing store cursor place with
  | zero => exact absurd enough (Nat.not_lt_zero _)
  | succ turns ih =>
    unfold search
    rw [Action.ends_bind, Action.ends_get]
    dsimp only
    by_cases past : file.numPages store.disk ≤ cursor.page
    · rw [if_pos past, Action.ends_pure]
      exact ⟨Store.saves_refl coherent, sought_past_end stands past⟩
    · rw [if_neg past, Action.ends_bind, Beside.ends_onStore]
      have told : cursor.page.toNat < file.pageCount store.disk := Nat.lt_of_not_le past
      have registeredHere : store.catalog.file? (file.page cursor.page.toNat).table = some file :=
        registered
      have present := ((Store.spans_pageCount coherent.sound registered).isSome_iff _
        cursor.page.toNat_lt).mpr told
      apply Action.ends_imp (Store.fetch_ends_of_present coherent registeredHere present)
      · rintro frame middle ⟨saves, cached⟩
        have registeredNow : middle.catalog.file? file.table = some file :=
          saves.catalog_eq ▸ registered
        have samePages := Store.pageCount_eq_of_current coherent.sound saves.coherent.sound
          registered registeredNow saves.current_eq
        have turned := turned_of_saves coherent registered told saves cached
        cases found : frame.page.nextRow? cursor.slot with
        | some entry => exact ⟨saves, sought_of_row stands turned found⟩
        | none =>
          let following : Cursor := { cursor with page := cursor.page + 1, slot := 0 }
          have forward : following.page.toNat = cursor.page.toNat + 1 :=
            toNat_succ_of_lt told (file.pageCount_lt store.disk)
          have standsNext : StandsAt file following (file.cellIndex (cursor.page.toNat + 1) 0) :=
            ⟨stands.opened, stands.found_eq, Nat.zero_le _, by rw [forward]⟩
          have enoughNext : file.pageCount middle.disk - following.page.toNat < turns := by
            rw [samePages, forward]
            omega
          apply Action.ends_imp (ih saves.coherent registeredNow standsNext enoughNext)
          · rintro sought after ⟨later, result⟩
            exact ⟨Store.saves_trans saves later, sought_of_next_page stands turned found result⟩
          · rintro fault after ⟨rfl, unhospitable, later⟩
            exact ⟨rfl, fun hospitable => unhospitable (Store.hospitable_of_saves saves hospitable),
              Store.saves_trans saves later⟩
      · exact fun fault after failure => failure

theorem hasNext_ends (coherent : store.Coherent)
    (registered : store.catalog.file? file.table = some file) {place : Nat}
    (stands : StandsAt file cursor place) :
    Action.Ends (hasNext file) (cursor, store)
      (fun flag after => Store.Saves store after.2 ∧ ∃ found sought, flag = found.isSome ∧
        after.1 = { sought with found := found } ∧
        Sought store file place found (sought, after.2))
      fun fault after => fault = .error .outOfPages ∧ ¬ store.Hospitable ∧
        Store.Saves store after.2 := by
  unfold hasNext
  rw [Action.ends_bind, ends_checkOpen stands.opened, Action.ends_bind, Beside.ends_own, stands.found_eq, if_pos (Option.isNone_none), Action.ends_bind]
  have bound := file.pageCount_lt store.disk
  apply Action.ends_imp (search_ends coherent registered stands (by omega))
  · rintro found ⟨sought, after⟩ ⟨saves, result⟩
    exact ⟨saves, found, sought, rfl, rfl, result⟩
  · intro fault after failure
    exact failure

theorem ends_next_of_found {row : Row} (opened : cursor.opened = true) (found : cursor.found = some row)
    {done : Row → Cursor × Store μ → Prop} {failed : Fault → Cursor × Store μ → Prop} :
    Action.Ends (next file) (cursor, store) done failed ↔
      done row ({ cursor with found := none }, store) := by
  rcases cursor with ⟨isOpen, page, slot, ahead⟩
  dsimp only at opened found
  subst opened found
  rfl

/-- A cursor that is asked for the next row gives out the first one from its place on, or tells that
there is none. -/
theorem next_ends (coherent : store.Coherent)
    (registered : store.catalog.file? file.table = some file) {place : Nat}
    (stands : StandsAt file cursor place) :
    Action.Ends (next file) (cursor, store)
      (fun row after => Store.Saves store after.2 ∧ Sought store file place (some row) after)
      fun fault after => Store.Saves store after.2 ∧
        (fault = .error .exhausted ∧ Sought store file place none after ∨
          fault = .error .outOfPages ∧ ¬ store.Hospitable) := by
  unfold next
  rw [Action.ends_bind]
  apply Action.ends_imp (hasNext_ends coherent registered stands)
  · rintro _ ⟨_, after⟩ ⟨saves, found, sought, rfl, rfl, result⟩
    rw [Action.ends_bind, Beside.ends_own]
    cases found with
    | none =>
      obtain ⟨bare, beyond, past, isBeyond, there⟩ := result
      have standsThere : StandsAt file { sought with found := none } beyond :=
        ⟨there.opened, rfl, there.slot_le, there.place_eq⟩
      exact ⟨saves, Or.inl ⟨rfl, bare, beyond, past, isBeyond, standsThere⟩⟩
    | some row =>
      obtain ⟨index, isNext, shows, there⟩ := result
      have standsThere : StandsAt file { sought with found := none } (index + 1) :=
        ⟨there.opened, rfl, there.slot_le, there.place_eq⟩
      exact ⟨saves, index, isNext, shows, standsThere⟩
  · intro fault after ⟨isFault, unhospitable, saves⟩
    exact ⟨saves, Or.inr ⟨isFault, unhospitable⟩⟩

end Cursor

end PagedStore
