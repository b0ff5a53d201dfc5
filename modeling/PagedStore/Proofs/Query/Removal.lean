import Mathlib.Data.Option.Basic
import PagedStore.Proofs.Copy.SelfCopy
import PagedStore.Proofs.Query.CountRow
import PagedStore.Proofs.Scan.Interleaving

/-!
Deleting what is selected from a table while the table is scanned. In one turn the next row that passes
the filters is taken from its cell and the cell is freed. Everything in front of the place that has been
reached has been cleared of such rows and everything from there on is as it was, so the scan neither
meets a row twice nor misses one, and at the end the rows that passed at the beginning are gone, and
no others.
-/

namespace PagedStore

namespace Layout

variable (test : List Value → Except Error Bool) (cells : Layout)

/-- The cells after the rows in front of the place that pass the test have been taken out. -/
def cleared (place : Nat) : Layout := fun index =>
  if index < place then (cells index).filter fun held => test held ≠ .ok true else cells index

variable {test cells}

theorem filter_eq_none_of_passes {index : Nat} (passes : Passes test cells index) :
    ((cells index).filter fun held => test held ≠ .ok true) = none := by
  obtain ⟨held, there, passed⟩ := Option.map_eq_some_iff.mp passes
  rw [there, Option.filter_some, if_neg (by simpa using passed)]

theorem filter_eq_self_of_not_passes {index : Nat} (unpassed : ¬ Passes test cells index) :
    ((cells index).filter fun held => test held ≠ .ok true) = cells index := by
  cases there : cells index with
  | none => rfl
  | some held =>
    have failed : test held ≠ .ok true := by
      intro passed
      exact unpassed (Option.map_eq_some_iff.mpr ⟨held, there, passed⟩)
    rw [Option.filter_some, if_pos (by simpa using failed)]

theorem cleared_zero : cleared test cells 0 = cells := by
  funext index
  exact if_neg (Nat.not_lt_zero index)

/-- The cells from the place on are as they were. -/
theorem cleared_ahead {place index : Nat} (ahead : place ≤ index) :
    cleared test cells place index = cells index :=
  if_neg (Nat.not_lt_of_le ahead)

theorem cleared_of_gap {place later : Nat} (ahead : place ≤ later)
    (gap : ∀ index, place ≤ index → index < later → ¬ Passes test cells index) :
    cleared test cells later = cleared test cells place := by
  funext index
  by_cases behind : index < place
  · rw [cleared, cleared, if_pos behind, if_pos (Nat.lt_of_lt_of_le behind ahead)]
  · rw [cleared_ahead (Nat.le_of_not_lt behind), cleared]
    split
    · next before => exact filter_eq_self_of_not_passes (gap index (Nat.le_of_not_lt behind) before)
    · rfl

theorem cleared_succ {index : Nat} (passes : Passes test cells index) :
    cleared test cells (index + 1) = Function.update (cleared test cells index) index none := by
  funext other
  rcases Nat.lt_trichotomy other index with before | rfl | behind
  · rw [Function.update_of_ne (Nat.ne_of_lt before), cleared, cleared, if_pos before,
      if_pos (Nat.lt_succ_of_lt before)]
  · rw [Function.update_self, cleared, if_pos (Nat.lt_succ_self other)]
    exact filter_eq_none_of_passes passes
  · rw [Function.update_of_ne (Nat.ne_of_gt behind), cleared_ahead behind,
      cleared_ahead (Nat.le_of_lt behind)]

theorem not_passes_cleared {place index : Nat} (before : index < place) :
    ¬ Passes test (cleared test cells place) index := by
  intro passes
  obtain ⟨held, there, passed⟩ := Option.map_eq_some_iff.mp passes
  rw [cleared, if_pos before] at there
  have failed := (Option.filter_eq_some_iff.mp there).2
  simp [passed] at failed

/-- With nothing from the place on, all rows that pass have been taken out. -/
theorem cleared_eq_filter {place : Nat} (free : ∀ index, place ≤ index → cells index = none)
    (index : Nat) : cleared test cells place index =
      (cells index).filter fun held => test held ≠ .ok true := by
  rw [cleared]
  split
  · rfl
  · next beyond =>
    rw [free index (Nat.le_of_not_lt beyond)]
    rfl

theorem passingBefore_cleared (place : Nat) :
    passingBefore test (cleared test cells place) place = 0 :=
  Nat.count_of_forall_not fun _ before => not_passes_cleared before

theorem passingBefore_le_rowCount (count : Nat) :
    passingBefore test cells count ≤ rowCount cells count :=
  Nat.count_mono_left fun _ _ => ne_none_of_passes

end Layout

namespace Store

variable {μ : Type} {store origin : Store μ} {file : HeapFile} {source : ScanSource} {plan : Plan}

/-- As long as no file gets longer, a table tells of the same pages. -/
theorem isSome_current_of_level {after : Store μ} (coherent : store.Coherent)
    (coherentAfter : after.Coherent) (catalog : after.catalog = store.catalog)
    (level : Level store after) (id : PageId) :
    (after.current id).isSome = (store.current id).isSome := by
  cases registered : store.catalog.file? id.table with
  | none =>
    have unknown : after.catalog.file? id.table = none := catalog.symm ▸ registered
    rw [isSome_current, isSome_current, durable_of_unregistered registered,
      durable_of_unregistered unknown]
  | some file =>
    have registeredAfter : after.catalog.file? id.table = some file := catalog.symm ▸ registered
    rw [Bool.eq_iff_iff, isSome_current_iff coherentAfter.sound registeredAfter,
      isSome_current_iff coherent.sound registered, pageCount_of_level level]

theorem registered_of_reads (coherent : store.Coherent) (selects : plan.Selects source)
    (reads : plan.Reads store.catalog) :
    store.catalog.file? source.file.table = some source.file := by
  induction plan with
  | scan own =>
    obtain rfl : own = source := selects
    obtain ⟨table, built⟩ := reads
    exact Plan.registered_of_scanAs coherent.sound built
  | filter predicate child ih => exact ih selects reads.1
  | _ => exact selects.elim

/-- A plan whose tests compare a column with a value of its type can test every row. -/
theorem testable_of_reads (coherent : store.Coherent) (selects : plan.Selects source)
    (reads : plan.Reads store.catalog) : store.Testable source plan := by
  have registered := registered_of_reads coherent selects reads
  intro index held there
  have typed := types_of_cell coherent registered there
  induction plan with
  | scan own => exact ⟨true, rfl⟩
  | filter predicate child ih =>
    obtain ⟨childReads, column, isColumn, comparable⟩ := reads
    have childSelects : child.Selects source := selects
    obtain ⟨passed, tested⟩ := ih childSelects childReads
    cases passed with
    | false =>
      refine ⟨false, ?_⟩
      rw [Plan.admits_of_unadmitted (by simp [tested]), tested]
    | true =>
      have columns : held.map Value.type = child.schema.types := by
        rw [Plan.schema_of_selects childSelects, Plan.types_schema, typed]
      rw [Plan.admits_of_child tested]
      exact ⟨_, Predicate.testValues_eq isColumn comparable columns⟩
  | _ => exact selects.elim

theorem keeps_blindness (exact : store.Keeps RowTrait.exact) : store.Keeps plan.blindness :=
  fun id frame cached slot row stored => plan.blind_of_kept (exact id frame cached slot row stored)

/-- Exactly the rows that the plan selects have left the table. -/
structure Purged (plan : Plan) (source : ScanSource) (before after : Store μ) : Prop where
  coherent : after.Coherent
  table_eq : ∀ id, id.table = source.file.table →
    after.onPage id = (before.onPage id).map fun contents slot =>
      (contents slot).filter fun held => plan.admits held ≠ .ok true
  elsewhere : ∀ id, id.table ≠ source.file.table → after.onPage id = before.onPage id
  catalog_eq : after.catalog = before.catalog
  level : Level before after

theorem onPage_eq_of_purged_twice {middle after : Store μ} (first : Purged plan source store middle)
    (second : Purged plan source middle after) : after.onPage = middle.onPage := by
  funext id
  by_cases own : id.table = source.file.table
  · rw [second.table_eq id own, first.table_eq id own, Option.map_map]
    congr 1
    funext contents slot
    simp [Option.filter_filter]
  · exact second.elsewhere id own

variable [EvictionPolicy μ]

structure Cleared (file : HeapFile) (before : Store μ) (index : Nat) (after : Store μ) : Prop where
  bears : Bears file before after
  level : Level before after
  cell_eq : file.cell after.current = Function.update (file.cell before.current) index none

theorem cleared_of_deleted {middle after : Store μ} (saves : Saves store middle) {index : Nat}
    {row : Row} (own : row.record = some (file.recordAt index))
    (slot : (file.recordAt index).slot.toNat = index % file.slotCount) (has : file.HasCell index)
    (there : file.cell store.current index ≠ none) {transaction : Transaction} {frame : Frame}
    (carries : Carries store after) (deleted : Deleted middle row transaction frame after) :
    Cleared file store index after := by
  obtain ⟨record, other, last, contents, named, -, -, -, savesThen, changed⟩ := deleted.exists_place
  obtain rfl := Option.some.inj (named.symm.trans own)
  have toLast := saves_trans saves savesThen
  have current : after.current = (last.reference.placed (file.page (index / file.slotCount))
      (index % file.slotCount) none).current := by
    rw [← slot]
    exact congrArg Reference.current changed.reference_eq
  have present : (last.reference.current (file.page (index / file.slotCount))).isSome := by
    obtain ⟨held, isHeld⟩ := Option.ne_none_iff_exists'.mp there
    rw [HeapFile.cell_of_small has.small] at isHeld
    obtain ⟨found, isFound, -⟩ := Option.bind_eq_some_iff.mp isHeld
    change (last.current _).isSome
    rw [toLast.current_eq, isFound]
    rfl
  have cellIndex : file.cellIndex (index / file.slotCount) (index % file.slotCount) = index := by
    rw [HeapFile.cellIndex, Nat.mul_comm]
    exact Nat.div_add_mod index file.slotCount
  have sameDisk : Level last after := fun other =>
    congrArg (fun disk => (Disk.content disk other).length) changed.disk_eq
  refine ⟨⟨carries, ?_⟩, level_trans (level_of_saves toLast) sameDisk, ?_⟩
  · intro id elsewhere
    rw [current, ← toLast.current_eq]
    exact Function.update_of_ne (fun same => elsewhere (congrArg PageId.table same)) _ _
  · rw [current, HeapFile.cell_of_placed has.small (Nat.mod_lt index has.room) present, cellIndex,
      ← toLast.current_eq]
    rfl

/-- A row that is shown in a cell can be deleted. -/
theorem not_undeletable {middle : Store μ} (registered : store.catalog.file? file.table = some file)
    (saves : Saves store middle) (hospitable : store.Hospitable) {index : Nat} {row : Row}
    (own : row.record = some (file.recordAt index))
    (slot : (file.recordAt index).slot.toNat = index % file.slotCount)
    (there : file.cell store.current index ≠ none) {cause : Error} :
    ¬ middle.reference.Undeletable middle.setting row cause := by
  obtain ⟨held, isHeld⟩ := Option.ne_none_iff_exists'.mp there
  rw [HeapFile.cell_of_small (HeapFile.small_of_cell there)] at isHeld
  obtain ⟨contents, found, stored⟩ := Option.bind_eq_some_iff.mp isHeld
  have foundNow : middle.reference.current (file.recordAt index).page = some contents := by
    change middle.current _ = _
    rw [saves.current_eq]
    exact found
  have registeredNow : middle.setting.files (file.recordAt index).page.table = some file := by
    change middle.catalog.file? file.table = some file
    rw [saves.catalog_eq]
    exact registered
  have taken : (contents (file.recordAt index).slot.toNat).isSome := by
    rw [slot, stored]
    rfl
  exact Reference.not_undeletable (hospitable_of_saves saves hospitable) own registeredNow foundNow taken

/-- Deleting a row that has been read from its cell frees the cell. -/
theorem delete_clears {middle : Store μ} (coherent : store.Coherent) (few : store.Few)
    (registered : store.catalog.file? file.table = some file) (saves : Saves store middle)
    (hospitable : store.Hospitable) (narrow : file.slotCount ≤ 65536) {index : Nat} {row : Row}
    (shows : store.Shows file index row) (transaction : Transaction) :
    Action.Ends (delete transaction row) middle (fun _ after => Cleared file store index after)
      fun _ _ => False := by
  have there : file.cell store.current index ≠ none := by
    rw [shows.cell_eq]
    exact Option.some_ne_none _
  have has : file.HasCell index := HeapFile.hasCell_of_lt (lt_cellCount coherent registered there)
    (Nat.le_of_lt (file.pageCount_lt store.disk))
  have slot := HeapFile.slot_recordAt narrow has
  have fewNow : middle.Few := (few_iff_of_saves saves).mpr few
  apply Action.ends_imp (delete_ends saves.coherent transaction row)
  · rintro frame after ⟨carries, deleted⟩
    exact cleared_of_deleted saves shows.record_eq slot has there
      (carries_trans (carries_of_saves saves) carries) (deleted fewNow)
  · rintro _ _ ⟨cause, -, -, undeletable⟩
    exact not_undeletable registered saves hospitable shows.record_eq slot there (undeletable fewNow)

variable {removed place : Nat}

structure Clearing (plan : Plan) (source : ScanSource) (origin : Store μ) (removed place : Nat)
    (store : Store μ) : Prop where
  hosts : store.Hosts source plan
  bears : Bears source.file origin store
  level : Level origin store
  inside : place ≤ origin.cellCount source.file
  cell_eq : source.file.cell store.current =
    Layout.cleared plan.admits (source.file.cell origin.current) place
  removed_eq : removed = Layout.passingBefore plan.admits (source.file.cell origin.current) place

theorem clearing_zero (hosts : origin.Hosts source plan) : Clearing plan source origin 0 0 origin where
  hosts := hosts
  bears := bears_refl hosts.coherent
  level := fun _ => rfl
  inside := Nat.zero_le _
  cell_eq := Layout.cleared_zero.symm
  removed_eq := rfl

section Clearing

variable (clearing : Clearing plan source origin removed place store)

include clearing

theorem passes_of_clearing {index : Nat} (ahead : place ≤ index) :
    Layout.Passes plan.admits (source.file.cell store.current) index ↔
      Layout.Passes plan.admits (source.file.cell origin.current) index := by
  apply Layout.passes_of_eq
  rw [clearing.cell_eq, Layout.cleared_ahead ahead]

theorem cellCount_of_clearing : store.cellCount source.file = origin.cellCount source.file := by
  rw [cellCount, cellCount, pageCount_of_level clearing.level]

theorem few_of_clearing (few : origin.Few) : store.Few :=
  few_of_level clearing.bears.catalog_eq clearing.level few

/-- Once no row passes from the place on, the whole table has been gone through. -/
theorem clearing_of_gap {later : Nat} (ahead : place ≤ later)
    (inside : later ≤ origin.cellCount source.file)
    (gap : ∀ index, place ≤ index → index < later →
      ¬ Layout.Passes plan.admits (source.file.cell store.current) index) :
    Clearing plan source origin removed later store := by
  have gapOrigin : ∀ index, place ≤ index → index < later →
      ¬ Layout.Passes plan.admits (source.file.cell origin.current) index := by
    intro index reached before
    rw [← passes_of_clearing clearing reached]
    exact gap index reached before
  refine ⟨clearing.hosts, clearing.bears, clearing.level, inside, ?_, ?_⟩
  · rw [Layout.cleared_of_gap ahead gapOrigin]
    exact clearing.cell_eq
  · rw [Layout.passingBefore_of_gap ahead gapOrigin]
    exact clearing.removed_eq

theorem clearing_of_saves {after : Store μ} (saves : Saves store after) :
    Clearing plan source origin removed place after where
  hosts := hosts_of_saves clearing.hosts saves
  bears := bears_trans clearing.bears (bears_of_saves saves)
  level := level_trans clearing.level (level_of_saves saves)
  inside := clearing.inside
  cell_eq := by
    rw [saves.current_eq]
    exact clearing.cell_eq
  removed_eq := clearing.removed_eq

/-- The row in front of which the plan stands is deleted. -/
theorem clearing_succ (inside : place < origin.cellCount source.file)
    (passes : Layout.Passes plan.admits (source.file.cell store.current) place) {after : Store μ}
    (cleared : Cleared source.file store place after) :
    Clearing plan source origin (removed + 1) (place + 1) after := by
  have passesOrigin := (passes_of_clearing clearing (Nat.le_refl place)).mp passes
  refine ⟨hosts_of_bears clearing.hosts cleared.bears, bears_trans clearing.bears cleared.bears,
    level_trans clearing.level cleared.level, inside, ?_, ?_⟩
  · rw [cleared.cell_eq, clearing.cell_eq, Layout.cleared_succ passesOrigin]
  · rw [Layout.passingBefore_succ passesOrigin, clearing.removed_eq]

theorem testable_of_clearing (testable : origin.Testable source plan) :
    store.Testable source plan := by
  intro index held there
  rw [clearing.cell_eq, Layout.cleared] at there
  split at there
  · exact testable index held (Option.filter_eq_some_iff.mp there).1
  · exact testable index held there

end Clearing

/-- Nothing can keep the plan from giving out the next row. -/
theorem not_stuck (hospitable : store.Hospitable) (testable : store.Testable source plan)
    {steps : Nat} (enough : store.cellCount source.file < steps) {fault : Fault} :
    ¬ Stuck plan.admits source store place steps fault := by
  intro stuck
  cases stuck with
  | room unhospitable => exact unhospitable hospitable
  | refused there refused =>
    obtain ⟨passed, tested⟩ := testable _ _ there
    rw [refused] at tested
    contradiction
  | outOfSteps far inside => omega

variable {steps : Nat}

structure Removable (plan : Plan) (source : ScanSource) (steps : Nat) (store : Store μ) : Prop where
  selects : plan.Selects source
  hosts : store.Hosts source plan
  few : store.Few
  hospitable : store.Hospitable
  testable : store.Testable source plan
  narrow : source.file.slotCount ≤ 65536
  enough : store.cellCount source.file < steps

theorem clearing_ends (removable : Removable plan source steps origin)
    (clearing : Clearing plan source origin removed place store) (transaction : Transaction)
    (turns : Nat) (left : origin.cellCount source.file < place + turns) {stage : Stage plan.Inner}
    (ready : stage.Ready) (stands : plan.StandsAt source stage.inner place) :
    Action.Ends (Stage.forEach (plan.produce steps) (Plan.counting (delete transaction)) turns)
      ((⟨removed, false⟩, stage), store)
      (fun _ after => after.1.1 = ⟨origin.passingCount source plan, false⟩ ∧
        Clearing plan source origin (origin.passingCount source plan)
          (origin.cellCount source.file) after.2)
      fun _ _ => False := by
  -- Each turn gets behind the cell of a row, and there is a turn left for every cell ahead and one more.
  induction turns generalizing store stage removed place with
  | zero =>
    have inside := clearing.inside
    omega
  | succ turns ih =>
    have hospitable := hospitable_of_bears clearing.bears removable.hospitable
    have sameCount := cellCount_of_clearing clearing
    rw [Stage.ends_forEach_succ, Stage.ends_next ready]
    apply Action.ends_imp (supplies_of_selects removable.selects steps clearing.hosts stands
      (sameCount ▸ clearing.inside))
    · rintro found ⟨inner, middle⟩ ⟨saves, picked⟩
      cases found with
      | none =>
        have last := clearing_of_saves (clearing_of_gap clearing clearing.inside (Nat.le_refl _)
          fun index ahead _ => picked index ahead) saves
        have total : removed = origin.passingCount source plan := last.removed_eq
        exact ⟨by rw [total], total ▸ last⟩
      | some row =>
        obtain ⟨index, ahead, inFile, gap, passes, shows, -, standsNext⟩ := picked
        rw [sameCount] at inFile
        have there := clearing_of_gap clearing ahead (Nat.le_of_lt inFile) gap
        dsimp only
        rw [Plan.ends_counting]
        apply Action.ends_imp (delete_clears clearing.hosts.coherent
          (few_of_clearing clearing removable.few) clearing.hosts.registered saves hospitable
          removable.narrow shows transaction)
        · intro frame after cleared
          have next := clearing_succ there inFile passes cleared
          have readyNext : ({ stage with inner := inner } : Stage plan.Inner).Ready :=
            ⟨ready.opened, ready.lookahead_eq⟩
          exact ih next (by omega) readyNext standsNext
        · exact fun _ _ impossible => impossible
    · rintro fault ⟨inner, after⟩ ⟨-, stuck⟩
      exact not_stuck hospitable (testable_of_clearing clearing removable.testable)
        (sameCount ▸ removable.enough) stuck

/-- Opening the node that deletes succeeds, and its count is the number of rows that passed. -/
theorem start_clearing_ends (removable : Removable plan source steps origin)
    (transaction : Transaction) (stage : Stage (Plan.delete transaction plan).Inner) :
    Action.Ends ((Plan.delete transaction plan).start steps) (stage, origin)
      (fun _ after => (Plan.delete transaction plan).Tallies (origin.passingCount source plan) 0
          after.1 ∧
        Clearing plan source origin (origin.passingCount source plan)
          (origin.cellCount source.file) after.2)
      fun _ _ => False := by
  have enough : origin.cellCount source.file < 0 + steps := by
    rw [Nat.zero_add]
    exact removable.enough
  unfold Plan.start Stage.onInner
  apply (Action.ends_bind _ _).mpr
  apply (Action.ends_within _ _ _).mpr
  apply (Action.ends_bind _ _).mpr
  apply (Beside.ends_onSecond _).mpr
  apply Action.ends_of_never_fails (start_ends removable.selects steps (Stage.inner stage).2)
  rintro _ ⟨stageAfter, after⟩ ⟨rfl, ready, stands⟩
  apply (Action.ends_bind _ _).mpr
  apply (Beside.ends_onFirst _).mpr
  apply (Beside.ends_modifyOwn _).mpr
  apply Action.ends_of_never_fails
    (clearing_ends removable (clearing_zero removable.hosts) transaction steps enough ready stands)
  rintro _ ⟨⟨tally, inner⟩, last⟩ ⟨counted, clearing⟩
  dsimp only at counted
  subst counted
  exact ⟨.fresh inner, clearing⟩

theorem contents_of_clearing (hosts : origin.Hosts source plan)
    (clearing : Clearing plan source origin removed (origin.cellCount source.file) store)
    {id : PageId} (own : id.table = source.file.table) {slot : Nat}
    {contents contentsAfter : Contents} (found : origin.current id = some contents)
    (foundAfter : store.current id = some contentsAfter) :
    contentsAfter slot = (contents slot).filter fun held => plan.admits held ≠ .ok true := by
  have registered : origin.catalog.file? id.table = some source.file := own ▸ hosts.registered
  have registeredAfter : store.catalog.file? id.table = some source.file :=
    own ▸ clearing.hosts.registered
  have page : source.file.page id.number = id := HeapFile.page_number own
  by_cases inside : slot < source.file.slotCount
  · have before : source.file.cell origin.current (source.file.cellIndex id.number slot) =
        contents slot := by
      rw [HeapFile.cell_cellIndex id.number_lt inside, page, found, Option.bind_some]
    have after : source.file.cell store.current (source.file.cellIndex id.number slot) =
        contentsAfter slot := by
      rw [HeapFile.cell_cellIndex id.number_lt inside, page, foundAfter, Option.bind_some]
    rw [← after, ← before, clearing.cell_eq]
    exact Layout.cleared_eq_filter (fun _ beyond => cell_eq_none hosts beyond) _
  · have free : contents slot = none := by
      by_contra there
      obtain ⟨held, stored⟩ := Option.ne_none_iff_exists'.mp there
      exact inside (slot_lt_of_current hosts.coherent registered found stored)
    have freeAfter : contentsAfter slot = none := by
      by_contra there
      obtain ⟨held, stored⟩ := Option.ne_none_iff_exists'.mp there
      exact inside (slot_lt_of_current clearing.hosts.coherent registeredAfter foundAfter stored)
    rw [free, freeAfter]
    rfl

theorem purged_of_clearing (hosts : origin.Hosts source plan) (few : origin.Few)
    (clearing : Clearing plan source origin removed (origin.cellCount source.file) store) :
    Purged plan source origin store := by
  have sees := current_of_few hosts.coherent few
  have seesAfter := current_of_few clearing.hosts.coherent (few_of_clearing clearing few)
  refine ⟨clearing.hosts.coherent, ?_, ?_, clearing.bears.catalog_eq, clearing.level⟩
  · intro id own
    rw [← sees, ← seesAfter]
    have same := isSome_current_of_level hosts.coherent clearing.hosts.coherent
      clearing.bears.catalog_eq clearing.level id
    cases found : origin.current id with
    | none =>
      rw [found, Option.isSome_none, Option.isSome_eq_false_iff, Option.isNone_iff_eq_none] at same
      exact same
    | some contents =>
      rw [found, Option.isSome_some, Option.isSome_iff_exists] at same
      obtain ⟨contentsAfter, foundAfter⟩ := same
      rw [foundAfter, Option.map_some]
      congr 1
      funext slot
      exact contents_of_clearing hosts clearing own found foundAfter
  · rw [← sees, ← seesAfter]
    exact clearing.bears.elsewhere

/-- What has been cleared of the rows that pass can be gone through once more, and none passes. -/
theorem removable_again (removable : Removable plan source steps origin)
    (clearing : Clearing plan source origin removed (origin.cellCount source.file) store) :
    Removable plan source steps store ∧ store.passingCount source plan = 0 := by
  have sameCount := cellCount_of_clearing clearing
  refine ⟨⟨removable.selects, clearing.hosts, few_of_clearing clearing removable.few,
    hospitable_of_bears clearing.bears removable.hospitable,
    testable_of_clearing clearing removable.testable, removable.narrow,
    sameCount ▸ removable.enough⟩, ?_⟩
  rw [passingCount, clearing.cell_eq, sameCount]
  exact Layout.passingBefore_cleared _

end Store

namespace Operator

open Store

variable {μ : Type} [EvictionPolicy μ] {origin : Store μ} {source : ScanSource} {plan : Plan}
  {steps : Nat}

theorem respond_start_of_removable (removable : Removable plan source steps origin)
    (transaction : Transaction) (stage : Stage (Plan.delete transaction plan).Inner) :
    let opened := respond steps (⟨.delete transaction plan, stage⟩, origin) .start
    opened.1 = .ok .done ∧
      TellsOnce steps opened.2 (Plan.countRow (origin.passingCount source plan)) ∧
      Clearing plan source origin (origin.passingCount source plan)
        (origin.cellCount source.file) opened.2.2 := by
  have ends : Action.Ends (perform steps .start) (⟨.delete transaction plan, stage⟩, origin)
      (fun reply after => reply = .done ∧
        after.1.plan.Tallies (origin.passingCount source plan) 0 after.1.state ∧
        Clearing plan source origin (origin.passingCount source plan)
          (origin.cellCount source.file) after.2) fun _ _ => False := by
    unfold perform Operator.start
    rw [Action.ends_bind, ends_onState]
    apply Action.ends_of_never_fails (start_clearing_ends removable transaction stage)
    exact fun _ _ ⟨tallies, clearing⟩ => ⟨rfl, tallies, clearing⟩
  obtain ⟨reply, replied, rfl, tallies, clearing⟩ := Action.outcome_of_never_fails ends
  exact ⟨replied, fun _ pulls => history_of_tallies tallies pulls, clearing⟩

/-- A node that deletes what a plan selects from a table can be opened as long as no file has come to
2^32 pages, and then exactly the rows that the plan selected at that moment are gone, wherever their pages
were. All other rows are where they were, no file has grown, and the count is the number of rows that are
gone. Opened again, it deletes nothing. -/
theorem deletes_selected_rows (sound : origin.Sound) (unused : origin.pool.frames = [])
    (hospitable : origin.Hospitable) {requests : List Request}
    (fits : ∀ asked ∈ requests, asked.Fits) (selects : plan.Selects source)
    (reads : plan.Reads origin.catalog) (narrow : source.file.slotCount ≤ 65536)
    (few : (origin.serve requests).Few)
    (short : (origin.serve requests).rowCount source.file < 2 ^ 31)
    (enough : (origin.serve requests).cellCount source.file < steps) (transaction : Transaction)
    (stage : Stage (Plan.delete transaction plan).Inner) :
    let store := origin.serve requests
    let opened := respond steps (⟨.delete transaction plan, stage⟩, store) .start
    opened.1 = .ok .done ∧ Purged plan source store opened.2.2 ∧
      TellsOnce steps opened.2 (Plan.countRow (store.passingCount source plan)) ∧
      (Int32.ofNat (store.passingCount source plan)).toInt = store.passingCount source plan ∧
      ∀ stageThen : Stage (Plan.delete transaction plan).Inner,
        let again := respond steps (⟨.delete transaction plan, stageThen⟩, opened.2.2) .start
        again.1 = .ok .done ∧ again.2.2.onPage = opened.2.2.onPage ∧
          TellsOnce steps again.2 (Plan.countRow 0) := by
  intro store opened
  have coherentOrigin := (coherent_of_unused sound unused).1
  have lasts := lasts_serve coherentOrigin requests
  have exact : store.Keeps RowTrait.exact :=
    exact_serve coherentOrigin (keeps_of_unused unused _) fits
  have readsNow : plan.Reads store.catalog := lasts.catalog_eq.symm ▸ reads
  have removable : Removable plan source steps store :=
    ⟨selects, ⟨lasts.coherent, registered_of_reads lasts.coherent selects readsNow,
        keeps_blindness exact⟩, few, hospitable_of_follows lasts.follows hospitable,
      testable_of_reads lasts.coherent selects readsNow, narrow, enough⟩
  obtain ⟨done, once, clearing⟩ := respond_start_of_removable removable transaction stage
  have purged := purged_of_clearing removable.hosts few clearing
  obtain ⟨removableThen, none⟩ := removable_again removable clearing
  refine ⟨done, purged, once, ?_, ?_⟩
  · exact Int32.toInt_ofNat_of_lt (Nat.lt_of_le_of_lt (Layout.passingBefore_le_rowCount _) short)
  · intro stageThen again
    obtain ⟨doneThen, onceThen, clearingThen⟩ :=
      respond_start_of_removable removableThen transaction stageThen
    rw [none] at onceThen
    have purgedThen := purged_of_clearing removableThen.hosts removableThen.few clearingThen
    exact ⟨doneThen, onPage_eq_of_purged_twice purged purgedThen, onceThen⟩

/-- Four rows on two pages, of which only one fits into memory; those that hold seven are deleted. -/
theorem deletes_selected_rows_of_sevens :
    (narrowStore.Sound ∧ narrowStore.pool.frames = [] ∧ narrowStore.Hospitable ∧
      (∀ asked ∈ insertions, asked.Fits) ∧ sevens.Selects oneRowSource ∧
      sevens.Reads narrowStore.catalog ∧ oneRowFile.slotCount ≤ 65536 ∧
      (narrowStore.serve insertions).Few ∧
      (narrowStore.serve insertions).rowCount oneRowFile < 2 ^ 31 ∧
      (narrowStore.serve insertions).cellCount oneRowFile < 7) ∧
    let opened := respond 7 (ofPlan (.delete ⟨2⟩ sevens), narrowStore.serve insertions) .start
    opened.1 = .ok .done ∧ TellsOnce 7 opened.2 (Plan.countRow 2) ∧
      (List.range 6).map (oneRowFile.cell (narrowStore.serve insertions).current) =
        [some [.integer 7], some [.integer 5], some [.integer 9], some [.integer 7], none, none] ∧
      (List.range 6).map (oneRowFile.cell opened.2.2.current) =
        [none, some [.integer 5], some [.integer 9], none, none, none] := by
  have sound : narrowStore.Sound := sound_of_single rfl whole_oneRowFile
  have hospitable : narrowStore.Hospitable :=
    ⟨Nat.one_pos, Eviction.obliging_of_picks (Or.inl rfl)⟩
  have fits : ∀ asked ∈ insertions, asked.Fits := by
    simp [insertions, insertion, Request.Fits, Operation.Brings, RowTrait.exact, Value.kept]
  have selects : sevens.Selects oneRowSource := rfl
  have reads : sevens.Reads narrowStore.catalog :=
    ⟨⟨.file 0, rfl⟩, .named "null.a" .integer, rfl, rfl⟩
  have narrow : oneRowFile.slotCount ≤ 65536 := by decide
  have few : (narrowStore.serve insertions).Few :=
    few_of_single oneRowFile "a" rfl (by decide +kernel)
  have short : (narrowStore.serve insertions).rowCount oneRowFile < 2 ^ 31 := by decide +kernel
  have enough : (narrowStore.serve insertions).cellCount oneRowFile < 7 := by decide +kernel
  have two : (narrowStore.serve insertions).passingCount oneRowSource sevens = 2 := by
    decide +kernel
  obtain ⟨done, -, once, -⟩ := deletes_selected_rows sound rfl hospitable fits selects reads narrow few
    short enough ⟨2⟩ (Stage.unopened (Plan.delete ⟨2⟩ sevens).initial)
  rw [two] at once
  refine ⟨⟨sound, rfl, hospitable, fits, selects, reads, narrow, few, short, enough⟩, done, once, ?_, ?_⟩
  · decide +kernel
  · decide +kernel

/-- All rows of a table of 2^32 pages are to be deleted, and the one that there is stays. -/
theorem row_left_by_deletion :
    (wideStore.Sound ∧ wideStore.pool.frames = [] ∧ wideStore.Hospitable ∧
      (Plan.scan wideSource).Selects wideSource ∧ (Plan.scan wideSource).Reads wideStore.catalog ∧
      wideFile.slotCount ≤ 65536) ∧
    (Plan.scan wideSource).admits [.integer 7] = .ok true ∧
    wideStore.held ⟨⟨.file 0, 0⟩, 0⟩ = some [.integer 7] ∧
    let opened := respond 3 (ofPlan (.delete ⟨2⟩ (.scan wideSource)), wideStore) .start
    opened.1 = .ok .done ∧ opened.2.2.held ⟨⟨.file 0, 0⟩, 0⟩ = some [.integer 7] :=
  ⟨⟨sound_of_single rfl whole_wideFile, rfl, ⟨Nat.one_pos, Eviction.obliging_of_picks (Or.inl rfl)⟩,
      rfl, ⟨.file 0, rfl⟩, by decide⟩,
    rfl, by decide +kernel, by decide +kernel, by decide +kernel⟩

end Operator

end PagedStore
