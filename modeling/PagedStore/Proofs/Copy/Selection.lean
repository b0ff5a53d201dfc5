import PagedStore.Proofs.Copy.Layout
import PagedStore.Proofs.Scan.Drain

/-!
Selecting from a table. A filter over a scan, or over another such filter, goes through the cells of the
table and gives out the rows that pass its tests. What it tests are the values in memory, which may hold
texts that a page will cut, so it is said of the cells only for tests that the cutting does not change.
-/

namespace PagedStore

def Predicate.testValues (predicate : Predicate) (held : List Value) : Except Error Bool :=
  match held[predicate.field]? with
  | some value => value.satisfies predicate.comparison predicate.operand
  | none => .error (.noColumn predicate.field)

theorem Predicate.test_eq (predicate : Predicate) (row : Row) :
    predicate.test row = predicate.testValues row.values := by
  rw [test, testValues, Row.value, Row.value?]
  cases row.values[predicate.field]? <;> rfl

namespace Plan

/-- The plan reads the rows of one table and gives out some of them. -/
def Selects (source : ScanSource) : Plan → Prop
  | scan own => own = source
  | filter _ child => child.Selects source
  | _ => False

theorem schema_of_selects {source : ScanSource} {plan : Plan} (selects : plan.Selects source) :
    plan.schema = source.schema := by
  induction plan with
  | scan own => exact congrArg ScanSource.schema selects
  | filter predicate child ih => exact ih selects
  | _ => exact selects.elim

def admits : Plan → List Value → Except Error Bool
  | filter predicate child, held =>
      match child.admits held with
      | .ok true => predicate.testValues held
      | unadmitted => unadmitted
  | _, _ => .ok true

/-- No filter of the plan can tell the values from what a page keeps of them. -/
def Blind : Plan → List Value → Prop
  | filter predicate child, held =>
      child.Blind held ∧ predicate.testValues (held.map Value.kept) = predicate.testValues held
  | _, _ => True

theorem blind_of_kept (plan : Plan) {held : List Value} (kept : held.map Value.kept = held) :
    plan.Blind held := by
  induction plan with
  | filter predicate child ih =>
    refine ⟨ih, ?_⟩
    rw [kept]
  | _ => trivial

def blindness (plan : Plan) : RowTrait := ⟨plan.Blind, fun _ kept => plan.blind_of_kept kept⟩

theorem admits_kept {plan : Plan} {held : List Value} (blind : plan.Blind held) :
    plan.admits (held.map Value.kept) = plan.admits held := by
  induction plan with
  | filter predicate child ih =>
    rcases blind with ⟨childBlind, same⟩
    rw [admits, admits, ih childBlind, same]
  | _ => rfl

theorem admits_of_child {predicate : Predicate} {child : Plan} {held : List Value}
    (admitted : child.admits held = .ok true) :
    (filter predicate child).admits held = predicate.testValues held := by
  rw [admits, admitted]

theorem admits_of_unadmitted {predicate : Predicate} {child : Plan} {held : List Value}
    (unadmitted : child.admits held ≠ .ok true) :
    (filter predicate child).admits held = child.admits held := by
  rw [admits]
  split
  · contradiction
  · rfl

theorem passes_child {predicate : Predicate} {child : Plan} {cells : Layout} {index : Nat}
    (passes : Layout.Passes (filter predicate child).admits cells index) :
    Layout.Passes child.admits cells index := by
  rcases Option.map_eq_some_iff.mp passes with ⟨held, there, admitted⟩
  apply Option.map_eq_some_iff.mpr
  refine ⟨held, there, ?_⟩
  by_contra unadmitted
  rw [admits_of_unadmitted unadmitted] at admitted
  exact unadmitted admitted

def StandsAt (source : ScanSource) : (plan : Plan) → plan.Inner → Nat → Prop
  | scan _, cursor, place => Cursor.StandsAt source.file cursor place
  | filter _ child, stage, place =>
      Stage.Ready stage ∧ child.StandsAt source (Stage.inner stage) place
  | _, _, _ => False

end Plan

namespace Store

variable {μ α : Type} {store middle : Store μ} {test : List Value → Except Error Bool}
  {source : ScanSource} {stands : α → Nat → Prop} {plan : Plan}

structure Hosts (source : ScanSource) (plan : Plan) (store : Store μ) : Prop where
  coherent : store.Coherent
  registered : store.catalog.file? source.file.table = some source.file
  keeps : store.Keeps plan.blindness

theorem hosts_child {predicate : Predicate} {child : Plan}
    (hosts : store.Hosts source (.filter predicate child)) : store.Hosts source child where
  coherent := hosts.coherent
  registered := hosts.registered
  keeps := fun id frame cached slot row stored => (hosts.keeps id frame cached slot row stored).1

/-- What has been given out is the first row from a place on that passes the test, or there is none. -/
def Picked (test : List Value → Except Error Bool) (source : ScanSource) (stands : α → Nat → Prop)
    (before : Store μ) (place : Nat) (found : Option Row) (after : α × Store μ) : Prop :=
  match found with
  | some row => ∃ index, place ≤ index ∧ index < before.cellCount source.file ∧
      (∀ earlier, place ≤ earlier → earlier < index →
        ¬ Layout.Passes test (source.file.cell before.current) earlier) ∧
      Layout.Passes test (source.file.cell before.current) index ∧
      before.Shows source.file index row ∧ row.schema = source.schema ∧ stands after.1 (index + 1)
  | none => ∀ index, place ≤ index → ¬ Layout.Passes test (source.file.cell before.current) index

theorem cell_eq_none (hosts : store.Hosts source plan) {index : Nat}
    (beyond : store.cellCount source.file ≤ index) :
    source.file.cell store.current index = none := by
  by_contra there
  exact Nat.not_lt.mpr beyond (lt_cellCount hosts.coherent hosts.registered there)

/-- A row passes if its values are admitted as they are in memory. -/
theorem map_admits_of_shows {index : Nat} {row : Row} (shows : store.Shows source.file index row)
    (keeps : store.Keeps plan.blindness) :
    (source.file.cell store.current index).map plan.admits = some (plan.admits row.values) := by
  rw [shows.cell_eq, Option.map_some, Plan.admits_kept (shows.keeps _ keeps)]

/-- Where the child has picked a row, the predicate alone decides. -/
theorem map_admits_filter {predicate : Predicate} {child : Plan}
    (hosts : store.Hosts source (.filter predicate child)) {index : Nat} {row : Row}
    (shows : store.Shows source.file index row)
    (passes : Layout.Passes child.admits (source.file.cell store.current) index) :
    (source.file.cell store.current index).map (Plan.admits (.filter predicate child)) =
      some (predicate.test row) := by
  have childAdmitted := map_admits_of_shows shows (hosts_child hosts).keeps
  rw [passes] at childAdmitted
  rw [map_admits_of_shows shows hosts.keeps, Predicate.test_eq,
    Plan.admits_of_child (Option.some.inj childAdmitted).symm]

theorem picked_of_sought (hosts : store.Hosts source (.scan source)) {place : Nat}
    {found : Option Row} {after : Cursor × Store μ}
    (sought : Cursor.Sought store source.file place found after)
    (schema : ∀ row ∈ found, row.schema = source.schema) :
    Picked (Plan.admits (.scan source)) source (Plan.StandsAt source (.scan source)) store place found
      after := by
  cases found with
  | some row =>
    rcases sought with ⟨index, next, shows, standsNext⟩
    refine ⟨index, next.atLeast, next.inside, ?_, map_admits_of_shows shows hosts.keeps, shows,
      schema row rfl, standsNext⟩
    intro earlier past before passes
    exact Layout.ne_none_of_passes passes (next.free earlier past before)
  | none =>
    intro index past passes
    have there := Layout.ne_none_of_passes passes
    exact there (sought.1 index past (lt_cellCount hosts.coherent hosts.registered there))

variable [EvictionPolicy μ]

/-- Why no row has been given out: a page could not be brought in, a row could not be tested, or there
were too few turns for the rows that do not pass. -/
inductive Stuck (test : List Value → Except Error Bool) (source : ScanSource) (before : Store μ)
    (place turns : Nat) : Fault → Prop where
  | room (unhospitable : ¬ before.Hospitable) : Stuck test source before place turns (.error .outOfPages)
  | refused {index : Nat} {held : List Value} {cause : Error}
      (there : source.file.cell before.current index = some held)
      (refused : test held = .error cause) : Stuck test source before place turns (.error cause)
  | outOfSteps {reached : Nat} (far : place + turns ≤ reached)
      (inside : reached ≤ before.cellCount source.file)
      (gap : ∀ index, place ≤ index → index < reached →
        ¬ Layout.Passes test (source.file.cell before.current) index) :
      Stuck test source before place turns .outOfSteps

theorem hosts_of_saves (hosts : store.Hosts source plan) (saves : Saves store middle) :
    middle.Hosts source plan where
  coherent := saves.coherent
  registered := saves.catalog_eq ▸ hosts.registered
  keeps := saves.keeps _ hosts.keeps

theorem cellCount_eq (hosts : store.Hosts source plan) (saves : Saves store middle) :
    middle.cellCount source.file = store.cellCount source.file :=
  Cursor.cellCount_of_saves hosts.coherent saves hosts.registered

/-- What has been picked from a later place on is picked from an earlier one, if no row between them
passes. -/
theorem picked_of_saves (hosts : store.Hosts source plan) (saves : Saves store middle)
    {place later : Nat} (ahead : place ≤ later)
    (gap : ∀ index, place ≤ index → index < later →
      ¬ Layout.Passes test (source.file.cell store.current) index)
    {found : Option Row} {after : α × Store μ}
    (picked : Picked test source stands middle later found after) :
    Picked test source stands store place found after := by
  unfold Picked at picked ⊢
  rw [saves.current_eq, cellCount_eq hosts saves] at picked
  cases found with
  | some row =>
    rcases picked with ⟨index, atLeast, inside, between, passes, shows, schema, standsNext⟩
    refine ⟨index, Nat.le_trans ahead atLeast, inside, ?_, passes, shows_of_saves saves shows, schema,
      standsNext⟩
    intro earlier past before
    by_cases reached : later ≤ earlier
    · exact between earlier reached before
    · exact gap earlier past (Nat.lt_of_not_le reached)
  | none =>
    intro index past
    by_cases reached : later ≤ index
    · exact picked index reached
    · exact gap index past (Nat.lt_of_not_le reached)

theorem stuck_of_saves (hosts : store.Hosts source plan) (saves : Saves store middle)
    {place later turns fewer : Nat} (further : place + turns ≤ later + fewer)
    (gap : ∀ index, place ≤ index → index < later →
      ¬ Layout.Passes test (source.file.cell store.current) index)
    {fault : Fault} (stuck : Stuck test source middle later fewer fault) :
    Stuck test source store place turns fault := by
  cases stuck with
  | room unhospitable =>
    exact .room fun hospitable => unhospitable (hospitable_of_saves saves hospitable)
  | refused there refused =>
    rw [saves.current_eq] at there
    exact .refused there refused
  | outOfSteps far inside between =>
    rw [saves.current_eq] at between
    rw [cellCount_eq hosts saves] at inside
    refine .outOfSteps (Nat.le_trans further far) inside ?_
    intro index past before
    by_cases reached : later ≤ index
    · exact between index reached before
    · exact gap index past (Nat.lt_of_not_le reached)

/-- The rows of the plan are given out in the order of their cells. -/
def Supplies (μ : Type) [EvictionPolicy μ] (source : ScanSource) (plan : Plan) (steps : Nat) : Prop :=
  ∀ {store : Store μ}, store.Hosts source plan → ∀ {place : Nat} {inner : plan.Inner},
    plan.StandsAt source inner place → place ≤ store.cellCount source.file →
    Action.Ends (plan.produce steps) (inner, store)
      (fun found after => Saves store after.2 ∧
        Picked plan.admits source (plan.StandsAt source) store place found after)
      fun fault after => Saves store after.2 ∧ Stuck plan.admits source store place steps fault

theorem scan_supplies (source : ScanSource) (steps : Nat) :
    Supplies μ source (.scan source) steps := by
  intro store hosts place inner stands inside
  apply Action.ends_imp (Plan.produceScanned_ends hosts.coherent hosts.registered stands)
  · rintro found after ⟨saves, sought, schema⟩
    exact ⟨saves, picked_of_sought hosts sought schema⟩
  · rintro fault after ⟨rfl, unhospitable, saves⟩
    exact ⟨saves, .room unhospitable⟩

/-- Too few turns for the child are too few for the filter. -/
theorem stuck_filter {predicate : Predicate} {child : Plan} {place steps turns : Nat} {fault : Fault}
    (few : turns ≤ steps) (stuck : Stuck child.admits source store place steps fault) :
    Stuck (Plan.admits (.filter predicate child)) source store place turns fault := by
  cases stuck with
  | room unhospitable => exact .room unhospitable
  | refused there refused =>
    refine .refused there ?_
    rw [Plan.admits_of_unadmitted (fun admitted => by rw [refused] at admitted; contradiction),
      refused]
  | outOfSteps far inFile gap =>
    refine .outOfSteps (Nat.le_trans (Nat.add_le_add_left few place) far) inFile ?_
    intro index past before passes
    exact gap index past before (Plan.passes_child passes)

theorem firstPassing_ends {predicate : Predicate} {child : Plan} {steps : Nat}
    (supplies : Supplies μ source child steps) (hosts : store.Hosts source (.filter predicate child))
    {place : Nat} {stage : Stage child.Inner}
    (stands : Plan.StandsAt source (.filter predicate child) stage place)
    (inside : place ≤ store.cellCount source.file) {turns : Nat} (few : turns ≤ steps) :
    Action.Ends (Stage.firstPassing (child.produce steps) predicate.test turns) (stage, store)
      (fun found after => Saves store after.2 ∧
        Picked (Plan.admits (.filter predicate child)) source
          (Plan.StandsAt source (.filter predicate child)) store place found after)
      fun fault after => Saves store after.2 ∧
        Stuck (Plan.admits (.filter predicate child)) source store place turns fault := by
  -- The place moves behind each row that is turned down, so the turns left reach as far as before.
  induction turns generalizing store stage place with
  | zero =>
    refine ⟨saves_refl hosts.coherent, .outOfSteps (Nat.le_refl place) inside ?_⟩
    intro index past before
    exact absurd before (Nat.not_lt.mpr past)
  | succ turns ih =>
    rcases stands with ⟨ready, standsInside⟩
    have childHosts := hosts_child hosts
    unfold Stage.firstPassing
    rw [Action.ends_bind, Stage.ends_next ready]
    apply Action.ends_imp (supplies childHosts standsInside inside)
    · rintro found ⟨inner, after⟩ ⟨saves, picked⟩
      have readyNext : ({ stage with inner := inner } : Stage child.Inner).Ready :=
        ⟨ready.opened, ready.lookahead_eq⟩
      cases found with
      | none =>
        refine ⟨saves, ?_⟩
        intro index past passes
        exact picked index past (Plan.passes_child passes)
      | some row =>
        rcases picked with ⟨index, past, inFile, between, passes, shows, schema, standsNext⟩
        have admitted := map_admits_filter hosts shows passes
        have gap : ∀ earlier, place ≤ earlier → earlier < index →
            ¬ Layout.Passes (Plan.admits (.filter predicate child)) (source.file.cell store.current)
              earlier := by
          intro earlier reached before passesBoth
          exact between earlier reached before (Plan.passes_child passesBoth)
        dsimp only
        rw [Action.ends_bind, Action.ends_ofExcept]
        cases tested : predicate.test row with
        | error cause =>
          rw [tested] at admitted
          rcases Option.map_eq_some_iff.mp admitted with ⟨held, there, refused⟩
          exact ⟨saves, .refused there refused⟩
        | ok passed =>
          rw [tested] at admitted
          cases passed with
          | true =>
            exact ⟨saves, index, past, inFile, gap, admitted, shows, schema, readyNext, standsNext⟩
          | false =>
            have turnedDown : ¬ Layout.Passes (Plan.admits (.filter predicate child))
                (source.file.cell store.current) index := by
              intro passesBoth
              rw [Layout.Passes, admitted] at passesBoth
              contradiction
            have gapNext := Layout.gap_succ gap turnedDown
            have insideNext : index + 1 ≤ after.cellCount source.file := by
              rw [cellCount_eq hosts saves]
              exact inFile
            have standsThere : Plan.StandsAt source (.filter predicate child)
                { stage with inner := inner } (index + 1) := ⟨readyNext, standsNext⟩
            apply Action.ends_imp
              (ih (hosts_of_saves hosts saves) standsThere insideNext (Nat.le_of_succ_le few))
            · rintro found last ⟨later, picked⟩
              exact ⟨saves_trans saves later,
                picked_of_saves hosts saves (Nat.le_succ_of_le past) gapNext picked⟩
            · rintro fault last ⟨later, stuck⟩
              exact ⟨saves_trans saves later,
                stuck_of_saves hosts saves (by omega) gapNext stuck⟩
    · rintro fault ⟨inner, after⟩ ⟨saves, stuck⟩
      exact ⟨saves, stuck_filter few stuck⟩

theorem supplies_of_selects (selects : plan.Selects source) (steps : Nat) :
    Supplies μ source plan steps := by
  induction plan with
  | scan own =>
    obtain rfl : own = source := selects
    exact scan_supplies own steps
  | filter predicate child ih =>
    intro store hosts place inner stands inside
    exact firstPassing_ends (ih selects) hosts stands inside (Nat.le_refl steps)
  | _ => exact selects.elim

theorem start_ends (selects : plan.Selects source) (steps : Nat) (stage : Stage plan.Inner) :
    Action.Ends (plan.start steps) (stage, store)
      (fun _ after => after.2 = store ∧ after.1.Ready ∧ plan.StandsAt source after.1.inner 0)
      fun _ _ => False := by
  induction plan with
  | scan own =>
    obtain rfl : own = source := selects
    exact ⟨rfl, ⟨rfl, rfl⟩, rfl, rfl, Nat.zero_le _, (Nat.zero_mul _).symm⟩
  | filter predicate child ih =>
    unfold Plan.start Stage.onInner
    apply (Action.ends_bind _ _).mpr
    apply (Action.ends_within _ _ _).mpr
    apply Action.ends_of_never_fails (ih selects (Stage.inner stage))
    rintro _ after ⟨same, ready, stands⟩
    exact ⟨same, ⟨rfl, rfl⟩, ready, stands⟩
  | _ => exact selects.elim

end Store

end PagedStore
