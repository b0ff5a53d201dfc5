import PagedStore.Proofs.Pool.RowChanges
import PagedStore.Proofs.Query.CountRow

/-!
Storing or deleting the rows of a child, one after the other. Opening such a node takes row after row
from the child and makes a request for each, until the child has no more rows, the child fails or a
request fails. The rows taken before that have had their effect, each at a slot of its own, and nothing
else has changed; a failure is passed on as it is, and the node is not opened by a start that fails.
-/

namespace PagedStore

open PagedStore.Action

/-- What a node does with each row of its child. -/
inductive Work where
  | storing (transaction : Transaction) (table : TableId)
  | deleting (transaction : Transaction)

def Work.request : Work → Row → Operation
  | storing transaction table, row => .insert transaction table row
  | deleting transaction, row => .delete transaction row

/-- The changes are those that are asked for, one for each row. -/
def Work.Done (work : Work) (changes : List Change) (rows : List Row) : Prop :=
  List.Forall₂ (fun change row => change.Fulfils (work.request row)) changes rows

def Plan.work? : Plan → Option Work
  | insert transaction table _ => some (.storing transaction table)
  | delete transaction _ => some (.deleting transaction)
  | _ => none

namespace Operator

variable {μ : Type} [EvictionPolicy μ] (steps : Nat)

def Gives (before : Operator × Store μ) (row : Row) (after : Operator × Store μ) : Prop :=
  ∃ asked, respond steps before .hasNext = (.ok (.more true), asked) ∧
    respond steps asked .next = (.ok (.row row), after)

/-- These rows are taken one after the other, and the request for each succeeds before the operator is
asked for the next. -/
inductive Course (work : Work) : Operator × Store μ → List Row → Operator × Store μ → Prop where
  | nil (state : Operator × Store μ) : Course work state [] state
  | turn {before given last : Operator × Store μ} {row : Row} {rows : List Row} {answer : Answer}
      {store : Store μ} (gives : Gives steps before row given)
      (granted : given.2.outcome (work.request row) = (.ok answer, store))
      (course : Course work (given.1, store) rows last) : Course work before (row :: rows) last

/-- There is no turn that succeeds: the operator has no more rows, or something fails. -/
inductive Halts (work : Work) (before : Operator × Store μ) :
    Except Fault Unit → Operator × Store μ → Prop where
  | exhausted {after : Operator × Store μ}
      (ends : respond steps before .hasNext = (.ok (.more false), after)) :
      Halts work before (.ok ()) after
  | unknown {fault : Fault} {after : Operator × Store μ}
      (fails : respond steps before .hasNext = (.error fault, after)) :
      Halts work before (.error fault) after
  | ungiven {fault : Fault} {asked after : Operator × Store μ}
      (more : respond steps before .hasNext = (.ok (.more true), asked))
      (fails : respond steps asked .next = (.error fault, after)) :
      Halts work before (.error fault) after
  | refused {fault : Fault} {row : Row} {given : Operator × Store μ} {store : Store μ}
      (gives : Gives steps before row given)
      (fails : given.2.outcome (work.request row) = (.error fault, store)) :
      Halts work before (.error fault) (given.1, store)

/-- All that is done with the rows of an operator in so many turns at most: a course that halts, or one
that is cut off because the turns are used up. -/
inductive Run (work : Work) (turns : Nat) (before : Operator × Store μ) :
    List Row → Except Fault Unit → Operator × Store μ → Prop where
  | halted {rows : List Row} {last after : Operator × Store μ} {result : Except Fault Unit}
      (course : Course steps work before rows last) (inside : rows.length < turns)
      (halts : Halts steps work last result after) : Run work turns before rows result after
  | cut {rows : List Row} {last : Operator × Store μ} (course : Course steps work before rows last)
      (all : rows.length = turns) : Run work turns before rows (.error .outOfSteps) last

variable {steps} {work : Work} {before given last after : Operator × Store μ} {row : Row}
  {rows : List Row} {result : Except Fault Unit} {store : Store μ}

theorem gives_unique {other : Row} {also : Operator × Store μ} (gives : Gives steps before row after)
    (again : Gives steps before other also) : row = other ∧ after = also := by
  obtain ⟨asked, more, next⟩ := gives
  obtain ⟨askedAgain, moreAgain, nextAgain⟩ := again
  obtain rfl := congrArg Prod.snd (more.symm.trans moreAgain)
  have same := next.symm.trans nextAgain
  simpa using same

theorem not_halts_of_turn {answer : Answer} (gives : Gives steps before row given)
    (granted : given.2.outcome (work.request row) = (.ok answer, store)) :
    ¬ Halts steps work before result after := by
  intro halts
  cases halts with
  | exhausted ends =>
    obtain ⟨asked, more, -⟩ := gives
    simp [more] at ends
  | unknown fails =>
    obtain ⟨asked, more, -⟩ := gives
    simp [more] at fails
  | ungiven more fails =>
    obtain ⟨asked, moreAgain, next⟩ := gives
    obtain rfl := congrArg Prod.snd (more.symm.trans moreAgain)
    simp [next] at fails
  | refused other fails =>
    obtain ⟨rfl, rfl⟩ := gives_unique gives other
    simp [granted] at fails

theorem halts_unique {other : Except Fault Unit} {also : Operator × Store μ}
    (halts : Halts steps work before result after) (again : Halts steps work before other also) :
    result = other ∧ after = also := by
  -- The replies to the same calls are the same, so two different ways to halt contradict each other.
  cases halts <;> cases again <;> grind [Gives]

/-- A course that halts is the longest one. -/
theorem length_le_of_halts (course : Course steps work before rows last)
    (halts : Halts steps work last result after) {others : List Row} {otherLast : Operator × Store μ}
    (other : Course steps work before others otherLast) : others.length ≤ rows.length := by
  induction course generalizing others with
  | nil state =>
    cases other with
    | nil => exact Nat.le_refl _
    | turn gives granted later => exact absurd halts (not_halts_of_turn gives granted)
  | turn gives granted course ih =>
    cases other with
    | nil => exact Nat.zero_le _
    | turn again grantedAgain later =>
      obtain ⟨rfl, rfl⟩ := gives_unique gives again
      obtain rfl := congrArg Prod.snd (granted.symm.trans grantedAgain)
      exact Nat.succ_le_succ (ih halts later)

theorem course_unique (course : Course steps work before rows last) {others : List Row}
    {otherLast : Operator × Store μ} (other : Course steps work before others otherLast)
    (same : rows.length = others.length) : rows = others ∧ last = otherLast := by
  induction course generalizing others with
  | nil state =>
    cases other with
    | nil => exact ⟨rfl, rfl⟩
    | turn gives granted later => contradiction
  | turn gives granted course ih =>
    cases other with
    | nil => contradiction
    | turn again grantedAgain later =>
      obtain ⟨rfl, rfl⟩ := gives_unique gives again
      obtain rfl := congrArg Prod.snd (granted.symm.trans grantedAgain)
      obtain ⟨rfl, rfl⟩ := ih later (Nat.succ.inj same)
      exact ⟨rfl, rfl⟩

theorem run_unique {turns : Nat} (run : Run steps work turns before rows result after)
    {others : List Row} {other : Except Fault Unit} {also : Operator × Store μ}
    (again : Run steps work turns before others other also) :
    rows = others ∧ result = other ∧ after = also := by
  cases run with
  | halted course inside halts =>
    cases again with
    | halted courseAgain insideAgain haltsAgain =>
      have same := Nat.le_antisymm (length_le_of_halts courseAgain haltsAgain course)
        (length_le_of_halts course halts courseAgain)
      obtain ⟨rfl, rfl⟩ := course_unique course courseAgain same
      exact ⟨rfl, halts_unique halts haltsAgain⟩
    | cut courseAgain all =>
      have longest := length_le_of_halts course halts courseAgain
      omega
  | cut course all =>
    cases again with
    | halted courseAgain inside halts =>
      have longest := length_le_of_halts courseAgain halts course
      omega
    | cut courseAgain allAgain =>
      obtain ⟨rfl, rfl⟩ := course_unique course courseAgain (all.trans allAgain.symm)
      exact ⟨rfl, rfl, rfl⟩

theorem run_of_turn {turns : Nat} {answer : Answer} (gives : Gives steps before row given)
    (granted : given.2.outcome (work.request row) = (.ok answer, store))
    (run : Run steps work turns (given.1, store) rows result after) :
    Run steps work (turns + 1) before (row :: rows) result after := by
  cases run with
  | halted course inside halts => exact .halted (.turn gives granted course) (Nat.succ_lt_succ inside) halts
  | cut course all => exact .cut (.turn gives granted course) (congrArg Nat.succ all)

theorem run_of_halts (turns : Nat) (halts : Halts steps work before result after) :
    Run steps work (turns + 1) before [] result after :=
  .halted (.nil before) (Nat.succ_pos turns) halts

end Operator

namespace Plan

open Operator

variable {μ : Type} [EvictionPolicy μ] {steps : Nat} {work : Work}

/-- A row is asked for as by a client who makes sure first that there is one. -/
theorem next?_gives (work : Work) (child : Plan) (stage : Stage child.Inner) (store : Store μ) :
    Action.Ends (Stage.next? (child.produce steps)) (stage, store)
      (fun found after => match found with
        | none => Halts steps work (⟨child, stage⟩, store) (.ok ()) (⟨child, after.1⟩, after.2)
        | some row => Operator.Gives steps (⟨child, stage⟩, store) row (⟨child, after.1⟩, after.2))
      fun fault after =>
        Halts steps work (⟨child, stage⟩, store) (.error fault) (⟨child, after.1⟩, after.2) := by
  unfold Stage.next?
  rw [ends_bind]
  apply ends_imp (hasNext_responds child stage store)
  · rintro more ⟨asked, middle⟩ told
    cases more with
    | false =>
      rw [if_neg Bool.false_ne_true]
      exact .exhausted told
    | true =>
      rw [if_pos rfl, ends_map]
      apply ends_imp (next_responds child asked middle)
      · exact fun row after given => ⟨_, told, given⟩
      · exact fun fault after fails => .ungiven told fails
  · exact fun fault after fails => .unknown fails

/-- The loop over the rows of the child is a run, and it counts the rows. -/
theorem forEach_runs (child : Plan) {apply : Row → Action (Store μ) Frame}
    (carries : ∀ row store, Store.CarriesOut (work.request row) (apply row) store) (turns : Nat)
    (own : RowCount) (stage : Stage child.Inner) (store : Store μ) :
    Action.Ends (Stage.forEach (child.produce steps) (counting apply) turns) ((own, stage), store)
      (fun _ after => ∃ rows,
        Run steps work turns (⟨child, stage⟩, store) rows (.ok ()) (⟨child, after.1.2⟩, after.2) ∧
          after.1.1 = ⟨own.count + rows.length, own.given⟩)
      fun fault after => ∃ rows,
        Run steps work turns (⟨child, stage⟩, store) rows (.error fault)
          (⟨child, after.1.2⟩, after.2) := by
  induction turns generalizing own stage store with
  | zero => exact ⟨[], .cut (.nil _) rfl⟩
  | succ turns ih =>
    rw [Stage.ends_forEach_succ]
    apply ends_imp (next?_gives work child stage store)
    · rintro found ⟨inner, middle⟩ told
      cases found with
      | none => exact ⟨[], run_of_halts turns told, rfl⟩
      | some row =>
        dsimp only
        rw [ends_counting]
        apply ends_imp (carries row middle)
        · rintro frame after ⟨answer, granted⟩
          apply ends_imp (ih ⟨own.count + 1, own.given⟩ inner after)
          · rintro _ ⟨⟨counted, last⟩, final⟩ ⟨rows, run, rfl⟩
            refine ⟨row :: rows, run_of_turn told granted run, ?_⟩
            rw [List.length_cons, Nat.add_assoc, Nat.add_comm 1]
          · rintro fault last ⟨rows, run⟩
            exact ⟨row :: rows, run_of_turn told granted run⟩
        · intro fault after fails
          exact ⟨[], run_of_halts turns (.refused told fails)⟩
    · intro fault after halts
      exact ⟨[], run_of_halts turns halts⟩

theorem start_counting_runs (child : Plan) {apply : Row → Action (Store μ) Frame}
    (carries : ∀ row store, Store.CarriesOut (work.request row) (apply row) store)
    (stage : Stage (RowCount × Stage child.Inner)) (store : Store μ) {opened : Operator × Store μ}
    (begun : respond steps (⟨child, stage.inner.2⟩, store) .start = (.ok .done, opened)) :
    Action.Ends (Stage.onInner (do
        Beside.onSecond (child.start steps)
        Beside.onFirst (Beside.modifyOwn fun _ => ⟨0, false⟩)
        Stage.forEach (child.produce steps) (counting apply) steps) >>= fun _ => Stage.start)
      (stage, store)
      (fun _ after => ∃ rows,
        Run steps work steps opened rows (.ok ()) (⟨child, after.1.inner.2⟩, after.2) ∧
          Tally rows.length after.1 0)
      fun fault after => ∃ rows,
        Run steps work steps opened rows (.error fault) (⟨child, after.1.inner.2⟩, after.2) := by
  obtain ⟨isOpen, lookahead, own, inner⟩ := stage
  rw [ends_bind, Stage.onInner, ends_within, ends_bind, Beside.ends_onSecond]
  apply ends_imp (start_responds child inner store)
  · rintro _ ⟨childStage, middle⟩ told
    obtain rfl := congrArg Prod.snd (begun.symm.trans told)
    apply ends_imp (forEach_runs child carries steps ⟨0, false⟩ childStage middle)
    · rintro _ ⟨⟨counted, last⟩, final⟩ ⟨rows, run, rfl⟩
      refine ⟨rows, run, ?_⟩
      rw [Nat.zero_add]
      exact .fresh last
    · exact fun fault after ran => ran
  · intro fault after failed
    have impossible := congrArg Prod.fst (begun.symm.trans failed)
    contradiction

end Plan

namespace Operator

variable {μ : Type} [EvictionPolicy μ] {steps : Nat} {work : Work}

theorem ends_start_of_work {operator below : Operator} (works : operator.plan.work? = some work)
    (isBelow : operator.below? = some below) {store : Store μ} {opened : Operator × Store μ}
    (begun : respond steps (below, store) .start = (.ok .done, opened)) :
    Action.Ends (perform steps .start) (operator, store)
      (fun reply after => reply = .done ∧ ∃ rows ended, Run steps work steps opened rows (.ok ()) ended ∧
        after.1.below? = some ended.1 ∧ after.2 = ended.2 ∧
        after.1.plan.Tallies rows.length 0 after.1.state)
      fun fault after => ∃ rows ended, Run steps work steps opened rows (.error fault) ended ∧
        after.1.below? = some ended.1 ∧ after.2 = ended.2 := by
  obtain ⟨plan, stage⟩ := operator
  unfold perform start
  rw [ends_bind, ends_onState]
  cases plan with
  | insert transaction table child =>
    obtain rfl := Option.some.inj works
    obtain rfl := Option.some.inj isBelow
    have carries : ∀ row (store : Store μ), Store.CarriesOut (Work.request (.storing transaction table) row)
        (Store.insert transaction table row) store := Store.insert_carriesOut transaction table
    apply ends_imp (Plan.start_counting_runs child carries stage store begun)
    · rintro _ after ⟨rows, run, tally⟩
      exact ⟨rfl, rows, _, run, rfl, rfl, tally⟩
    · rintro fault after ⟨rows, run⟩
      exact ⟨rows, _, run, rfl, rfl⟩
  | delete transaction child =>
    obtain rfl := Option.some.inj works
    obtain rfl := Option.some.inj isBelow
    have carries : ∀ row (store : Store μ), Store.CarriesOut (Work.request (.deleting transaction) row)
        (Store.delete transaction row) store := Store.delete_carriesOut transaction
    apply ends_imp (Plan.start_counting_runs child carries stage store begun)
    · rintro _ after ⟨rows, run, tally⟩
      exact ⟨rfl, rows, _, run, rfl, rfl, tally⟩
    · rintro fault after ⟨rows, run⟩
      exact ⟨rows, _, run, rfl, rfl⟩
  | _ => contradiction

/-- A node that stores or deletes, started above a child that opens, runs through the rows of the child
and replies as the run ends. -/
theorem start_runs {operator below : Operator} (works : operator.plan.work? = some work)
    (isBelow : operator.below? = some below) {store : Store μ} {opened : Operator × Store μ}
    (begun : respond steps (below, store) .start = (.ok .done, opened)) :
    ∃ rows result ended node, Run steps work steps opened rows result ended ∧
      respond steps (operator, store) .start = (result.map fun _ => .done, (node, ended.2)) ∧
      node.below? = some ended.1 ∧
      (result = .ok () → node.plan.Tallies rows.length 0 node.state) := by
  rcases outcome_of_ends (ends_start_of_work works isBelow begun) with
    ⟨reply, replied, rfl, rows, ended, run, isBelowThen, isStore, tallies⟩ |
      ⟨fault, failed, rows, ended, run, isBelowThen, isStore⟩
  · exact ⟨rows, .ok (), ended, _, run, Prod.ext replied (Prod.ext rfl isStore), isBelowThen,
      fun _ => tallies⟩
  · refine ⟨rows, .error fault, ended, _, run, Prod.ext failed (Prod.ext rfl isStore), isBelowThen, ?_⟩
    intro succeeded
    contradiction

theorem request_differs (work : Work) (row : Row) {store : Store μ} (aligned : store.Aligned)
    (few : store.Few) :
    Action.Ends (Store.perform (work.request row)) store
      (fun _ after => after.Few → Store.Fulfilled store (work.request row) after)
      fun _ after => after.Few → Store.DiffersBy store [] after := by
  cases work with
  | storing transaction table =>
    exact (ends_bind ..).mpr (Store.insert_differs aligned few transaction table row)
  | deleting transaction =>
    apply (ends_bind ..).mpr
    apply ends_imp (Store.delete_differs aligned few transaction row)
    · exact fun _ _ fulfilled _ => fulfilled
    · exact fun _ _ differs _ => differs

/-- The changes of one node all fill slots or all free slots. -/
theorem alike_of_fulfils {change other : Change} {row otherRow : Row}
    (fulfils : change.Fulfils (work.request row)) (also : other.Fulfils (work.request otherRow)) :
    change.values = none ↔ other.values = none := by
  cases work with
  | storing transaction table =>
    cases fulfils
    cases also
    exact iff_of_false (Option.some_ne_none _) (Option.some_ne_none _)
  | deleting transaction =>
    cases fulfils
    cases also
    exact Iff.rfl

variable {before given last after : Operator × Store μ} {rows : List Row}
  {result : Except Fault Unit}

/-- What takes a row, what goes through rows and what halts are all calls and requests. -/
theorem events_of_request {operation : Operation} {answer : Except Fault Answer} {store : Store μ}
    (answered : given.2.outcome operation = (answer, store)) :
    ∃ events, Operator.after steps given events = (given.1, store) := by
  refine ⟨[.ask operation], ?_⟩
  change (given.1, (given.2.outcome operation).2) = (given.1, store)
  rw [answered]

theorem events_of_append {middle : Operator × Store μ}
    (first : ∃ events, Operator.after steps before events = middle)
    (second : ∃ events, Operator.after steps middle events = after) :
    ∃ events, Operator.after steps before events = after := by
  obtain ⟨earlier, rfl⟩ := first
  obtain ⟨later, rfl⟩ := second
  exact ⟨earlier ++ later, after_append steps before earlier later⟩

theorem events_of_gives {row : Row} (gives : Gives steps before row given) :
    ∃ events, Operator.after steps before events = given := by
  obtain ⟨asked, more, next⟩ := gives
  exact events_of_append ⟨[.call .hasNext], congrArg Prod.snd more⟩
    ⟨[.call .next], congrArg Prod.snd next⟩

theorem events_of_course (course : Course steps work before rows last) :
    ∃ events, Operator.after steps before events = last := by
  induction course with
  | nil state => exact ⟨[], rfl⟩
  | @turn before given last row rows answer store gives granted course ih =>
    exact events_of_append (events_of_gives gives) (events_of_append (events_of_request granted) ih)

theorem events_of_halts (halts : Halts steps work last result after) :
    ∃ events, Operator.after steps last events = after := by
  cases halts with
  | exhausted ends => exact ⟨[.call .hasNext], congrArg Prod.snd ends⟩
  | unknown fails => exact ⟨[.call .hasNext], congrArg Prod.snd fails⟩
  | ungiven more fails =>
    exact events_of_append ⟨[.call .hasNext], congrArg Prod.snd more⟩
      ⟨[.call .next], congrArg Prod.snd fails⟩
  | @refused fault row given store gives fails =>
    exact events_of_append (events_of_gives gives) (events_of_request fails)

variable (steps) in
theorem consistent_of_reached (consistent : before.2.Consistent)
    (reached : ∃ events, Operator.after steps before events = after) : after.2.Consistent := by
  obtain ⟨events, rfl⟩ := reached
  exact consistent_of_events steps consistent events

variable (steps) in
theorem few_of_reached (consistent : before.2.Consistent)
    (reached : ∃ events, Operator.after steps before events = after) (few : after.2.Few) :
    before.2.Few := by
  obtain ⟨events, rfl⟩ := reached
  exact few_of_events steps consistent.1 few

/-- To ask for a row, or whether there is one, changes no row. -/
theorem differs_of_call (consistent : before.2.Consistent) (few : after.2.Few) {call : Call}
    (calm : call ≠ .start) {reply : Except Fault Reply}
    (replied : respond steps before call = (reply, after)) :
    Store.DiffersBy before.2 [] after.2 := by
  have fewThen := few_of_reached steps consistent ⟨[.call call], congrArg Prod.snd replied⟩ few
  have still := still_of_call steps fewThen (consistent.2 fewThen) calm
  rw [replied] at still
  exact Store.differsBy_of_still still

theorem differs_of_gives (consistent : before.2.Consistent) (few : given.2.Few) {row : Row}
    (gives : Gives steps before row given) : Store.DiffersBy before.2 [] given.2 := by
  obtain ⟨asked, more, next⟩ := gives
  have consistentNow := consistent_of_reached steps consistent
    ⟨[.call .hasNext], congrArg Prod.snd more⟩
  have fewNow := few_of_reached steps consistentNow ⟨[.call .next], congrArg Prod.snd next⟩ few
  exact Store.differsBy_after_same (differs_of_call consistent fewNow (by decide) more)
    (differs_of_call consistentNow few (by decide) next)

theorem exists_row_of_done {changes : List Change} (done : work.Done changes rows) {change : Change}
    (member : change ∈ changes) : ∃ row, change.Fulfils (work.request row) := by
  induction done with
  | nil => exact absurd member List.not_mem_nil
  | cons fulfils done ih =>
    rcases List.mem_cons.mp member with rfl | isLater
    · exact ⟨_, fulfils⟩
    · exact ih isLater

/-- Each row of a course makes its change, and nothing else changes. -/
theorem differs_of_course (consistent : before.2.Consistent)
    (course : Course steps work before rows last) (few : last.2.Few) :
    ∃ changes, work.Done changes rows ∧ Store.DiffersBy before.2 changes last.2 := by
  induction course with
  | nil state => exact ⟨[], .nil, Store.differsBy_nil fun _ _ _ => Iff.rfl⟩
  | @turn before given last row rows answer store gives granted course ih =>
    have consistentGiven := consistent_of_reached steps consistent (events_of_gives gives)
    have asked : ∃ events, Operator.after steps given events = (given.1, store) :=
      events_of_request granted
    have consistentThen := consistent_of_reached steps consistentGiven asked
    have fewThen := few_of_reached steps consistentThen (events_of_course course) few
    have fewGiven := few_of_reached steps consistentGiven asked fewThen
    have same := differs_of_gives consistent fewGiven gives
    obtain ⟨change, fulfils, differs⟩ := done_of_outcome_eq
      (request_differs work row (consistentGiven.2 fewGiven) fewGiven) granted fewThen
    obtain ⟨changes, done, differsThen⟩ := ih consistentThen few
    refine ⟨change :: changes, .cons fulfils done, ?_⟩
    apply Store.differsBy_append (Store.differsBy_after_same same differs) differsThen
    rintro first isFirst other isOther
    obtain rfl := List.mem_singleton.mp isFirst
    obtain ⟨otherRow, also⟩ := exists_row_of_done done isOther
    exact alike_of_fulfils fulfils also

/-- Where the course halts, nothing more changes. -/
theorem differs_of_halts (consistent : last.2.Consistent)
    (halts : Halts steps work last result after) (few : after.2.Few) :
    Store.DiffersBy last.2 [] after.2 := by
  cases halts with
  | exhausted ends => exact differs_of_call consistent few (by decide) ends
  | unknown fails => exact differs_of_call consistent few (by decide) fails
  | ungiven more fails =>
    have consistentNow := consistent_of_reached steps consistent
      ⟨[.call .hasNext], congrArg Prod.snd more⟩
    have fewNow := few_of_reached steps consistentNow
      ⟨[.call .next], congrArg Prod.snd fails⟩ few
    exact Store.differsBy_after_same (differs_of_call consistent fewNow (by decide) more)
      (differs_of_call consistentNow few (by decide) fails)
  | @refused fault row given store gives fails =>
    have consistentGiven := consistent_of_reached steps consistent (events_of_gives gives)
    have fewGiven := few_of_reached steps consistentGiven (events_of_request fails) few
    exact Store.differsBy_after_same (differs_of_gives consistent fewGiven gives)
      (failed_of_outcome_eq (request_differs work row (consistentGiven.2 fewGiven) fewGiven) fails few)

theorem differs_of_run {turns : Nat} (consistent : before.2.Consistent)
    (run : Run steps work turns before rows result after) (few : after.2.Few) :
    ∃ changes, work.Done changes rows ∧ Store.DiffersBy before.2 changes after.2 := by
  cases run with
  | halted course inside halts =>
    have consistentLast := consistent_of_reached steps consistent (events_of_course course)
    have fewLast := few_of_reached steps consistentLast (events_of_halts halts) few
    obtain ⟨changes, done, differs⟩ := differs_of_course consistent course fewLast
    have unchanged := differs_of_halts consistentLast halts few
    refine ⟨changes, done, ?_⟩
    have both := Store.differsBy_append differs unchanged fun _ _ _ absent => absurd absent List.not_mem_nil
    rw [List.append_nil] at both
    exact both
  | cut course all => exact differs_of_course consistent course few

/-- A node that stores or deletes is started above a child that opens. Then there is one run through the
rows of the child, and the start replies as the run ends: with the first failure, or with success once the
child has no more rows. The child is left as it was then, and as long as no file has come to 2^32 pages,
each row of the run has had its effect and no other slot of any page shows anything else. If the start fails, a node that was closed is closed still; if
it succeeds, the node tells the number of the rows. -/
theorem stops_at_first_failure {origin store : Store μ} (filed : origin.catalog.Filed)
    (unused : origin.pool.frames = [])
    (reached : ∃ bound plan events, (Operator.after bound (ofPlan plan, origin) events).2 = store)
    {operator below : Operator} (works : operator.plan.work? = some work)
    (isBelow : operator.below? = some below) {opened : Operator × Store μ}
    (begun : respond steps (below, store) .start = (.ok .done, opened)) :
    (∃ rows result ended, Run steps work steps opened rows result ended) ∧
      ∀ rows result ended, Run steps work steps opened rows result ended →
        ∃ node, respond steps (operator, store) .start =
            (result.map fun _ => .done, (node, ended.2)) ∧
          node.below? = some ended.1 ∧
          (ended.2.Few →
            ∃ changes, work.Done changes rows ∧ Store.DiffersBy opened.2 changes ended.2) ∧
          (∀ fault, result = .error fault → node.isOpen = operator.isOpen) ∧
          (result = .ok () → node.isOpen = true ∧
            TellsOnce steps (node, ended.2) (Plan.countRow rows.length) ∧
            (rows.length < 2 ^ 31 → ∃ number : Int32,
              (Plan.countRow rows.length).values = [.integer number] ∧
                number.toInt = rows.length)) := by
  obtain ⟨bound, plan, events, rfl⟩ := reached
  have consistent := consistent_of_events bound
    (show (ofPlan plan, origin).2.Consistent from Store.consistent_of_unused filed unused) events
  generalize (Operator.after bound (ofPlan plan, origin) events).2 = store at *
  have consistentBelow : (below, store).2.Consistent := consistent
  have consistentOpened := consistent_of_reached steps consistentBelow
    ⟨[.call .start], congrArg Prod.snd begun⟩
  obtain ⟨rows, result, ended, node, run, started, isBelowThen, tallies⟩ :=
    start_runs works isBelow begun
  have opens := isOpen_respond steps (operator, store) .start
  rw [started] at opens
  refine ⟨⟨rows, result, ended, run⟩, ?_⟩
  intro others other also again
  obtain ⟨rfl, rfl, rfl⟩ := run_unique run again
  refine ⟨node, started, isBelowThen, differs_of_run consistentOpened run, ?_, ?_⟩
  · rintro fault rfl
    exact opens
  · rintro rfl
    exact ⟨opens, fun calls pulls => history_of_tallies (tallies rfl) pulls,
      fun few => ⟨_, rfl, Int32.toInt_ofNat_of_lt few⟩⟩

def rowThere : Row := (Store.integerRow 7).stamped (some (RecordId.ofSlot ⟨.file 0, 0⟩ 0))

def rowTwice : Plan := .values Store.oneRowFile.schema [rowThere, rowThere]

/-- Deletes the row, and then deletes it again. -/
def deletedTwice : Plan := .delete ⟨1⟩ rowTwice

def pulled (state : Operator × Store Eviction.Oblivious) : Operator × Store Eviction.Oblivious :=
  (respond 3 (respond 3 state .hasNext).2 .next).2

def openedTwice : Operator × Store Eviction.Oblivious :=
  (respond 3 (ofPlan rowTwice, Store.oneRowStore) .start).2

def afterDeletion (state : Operator × Store Eviction.Oblivious) :
    Operator × Store Eviction.Oblivious :=
  (state.1, (state.2.outcome (.delete ⟨1⟩ rowThere)).2)

theorem stops_at_first_failure_of_second_deletion :
    let refused := afterDeletion (pulled (afterDeletion (pulled openedTwice)))
    let fault : Fault := .error (.notOnPage (RecordId.ofSlot ⟨.file 0, 0⟩ 0))
    (Store.oneRowStore.catalog.Filed ∧ Store.oneRowStore.pool.frames = [] ∧
      (ofPlan deletedTwice).plan.work? = some (.deleting ⟨1⟩) ∧
      (ofPlan deletedTwice).below? = some (ofPlan rowTwice) ∧
      (respond 3 (ofPlan rowTwice, Store.oneRowStore) .start) = (.ok .done, openedTwice) ∧
      refused.2.Few ∧ Run 3 (.deleting ⟨1⟩) 3 openedTwice [rowThere] (.error fault) refused) ∧
    ∃ node, respond 3 (ofPlan deletedTwice, Store.oneRowStore) .start =
        (.error fault, (node, refused.2)) ∧ node.isOpen = false ∧
      ∃ changes, Work.Done (.deleting ⟨1⟩) changes [rowThere] ∧
        Store.DiffersBy openedTwice.2 changes refused.2 := by
  intro refused fault
  have filed : Store.oneRowStore.catalog.Filed :=
    Catalog.filed_add Catalog.filed_empty Store.oneRowFile "a"
  have begun : respond 3 (ofPlan rowTwice, Store.oneRowStore) .start = (.ok .done, openedTwice) :=
    Prod.ext (by decide +kernel) rfl
  have gives : Gives 3 openedTwice rowThere (pulled openedTwice) :=
    ⟨_, Prod.ext (by decide +kernel) rfl, Prod.ext (by decide +kernel) rfl⟩
  have givesAgain : Gives 3 (afterDeletion (pulled openedTwice)) rowThere
      (pulled (afterDeletion (pulled openedTwice))) :=
    ⟨_, Prod.ext (by decide +kernel) rfl, Prod.ext (by decide +kernel) rfl⟩
  obtain ⟨answer, granted⟩ : ∃ answer,
      ((pulled openedTwice).2.outcome (.delete ⟨1⟩ rowThere)).1 = .ok answer := by
    have succeeds : ((pulled openedTwice).2.outcome (.delete ⟨1⟩ rowThere)).1.isOk = true := by
      decide +kernel
    cases answered : ((pulled openedTwice).2.outcome (.delete ⟨1⟩ rowThere)).1 with
    | ok answer => exact ⟨answer, rfl⟩
    | error cause =>
      rw [answered] at succeeds
      contradiction
  have fails : ((pulled (afterDeletion (pulled openedTwice))).2.outcome (.delete ⟨1⟩ rowThere)).1 =
      .error fault := by decide +kernel
  have run : Run 3 (.deleting ⟨1⟩) 3 openedTwice [rowThere] (.error fault) refused :=
    .halted (.turn gives (Prod.ext granted rfl) (.nil _)) (by decide)
      (.refused givesAgain (Prod.ext fails rfl))
  obtain ⟨-, stops⟩ := stops_at_first_failure filed rfl ⟨0, rowTwice, [], rfl⟩
    (show (ofPlan deletedTwice).plan.work? = some (.deleting ⟨1⟩) from rfl) rfl begun
  obtain ⟨node, started, -, effect, closed, -⟩ := stops _ _ _ run
  have few : refused.2.Few := Store.few_of_single Store.oneRowFile "a" rfl (by decide +kernel)
  exact ⟨⟨filed, rfl, rfl, rfl, begun, few, run⟩, node, started, closed _ rfl, effect few⟩

/-- The child gives one row, and its copy takes the place of the row that is on the first page of 2^32. -/
theorem row_replaced_by_opening :
    (Store.wideStore.catalog.Filed ∧ Store.wideStore.pool.frames = []) ∧
    Store.wideStore.held ⟨⟨.file 0, 0⟩, 0⟩ = some [.integer 7] ∧
    (respond 3 (ofPlan (.insert ⟨1⟩ (.file 0) (.values Store.wideFile.schema [Store.integerRow 8])),
      Store.wideStore) .start).1 = .ok .done ∧
    (respond 3 (ofPlan (.insert ⟨1⟩ (.file 0) (.values Store.wideFile.schema [Store.integerRow 8])),
      Store.wideStore) .start).2.2.held ⟨⟨.file 0, 0⟩, 0⟩ = some [.integer 8] :=
  ⟨⟨Catalog.filed_add Catalog.filed_empty Store.wideFile "a", rfl⟩, by decide +kernel,
    by decide +kernel, by decide +kernel⟩

end Operator

end PagedStore
