import Mathlib.Data.List.DropRight
import PagedStore.Proofs.Eviction.Recency

/-!
Which page leaves under an LRU-K policy, said of everything that the policy has been told. A log lists
accesses and removals, and each access takes one tick of a clock. The accesses of a page that count are
those after its last removal, however many there are, while the policy remembers only the last few of
them. The memory is always the end of the log's accesses, the times of two pages are never the same, and
so the page that the policy picks can be read off the log alone.
-/

namespace PagedStore.Eviction

/-- What a policy is told about a page. -/
inductive Notice where
  | access (page : PageId)
  | forget (page : PageId)
deriving DecidableEq

namespace Notice

def ticks : List Notice → Nat
  | [] => 0
  | access _ :: rest => ticks rest + 1
  | forget _ :: rest => ticks rest

/-- When a page has been accessed and not been forgotten since, the earliest time first, if the clock
stands at `now` when the log begins. -/
def times (page : PageId) : Nat → List Notice → List Nat
  | _, [] => []
  | now, access other :: rest =>
      if other = page ∧ forget page ∉ rest then now :: times page (now + 1) rest
      else times page (now + 1) rest
  | now, forget _ :: rest => times page now rest

variable {page other : PageId} {now time : Nat} {log : List Notice}

theorem ticks_append (log more : List Notice) : ticks (log ++ more) = ticks log + ticks more := by
  induction log with
  | nil => rw [List.nil_append, ticks, Nat.zero_add]
  | cons notice rest ih =>
    cases notice with
    | access page => rw [List.cons_append, ticks, ticks, ih, Nat.add_right_comm]
    | forget page => rw [List.cons_append, ticks, ticks, ih]

theorem times_concat_access (page other : PageId) (now : Nat) (log : List Notice) :
    times page now (log ++ [access other]) =
      times page now log ++ if other = page then [now + ticks log] else [] := by
  induction log generalizing now with
  | nil => by_cases same : other = page <;> simp [times, ticks, same]
  | cons notice rest ih =>
    cases notice with
    | access first =>
      have shift : now + 1 + ticks rest = now + (ticks rest + 1) := by omega
      have stays : forget page ∈ rest ++ [access other] ↔ forget page ∈ rest := by simp
      rw [List.cons_append, times, times, ticks, ih, shift]
      simp only [stays]
      split <;> rfl
    | forget first => rw [List.cons_append, times, times, ticks, ih]

theorem times_concat_forget (page other : PageId) (now : Nat) (log : List Notice) :
    times page now (log ++ [forget other]) = if other = page then [] else times page now log := by
  induction log generalizing now with
  | nil => by_cases same : other = page <;> simp [times, same]
  | cons notice rest ih =>
    cases notice with
    | access first =>
      rw [List.cons_append, times, times, ih]
      by_cases same : other = page
      · simp [same]
      · have stays : forget page ∈ rest ++ [forget other] ↔ forget page ∈ rest := by
          simp [Ne.symm same]
        rw [if_neg same, if_neg same]
        simp only [stays]
    | forget first => rw [List.cons_append, times, times, ih]

theorem mem_times (member : time ∈ times page now log) : now ≤ time ∧ time < now + ticks log := by
  induction log using List.reverseRecOn with
  | nil => contradiction
  | append_singleton log notice ih =>
    rw [ticks_append]
    cases notice with
    | access other =>
      rw [times_concat_access, List.mem_append] at member
      rcases member with old | new
      · have before := ih old
        omega
      · split at new
        · rw [List.mem_singleton] at new
          simp only [ticks]
          omega
        · contradiction
    | forget other =>
      rw [times_concat_forget] at member
      split at member
      · contradiction
      · have before := ih member
        omega

/-- Two pages are never accessed at the same time. -/
theorem eq_of_mem_times (member : time ∈ times page now log)
    (otherMember : time ∈ times other now log) : page = other := by
  induction log generalizing now with
  | nil => contradiction
  | cons notice rest ih =>
    cases notice with
    | access first =>
      have later : ∀ {page : PageId}, time ∈ times page now (access first :: rest) →
          first = page ∧ time = now ∨ time ∈ times page (now + 1) rest ∧ now < time := by
        intro page member
        rw [times] at member
        split at member
        · next isFirst =>
          rcases List.mem_cons.mp member with rfl | after
          · exact Or.inl ⟨isFirst.1, rfl⟩
          · exact Or.inr ⟨after, (mem_times after).1⟩
        · exact Or.inr ⟨member, (mem_times member).1⟩
      rcases later member with ⟨rfl, rfl⟩ | ⟨after, past⟩
      · rcases later otherMember with ⟨rfl, -⟩ | ⟨-, past⟩
        · rfl
        · exact absurd past (Nat.lt_irrefl _)
      · rcases later otherMember with ⟨-, rfl⟩ | ⟨otherAfter, -⟩
        · exact absurd past (Nat.lt_irrefl _)
        · exact ih after otherAfter
    | forget first => exact ih member otherMember

end Notice

/-- Which page of the list is to leave when all accesses of each page are known: the first page without
any; else, of the pages with fewer than `depth` accesses, the one whose first access is the earliest;
else the one whose access number `depth`, counted from the last one, is the earliest. -/
inductive Leaves (depth : Nat) (times : PageId → List Nat) (cached : List PageId) (page : PageId) :
    Prop where
  | untouched (first : cached.find? (fun other => times other = []) = some page)
  | few (touched : ∀ other ∈ cached, times other ≠ []) (member : page ∈ cached)
      (fewer : (times page).length < depth)
      (earliest : ∀ other ∈ cached, other ≠ page → (times other).length < depth →
        (times page).head? < (times other).head?)
  | full (many : ∀ other ∈ cached, depth ≤ (times other).length) (member : page ∈ cached)
      (earliest : ∀ other ∈ cached, other ≠ page →
        (times page)[(times page).length - depth]? < (times other)[(times other).length - depth]?)

section Pick

variable {sooner : PageId → PageId → Bool}

/-- The page that is picked is to leave before all pages that are listed in front of it. -/
theorem exists_split_of_pick
    (trans : ∀ a b c, sooner a b = true → sooner b c = true → sooner a c = true)
    (between : ∀ a b c, sooner a c = true → sooner a b = true ∨ sooner b c = true)
    {cached : List PageId} {page : PageId} (picked : pick sooner cached = some page) :
    ∃ before after, cached = before ++ page :: after ∧
      (∀ other ∈ before, sooner page other = true) ∧ ∀ other ∈ after, sooner other page = false := by
  induction cached using List.reverseRecOn generalizing page with
  | nil => contradiction
  | append_singleton cached last ih =>
    rw [pick, List.foldl_append, ← pick] at picked
    cases chosen : pick sooner cached with
    | none =>
      rw [chosen] at picked
      obtain rfl : last = page := Option.some.inj picked
      have empty : cached = [] := by
        by_contra nonempty
        obtain ⟨found, -, isPicked⟩ := exists_pick sooner nonempty
        rw [chosen] at isPicked
        contradiction
      exact ⟨[], [], by rw [empty], by simp, by simp⟩
    | some best =>
      rw [chosen] at picked
      obtain ⟨before, after, rfl, ahead, behind⟩ := ih chosen
      by_cases replaced : sooner last best = true
      · obtain rfl : last = page := by simpa [replaced] using picked
        refine ⟨before ++ best :: after, [], rfl, ?_, by simp⟩
        intro other member
        rcases List.mem_append.mp member with inFront | here
        · exact trans last best other replaced (ahead other inFront)
        rcases List.mem_cons.mp here with rfl | later
        · exact replaced
        · rcases between last other best replaced with first | second
          · exact first
          · rw [behind other later] at second
            contradiction
      · obtain rfl : best = page := by simpa [replaced] using picked
        refine ⟨before, after ++ [last], by simp, ahead, ?_⟩
        intro other member
        rcases List.mem_append.mp member with inside | isLast
        · exact behind other inside
        · rw [List.mem_singleton.mp isLast]
          exact Bool.eq_false_iff.mpr replaced

end Pick

theorem Urgency.precedes_between {first middle last : Urgency} (ahead : first.precedes last = true) :
    first.precedes middle = true ∨ middle.precedes last = true := by
  cases first <;> cases middle <;> cases last <;> simp_all [precedes] <;> omega

theorem Urgency.precedes_untouched (urgency : Urgency) : urgency.precedes .untouched = false := by
  cases urgency <;> rfl

/-- How soon a page is to leave, by all its accesses. -/
inductive Ranked (depth now : Nat) (times : List Nat) : Urgency → Prop where
  | untouched (none : times = []) : Ranked depth now times .untouched
  | few {first : Nat} (fewer : times.length < depth) (isFirst : times.head? = some first) :
      Ranked depth now times (.few first)
  | full {time : Nat} (many : depth ≤ times.length)
      (isTime : times[times.length - depth]? = some time) (past : time < now) :
      Ranked depth now times (.full (now - time))

namespace Ranked

variable {depth now : Nat} {times others : List Nat} {urgency otherUrgency : Urgency}

theorem eq_nil_iff (ranked : Ranked depth now times urgency) :
    times = [] ↔ urgency = .untouched := by
  cases ranked with
  | untouched none => simp [none]
  | few fewer isFirst =>
    have touched : times ≠ [] := List.ne_nil_of_mem (List.mem_of_mem_head? isFirst)
    simp [touched]
  | full many isTime past =>
    have touched : times ≠ [] := List.ne_nil_of_mem (List.mem_of_getElem? isTime)
    simp [touched]

theorem head_lt_of_precedes (ranked : Ranked depth now times urgency)
    (otherRanked : Ranked depth now others otherUrgency)
    (ahead : urgency.precedes otherUrgency = true) (touched : times ≠ [])
    (fewer : times.length < depth) (otherFewer : others.length < depth) :
    times.head? < others.head? := by
  cases ranked with
  | untouched none => exact absurd none touched
  | full many => omega
  | @few first _ isFirst =>
    cases otherRanked with
    | untouched => contradiction
    | full otherMany => omega
    | @few second _ isSecond =>
      have earlier : first < second := of_decide_eq_true ahead
      rw [isFirst, isSecond]
      exact earlier

/-- Pages with many accesses leave after all pages with few. -/
theorem length_le_of_precedes (ranked : Ranked depth now times urgency)
    (otherRanked : Ranked depth now others otherUrgency)
    (ahead : urgency.precedes otherUrgency = true) (touched : times ≠ [])
    (many : depth ≤ times.length) : depth ≤ others.length := by
  cases ranked with
  | untouched none => exact absurd none touched
  | few fewer => omega
  | full =>
    cases otherRanked with
    | untouched => contradiction
    | few => contradiction
    | full otherMany => exact otherMany

theorem getElem_lt_of_precedes (pos : 0 < depth) (ranked : Ranked depth now times urgency)
    (otherRanked : Ranked depth now others otherUrgency)
    (ahead : urgency.precedes otherUrgency = true) (many : depth ≤ times.length)
    (otherMany : depth ≤ others.length) :
    times[times.length - depth]? < others[others.length - depth]? := by
  cases ranked with
  | untouched none => simp [none] at many; omega
  | few fewer => omega
  | @full time _ isTime past =>
    cases otherRanked with
    | untouched => contradiction
    | few otherFewer => omega
    | @full otherTime _ isOther otherPast =>
      have further : now - otherTime < now - time := of_decide_eq_true ahead
      have earlier : time < otherTime := by omega
      rw [isTime, isOther]
      exact earlier

end Ranked

namespace LruK

def tell (lru : LruK) : Notice → LruK
  | .access page => EvictionPolicy.access lru page
  | .forget page => EvictionPolicy.forget lru page

def told (lru : LruK) (log : List Notice) : LruK := log.foldl tell lru

theorem extend_rtake (depth : Nat) (times : List Nat) (time : Nat) :
    extend depth (times.rtake depth) time = (times ++ [time]).rtake depth := by
  cases depth with
  | zero => simp [extend, List.rtake]
  | succ depth =>
    have forgets : (times.rtake (depth + 1)).rtake depth = times.rtake depth := by
      simp only [List.rtake, List.drop_drop, List.length_drop]
      congr 1
      omega
    change ((times.rtake (depth + 1)) ++ [time]).rtake (depth + 1) = _
    rw [List.rtake_concat_succ, List.rtake_concat_succ, forgets]

structure Knows (lru : LruK) (depth : Nat) (log : List Notice) : Prop where
  depth_eq : lru.depth = depth
  clock_eq : lru.clock = Notice.ticks log
  history_eq : ∀ page, lru.history page = (Notice.times page 0 log).rtake depth

variable {depth : Nat} {log : List Notice} {lru : LruK}

theorem knows_nothing (pos : 0 < depth) : Knows ⟨depth, pos, 0, []⟩ depth [] :=
  ⟨rfl, rfl, fun _ => (List.rtake_nil depth).symm⟩

theorem knows_tell (knows : lru.Knows depth log) (notice : Notice) :
    (lru.tell notice).Knows depth (log ++ [notice]) := by
  cases notice with
  | access page =>
    refine ⟨knows.depth_eq, ?_, ?_⟩
    · rw [Notice.ticks_append]
      exact congrArg (· + 1) knows.clock_eq
    · intro other
      have now := history_access lru page other
      change (lru.access page).history other = _
      rw [now, Notice.times_concat_access, knows.depth_eq, knows.clock_eq, Nat.zero_add]
      by_cases same : other = page
      · rw [if_pos same, if_pos same.symm, same, knows.history_eq, extend_rtake]
      · rw [if_neg same, if_neg (Ne.symm same), List.append_nil, knows.history_eq]
  | forget page =>
    refine ⟨knows.depth_eq, ?_, ?_⟩
    · rw [Notice.ticks_append]
      exact knows.clock_eq
    · intro other
      have now := history_forget lru page other
      change (lru.forget page).history other = _
      rw [now, Notice.times_concat_forget]
      by_cases same : other = page
      · rw [if_pos same, if_pos same.symm, List.rtake_nil]
      · rw [if_neg same, if_neg (Ne.symm same), knows.history_eq]

theorem knows_told (pos : 0 < depth) (log : List Notice) :
    (told ⟨depth, pos, 0, []⟩ log).Knows depth log := by
  induction log using List.reverseRecOn with
  | nil => exact knows_nothing pos
  | append_singleton log notice ih =>
    rw [told, List.foldl_append]
    exact knows_tell ih notice

section Known

variable (knows : lru.Knows depth log)

include knows

theorem lt_clock_of_mem_times {page : PageId} {time : Nat}
    (member : time ∈ Notice.times page 0 log) : time < lru.clock := by
  have bound := (Notice.mem_times member).2
  rw [knows.clock_eq]
  omega

theorem lt_clock_of_mem_history {page : PageId} {time : Nat} (member : time ∈ lru.history page) :
    time < lru.clock := by
  rw [knows.history_eq] at member
  exact lt_clock_of_mem_times knows (List.mem_of_mem_drop member)

theorem ranked_urgency (pos : 0 < depth) (page : PageId) :
    Ranked depth lru.clock (Notice.times page 0 log) (lru.urgency page) := by
  have remembered := knows.history_eq page
  have past : ∀ time ∈ Notice.times page 0 log, time < lru.clock :=
    fun _ member => lt_clock_of_mem_times knows member
  generalize Notice.times page 0 log = times at remembered past
  rw [urgency, remembered, List.rtake, knows.depth_eq]
  by_cases many : depth ≤ times.length
  · have inside : times.length - depth < times.length := by omega
    rw [List.drop_eq_getElem_cons inside]
    have longEnough : ¬ (times.drop (times.length - depth + 1)).length + 1 < depth := by
      rw [List.length_drop]
      omega
    dsimp only
    rw [if_neg longEnough]
    exact .full many (List.getElem?_eq_getElem inside) (past _ (List.getElem_mem inside))
  · have whole : times.length - depth = 0 := by omega
    rw [whole, List.drop_zero]
    cases times with
    | nil => exact .untouched rfl
    | cons first rest =>
      have short : rest.length + 1 < depth := by
        rw [List.length_cons] at many
        omega
      dsimp only
      rw [if_pos short]
      exact .few short rfl

/-- Of two pages that have not both been left untouched one is to leave before the other. -/
theorem precedes_of_touched (pos : 0 < depth) {left right : PageId} (differs : left ≠ right)
    (touched : Notice.times left 0 log ≠ [] ∨ Notice.times right 0 log ≠ []) :
    (lru.urgency left).precedes (lru.urgency right) = true ∨
      (lru.urgency right).precedes (lru.urgency left) = true := by
  have apart : ∀ time ∈ Notice.times left 0 log, ∀ other ∈ Notice.times right 0 log,
      time ≠ other := by
    rintro time inLeft _ inRight rfl
    exact differs (Notice.eq_of_mem_times inLeft inRight)
  have leftRank := ranked_urgency knows pos left
  have rightRank := ranked_urgency knows pos right
  generalize lru.urgency left = leftUrgency at leftRank ⊢
  generalize lru.urgency right = rightUrgency at rightRank ⊢
  cases leftRank with
  | untouched none =>
    cases rightRank with
    | untouched otherNone => exact absurd touched (by simp [none, otherNone])
    | few => exact Or.inl rfl
    | full => exact Or.inl rfl
  | few fewer isFirst =>
    cases rightRank with
    | untouched => exact Or.inr rfl
    | few otherFewer isOther =>
      have differ := apart _ (List.mem_of_mem_head? isFirst) _ (List.mem_of_mem_head? isOther)
      simp only [Urgency.precedes, decide_eq_true_eq]
      omega
    | full => exact Or.inl rfl
  | full many isTime past =>
    cases rightRank with
    | untouched => exact Or.inr rfl
    | few => exact Or.inr rfl
    | full otherMany isOther otherPast =>
      have differ := apart _ (List.mem_of_getElem? isTime) _ (List.mem_of_getElem? isOther)
      simp only [Urgency.precedes, decide_eq_true_eq]
      omega

/-- Whatever else is listed leaves later than the page that is picked, unless neither of them has been
accessed. -/
theorem precedes_of_victim (pos : 0 < depth) {cached : List PageId} {page other : PageId}
    (picked : lru.victim cached = some page) (member : other ∈ cached) (differs : other ≠ page)
    (touched : Notice.times page 0 log ≠ [] ∨ Notice.times other 0 log ≠ []) :
    (lru.urgency page).precedes (lru.urgency other) = true := by
  have least : (lru.urgency other).precedes (lru.urgency page) = false := by
    apply pick_least _ _ picked other member
    · exact fun page => Urgency.precedes_irrefl _
    · exact fun _ _ _ => Urgency.precedes_trans
  rcases precedes_of_touched knows pos (Ne.symm differs) touched with first | second
  · exact first
  · rw [least] at second
    contradiction

omit knows in
theorem exists_victim (lru : LruK) {cached : List PageId} (nonempty : cached ≠ []) :
    ∃ page ∈ cached, lru.victim cached = some page :=
  exists_pick (fun a b => (lru.urgency a).precedes (lru.urgency b)) nonempty

omit knows in
theorem mem_of_victim {cached : List PageId} {page : PageId} (picked : lru.victim cached = some page) :
    page ∈ cached := by
  have nonempty : cached ≠ [] := by
    rintro rfl
    contradiction
  obtain ⟨found, member, isFound⟩ := exists_victim lru nonempty
  obtain rfl := Option.some.inj (picked.symm.trans isFound)
  exact member

omit knows in
theorem exists_split_of_victim {cached : List PageId} {page : PageId}
    (picked : lru.victim cached = some page) :
    ∃ before after, cached = before ++ page :: after ∧
      ∀ other ∈ before, (lru.urgency page).precedes (lru.urgency other) = true := by
  have halves : ∃ before after, cached = before ++ page :: after ∧
      (∀ other ∈ before, (lru.urgency page).precedes (lru.urgency other) = true) ∧
      ∀ other ∈ after, (lru.urgency other).precedes (lru.urgency page) = false := by
    apply exists_split_of_pick _ _ picked
    · exact fun _ _ _ => Urgency.precedes_trans
    · exact fun _ _ _ => Urgency.precedes_between
  obtain ⟨before, after, split, ahead, -⟩ := halves
  exact ⟨before, after, split, ahead⟩

/-- The first page of the list that has not been accessed is picked. -/
theorem find_untouched_of_victim (pos : 0 < depth) {cached : List PageId} {page : PageId}
    (picked : lru.victim cached = some page) (untouched : Notice.times page 0 log = []) :
    cached.find? (fun other => Notice.times other 0 log = []) = some page := by
  obtain ⟨before, after, split, ahead⟩ := exists_split_of_victim picked
  rw [List.find?_eq_some_iff_append]
  refine ⟨by simpa using untouched, before, after, split, ?_⟩
  intro other inFront
  have precedes := ahead other inFront
  have touched : Notice.times other 0 log ≠ [] := by
    rw [Ne, (ranked_urgency knows pos other).eq_nil_iff]
    intro isUntouched
    rw [isUntouched, ((ranked_urgency knows pos page).eq_nil_iff).mp untouched] at precedes
    contradiction
  simpa using touched

/-- What is picked is what is to leave by all accesses. -/
theorem leaves_of_victim (pos : 0 < depth) {cached : List PageId} {page : PageId}
    (picked : lru.victim cached = some page) :
    Leaves depth (Notice.times · 0 log) cached page := by
  by_cases untouched : Notice.times page 0 log = []
  · exact .untouched (find_untouched_of_victim knows pos picked untouched)
  have ranked := ranked_urgency knows pos
  have member := mem_of_victim picked
  have ahead : ∀ other ∈ cached, other ≠ page →
      (lru.urgency page).precedes (lru.urgency other) = true := fun other isOther differs =>
    precedes_of_victim knows pos picked isOther differs (Or.inl untouched)
  by_cases fewer : (Notice.times page 0 log).length < depth
  · refine .few ?_ member fewer ?_
    · intro other isOther none
      have differs : other ≠ page := fun same => untouched (same ▸ none)
      have precedes := ahead other isOther differs
      rw [(ranked other).eq_nil_iff.mp none, Urgency.precedes_untouched] at precedes
      contradiction
    · intro other isOther differs otherFewer
      exact (ranked page).head_lt_of_precedes (ranked other) (ahead other isOther differs) untouched
        fewer otherFewer
  · have many : ∀ other ∈ cached, depth ≤ (Notice.times other 0 log).length := by
      intro other isOther
      have pageMany := Nat.le_of_not_lt fewer
      by_cases same : other = page
      · rwa [same]
      · exact (ranked page).length_le_of_precedes (ranked other) (ahead other isOther same) untouched
          pageMany
    refine .full many member ?_
    intro other isOther differs
    exact (ranked page).getElem_lt_of_precedes pos (ranked other) (ahead other isOther differs)
      (many page member) (many other isOther)

theorem victim_reordered (pos : 0 < depth) {cached reordered : List PageId}
    (perm : reordered.Perm cached)
    (oneUntouched : ∀ page ∈ cached, ∀ other ∈ cached, Notice.times page 0 log = [] →
      Notice.times other 0 log = [] → page = other) :
    lru.victim reordered = lru.victim cached := by
  apply pick_perm
  · exact fun _ => Urgency.precedes_irrefl _
  · exact fun _ _ _ => Urgency.precedes_trans
  · exact perm
  · intro left isLeft right isRight differs
    apply precedes_of_touched knows pos differs
    by_contra untouched
    rw [not_or, not_not, not_not] at untouched
    exact differs (oneUntouched left (perm.mem_iff.mp isLeft) right (perm.mem_iff.mp isRight)
      untouched.1 untouched.2)

end Known

theorem victim_eq_none_iff (lru : LruK) (cached : List PageId) :
    lru.victim cached = none ↔ cached = [] := by
  constructor
  · intro nobody
    by_contra nonempty
    obtain ⟨page, -, picked⟩ := exists_victim lru nonempty
    exact Option.some_ne_none page (picked.symm.trans nobody)
  · rintro rfl
    rfl

end LruK

namespace Leaves

variable {depth : Nat} {times : PageId → List Nat} {cached : List PageId} {page other : PageId}

theorem mem (leaves : Leaves depth times cached page) : page ∈ cached := by
  cases leaves with
  | untouched first => exact List.mem_of_find?_eq_some first
  | few touched member => exact member
  | full many member => exact member

theorem not_lt_of_lt {early late : Option Nat} (before : early < late) : ¬ late < early := by
  cases early <;> cases late <;> simp_all [Nat.le_of_lt]

theorem times_eq_nil (first : cached.find? (fun other => times other = []) = some page) :
    times page = [] := by
  simpa using List.find?_some first

/-- The accesses decide which page is to leave. -/
theorem unique (pos : 0 < depth) (leaves : Leaves depth times cached page)
    (otherLeaves : Leaves depth times cached other) : page = other := by
  have member := leaves.mem
  have otherMember := otherLeaves.mem
  by_contra differs
  cases leaves with
  | untouched first =>
    have none := times_eq_nil first
    cases otherLeaves with
    | untouched otherFirst => exact differs (Option.some.inj (first.symm.trans otherFirst))
    | few touched => exact touched page member none
    | full many =>
      have long := many page member
      rw [none, List.length_nil] at long
      omega
  | few touched _ fewer earliest =>
    cases otherLeaves with
    | untouched otherFirst => exact touched other otherMember (times_eq_nil otherFirst)
    | few _ _ otherFewer otherEarliest =>
      have before := earliest other otherMember (Ne.symm differs) otherFewer
      exact not_lt_of_lt before (otherEarliest page member differs fewer)
    | full many => exact Nat.not_le_of_lt fewer (many page member)
  | full many _ earliest =>
    cases otherLeaves with
    | untouched otherFirst =>
      have long := many other otherMember
      rw [times_eq_nil otherFirst, List.length_nil] at long
      omega
    | few _ _ otherFewer => exact Nat.not_le_of_lt otherFewer (many other otherMember)
    | full _ _ otherEarliest =>
      have before := earliest other otherMember (Ne.symm differs)
      exact not_lt_of_lt before (otherEarliest page member differs)

end Leaves

namespace LruK

/-- A policy that remembers some accesses of each page picks as if it remembered all. Whatever it has
been told, it picks a page whenever there is one, and the page is the one that all accesses since the
last removals single out, however the list is ordered as long as there are not two pages without an
access. No time that it remembers lies ahead of its clock. -/
theorem victim_by_all_accesses (depth : Nat) (pos : 0 < depth) :
    ∃ start, LruK.ofDepth? depth = some start ∧ ∀ log : List Notice,
      (∀ page, ∀ time ∈ (start.told log).history page, time < (start.told log).clock) ∧
      ∀ cached : List PageId,
        ((start.told log).victim cached = none ↔ cached = []) ∧
        (∀ page, (start.told log).victim cached = some page ↔
          Leaves depth (Notice.times · 0 log) cached page) ∧
        ((∀ page ∈ cached, ∀ other ∈ cached, Notice.times page 0 log = [] →
            Notice.times other 0 log = [] → page = other) →
          ∀ reordered : List PageId, reordered.Perm cached →
            (start.told log).victim reordered = (start.told log).victim cached) := by
  refine ⟨⟨depth, pos, 0, []⟩, dif_pos pos, ?_⟩
  intro log
  have knows := knows_told pos log
  refine ⟨fun page time => lt_clock_of_mem_history knows, ?_⟩
  intro cached
  refine ⟨victim_eq_none_iff _ cached, ?_,
    fun oneUntouched reordered perm => victim_reordered knows pos perm oneUntouched⟩
  intro page
  constructor
  · exact leaves_of_victim knows pos
  · intro leaves
    obtain ⟨picked, -, isPicked⟩ := exists_victim (told ⟨depth, pos, 0, []⟩ log)
      (List.ne_nil_of_mem leaves.mem)
    have same := leaves.unique pos (leaves_of_victim knows pos isPicked)
    rw [same]
    exact isPicked

/-- The second of the pages has the latest access of all and leaves nevertheless. It has been removed
since, and one access counts, while two of the other page's do. -/
theorem latest_access_leaves :
    0 < 2 ∧ ∃ start, LruK.ofDepth? 2 = some start ∧
      (start.told [.access ⟨.file 0, 1⟩, .access ⟨.file 0, 0⟩, .access ⟨.file 0, 0⟩,
        .forget ⟨.file 0, 0⟩, .access ⟨.file 0, 1⟩, .access ⟨.file 0, 0⟩]).victim
          [⟨.file 0, 1⟩, ⟨.file 0, 0⟩] = some ⟨.file 0, 0⟩ := by
  obtain ⟨start, made, picks⟩ := victim_by_all_accesses 2 (by decide)
  refine ⟨by decide, start, made, (((picks _).2 _).2.1 _).mpr ?_⟩
  have touched : ∀ other ∈ [(⟨.file 0, 1⟩ : PageId), ⟨.file 0, 0⟩],
      Notice.times other 0 [.access ⟨.file 0, 1⟩, .access ⟨.file 0, 0⟩, .access ⟨.file 0, 0⟩,
        .forget ⟨.file 0, 0⟩, .access ⟨.file 0, 1⟩, .access ⟨.file 0, 0⟩] ≠ [] := by decide
  refine .few touched (by decide) (by decide) ?_
  intro other isListed differs fewer
  rcases List.mem_pair.mp isListed with rfl | rfl
  · exact absurd fewer (by decide)
  · contradiction

end LruK

end PagedStore.Eviction
