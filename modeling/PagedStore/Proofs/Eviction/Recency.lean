import PagedStore.Eviction.LruK
import PagedStore.Proofs.Cache.Coherence

/-!
Why the order of the list does not matter to an LRU-K policy. The page that a fold picks is one that no
other page precedes. As long as the policy knows exactly the cached pages, each of them has been
accessed at times of its own, so that of two cached pages one always precedes the other and there is
only one page to pick. Accesses and removals keep it so.
-/

namespace PagedStore.Eviction

section Pick

variable {sooner : PageId → PageId → Bool}

theorem foldl_pick_least (irrefl : ∀ page, sooner page page = false)
    (trans : ∀ a b c, sooner a b = true → sooner b c = true → sooner a c = true)
    {cached : List PageId} {best page : PageId}
    (picked : cached.foldl
      (fun best page => match best with
        | none => some page
        | some chosen => if sooner page chosen then some page else some chosen)
      (some best) = some page) :
    (page = best ∨ sooner page best = true) ∧ ∀ other ∈ best :: cached, sooner other page = false := by
  induction cached generalizing best with
  | nil =>
    obtain rfl := Option.some.inj picked
    refine ⟨Or.inl rfl, ?_⟩
    intro other member
    rw [List.mem_singleton.mp member]
    exact irrefl best
  | cons first rest ih =>
    rw [List.foldl_cons] at picked
    dsimp only at picked
    by_cases replaced : sooner first best = true
    · rw [if_pos replaced] at picked
      obtain ⟨before, least⟩ := ih picked
      have ahead : sooner page best = true := by
        rcases before with rfl | earlier
        · exact replaced
        · exact trans page first best earlier replaced
      refine ⟨Or.inr ahead, ?_⟩
      intro other member
      rcases List.mem_cons.mp member with rfl | later
      · cases behind : sooner other page with
        | false => rfl
        | true =>
          have around := trans first other page replaced behind
          rw [least first List.mem_cons_self] at around
          contradiction
      · exact least other later
    · rw [if_neg replaced] at picked
      obtain ⟨before, least⟩ := ih picked
      refine ⟨before, ?_⟩
      intro other member
      rcases List.mem_cons.mp member with rfl | later
      · exact least other List.mem_cons_self
      rcases List.mem_cons.mp later with rfl | later
      · cases behind : sooner other page with
        | false => rfl
        | true =>
          rcases before with rfl | earlier
          · exact absurd behind replaced
          · exact absurd (trans other page best behind earlier) replaced
      · exact least other (List.mem_cons_of_mem _ later)

theorem pick_least (irrefl : ∀ page, sooner page page = false)
    (trans : ∀ a b c, sooner a b = true → sooner b c = true → sooner a c = true)
    {cached : List PageId} {page : PageId} (picked : pick sooner cached = some page) :
    ∀ other ∈ cached, sooner other page = false := by
  cases cached with
  | nil => contradiction
  | cons first rest => exact (foldl_pick_least irrefl trans picked).2

/-- If of any two pages one is to leave before the other, the order of the list does not matter. -/
theorem pick_perm (irrefl : ∀ page, sooner page page = false)
    (trans : ∀ a b c, sooner a b = true → sooner b c = true → sooner a c = true)
    {left right : List PageId} (perm : left.Perm right)
    (decided : ∀ a ∈ left, ∀ b ∈ left, a ≠ b → sooner a b = true ∨ sooner b a = true) :
    pick sooner left = pick sooner right := by
  by_cases empty : left = []
  · rw [empty] at perm ⊢
    rw [perm.symm.eq_nil]
  · have other : right ≠ [] := fun none => empty (List.Perm.eq_nil (none ▸ perm))
    obtain ⟨page, member, picked⟩ := exists_pick sooner empty
    obtain ⟨found, isFound, chosen⟩ := exists_pick sooner other
    have same : page = found := by
      by_contra differs
      rcases decided page member found (perm.mem_iff.mpr isFound) differs with before | after
      · rw [pick_least irrefl trans chosen page (perm.mem_iff.mp member)] at before
        contradiction
      · rw [pick_least irrefl trans picked found (perm.mem_iff.mpr isFound)] at after
        contradiction
    rw [picked, chosen, same]

end Pick

namespace Urgency

theorem precedes_irrefl (urgency : Urgency) : urgency.precedes urgency = false := by
  cases urgency <;> simp [precedes]

theorem precedes_trans {first second third : Urgency} (left : first.precedes second = true)
    (right : second.precedes third = true) : first.precedes third = true := by
  cases first <;> cases second <;> cases third <;> simp_all [precedes] <;> omega

end Urgency

namespace LruK

structure Ranks (lru : LruK) (pages : List PageId) : Prop where
  nodup : (Keyed.keys lru.histories).Nodup
  known : ∀ id, id ∈ Keyed.keys lru.histories ↔ id ∈ pages
  accessed : ∀ id ∈ pages, lru.history id ≠ []
  past : ∀ id, ∀ time ∈ lru.history id, time < lru.clock
  apart : ∀ id other time, time ∈ lru.history id → time ∈ lru.history other → id = other

variable {lru : LruK} {pages : List PageId}

theorem mem_extend {depth : Nat} {history : List Nat} {time now : Nat}
    (member : time ∈ extend depth history now) : time ∈ history ∨ time = now := by
  have longer := List.mem_of_mem_drop member
  rwa [List.mem_append, List.mem_singleton] at longer

theorem extend_ne_nil {depth : Nat} (pos : 0 < depth) (history : List Nat) (now : Nat) :
    extend depth history now ≠ [] := by
  intro none
  have lengths := congrArg List.length none
  rw [extend, List.length_drop, List.length_append, List.length_singleton, List.length_nil] at lengths
  omega

theorem ranks_start (fresh : lru.histories = []) : lru.Ranks [] := by
  have none : ∀ id, lru.history id = [] := by
    intro id
    rw [history, fresh]
    rfl
  refine ⟨?_, ?_, ?_, ?_, ?_⟩
  · rw [fresh]
    exact List.nodup_nil
  · intro id
    rw [fresh]
    rfl
  · intro id member
    contradiction
  · intro id time member
    rw [none] at member
    contradiction
  · intro id other time member
    rw [none] at member
    contradiction

theorem ranks_access (ranks : lru.Ranks pages) {id : PageId} {now : List PageId}
    (member : ∀ other, other ∈ now ↔ other = id ∨ other ∈ pages) : (lru.access id).Ranks now := by
  have times : ∀ other, ∀ time ∈ (lru.access id).history other,
      time ∈ lru.history other ∨ other = id ∧ time = lru.clock := by
    intro other time isTime
    rw [history_access] at isTime
    split at isTime
    · next same =>
      rw [same]
      rcases mem_extend isTime with old | new
      · exact Or.inl old
      · exact Or.inr ⟨rfl, new⟩
    · exact Or.inl isTime
  refine ⟨Keyed.nodup_keys_put id _ ranks.nodup, ?_, ?_, ?_, ?_⟩
  · intro other
    rw [member, ← ranks.known]
    exact Keyed.mem_keys_put id other _ lru.histories
  · intro other isKnown
    rw [history_access]
    split
    · exact extend_ne_nil lru.depth_pos _ _
    · next differs =>
      exact ranks.accessed other (((member other).mp isKnown).resolve_left differs)
  · intro other time isTime
    rcases times other time isTime with old | ⟨-, rfl⟩
    · exact Nat.lt_succ_of_lt (ranks.past other time old)
    · exact Nat.lt_succ_self _
  · intro first second time inFirst inSecond
    rcases times first time inFirst with old | ⟨rfl, rfl⟩
    · rcases times second time inSecond with otherOld | ⟨-, rfl⟩
      · exact ranks.apart first second time old otherOld
      · exact absurd (ranks.past first _ old) (Nat.lt_irrefl _)
    · rcases times second _ inSecond with otherOld | ⟨rfl, -⟩
      · exact absurd (ranks.past second _ otherOld) (Nat.lt_irrefl _)
      · rfl

theorem ranks_forget (ranks : lru.Ranks pages) {id : PageId} {now : List PageId}
    (member : ∀ other, other ∈ now ↔ other ∈ pages ∧ other ≠ id) : (lru.forget id).Ranks now := by
  have times : ∀ other, ∀ time ∈ (lru.forget id).history other, time ∈ lru.history other := by
    intro other time isTime
    rw [history_forget] at isTime
    split at isTime
    · contradiction
    · exact isTime
  refine ⟨Keyed.nodup_keys_erase id ranks.nodup, ?_, ?_, ?_, ?_⟩
  · intro other
    rw [member, ← ranks.known]
    exact Keyed.mem_keys_erase id other lru.histories
  · intro other isKnown
    obtain ⟨was, differs⟩ := (member other).mp isKnown
    rw [history_forget, if_neg differs]
    exact ranks.accessed other was
  · exact fun other time isTime => ranks.past other time (times other time isTime)
  · exact fun first second time inFirst inSecond =>
      ranks.apart first second time (times first time inFirst) (times second time inSecond)

/-- Of two cached pages one is to leave before the other. -/
theorem urgency_decided (ranks : lru.Ranks pages) {left right : PageId} (isLeft : left ∈ pages)
    (isRight : right ∈ pages) (differs : left ≠ right) :
    (lru.urgency left).precedes (lru.urgency right) = true ∨
      (lru.urgency right).precedes (lru.urgency left) = true := by
  cases leftTimes : lru.history left with
  | nil => exact absurd leftTimes (ranks.accessed left isLeft)
  | cons oldest later =>
    cases rightTimes : lru.history right with
    | nil => exact absurd rightTimes (ranks.accessed right isRight)
    | cons first rest =>
      have inLeft : oldest ∈ lru.history left := by simp [leftTimes]
      have inRight : first ∈ lru.history right := by simp [rightTimes]
      have leftPast := ranks.past left oldest inLeft
      have rightPast := ranks.past right first inRight
      have unequal : oldest ≠ first := by
        rintro rfl
        exact differs (ranks.apart left right oldest inLeft inRight)
      simp only [urgency, leftTimes, rightTimes]
      split <;> split <;> simp [Urgency.precedes] <;> omega

theorem victim_perm (ranks : lru.Ranks pages) {left right : List PageId} (leftAll : left.Perm pages)
    (rightAll : right.Perm pages) : lru.victim left = lru.victim right := by
  apply pick_perm
  · exact fun page => Urgency.precedes_irrefl _
  · exact fun _ _ _ => Urgency.precedes_trans
  · exact leftAll.trans rightAll.symm
  · intro a isA b isB differs
    exact urgency_decided ranks (leftAll.mem_iff.mp isA) (leftAll.mem_iff.mp isB) differs

end LruK

end PagedStore.Eviction
