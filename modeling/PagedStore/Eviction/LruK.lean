import PagedStore.Eviction.Policy
import PagedStore.Keyed

/-!
Least recently used by the k-th last access. A clock counts accesses, and each page keeps the times
of its last k accesses. The page to leave is the one whose k-th last access lies furthest back; pages
with fewer than k accesses leave before all others, by their earliest access, and pages without any
access leave first of all. Of several pages that rank alike the first one listed leaves. The lemmas
say what each operation does to the history of each page.
-/

namespace PagedStore.Eviction

structure LruK where
  /-- How many accesses of a page are remembered. -/
  depth : Nat
  depth_pos : 0 < depth
  clock : Nat
  /-- The times of the last accesses of each page, the oldest first. -/
  histories : List (PageId × List Nat)
deriving DecidableEq

/-- How soon a page is to leave: the constructors are in the order in which pages leave. -/
inductive Urgency where
  | untouched
  | few (earliest : Nat)
  | full (distance : Nat)
deriving DecidableEq, Repr

def Urgency.precedes : Urgency → Urgency → Bool
  | untouched, few _ | untouched, full _ | few _, full _ => true
  | few a, few b => a < b
  | full a, full b => b < a
  | _, _ => false

namespace LruK

def ofDepth? (depth : Nat) : Option LruK :=
  if h : 0 < depth then some ⟨depth, h, 0, []⟩ else none

def size (lru : LruK) : Nat := lru.histories.length

def history (lru : LruK) (page : PageId) : List Nat := (lru.histories.lookup page).getD []

def extend (depth : Nat) (history : List Nat) (time : Nat) : List Nat :=
  let longer := history ++ [time]
  longer.drop (longer.length - depth)

def access (lru : LruK) (page : PageId) : LruK :=
  { lru with
    clock := lru.clock + 1
    histories := Keyed.put page (extend lru.depth (lru.history page) lru.clock) lru.histories }

def forget (lru : LruK) (page : PageId) : LruK :=
  { lru with histories := Keyed.erase page lru.histories }

def urgency (lru : LruK) (page : PageId) : Urgency :=
  match lru.history page with
  | [] => .untouched
  | oldest :: later =>
      if later.length + 1 < lru.depth then .few oldest else .full (lru.clock - oldest)

def victim (lru : LruK) (cached : List PageId) : Option PageId :=
  pick (fun a b => (lru.urgency a).precedes (lru.urgency b)) cached

theorem history_access (lru : LruK) (page other : PageId) :
    (lru.access page).history other =
      if other = page then extend lru.depth (lru.history page) lru.clock else lru.history other := by
  simp only [history, access, Keyed.lookup_put]
  by_cases same : other = page <;> simp [same]

theorem history_forget (lru : LruK) (page other : PageId) :
    (lru.forget page).history other = if other = page then [] else lru.history other := by
  simp only [history, forget, Keyed.lookup_erase]
  by_cases same : other = page <;> simp [same]

end LruK

instance : EvictionPolicy LruK where
  access := LruK.access
  forget := LruK.forget
  victim lru cached := (lru.victim cached, lru)

end PagedStore.Eviction
