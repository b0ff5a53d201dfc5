import PagedStore.Id

/-!
Eviction policies. A policy is told about every access to a cached page and about every page that
leaves, and is asked for the page that has to leave next. It may answer anything: nothing, or a page
that is not cached. The policies of this module need no memory.
-/

namespace PagedStore

class EvictionPolicy (μ : Type) where
  access : μ → PageId → μ
  forget : μ → PageId → μ
  /-- The page that should leave, out of those that are cached. -/
  victim : μ → List PageId → Option PageId × μ

namespace Eviction

/-- The first page of the list that no other one is to leave before. -/
def pick (sooner : PageId → PageId → Bool) (cached : List PageId) : Option PageId :=
  cached.foldl
    (fun best page => match best with
      | none => some page
      | some chosen => if sooner page chosen then some page else some chosen)
    none

/-- Policies that answer without looking at the past. -/
inductive Oblivious where
  /-- The cached page that comes first in the order of pages. -/
  | first
  /-- The cached page that comes last in the order of pages. -/
  | last
  | refusing
  /-- The same page every time, cached or not. -/
  | fixed (page : PageId)
deriving DecidableEq

def Oblivious.answer : Oblivious → List PageId → Option PageId
  | first, cached => pick (fun a b => (compare a b).isLT) cached
  | last, cached => pick (fun a b => (compare a b).isGT) cached
  | refusing, _ => none
  | fixed page, _ => some page

instance : EvictionPolicy Oblivious where
  access policy _ := policy
  forget policy _ := policy
  victim policy cached := (policy.answer cached, policy)

end Eviction

end PagedStore
