import PagedStore.Eviction.Policy

/-!
A policy that writes down what it is told and what it answers, and otherwise behaves like the policy
inside it.
-/

namespace PagedStore.Eviction

inductive Call where
  | access (page : PageId)
  | forget (page : PageId)
  | victim (cached : List PageId) (answer : Option PageId)
deriving DecidableEq

structure Logged (μ : Type) where
  inner : μ
  /-- The calls so far, the latest first. -/
  calls : List Call

namespace Logged

def start {μ : Type} (inner : μ) : Logged μ := ⟨inner, []⟩

def history {μ : Type} (logged : Logged μ) : List Call := logged.calls.reverse

def cleared {μ : Type} (logged : Logged μ) : Logged μ := { logged with calls := [] }

end Logged

instance {μ : Type} [EvictionPolicy μ] : EvictionPolicy (Logged μ) where
  access logged page :=
    ⟨EvictionPolicy.access logged.inner page, .access page :: logged.calls⟩
  forget logged page := ⟨EvictionPolicy.forget logged.inner page, .forget page :: logged.calls⟩
  victim logged cached :=
    let (answer, inner) := EvictionPolicy.victim logged.inner cached
    (answer, ⟨inner, .victim cached answer :: logged.calls⟩)

end PagedStore.Eviction
