import PagedStore.Eviction.LruK
import PagedStore.Eviction.Random

/-!
One policy out of those that the library knows, chosen when a store is made.
-/

namespace PagedStore.Eviction

inductive Builtin where
  | oblivious (policy : Oblivious)
  | lruK (policy : LruK)
  | random (policy : RandomChoice)
deriving DecidableEq

instance : EvictionPolicy Builtin where
  access
    | .oblivious policy, page => .oblivious (EvictionPolicy.access policy page)
    | .lruK policy, page => .lruK (EvictionPolicy.access policy page)
    | .random policy, page => .random (EvictionPolicy.access policy page)
  forget
    | .oblivious policy, page => .oblivious (EvictionPolicy.forget policy page)
    | .lruK policy, page => .lruK (EvictionPolicy.forget policy page)
    | .random policy, page => .random (EvictionPolicy.forget policy page)
  victim
    | .oblivious policy, cached => (EvictionPolicy.victim policy cached).map id .oblivious
    | .lruK policy, cached => (EvictionPolicy.victim policy cached).map id .lruK
    | .random policy, cached => (EvictionPolicy.victim policy cached).map id .random

end PagedStore.Eviction
