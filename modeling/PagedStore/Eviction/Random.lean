import PagedStore.Eviction.Policy

/-!
Random eviction: each cached page is as likely to leave as any other. The choices are those of a
linear congruential generator, so that equal seeds make equal choices.
-/

namespace PagedStore.Eviction

structure RandomChoice where
  state : UInt64
deriving DecidableEq, Repr

namespace RandomChoice

def ofSeed (seed : UInt64) : RandomChoice := ⟨seed⟩

def next (choice : RandomChoice) : RandomChoice :=
  ⟨choice.state * 6364136223846793005 + 1442695040888963407⟩

/-- The upper half of the state, whose bits repeat least often. -/
def draw (choice : RandomChoice) : Nat := (choice.state >>> 32).toNat

def victim (choice : RandomChoice) (cached : List PageId) : Option PageId × RandomChoice :=
  let moved := choice.next
  (cached[moved.draw % cached.length]?, moved)

def picks (choice : RandomChoice) (cached : List PageId) : Nat → List (Option PageId)
  | 0 => []
  | count + 1 =>
      let (page, moved) := choice.victim cached
      page :: picks moved cached count

end RandomChoice

instance : EvictionPolicy RandomChoice where
  access choice _ := choice
  forget choice _ := choice
  victim := RandomChoice.victim

end PagedStore.Eviction
