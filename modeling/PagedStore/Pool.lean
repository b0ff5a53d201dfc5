import PagedStore.Eviction.Policy
import PagedStore.Keyed
import PagedStore.Page.Basic

/-!
The page pool as a table of page copies. Every page that is brought into memory is a copy with a
number of its own, so that a reader who holds a copy can still be told apart from the table after
the page has left it. The order in which the pool lists its pages means nothing and is a parameter.
The lemmas say what each operation does to the copies that `frame?` finds.
-/

namespace PagedStore

structure Frame where
  copy : Nat
  page : Page
deriving DecidableEq

def Frame.altered (change : Page → Page) (frame : Frame) : Frame :=
  { frame with page := change frame.page }

/-- How a pool lists its pages: each time in some order, but all of them and each once. -/
structure Listing where
  arrange : Nat → List PageId → List PageId
  perm : ∀ turn pages, (arrange turn pages).Perm pages

def Listing.byArrival : Listing := ⟨fun _ pages => pages, fun _ pages => List.Perm.refl pages⟩

structure Pool (μ : Type) where
  /-- How many pages the pool keeps before it asks one to leave. -/
  capacity : Nat
  memory : μ
  listing : Listing
  /-- How many times the pages have been listed. -/
  turn : Nat
  frames : List (PageId × Frame)
  /-- How many copies have been made. -/
  issued : Nat
  /-- The copies that have left, the latest first. -/
  detached : List Frame

namespace Pool

variable {μ : Type}

def empty (capacity : Nat) (memory : μ) (listing : Listing) : Pool μ :=
  { capacity, memory, listing, turn := 0, frames := [], issued := 0, detached := [] }

def size (pool : Pool μ) : Nat := pool.frames.length

def isFull (pool : Pool μ) : Bool := pool.capacity ≤ pool.size

def pages (pool : Pool μ) : List PageId := Keyed.keys pool.frames

def frame? (pool : Pool μ) (id : PageId) : Option Frame := pool.frames.lookup id

def listed (pool : Pool μ) : List PageId := pool.listing.arrange pool.turn pool.pages

def afterListing (pool : Pool μ) : Pool μ := { pool with turn := pool.turn + 1 }

/-- The copy that the next page brought in will be. -/
def nextFrame (pool : Pool μ) (page : Page) : Frame := ⟨pool.issued, page⟩

def place (pool : Pool μ) (id : PageId) (page : Page) : Pool μ :=
  { pool with
    frames := Keyed.put id (pool.nextFrame page) pool.frames
    issued := pool.issued + 1 }

def alter (pool : Pool μ) (id : PageId) (change : Page → Page) : Pool μ :=
  { pool with frames := Keyed.alter id (Frame.altered change) pool.frames }

def drop (pool : Pool μ) (id : PageId) : Pool μ :=
  { pool with
    frames := Keyed.erase id pool.frames
    detached := (pool.frame? id).toList ++ pool.detached }

def copy? (pool : Pool μ) (number : Nat) : Option Page :=
  ((pool.frames.map Prod.snd ++ pool.detached).find? (·.copy == number)).map Frame.page

/-- Changes the copy with the given number, cached or not. -/
def alterCopy (pool : Pool μ) (number : Nat) (change : Page → Page) : Pool μ :=
  let alterFrame (frame : Frame) : Frame :=
    if frame.copy = number then frame.altered change else frame
  { pool with
    frames := pool.frames.map fun (key, frame) => (key, alterFrame frame)
    detached := pool.detached.map alterFrame }

theorem frame_place (pool : Pool μ) (id other : PageId) (page : Page) :
    (pool.place id page).frame? other =
      if other = id then some (pool.nextFrame page) else pool.frame? other :=
  Keyed.lookup_put id other _ pool.frames

theorem frame_alter (pool : Pool μ) (id other : PageId) (change : Page → Page) :
    (pool.alter id change).frame? other =
      if other = id then (pool.frame? other).map (Frame.altered change)
      else pool.frame? other :=
  Keyed.lookup_alter id other (Frame.altered change) pool.frames

theorem frame_drop (pool : Pool μ) (id other : PageId) :
    (pool.drop id).frame? other = if other = id then none else pool.frame? other :=
  Keyed.lookup_erase id other pool.frames

theorem isSome_frame_iff (pool : Pool μ) (id : PageId) :
    (pool.frame? id).isSome ↔ id ∈ pool.pages :=
  Keyed.isSome_lookup_iff id pool.frames

theorem mem_listed_iff (pool : Pool μ) (id : PageId) : id ∈ pool.listed ↔ id ∈ pool.pages :=
  (pool.listing.perm pool.turn pool.pages).mem_iff

variable [EvictionPolicy μ]

def noteAccess (pool : Pool μ) (id : PageId) : Pool μ :=
  { pool with memory := EvictionPolicy.access pool.memory id }

def noteRemoval (pool : Pool μ) (id : PageId) : Pool μ :=
  { pool with memory := EvictionPolicy.forget pool.memory id }

/-- Lists the cached pages to the policy and takes its answer. -/
def askVictim (pool : Pool μ) : Option PageId × Pool μ :=
  let (answer, memory) := EvictionPolicy.victim pool.memory pool.listed
  (answer, { pool.afterListing with memory })

end Pool

end PagedStore
