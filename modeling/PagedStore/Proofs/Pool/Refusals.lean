import PagedStore.Proofs.Cache.Refinement

/-!
How fetching, storing and deleting fail. Whatever the store holds and whatever the policy answers, the
client gets an answer or an error that it has to expect: none of the three breaks the contract of a
function that it calls, and none needs a bound on its steps.
-/

namespace PagedStore

namespace Action

variable {σ τ α β : Type}

/-- An action that fails with nothing but errors, wherever it begins. -/
def Answers (action : Action σ α) : Prop :=
  ∀ state, Ends action state (fun _ _ => True) fun fault _ => ∃ cause, fault = .error cause

theorem answers_pure (value : α) : Answers (pure value : Action σ α) :=
  fun _ => trivial

theorem answers_fail (cause : Error) : Answers (fail cause : Action σ α) :=
  fun _ => ⟨cause, rfl⟩

theorem answers_get : Answers (get : Action σ σ) :=
  fun _ => trivial

theorem answers_set (after : σ) : Answers (set after : Action σ PUnit) :=
  fun _ => trivial

theorem answers_modify (change : σ → σ) : Answers (modify change : Action σ PUnit) :=
  fun _ => trivial

theorem answers_ofExcept (outcome : Except Error α) : Answers (ofExcept outcome : Action σ α) := by
  cases outcome with
  | ok value => exact answers_pure value
  | error cause => exact answers_fail cause

theorem answers_bind {action : Action σ α} {next : α → Action σ β} (answers : Answers action)
    (later : ∀ value, Answers (next value)) : Answers (action >>= next) := by
  intro state
  rw [ends_bind]
  exact ends_imp (answers state) (fun value after _ => later value after) fun _ _ failed => failed

/-- What would follow a failure does not matter. -/
theorem answers_fail_bind (cause : Error) (next : α → Action σ β) :
    Answers (fail cause >>= next) :=
  fun _ => ⟨cause, rfl⟩

theorem answers_map {action : Action σ α} (answers : Answers action) (change : α → β) :
    Answers (change <$> action) := by
  rw [← bind_pure_comp]
  exact answers_bind answers fun _ => answers_pure _

theorem answers_within {action : Action τ α} (answers : Answers action) (part : σ → τ)
    (replace : τ → σ → σ) : Answers (within part replace action) := by
  intro state
  rw [ends_within]
  exact answers (part state)

theorem answers_attempt (action : Action σ Unit) : Answers (attempt action) := by
  intro state
  unfold Ends attempt
  cases action state <;> trivial

end Action

open PagedStore.Action

namespace HeapFile

variable (file : HeapFile)

theorem answers_readPage (id : PageId) : Answers (file.readPage id) := by
  unfold readPage
  dsimp only
  split
  · exact answers_fail_bind _ _
  · apply answers_bind answers_get
    intro disk
    split
    · exact answers_fail_bind _ _
    · exact answers_bind (answers_set _) fun _ => answers_ofExcept _

theorem answers_appendPage : Answers file.appendPage := by
  apply answers_bind answers_get
  intro disk
  exact answers_bind (answers_set _) fun _ => answers_pure _

end HeapFile

namespace Store

variable {μ : Type}

theorem answers_replacePage (frame : Frame) (page : Page) :
    Answers (replacePage (μ := μ) frame page) :=
  answers_bind (answers_modify _) fun _ => answers_pure _

theorem answers_storeOn (frame : Frame) (row : Row) : Answers (storeOn (μ := μ) frame row) :=
  answers_bind (answers_ofExcept _) fun _ => answers_replacePage frame _

variable [EvictionPolicy μ]

theorem answers_settle (transaction : Transaction) (frame : Frame) :
    Answers (settle (μ := μ) transaction frame) :=
  answers_bind (answers_modify _) fun _ => answers_pure _

theorem answers_evict : Answers (evict (μ := μ)) := by
  apply answers_bind answers_get
  intro store
  apply answers_bind (answers_set _)
  intro _
  split
  · exact answers_fail _
  · exact answers_bind (answers_attempt _) fun _ => answers_modify _

theorem answers_bringIn (id : PageId) (page : Page) : Answers (bringIn (μ := μ) id page) := by
  have enters : Answers (σ := Store μ) (do
      let frame := (← get).pool.nextFrame page
      modifyPool fun pool => (pool.place id page).noteAccess id
      pure frame) :=
    answers_bind answers_get fun _ => answers_bind (answers_modify _) fun _ => answers_pure _
  apply answers_bind answers_get
  intro store
  dsimp only
  split
  · exact answers_bind answers_evict fun _ => enters
  · exact enters

theorem answers_fetch (id : PageId) : Answers (fetch (μ := μ) id) := by
  apply answers_bind answers_get
  intro store
  split
  · exact answers_bind (answers_modify _) fun _ => answers_pure _
  · apply answers_bind (answers_ofExcept _)
    intro file
    exact answers_bind (answers_within (file.answers_readPage id) _ _) fun _ => answers_bringIn id _

theorem answers_storeOnFirst (row : Row) (ids : List PageId) :
    Answers (storeOnFirst (μ := μ) row ids) := by
  induction ids with
  | nil => exact answers_pure none
  | cons id rest ih =>
    apply answers_bind (answers_fetch id)
    intro frame
    split
    · exact ih
    · exact answers_map (answers_storeOn frame row) some

theorem answers_storeIn (file : HeapFile) (row : Row) : Answers (storeIn (μ := μ) file row) := by
  apply answers_bind (answers_ofExcept _)
  intro _
  apply answers_bind answers_get
  intro store
  dsimp only
  split
  · exact answers_fail_bind _ _
  · apply answers_bind (answers_storeOnFirst row _)
    intro found
    split
    · exact answers_pure _
    · apply answers_bind (answers_within file.answers_appendPage _ _)
      intro number
      exact answers_bind (answers_fetch _) fun frame => answers_storeOn frame row

theorem answers_insert (transaction : Transaction) (table : TableId) (row : Row) :
    Answers (insert (μ := μ) transaction table row) := by
  apply answers_bind answers_get
  intro store
  apply answers_bind (answers_ofExcept _)
  intro file
  exact answers_bind (answers_storeIn file row) fun frame => answers_settle transaction frame

theorem answers_deleteIn (file : HeapFile) (row : Row) :
    Answers (deleteIn (μ := μ) file row) := by
  unfold deleteIn
  split
  · exact answers_fail _
  · dsimp only
    split
    · exact answers_fail_bind _ _
    · apply answers_bind (answers_fetch _)
      intro frame
      exact answers_bind (answers_ofExcept _) fun _ => answers_replacePage frame _

theorem answers_delete (transaction : Transaction) (row : Row) :
    Answers (delete (μ := μ) transaction row) := by
  unfold delete
  split
  · exact answers_fail _
  · apply answers_bind answers_get
    intro store
    apply answers_bind (answers_ofExcept _)
    intro file
    exact answers_bind (answers_deleteIn file row) fun frame => answers_settle transaction frame

end Store

end PagedStore
