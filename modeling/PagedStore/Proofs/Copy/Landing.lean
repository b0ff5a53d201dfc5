import PagedStore.Proofs.Cache.Rows
import PagedStore.Proofs.Copy.Selection

/-!
Where a row lands that is stored in a table. Among the cells of the table it is the first free one, and
if all cells hold rows the one behind the last. Nothing else changes in what the cells hold, nor in what
is current of other tables.
-/

namespace PagedStore

namespace HeapFile

variable {heap : HeapFile}

theorem cell_of_placed {before : Reference} {number slot : Nat} {values : Option (List Value)}
    (small : number < 4294967296) (inside : slot < heap.slotCount)
    (there : (before.current (heap.page number)).isSome) :
    heap.cell (before.placed (heap.page number) slot values).current =
      Function.update (heap.cell before.current) (heap.cellIndex number slot) values := by
  rcases Option.isSome_iff_exists.mp there with ⟨contents, found⟩
  funext index
  by_cases target : index = heap.cellIndex number slot
  · rw [target, Function.update_self, cell_cellIndex small inside, Reference.placed]
    dsimp only
    rw [Function.update_self, found, Option.map_some, Option.bind_some, Function.update_self]
  · rw [Function.update_of_ne target]
    by_cases smallIndex : index / heap.slotCount < 4294967296
    · rw [cell_of_small smallIndex, cell_of_small smallIndex, Reference.placed]
      dsimp only
      by_cases samePage : index / heap.slotCount = number
      · have otherSlot : index % heap.slotCount ≠ slot := by
          intro sameSlot
          apply target
          rw [cellIndex, ← samePage, ← sameSlot, Nat.mul_comm]
          exact (Nat.div_add_mod index heap.slotCount).symm
        rw [samePage, Function.update_self, found, Option.map_some, Option.bind_some,
          Function.update_of_ne otherSlot, Option.bind_some]
      · rw [Function.update_of_ne fun same => samePage (page_injective smallIndex small same)]
    · rw [cell, cell, if_neg smallIndex, if_neg smallIndex]

end HeapFile

namespace Reference

theorem isSome_placed {before : Reference} {id : PageId} {slot : Nat} {values : Option (List Value)}
    (other : PageId) :
    ((before.placed id slot values).current other).isSome = (before.current other).isSome := by
  rw [placed]
  dsimp only
  by_cases same : other = id
  · rw [same, Function.update_self, Option.isSome_map]
  · rw [Function.update_of_ne same]

end Reference

namespace Store

variable {μ : Type} [EvictionPolicy μ] {store after : Store μ} {file : HeapFile}

structure Bears (file : HeapFile) (before after : Store μ) : Prop extends Carries before after where
  elsewhere : ∀ id, id.table ≠ file.table → after.current id = before.current id

theorem bears_refl (coherent : store.Coherent) : Bears file store store :=
  ⟨carries_of_saves (saves_refl coherent), fun _ _ => rfl⟩

theorem bears_trans {first second third : Store μ} (left : Bears file first second)
    (right : Bears file second third) : Bears file first third where
  toCarries := carries_trans left.toCarries right.toCarries
  elsewhere := fun id other => (right.elsewhere id other).trans (left.elsewhere id other)

theorem bears_of_saves (saves : Saves store after) : Bears file store after :=
  ⟨carries_of_saves saves, fun _ _ => by rw [saves.current_eq]⟩

theorem current_of_grows_of_ne {before after : Reference} (grows : before.Grows file after)
    {id : PageId} (other : id.table ≠ file.table) : after.current id = before.current id := by
  cases grows with
  | saved saved => rw [saved.current_eq]
  | appended spans full saved =>
    rw [saved.current_eq, Reference.appended]
    exact Function.update_of_ne (fun same => other (congrArg PageId.table same)) _ _

theorem hospitable_of_bears (bears : Bears file store after) (hospitable : store.Hospitable) :
    after.Hospitable :=
  hospitable_of_follows bears.follows hospitable

end Store

end PagedStore
