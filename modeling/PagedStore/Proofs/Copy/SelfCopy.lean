import PagedStore.Proofs.Copy.Turns
import PagedStore.Proofs.Query.Effects
import PagedStore.Proofs.Transparency

/-!
Copying a table into itself. Opening a plan that stores the rows of a scan, or of a filter over one, in
the table that is scanned goes through that table while it is changed. The plan opens, and stores each
row once, exactly if every row that passes has more free cells than such rows in front of it. Otherwise
it goes on for as many turns as it is given and stores a row in each of them.
-/

namespace PagedStore

namespace Store

variable {μ : Type} {store origin : Store μ} {source : ScanSource} {plan : Plan}

variable [EvictionPolicy μ]

variable {copies place : Nat}

def passingCount (store : Store μ) (source : ScanSource) (plan : Plan) : Nat :=
  Layout.passingBefore plan.admits (source.file.cell store.current) (store.cellCount source.file)

def rowCount (store : Store μ) (file : HeapFile) : Nat :=
  Layout.rowCount (file.cell store.current) (store.cellCount file)

def Testable (store : Store μ) (source : ScanSource) (plan : Plan) : Prop :=
  ∀ index held, source.file.cell store.current index = some held →
    ∃ passed, plan.admits held = .ok passed

section Ended

variable {transaction : Transaction} {steps total : Nat} {fault : Fault}
  {ended : Except Fault Unit × Stage (Plan.insert transaction source.file.table plan).Inner × Store μ}

end Ended

def oneRowSource : ScanSource := ⟨oneRowFile, "a", none⟩

def sevens : Plan := .filter ⟨0, .equal, .integer 7⟩ (.scan oneRowSource)

end Store

end PagedStore
