import PagedStore.Proofs.Copy.Landing

/-!
Copying a table into itself, turn by turn. In one turn the next row that passes is taken from its cell and
lands in the first free one. As long as there has been room in front of every row taken, the copies lie
behind the place that has been reached and each row has been copied once. From the first row without room
in front of it on, the next free cell stays behind the next passing row, and the copying never comes to
an end.
-/

namespace PagedStore.Store

variable {μ : Type} {store after origin : Store μ} {source : ScanSource} {plan : Plan}
  {copies place index target : Nat}

variable [EvictionPolicy μ]

structure Ahead (plan : Plan) (source : ScanSource) (origin : Store μ) (place : Nat)
    (store : Store μ) : Prop where
  narrow : ¬ Layout.Roomy plan.admits (source.file.cell origin.current)
  chased : Layout.Chased plan.admits (source.file.cell store.current)
    (origin.cellCount source.file) place

theorem hosts_of_bears (hosts : store.Hosts source plan) (bears : Bears source.file store after) :
    after.Hosts source plan where
  coherent := bears.coherent
  registered := bears.catalog_eq ▸ hosts.registered
  keeps := bears.keeps _ hosts.keeps

end PagedStore.Store
