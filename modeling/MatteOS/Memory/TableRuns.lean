import MatteOS.Memory.HeapMapping

/-!
# Page tables over one heap

The kernel makes page tables and maps pages in them in any order, while it also uses the allocator
for other things. Each table is listed with the calls that were made on it.
-/

namespace MatteOS.Memory

/-- A page table, the calls made on it so far, and the pages it took for its lower levels. -/
structure MappedTable where
  root : Nat
  calls : List Call
  pages : List Nat

structure MappedHeap where
  heap : PageHeap
  tables : List MappedTable

inductive TableEvent where
  | page (a : PageAction)
  /-- `zalloc(1)` for a root -/
  | create
  | call (table : Nat) (c : Call)

/-- An event with the allocator at `self`. -/
def MappedHeap.run (self fuel : Nat) (s : MappedHeap) : TableEvent → Option MappedHeap
  | .page a => (a.run self fuel s.heap).map fun heap => { s with heap }
  | .create => (s.heap.zalloc self 1).map fun made =>
    { heap := made.2, tables := s.tables ++ [{ root := made.1, calls := [], pages := [] }] }
  | .call table c => do
    let t ← s.tables[table]?
    let heap ← s.heap.runCall self t.root c
    let taken := (heap.live.take (heap.live.length - s.heap.live.length)).map Prod.fst
    let t := { t with calls := t.calls ++ [c], pages := t.pages ++ taken.reverse }
    some { heap, tables := s.tables.set table t }

end MatteOS.Memory
