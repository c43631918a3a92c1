import MatteOS.Lib.Loop
import MatteOS.Memory.Mapping

/-!
# The page allocator

`MemoryManager::init`, `alloc`, `zalloc`, `dealloc` and `get_statistics`. One `Page`
descriptor of one byte stands at `m_first_page + i` for page `i`; the pages begin at
`m_alloc_start`, and the manager itself lives at the start of page 0. `size_t`
arithmetic wraps.
-/

namespace MatteOS.Memory

open ByteMemory

inductive PageStatus where
  | free
  | taken
  | last
deriving DecidableEq

/-- The byte of an `enum class PageStatus : u8`. -/
def PageStatus.toU8 : PageStatus → BitVec 8
  | .free => 0
  | .taken => 1
  | .last => 2

namespace Page

def isFree (m : Memory) (page : Nat) : Bool := m page == PageStatus.free.toU8

def isTaken (m : Memory) (page : Nat) : Bool := m page == PageStatus.taken.toU8

def setStatus (m : Memory) (page : Nat) (status : PageStatus) : Memory :=
  store8 m page status.toU8

def clear (m : Memory) (page : Nat) : Memory := setStatus m page .free

end Page

structure MemoryManager where
  heapStart : Nat
  heapSize : Nat
  firstPage : Nat
  numberOfPages : Nat
  allocStart : Nat
deriving DecidableEq

namespace MemoryManager

/-- The fields of the object at `self`. -/
def load (m : Memory) (self : Nat) : MemoryManager where
  heapStart := (load64 m self).toNat
  heapSize := (load64 m (self + 8)).toNat
  firstPage := (load64 m (self + 16)).toNat
  numberOfPages := (load64 m (self + 24)).toNat
  allocStart := (load64 m (self + 32)).toNat

/-- Set the status of the `n` descriptors from `k` on. -/
def statusLoop (status : PageStatus) (firstPage : Nat) : Nat → Nat → Memory → Memory
  | 0, _, m => m
  | n + 1, k, m => statusLoop status firstPage n (k + 1) (Page.setStatus m (firstPage + k) status)

/-- The loop of `init`. -/
def clearLoop : Nat → Nat → Nat → Memory → Memory := statusLoop .free

/-- `MemoryManager::init`. The result is the address of the manager. -/
def init (heapStart heapSize : BitVec 64) (m : Memory) : Nat × Memory :=
  let numberOfPages := heapSize.toNat / PAGE_SIZE
  let allocStart := alignValue (heapStart + .ofNat 64 numberOfPages) 12
  let self := allocStart.toNat
  let m := store64 m self heapStart
  let m := store64 m (self + 8) heapSize
  let m := store64 m (self + 16) heapStart
  let m := Page.setStatus m heapStart.toNat .last
  let m := store64 m (self + 24) (.ofNat 64 numberOfPages)
  let m := clearLoop heapStart.toNat (numberOfPages - 1) 1 m
  (self, store64 m (self + 32) allocStart)

/-- The loop over `j` in `alloc`: are the `n` descriptors from `j` on free? -/
def rangeFree (m : Memory) (firstPage : Nat) : Nat → Nat → Bool
  | 0, _ => true
  | n + 1, j => if !Page.isFree m (firstPage + j) then false else rangeFree m firstPage n (j + 1)

/-- The loop over `i` in `alloc`, up to the first `i` that is found. -/
def findLoop (m : Memory) (firstPage pages : Nat) : Nat → Nat → Option Nat
  | 0, _ => none
  | n + 1, i =>
    -- `j` runs from `i` while `j < i + pages`
    if Page.isFree m (firstPage + i) && rangeFree m firstPage ((i + pages) % 2 ^ 64 - i) i then some i
    else findLoop m firstPage pages n (i + 1)

/-- The loop over `k` in `alloc`. -/
def takeLoop : Nat → Nat → Nat → Memory → Memory := statusLoop .taken

/-- `MemoryManager::alloc`; the null pointer is 0. -/
def alloc (m : Memory) (self pages : Nat) : Nat × Memory :=
  let mm := load m self
  match findLoop m mm.firstPage pages mm.numberOfPages 0 with
  | none => (0, m)
  | some i =>
    let final := (i + pages + (2 ^ 64 - 1)) % 2 ^ 64
    let m := takeLoop mm.firstPage (final - i) i m
    ((mm.allocStart + PAGE_SIZE * i) % 2 ^ 64, Page.setStatus m (mm.firstPage + final) .last)

def zeroLoop (bigPtr : Nat) : Nat → Nat → Memory → Memory
  | 0, _, m => m
  | n + 1, i, m => zeroLoop bigPtr n (i + 1) (store64 m (bigPtr + 8 * i) 0)

/-- `MemoryManager::zalloc`. -/
def zalloc (m : Memory) (self pages : Nat) : Nat × Memory :=
  let (allocated, m) := alloc m self pages
  if allocated = 0 then (0, m)
  else (allocated, zeroLoop allocated (PAGE_SIZE * pages % 2 ^ 64 / 8) 0 m)

/-- `while(page->is_taken()) { page->clear(); page++; }` and the `page->clear()` after it. -/
def deallocBody : Nat × Memory → Loop.Next (Nat × Memory) Memory
  | (page, m) =>
    if Page.isTaken m page then .again (page + 1, Page.clear m page) else .done (Page.clear m page)

/-- `MemoryManager::dealloc`. -/
def dealloc (fuel : Nat) (m : Memory) (self ptr : Nat) : Option Memory :=
  if ptr = 0 then some m
  else
    let mm := load m self
    let addr := (mm.heapStart + (ptr + (2 ^ 64 - mm.allocStart)) % 2 ^ 64 / PAGE_SIZE) % 2 ^ 64
    Loop.run deallocBody fuel (addr, m)

structure Statistics where
  totalPages : Nat
  freePages : Nat
  usedPages : Nat
deriving DecidableEq

def countLoop (m : Memory) (firstPage : Nat) : Nat → Nat → Nat → Nat
  | 0, _, allocated => allocated
  | n + 1, i, allocated =>
    countLoop m firstPage n (i + 1)
      (if !Page.isFree m (firstPage + i) then allocated + 1 else allocated)

/-- `MemoryManager::get_statistics`. -/
def getStatistics (m : Memory) (self : Nat) : Statistics :=
  let mm := load m self
  let allocated := countLoop m mm.firstPage mm.numberOfPages 0 0
  { totalPages := mm.numberOfPages
    freePages := mm.numberOfPages - allocated
    usedPages := allocated }

end MemoryManager

/-! ## Runs -/

/-- The machine under a client of the allocator: the memory, and the blocks (pointer and number
of pages) that were returned and not yet given back. -/
structure PageHeap where
  memory : Memory
  live : List (Nat × Nat)

/-- What a client does: it calls the manager, and it writes to its own pages. -/
inductive PageAction where
  | alloc (pages : Nat)
  | zalloc (pages : Nat)
  | dealloc (ptr : Nat)
  | write (address : Nat) (value : BitVec 8)

/-- A pointer that was returned is live. -/
def PageHeap.returned (s : PageHeap) (pages : Nat) : Nat × Memory → PageHeap
  | (ptr, m) => { memory := m, live := if ptr = 0 then s.live else (ptr, pages) :: s.live }

def PageAction.run (self fuel : Nat) (s : PageHeap) : PageAction → Option PageHeap
  | .alloc pages => some (s.returned pages (MemoryManager.alloc s.memory self pages))
  | .zalloc pages => some (s.returned pages (MemoryManager.zalloc s.memory self pages))
  | .dealloc ptr => (MemoryManager.dealloc fuel s.memory self ptr).map fun m =>
      { memory := m, live := s.live.eraseP (·.1 == ptr) }
  | .write address value => some { s with memory := store8 s.memory address value }

/-- `pages` consecutive free descriptors exist below `m_number_of_pages`. -/
def HasRoom (s : PageHeap) (self pages : Nat) : Prop :=
  let mm := MemoryManager.load s.memory self
  ∃ i, i + pages ≤ mm.numberOfPages ∧
    ∀ j, i ≤ j → j < i + pages → Page.isFree s.memory (mm.firstPage + j)

/-- The actions of a client that keeps to its side: there is room for what it asks for, it gives
back what it got, and it writes to its own pages. -/
def PageAction.Allowed (self : Nat) (s : PageHeap) : PageAction → Prop
  | .alloc pages => 1 ≤ pages ∧ HasRoom s self pages
  | .zalloc pages => 1 ≤ pages ∧ HasRoom s self pages
  | .dealloc ptr => ∃ pages, (ptr, pages) ∈ s.live
  | .write address _ => ∃ b ∈ s.live, b.1 ≤ address ∧ address < b.1 + PAGE_SIZE * b.2

/-- One action of such a client. -/
def PageHeap.Step (self fuel : Nat) (s : PageHeap) (a : PageAction) (s' : PageHeap) : Prop :=
  a.Allowed self s ∧ a.run self fuel s = some s'

end MatteOS.Memory
