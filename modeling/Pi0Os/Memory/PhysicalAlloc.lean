import Pi0Os.Kernel.Base

/-! The physical page allocator of `memory/physicalalloc.cpp`. A `PhysicalPage*` is
an index into `g_pages.data`; the `next` fields thread three intrusive free lists
through that one array. -/

namespace Pi0Os.Memory

open Kernel

structure PhysicalPage where
  refCount : ℤ
  next : Option ℕ
deriving DecidableEq, Repr

inductive PageOrder where
  | kb1
  | kb4
  | kb16
deriving DecidableEq, Repr

def order2PageSize : PageOrder → ℕ
  | .kb16 => size16KB
  | .kb4 => size4KB
  | .kb1 => size1KB

/-- The globals `g_pages`, `s_physical_ram_starting_address` and `g_free_pages_lists`. -/
structure PageAllocator where
  ramStart : ℕ
  len : ℕ
  pages : ℕ → PhysicalPage
  freeLists : PageOrder → Option ℕ

namespace PageAllocator

def next (s : PageAllocator) (p : ℕ) : Option ℕ := (s.pages p).next

def refCount (s : PageAllocator) (p : ℕ) : ℤ := (s.pages p).refCount

def setNext (s : PageAllocator) (p : ℕ) (q : Option ℕ) : PageAllocator :=
  { s with pages := Function.update s.pages p { s.pages p with next := q } }

def setRefCount (s : PageAllocator) (p : ℕ) (n : ℤ) : PageAllocator :=
  { s with pages := Function.update s.pages p { s.pages p with refCount := n } }

def setFreeList (s : PageAllocator) (o : PageOrder) (p : Option ℕ) : PageAllocator :=
  { s with freeLists := Function.update s.freeLists o p }

end PageAllocator

def biggerOrder : PageOrder → Except Panic PageOrder
  | .kb1 => .ok .kb4
  | .kb4 => .ok .kb16
  | .kb16 => .error (.message "bigger_order: order=_16KB")

def smallerOrder : PageOrder → Except Panic PageOrder
  | .kb1 => .error (.message "smaller_order: order=_1KB")
  | .kb4 => .ok .kb1
  | .kb16 => .ok .kb4

def addr2page (s : PageAllocator) (addr : ℕ) : Except Panic ℕ := do
  kassert "addr >= s_physical_ram_starting_address" (s.ramStart ≤ addr)
  let idx := (addr - s.ramStart) / size1KB
  kassert "idx < g_pages.len" (idx < s.len)
  return idx

def page2addr (s : PageAllocator) (page : ℕ) : Except Panic ℕ := do
  kassert "page < g_pages.data + g_pages.len" (page < s.len)
  return add32 s.ramStart (page * size1KB)

def appendPageToFreePagesList (page : ℕ) (order : PageOrder) (s : PageAllocator) :
    Except Panic PageAllocator := do
  kassert "page->next == nullptr" (s.next page = none)
  return (s.setNext page (s.freeLists order)).setFreeList order (some page)

def popPageFromFreePagesList (order : PageOrder) (s : PageAllocator) :
    Except Panic (ℕ × PageAllocator) :=
  match s.freeLists order with
  | none => .error (.assertion "g_free_pages_lists[static_cast<size_t>(order)] != nullptr")
  | some page => do
    let s := (s.setFreeList order (s.next page)).setNext page none
    kassert "page->ref_count == 0" (s.refCount page = 0)
    return (page, s)

/-- The `while` of `remove_page_from_free_pages_list`, for `fuel` more steps from `prev`. -/
def removeAfter (page : ℕ) (s : PageAllocator) : ℕ → ℕ → Except Panic PageAllocator
  | 0, _ => .error (.undefined "remove_page_from_free_pages_list does not terminate")
  | fuel + 1, prev =>
    match s.next prev with
    | none => .error (.message "ASSERTION FAILED: not reached")
    | some q =>
      if q = page then .ok ((s.setNext prev (s.next page)).setNext page none)
      else removeAfter page s fuel q

def removePageFromFreePagesList (page : ℕ) (order : PageOrder) (s : PageAllocator) :
    Except Panic PageAllocator :=
  match s.freeLists order with
  | none => .ok s
  | some head =>
    if head = page then .ok ((s.setFreeList order (s.next page)).setNext page none)
    else removeAfter page s (s.len + 1) head

structure BootParams where
  ramStart : ℕ
  ramSize : ℕ
  bootmemStart : ℕ
  bootmemSize : ℕ

/-- The `for` of `physical_page_allocator_init`, downwards from `i` in steps of 16
pages. The index is unsigned, so a first index below 16 never ends the loop. -/
def initFreeList (first : ℕ) : ℕ → ℕ → PageAllocator → Except Panic PageAllocator
  | 0, _, _ => .error (.undefined "physical_page_allocator_init does not terminate")
  | fuel + 1, i, s =>
    if first ≤ i then
      initFreeList first fuel (sub32 i (size16KB / size1KB))
        ((s.setNext i (s.freeLists .kb16)).setFreeList .kb16 (some i))
    else .ok s

/-- `g_pages.len`, also the end of the region handed over. -/
def totalPages (boot : BootParams) : ℕ := roundDown boot.ramSize size16KB / size1KB

def firstFreePageIdx (boot : BootParams) : ℕ :=
  let startOfPagesData := add32 boot.bootmemStart boot.bootmemSize
  let endOfPagesData := roundUp32 (add32 startOfPagesData (totalPages boot * 8)) size16KB
  sub32 endOfPagesData Areas.physMemStartAddr / size1KB

def physicalPageAllocatorInit (boot : BootParams) : Except Panic PageAllocator :=
  let last := sub32 (totalPages boot) (size16KB / size1KB)
  initFreeList (firstFreePageIdx boot) (last / (size16KB / size1KB) + 2) last
    { ramStart := boot.ramStart
      len := totalPages boot
      pages := fun _ => ⟨0, none⟩
      freeLists := fun _ => none }

def splitPageInSmallerChunks (page : ℕ) (pageOrder : PageOrder) (s : PageAllocator) :
    Except Panic PageAllocator := do
  kassert "page->next == nullptr" (s.next page = none)
  kassert "page_order != PageOrder::_1KB" (pageOrder ≠ .kb1)
  let chunksOrder ← smallerOrder pageOrder
  let addr ← page2addr s page
  let buddy (i : ℕ) := addr2page s (add32 addr (i * order2PageSize chunksOrder))
  let b₀ ← buddy 0
  let b₁ ← buddy 1
  let b₂ ← buddy 2
  let b₃ ← buddy 3
  [b₀, b₁, b₂, b₃].foldlM (fun s b => appendPageToFreePagesList b chunksOrder s) s

/-- The case of `_physical_page_alloc` for an order that can be refilled from the next
bigger one, allocated by `bigger`. A null page stands for the error `OutOfMemory`. -/
def allocSplitting (order biggerOrder : PageOrder)
    (bigger : PageAllocator → Except Panic (Option ℕ × PageAllocator)) (s : PageAllocator) :
    Except Panic (Option ℕ × PageAllocator) :=
  match s.freeLists order with
  | some _ => do
    let (page, s) ← popPageFromFreePagesList order s
    return (some page, s)
  | none => do
    match ← bigger s with
    | (none, s) => return (none, s)
    | (some biggerPage, s) =>
      let s ← splitPageInSmallerChunks biggerPage biggerOrder s
      let (page, s) ← popPageFromFreePagesList order s
      return (some page, s)

def alloc16KB (s : PageAllocator) : Except Panic (Option ℕ × PageAllocator) :=
  match s.freeLists .kb16 with
  | none => .ok (none, s)
  | some _ => do
    let (page, s) ← popPageFromFreePagesList .kb16 s
    return (some page, s)

def allocFreePage : PageOrder → PageAllocator → Except Panic (Option ℕ × PageAllocator)
  | .kb16 => alloc16KB
  | .kb4 => allocSplitting .kb4 .kb16 alloc16KB
  | .kb1 => allocSplitting .kb1 .kb4 (allocSplitting .kb4 .kb16 alloc16KB)

def physicalPageAlloc (order : PageOrder) (s : PageAllocator) :
    Except Panic (Option ℕ × PageAllocator) := do
  match ← allocFreePage order s with
  | (none, s) => return (none, s)
  | (some page, s) => return (some page, s.setRefCount page 1)

/-- The scan of the four buddies: each `ref_count` is checked until one of them has a
null `next`. -/
def allBuddiesFree (s : PageAllocator) (first distance : ℕ) : List ℕ → Except Panic Bool
  | [] => .ok true
  | i :: is => do
    let buddy := first + i * distance
    kassert "this_buddy->ref_count >= 0" (0 ≤ s.refCount buddy)
    if s.next buddy = none then return false else allBuddiesFree s first distance is

/-- `_physical_page_free` below 16KB, with `freeBigger` its recursive call. -/
def freeOrCoalesce (order : PageOrder) (freeBigger : ℕ → PageAllocator → Except Panic PageAllocator)
    (page : ℕ) (s : PageAllocator) : Except Panic PageAllocator := do
  let distance := order2PageSize order / size1KB
  let first := roundDown page (4 * distance)
  if ← allBuddiesFree s first distance [0, 1, 2, 3] then
    let others := ([0, 1, 2, 3].map (first + · * distance)).filter (· ≠ page)
    let s ← others.foldlM (fun s buddy => removePageFromFreePagesList buddy order s) s
    freeBigger first s
  else appendPageToFreePagesList page order s

def freePage : PageOrder → ℕ → PageAllocator → Except Panic PageAllocator
  | .kb16 => fun page => appendPageToFreePagesList page .kb16
  | .kb4 => freeOrCoalesce .kb4 (fun page => appendPageToFreePagesList page .kb16)
  | .kb1 => freeOrCoalesce .kb1
      (freeOrCoalesce .kb4 (fun page => appendPageToFreePagesList page .kb16))

def physicalPageFree (page : ℕ) (order : PageOrder) (s : PageAllocator) :
    Except Panic PageAllocator := do
  kassert "page->ref_count > 0" (0 < s.refCount page)
  let s := s.setRefCount page (s.refCount page - 1)
  if s.refCount page = 0 then freePage order page s else return s

end Pi0Os.Memory
