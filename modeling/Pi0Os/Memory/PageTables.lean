import Pi0Os.Library.FlatMemory
import Pi0Os.Memory.PhysicalAlloc

/-! The page tables of `armv6mmu.h` and the address spaces of `memory/vm.cpp`. Memory is read and
written by words; the physical memory hole is linear, so that memory is named by physical addresses
and `phys2virt` only checks them. An address space is the page of its first-level table. -/

namespace Pi0Os.Memory

open Kernel Library

inductive PageAccessPermissions where
  | unmapped
  | priviledgedOnly
  | userReadOnly
  | userFullAccess
deriving DecidableEq

namespace PageAccessPermissions

def bits : PageAccessPermissions → ℕ
  | unmapped => 0b00
  | priviledgedOnly => 0b01
  | userReadOnly => 0b10
  | userFullAccess => 0b11

/-- The cast from the two bits of `access_permission`. -/
def ofBits : ℕ → PageAccessPermissions
  | 0 => unmapped
  | 1 => priviledgedOnly
  | 2 => userReadOnly
  | _ => userFullAccess

lemma bits_lt (p : PageAccessPermissions) : p.bits < 4 := by cases p <;> decide

@[simp] lemma ofBits_bits (p : PageAccessPermissions) : ofBits p.bits = p := by cases p <;> rfl

end PageAccessPermissions

abbrev coarsePageTableEntryId : ℕ := 0b01
abbrev sectionEntryId : ℕ := 0b10
abbrev smallPageEntryId : ℕ := 0b10

def isSection (raw : ℕ) : Prop := raw % 4 = sectionEntryId

def isCoarsePage (raw : ℕ) : Prop := raw % 4 = coarsePageTableEntryId

instance (raw : ℕ) : Decidable (isSection raw) := inferInstanceAs (Decidable (_ = _))

instance (raw : ℕ) : Decidable (isCoarsePage raw) := inferInstanceAs (Decidable (_ = _))

namespace CoarsePageTableEntry

def makeEntry (address : ℕ) : ℕ := coarsePageTableEntryId + address / 2 ^ 10 % 2 ^ 22 * 2 ^ 10

def baseAddress (raw : ℕ) : ℕ := raw / 2 ^ 10 % 2 ^ 22 * 2 ^ 10

lemma makeEntry_ne_zero (address : ℕ) : makeEntry address ≠ 0 := by
  simp only [makeEntry, coarsePageTableEntryId]
  omega

lemma isCoarsePage_makeEntry (address : ℕ) : isCoarsePage (makeEntry address) := by
  simp only [isCoarsePage, makeEntry, coarsePageTableEntryId]
  omega

lemma baseAddress_makeEntry {address : ℕ} (hd : size1KB ∣ address) (hlt : address < 2 ^ 32) :
    baseAddress (makeEntry address) = address := by
  simp only [baseAddress, makeEntry, coarsePageTableEntryId, size1KB] at hd ⊢
  omega

end CoarsePageTableEntry

namespace SectionEntry

def makeEntry (address : ℕ) (permissions : PageAccessPermissions) : ℕ :=
  sectionEntryId + permissions.bits * 2 ^ 10 + address / 2 ^ 20 % 2 ^ 12 * 2 ^ 20

def baseAddress (raw : ℕ) : ℕ := raw / 2 ^ 20 % 2 ^ 12 * 2 ^ 20

def permissions (raw : ℕ) : PageAccessPermissions := .ofBits (raw / 2 ^ 10 % 2 ^ 2)

lemma isSection_makeEntry (address : ℕ) (p : PageAccessPermissions) : isSection (makeEntry address p) := by
  simp only [isSection, makeEntry, sectionEntryId]
  omega

lemma permissions_makeEntry (address : ℕ) (p : PageAccessPermissions) :
    permissions (makeEntry address p) = p := by
  have hlt := p.bits_lt
  have hbits : makeEntry address p / 2 ^ 10 % 2 ^ 2 = p.bits := by
    simp only [makeEntry, sectionEntryId]
    omega
  rw [permissions, hbits, PageAccessPermissions.ofBits_bits]

lemma baseAddress_makeEntry {address : ℕ} (p : PageAccessPermissions) (hlt : address < 2 ^ 32) :
    baseAddress (makeEntry address p) = address / 2 ^ 20 * 2 ^ 20 := by
  have hbits := p.bits_lt
  simp only [baseAddress, makeEntry, sectionEntryId]
  omega

lemma makeEntry_congr {a b : ℕ} (p : PageAccessPermissions) (h : a / 2 ^ 20 = b / 2 ^ 20) :
    makeEntry a p = makeEntry b p := by rw [makeEntry, h, makeEntry]

end SectionEntry

namespace SmallPageEntry

def makeEntry (address : ℕ) (permissions : PageAccessPermissions) : ℕ :=
  smallPageEntryId + permissions.bits * 2 ^ 4 + address / 2 ^ 12 % 2 ^ 20 * 2 ^ 12

def baseAddress (raw : ℕ) : ℕ := raw / 2 ^ 12 % 2 ^ 20 * 2 ^ 12

def permissions (raw : ℕ) : PageAccessPermissions := .ofBits (raw / 2 ^ 4 % 2 ^ 2)

lemma makeEntry_ne_zero (address : ℕ) (p : PageAccessPermissions) : makeEntry address p ≠ 0 := by
  simp only [makeEntry, smallPageEntryId]
  omega

lemma permissions_makeEntry (address : ℕ) (p : PageAccessPermissions) :
    permissions (makeEntry address p) = p := by
  have hlt := p.bits_lt
  have hbits : makeEntry address p / 2 ^ 4 % 2 ^ 2 = p.bits := by
    simp only [makeEntry, smallPageEntryId]
    omega
  rw [permissions, hbits, PageAccessPermissions.ofBits_bits]

lemma baseAddress_makeEntry {address : ℕ} (p : PageAccessPermissions) (hd : size4KB ∣ address)
    (hlt : address < 2 ^ 32) : baseAddress (makeEntry address p) = address := by
  have hbits := p.bits_lt
  simp only [baseAddress, makeEntry, smallPageEntryId, size4KB] at hd ⊢
  omega

end SmallPageEntry

abbrev lvl1TableSize : ℕ := 16 * size1KB
abbrev lvl2TableSize : ℕ := size1KB
abbrev lvl1Entries : ℕ := 4096
abbrev lvl2Entries : ℕ := 256

def lvl1Index (virt : ℕ) : ℕ := virt / 2 ^ 20

def lvl2Index (virt : ℕ) : ℕ := virt / 2 ^ 12 % 2 ^ 8

/-- `lvl1_index(areas::kernel_area.start)`: the entries below are those of the user. -/
abbrev kernelStartIdx : ℕ := 3072

/-- `s_ram` starts where the memory of the allocator does. -/
structure Vm where
  pages : PageAllocator
  ramSize : ℕ
  words : ℕ → ℕ
  kernelAs : ℕ -- `g_kernel_address_space`

variable (s : Vm)

def Vm.store (a v : ℕ) : Vm := { s with words := Function.update s.words a v }

def Vm.clear (dst n : ℕ) : Vm := { s with words := fill s.words dst n 0 }

def Vm.memcpy (dst src n : ℕ) : Vm := { s with words := copyRange s.words dst src n }

@[simp] lemma Vm.store_words {a v : ℕ} : (s.store a v).words = Function.update s.words a v := rfl

@[simp] lemma Vm.store_pages {a v : ℕ} : (s.store a v).pages = s.pages := rfl

@[simp] lemma Vm.clear_words {dst n : ℕ} : (s.clear dst n).words = fill s.words dst n 0 := rfl

@[simp] lemma Vm.clear_pages {dst n : ℕ} : (s.clear dst n).pages = s.pages := rfl

@[simp] lemma Vm.memcpy_words {dst src n : ℕ} : (s.memcpy dst src n).words = copyRange s.words dst src n := rfl

@[simp] lemma Vm.memcpy_pages {dst src n : ℕ} : (s.memcpy dst src n).pages = s.pages := rfl

@[simp] lemma Vm.store_kernelAs {a v : ℕ} : (s.store a v).kernelAs = s.kernelAs := rfl

@[simp] lemma Vm.clear_kernelAs {dst n : ℕ} : (s.clear dst n).kernelAs = s.kernelAs := rfl

@[simp] lemma Vm.memcpy_kernelAs {dst src n : ℕ} : (s.memcpy dst src n).kernelAs = s.kernelAs := rfl

def phys2virt (phys : ℕ) : Except Panic ℕ := do
  kassert "phys >= s_ram.phys_start_addr" (s.pages.ramStart ≤ phys)
  kassert "phys < s_ram.phys_start_addr + s_ram.size" (phys < add32 s.pages.ramStart s.ramSize)
  return phys

/-- `AddressSpace::get_root_table_ptr`. -/
def rootTablePtr (as : ℕ) : Except Panic ℕ := do phys2virt s (← page2addr s.pages as)

/-- A null page stands for the error `OutOfMemory`. -/
def vmCreateAddressSpace (s : Vm) : Except Panic (Option ℕ × Vm) := do
  match ← physicalPageAlloc .kb16 s.pages with
  | (none, pages) => return (none, { s with pages := pages })
  | (some ttbr0, pages) =>
    match ← physicalPageAlloc .kb1 pages with
    | (none, pages) =>
      let pages ← physicalPageFree ttbr0 .kb16 pages
      return (none, { s with pages := pages })
    | (some hack, pages) =>
      let s := { s with pages := pages }
      let lvl1 ← rootTablePtr s ttbr0
      let s := s.clear lvl1 lvl1TableSize
      let kernelLvl1 ← rootTablePtr s s.kernelAs
      let s := s.memcpy (lvl1 + 4 * kernelStartIdx) (kernelLvl1 + 4 * kernelStartIdx)
        (4 * (lvl1Entries - kernelStartIdx))
      let s := s.store lvl1 (CoarsePageTableEntry.makeEntry (← page2addr s.pages hack))
      let srcTable ← phys2virt s (CoarsePageTableEntry.baseAddress (s.words kernelLvl1))
      let p ← addr2page s.pages (SmallPageEntry.baseAddress (s.words srcTable))
      let s := { s with pages := s.pages.setRefCount p (s.pages.refCount p + 1) }
      let dstTable ← phys2virt s (CoarsePageTableEntry.baseAddress (s.words lvl1))
      let s := s.clear dstTable lvl2TableSize
      return (some ttbr0, s.store dstTable (SmallPageEntry.makeEntry (← page2addr s.pages p) .priviledgedOnly))

/-- The first half of `vm_map_page`: fills the first-level entry, and tells whether its table
was just allocated. -/
def fillLvl1Entry (rootTable virtAddr : ℕ) (s : Vm) : Except Panic (Bool × Vm) := do
  let kernelLvl1 ← rootTablePtr s s.kernelAs
  let entry := rootTable + 4 * lvl1Index virtAddr
  let kernelEntry := kernelLvl1 + 4 * lvl1Index virtAddr
  panicIf (.message "vm_map_page: Address %p is already mapped to a section") (isSection (s.words entry))
  if s.words entry ≠ 0 then return (false, s)
  let s := if Areas.kernelArea.Contains virtAddr then s.store entry (s.words kernelEntry) else s
  if s.words entry ≠ 0 then return (false, s)
  match ← physicalPageAlloc .kb1 s.pages with
  | (none, _) => .error (.message "The following expression returned an error:\n")
  | (some page, pages) =>
    let s := { s with pages := pages }
    let s := s.store entry (CoarsePageTableEntry.makeEntry (← page2addr s.pages page))
    if Areas.kernelArea.Contains virtAddr ∧ rootTable ≠ kernelLvl1 then
      kassert "kernel_lvl1_table[lvl1_index(virt_addr)].raw == 0" (s.words kernelEntry = 0)
      return (true, s.store kernelEntry (s.words entry))
    else return (true, s)

def vmMapPage (rootTable physAddr virtAddr : ℕ) (permissions : PageAccessPermissions) (s : Vm) :
    Except Panic Vm := do
  let (justAllocated, s) ← fillLvl1Entry rootTable virtAddr s
  let lvl2Table ← phys2virt s (CoarsePageTableEntry.baseAddress (s.words (rootTable + 4 * lvl1Index virtAddr)))
  let s := if justAllocated then s.clear lvl2Table lvl2TableSize else s
  let entry := lvl2Table + 4 * lvl2Index virtAddr
  panicIf (.message "vm_map_page: mapping already exists at %p (currenly mapped to %p)") (s.words entry ≠ 0)
  return s.store entry (SmallPageEntry.makeEntry physAddr permissions)

def vmMap (as page virtAddr : ℕ) (permissions : PageAccessPermissions) : Except Panic Vm := do
  vmMapPage (← rootTablePtr s as) (← page2addr s.pages page) virtAddr permissions s

def vmMapMmio (as physAddr virtAddr size : ℕ) : Except Panic Vm :=
  (List.range (roundUp32 size size4KB / size4KB)).foldlM (fun s i => do
    vmMapPage (← rootTablePtr s as) (add32 physAddr (i * size4KB)) (add32 virtAddr (i * size4KB)) .priviledgedOnly s) s

/-- The second half of `vm_unmap_page`: outside the kernel area a table without entries is given back. -/
def dropLvl2Table (entry lvl2Table virtAddr : ℕ) (s : Vm) : Except Panic Vm :=
  if ¬ Areas.kernelArea.Contains virtAddr ∧ ∀ j < lvl2Entries, s.words (lvl2Table + 4 * j) = 0 then do
    let p ← addr2page s.pages (CoarsePageTableEntry.baseAddress (s.words entry))
    let pages ← physicalPageFree p .kb16 s.pages
    let s := { s with pages := pages }
    return s.store entry 0
  else .ok s

/-- With the physical address that was mapped. -/
def vmUnmapPage (rootTable virtAddr : ℕ) (s : Vm) : Except Panic (ℕ × Vm) := do
  let entry := rootTable + 4 * lvl1Index virtAddr
  panicIf (.message "vm_unmap_kernel: Address %p is mapped to a section, you can't unmap that!")
    (isSection (s.words entry))
  if s.words entry = 0 then return (0, s)
  let lvl2Table ← phys2virt s (CoarsePageTableEntry.baseAddress (s.words entry))
  let lvl2Entry := lvl2Table + 4 * lvl2Index virtAddr
  if s.words lvl2Entry = 0 then return (0, s)
  let s' ← dropLvl2Table entry lvl2Table virtAddr (s.store lvl2Entry 0)
  return (SmallPageEntry.baseAddress (s.words lvl2Entry), s')

def vmUnmap (as virtAddr : ℕ) : Except Panic (ℕ × Vm) := do
  if Areas.kernelArea.Contains virtAddr then vmUnmapPage (← rootTablePtr s s.kernelAs) virtAddr s
  else vmUnmapPage (← rootTablePtr s as) virtAddr s

/-- In the address space `current`, that of `g_current_address_space`. -/
def virt2phys (current virt : ℕ) : Except Panic ℕ := do
  let table ← rootTablePtr s current
  let entry := s.words (table + 4 * lvl1Index virt)
  if entry % 4 = 0 then return 0
  else if isSection entry then return SectionEntry.baseAddress entry ||| (virt &&& 0x000fffff)
  else if isCoarsePage entry then do
    let lvl2Table ← phys2virt s (CoarsePageTableEntry.baseAddress entry)
    return SmallPageEntry.baseAddress (s.words (lvl2Table + 4 * lvl2Index virt)) ||| (virt &&& 0x00000fff)
  else .error (.message "virt2phys: unknown page table entry type, wtf?")

/-- The inner loop of `vm_free`. -/
def freeLvl2 (lvl2Table : ℕ) : List ℕ → Vm → Except Panic Vm
  | [], s => .ok s
  | j :: js, s =>
    let entry := lvl2Table + 4 * j
    if s.words entry = 0 then freeLvl2 lvl2Table js s
    else do
      let p ← addr2page s.pages (SmallPageEntry.baseAddress (s.words entry))
      let pages ← physicalPageFree p .kb4 s.pages
      let s := { s with pages := pages }
      freeLvl2 lvl2Table js (s.store entry 0)

def freeLvl1 (lvl1Table : ℕ) : List ℕ → Vm → Except Panic Vm
  | [], s => .ok s
  | i :: is, s =>
    let entry := lvl1Table + 4 * i
    if s.words entry = 0 ∨ isSection (s.words entry) then freeLvl1 lvl1Table is s
    else do
      let p ← addr2page s.pages (CoarsePageTableEntry.baseAddress (s.words entry))
      let lvl2Table ← phys2virt s (CoarsePageTableEntry.baseAddress (s.words entry))
      let s ← freeLvl2 lvl2Table (List.range lvl2Entries) s
      let pages ← physicalPageFree p .kb1 s.pages
      let s := { s with pages := pages }
      freeLvl1 lvl1Table is (s.store entry 0)

def vmFree (as : ℕ) : Except Panic Vm := do
  let lvl1Table ← rootTablePtr s as
  let s ← freeLvl1 lvl1Table (List.range kernelStartIdx) s
  let pages ← physicalPageFree as .kb16 s.pages
  return { s with pages := pages }

/-- The inner loop of `vm_fork`, with whether it ran to its end. -/
def forkLvl2 (srcEntry pgtable : ℕ) : List ℕ → Vm → Except Panic (Bool × Vm)
  | [], s => .ok (true, s)
  | j :: js, s => do
    let dstLvl2Entry := (← phys2virt s (← page2addr s.pages pgtable)) + 4 * j
    let srcLvl2Entry := (← phys2virt s (CoarsePageTableEntry.baseAddress (s.words srcEntry))) + 4 * j
    if s.words srcLvl2Entry = 0 then forkLvl2 srcEntry pgtable js s
    else
      match ← physicalPageAlloc .kb4 s.pages with
      | (none, pages) => return (false, { s with pages := pages })
      | (some page, pages) =>
        let s := { s with pages := pages }
        let src ← phys2virt s (SmallPageEntry.baseAddress (s.words srcLvl2Entry))
        let dst ← phys2virt s (← page2addr s.pages page)
        let s := s.memcpy dst src size4KB
        let permissions := SmallPageEntry.permissions (s.words srcLvl2Entry)
        forkLvl2 srcEntry pgtable js
          (s.store dstLvl2Entry (SmallPageEntry.makeEntry (← page2addr s.pages page) permissions))

def forkLvl1 (srcLvl1 dstLvl1 : ℕ) : List ℕ → Vm → Except Panic (Bool × Vm)
  | [], s => .ok (true, s)
  | i :: is, s =>
    let entry := srcLvl1 + 4 * i
    if s.words entry = 0 then forkLvl1 srcLvl1 dstLvl1 is s
    else do
      panicIf (.message "forking sections is not implemented!") (isSection (s.words entry))
      kassert "entry.is_coarse_page()" (isCoarsePage (s.words entry))
      match ← physicalPageAlloc .kb1 s.pages with
      | (none, pages) => return (false, { s with pages := pages })
      | (some pgtable, pages) =>
        let s := { s with pages := pages }
        let s := s.clear (← phys2virt s (← page2addr s.pages pgtable)) lvl2TableSize
        let s := s.store (dstLvl1 + 4 * i) (CoarsePageTableEntry.makeEntry (← page2addr s.pages pgtable))
        match ← forkLvl2 entry pgtable (List.range lvl2Entries) s with
        | (false, s) => return (false, s)
        | (true, s) => forkLvl1 srcLvl1 dstLvl1 is s

/-- Whether the fork succeeded; a fork that ran out of memory has freed `out_forked`. -/
def vmFork (as outForked : ℕ) : Except Panic (Bool × Vm) := do
  let srcLvl1 ← rootTablePtr s as
  let dstLvl1 ← rootTablePtr s outForked
  match ← forkLvl1 srcLvl1 dstLvl1 (List.range kernelStartIdx) s with
  | (true, s) => return (true, s)
  | (false, s) => return (false, ← vmFree s outForked)

end Pi0Os.Memory
