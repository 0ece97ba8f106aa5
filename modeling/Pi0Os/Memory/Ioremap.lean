import Pi0Os.Memory.PageTables
import Pi0Os.Memory.PeripheralSpace

/-! `ioremap` and `iounmap` of `memory/vm.cpp`, before and after `vm_init`. -/

namespace Pi0Os.Memory

open Kernel Library

inductive InitState where
  | none
  | early
  | completed
deriving DecidableEq

/-- The globals of `memory/vm.cpp`: `ttbr0` is the address in the register, `current` the page of
`g_current_address_space`. -/
structure DeviceSpace where
  vm : Vm
  initState : InitState
  ttbr0 : ℕ
  current : ℕ
  used : ℕ → UInt8

/-- The loop of `ioremap_early` over the first `n` megabytes. -/
def mapSections (table alignedPhysAddr startOfMapping : ℕ) : ℕ → Vm → Vm
  | 0, s => s
  | n + 1, s =>
    (mapSections table alignedPhysAddr startOfMapping n s).store
      (table + 4 * lvl1Index (add32 startOfMapping (n * size1MB)))
      (SectionEntry.makeEntry (add32 alignedPhysAddr (n * size1MB)) .priviledgedOnly)

/-- The bytes of the pages (or megabytes) of `align` bytes that hold a range. -/
def alignedSize (addr size align : ℕ) : ℕ := sub32 (roundUp32 (add32 addr size) align) (roundDown addr align)

def ioremapEarly (physAddr size : ℕ) (s : DeviceSpace) : Except Panic (ℕ × DeviceSpace) := do
  kassert "s_init_state == InitState::Early" (s.initState = .early)
  let alignedPhysAddr := roundDown physAddr size1MB
  let alignedSize := alignedSize physAddr size size1MB
  let (startOfMapping, used) ← ioremapBitmapAlloc alignedSize s.used
  panicIf (.message "Failed to allocate early ioremap space") (startOfMapping = 0)
  let table ← phys2virt s.vm s.ttbr0
  let vm := mapSections table alignedPhysAddr startOfMapping (alignedSize / size1MB) s.vm
  return (add32 startOfMapping (physAddr % size1MB), { s with vm := vm, used := used })

/-- A null pointer is 0. -/
def ioremap (physAddr size : ℕ) (s : DeviceSpace) : Except Panic (ℕ × DeviceSpace) :=
  if s.initState = .early then ioremapEarly physAddr size s
  else do
    let alignedPhysAddr := roundDown physAddr size4KB
    let alignedSize := alignedSize physAddr size size4KB
    let (startOfMapping, used) ← ioremapBitmapAlloc alignedSize s.used
    if startOfMapping = 0 then return (0, { s with used := used })
    let vm ← vmMapMmio s.vm s.current alignedPhysAddr startOfMapping size
    return (add32 startOfMapping (physAddr % size4KB), { s with vm := vm, used := used })

def iounmap (addr size : ℕ) (s : DeviceSpace) : Except Panic DeviceSpace := do
  kassert "s_init_state == InitState::Completed" (s.initState = .completed)
  kassert "areas::peripherals.contains(virt_addr)" (Areas.peripherals.Contains addr)
  let startOfMapping := roundDown addr size4KB
  let alignedSize := alignedSize addr size size4KB
  let used ← ioremapBitmapFree startOfMapping alignedSize s.used
  let vm ← (List.range (alignedSize / size4KB)).foldlM (fun vm i => do
    let (previouslyMapped, vm) ← vmUnmap vm s.current (add32 startOfMapping (i * size4KB))
    kassert "previously_mapped_address != 0" (previouslyMapped ≠ 0)
    return vm) s.vm
  return { s with vm := vm, used := used }

end Pi0Os.Memory
