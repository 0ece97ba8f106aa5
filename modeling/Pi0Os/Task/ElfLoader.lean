import Mathlib.Data.Nat.Digits.Defs
import Pi0Os.Memory.AddressSpaceFork

/-! `task/elfloader.cpp`. A read outside of the buffer that holds the file, and a write to memory that
the loader has not mapped for the user, have no meaning. -/

namespace Pi0Os.Task

open Kernel Library Memory

abbrev sizeofElf32Ehdr : ℕ := 52
abbrev sizeofElf32Phdr : ℕ := 32

abbrev elfClass32 : ℕ := 1
abbrev elfData2Lsb : ℕ := 1
abbrev evCurrent : ℕ := 1
abbrev etExec : ℕ := 2
abbrev emArm : ℕ := 40
abbrev ptLoad : ℕ := 1

/-- The little-endian number in the `n` bytes from `offset` on. -/
def field (binary : List UInt8) (offset n : ℕ) : ℕ := Nat.ofDigits 256 (((binary.drop offset).take n).map UInt8.toNat)

def readField (binary : List UInt8) (offset n : ℕ) : Except Panic ℕ := do
  panicIf (.undefined "a read outside of the buffer of the file") (binary.length < offset + n)
  return field binary offset n

def verifyIdentification (binary : List UInt8) : Except Panic ℤ := do
  if (← readField binary 0 1) ≠ 0x7f ∨ (← readField binary 1 1) ≠ 'E'.toNat ∨ (← readField binary 2 1) ≠ 'L'.toNat ∨
      (← readField binary 3 1) ≠ 'F'.toNat then
    return -Err.noExec
  if (← readField binary 4 1) ≠ elfClass32 ∨ (← readField binary 5 1) ≠ elfData2Lsb ∨
      (← readField binary 6 1) ≠ evCurrent then
    return -Err.notSup
  return 0

/-- The memory, and the addresses of the pages that the loader has mapped. -/
structure Loading where
  vm : Vm
  mapped : List ℕ -- ghost

/-- The frame that a write to user memory goes to. -/
def userFrame (as virt : ℕ) (l : Loading) : Except Panic ℕ := do
  panicIf (.undefined "a write to memory that the loader has not mapped for the user")
    (Areas.kernelVirtStartAddr ≤ virt ∨ roundDown virt size4KB ∉ l.mapped)
  return SmallPageEntry.baseAddress (pageEntry l.vm.words (← rootTablePtr l.vm as) virt)

/-- The word `w` with `byte` at the place `i` of its four. -/
def setByte (w i : ℕ) (byte : UInt8) : ℕ := w - w / 256 ^ i % 256 * 256 ^ i + byte.toNat * 256 ^ i

def storeByte (a : ℕ) (byte : UInt8) (s : Vm) : Vm := s.store (a - a % 4) (setByte (s.words (a - a % 4)) (a % 4) byte)

/-- `vm_memset` of a whole page to 0. -/
def vmMemset (as dest : ℕ) (l : Loading) : Except Panic Loading := do
  return { l with vm := l.vm.clear (← userFrame as dest l) size4KB }

/-- `vm_copy_to_user` of `n` bytes that start at `offset` of the file. -/
def vmCopyToUser (binary : List UInt8) (as : ℕ) : ℕ → ℕ → ℕ → Loading → Except Panic Loading
  | _, _, 0, l => .ok l
  | dest, offset, n + 1, l => do
    let byte ← readField binary offset 1
    let frame ← userFrame as dest l
    vmCopyToUser binary as (dest + 1) (offset + 1) n
      { l with vm := storeByte (frame + dest % size4KB) (UInt8.ofNat byte) l.vm }

/-- The addresses of the inner loop. -/
def segmentPages (vaddr paddr memsz : ℕ) : List ℕ :=
  let start := roundDown vaddr size4KB
  let «end» := roundUp32 (add32 paddr memsz) size4KB
  (List.range ((«end» - start) / size4KB)).map fun k => start + k * size4KB

/-- The inner loop, with whether it ran to its end. -/
def loadPages (as : ℕ) : List ℕ → Loading → Except Panic (Bool × Loading)
  | [], l => .ok (true, l)
  | addr :: addrs, l => do
    match ← physicalPageAlloc .kb4 l.vm.pages with
    | (none, pages) => return (false, { l with vm := { l.vm with pages := pages } })
    | (some page, pages) =>
      let vm ← vmMap { l.vm with pages := pages } as page addr .userFullAccess
      loadPages as addrs (← vmMemset as addr ⟨vm, addr :: l.mapped⟩)

/-- The loop over the program headers. -/
def loadSegments (binary : List UInt8) (as phoff : ℕ) : List ℕ → Loading → Except Panic (Bool × Loading)
  | [], l => .ok (true, l)
  | i :: is, l => do
    let pHdr := phoff + i * sizeofElf32Phdr
    if (← readField binary pHdr 4) ≠ ptLoad then loadSegments binary as phoff is l
    else
      let vaddr ← readField binary (pHdr + 8) 4
      let paddr ← readField binary (pHdr + 12) 4
      let memsz ← readField binary (pHdr + 20) 4
      match ← loadPages as (segmentPages vaddr paddr memsz) l with
      | (false, l) => return (false, l)
      | (true, l) =>
        let filesz ← readField binary (pHdr + 16) 4
        if filesz = 0 then loadSegments binary as phoff is l
        else
          let offset ← readField binary (pHdr + 4) 4
          loadSegments binary as phoff is (← vmCopyToUser binary as vaddr offset filesz l)

/-- The code that is returned, the entry point if it was set, and the memory. -/
def tryLoadElf (binary : List UInt8) (as : ℕ) (s : Vm) : Except Panic (ℤ × Option ℕ × Vm) := do
  if binary.length < sizeofElf32Ehdr then return (-Err.noExec, none, s)
  let rc ← verifyIdentification binary
  if rc ≠ 0 then return (rc, none, s)
  if (← readField binary 16 2) ≠ etExec then return (-Err.noExec, none, s)
  if (← readField binary 18 2) ≠ emArm then return (-Err.notSup, none, s)
  let entry ← readField binary 24 4
  let phoff ← readField binary 28 4
  let phnum ← readField binary 44 2
  match ← loadSegments binary as phoff (List.range phnum) ⟨s, []⟩ with
  | (false, l) => return (-Err.noMem, some entry, l.vm)
  | (true, l) => return (0, some entry, l.vm)

/-- The file at the path, and what the VFS and the heap answer for it. -/
structure ElfFile where
  openRc : ℤ -- of `vfs_open`, 0 or a negative code
  openRc_le : openRc ≤ 0
  contents : List UInt8
  malloc : Bool -- whether there is a buffer for the contents
  readRc : ℤ -- of `vfs_read`

def elfLoadIntoAddressSpace (file : ElfFile) (as : ℕ) (s : Vm) : Except Panic (ℤ × Option ℕ × Vm) :=
  if file.openRc ≠ 0 then return (file.openRc, none, s)
  else if ¬ file.malloc then return (-Err.noMem, none, s)
  else if file.readRc < 0 then return (file.readRc, none, s)
  else tryLoadElf file.contents as s

end Pi0Os.Task
