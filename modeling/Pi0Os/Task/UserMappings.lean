import Pi0Os.Library.Noted
import Pi0Os.Library.TransitionSystem
import Pi0Os.Task.ElfLoads
import Pi0Os.Task.ProcessArgs

/-! Where `sys$execve` and `sys$mmap` enter pages for the user. The calls are those of the other modules, and note the
virtual address of each entry; what is left out is the content of the pages. -/

namespace Pi0Os.Task

open Kernel Library Memory

namespace UserMappings

abbrev Mapping (α : Type) := Noted Panic ℕ α

def mapUser (s : Vm) (as page virt : ℕ) : Mapping Vm := do
  let s ← vmMap s as page virt .userFullAccess
  .note virt
  return s

/-- The part of `FramebufferDevice::DisplayInfo` that `mmap` reads. -/
structure DisplayInfo where
  height : ℕ
  pitch : ℕ
  fbPhysAddr : ℕ

def DisplayInfo.fbLength (d : DisplayInfo) : ℕ := d.pitch * d.height % 2 ^ 32

/-- The loop of `FramebufferDevice::mmap`. -/
def mapFramebuffer (as fbPhysAddr vaddr : ℕ) : List ℕ → Vm → Mapping Vm
  | [], s => return s
  | offset :: offsets, s => do
    let page ← addr2page s.pages (add32 fbPhysAddr offset)
    let s := { s with pages := s.pages.setRefCount page (s.pages.refCount page + 1) }
    let s ← mapUser s as page (add32 vaddr offset)
    mapFramebuffer as fbPhysAddr vaddr offsets s

def framebufferOffsets (d : DisplayInfo) : List ℕ :=
  (List.range (roundUp32 d.fbLength size4KB / size4KB)).map fun k => k * size4KB

/-- `FramebufferDevice::mmap`. -/
def framebufferMmap (d : DisplayInfo) (as vaddr length : ℕ) (s : Vm) : Mapping (ℤ × Vm) := do
  kassert "vm_addr_is_page_aligned(vaddr)" (vaddr % size4KB = 0)
  kassert "vm_addr_is_page_aligned(length)" (length % size4KB = 0)
  let s ← mapFramebuffer as (roundDown d.fbPhysAddr size4KB) vaddr (framebufferOffsets d) s
  return (0, s)

def loadPages (as : ℕ) : List ℕ → Loading → Mapping (Bool × Loading)
  | [], l => return (true, l)
  | addr :: addrs, l => do
    match ← physicalPageAlloc .kb4 l.vm.pages with
    | (none, pages) => return (false, { l with vm := { l.vm with pages := pages } })
    | (some page, pages) =>
      let vm ← mapUser { l.vm with pages := pages } as page addr
      loadPages as addrs (← vmMemset as addr ⟨vm, addr :: l.mapped⟩)

def loadSegments (binary : List UInt8) (as phoff : ℕ) : List ℕ → Loading → Mapping (Bool × Loading)
  | [], l => return (true, l)
  | i :: is, l => do
    let pHdr := phoff + i * sizeofElf32Phdr
    if (← readField binary pHdr 4) ≠ ptLoad then loadSegments binary as phoff is l
    else
      let vaddr ← readField binary (pHdr + 8) 4
      let paddr ← readField binary (pHdr + 12) 4
      let memsz ← readField binary (pHdr + 20) 4
      match ← loadPages as (segmentPages vaddr paddr memsz) l with
      | (false, l) => return (false, l)
      | (true, l) =>
        let filesz ← readField binary (pHdr + 16) 4
        if filesz = 0 then loadSegments binary as phoff is l
        else
          let offset ← readField binary (pHdr + 4) 4
          loadSegments binary as phoff is (← vmCopyToUser binary as vaddr offset filesz l)

def tryLoadElf (binary : List UInt8) (as : ℕ) (s : Vm) : Mapping (ℤ × Option ℕ × Vm) := do
  if binary.length < sizeofElf32Ehdr then return (-Err.noExec, none, s)
  let rc ← verifyIdentification binary
  if rc ≠ 0 then return (rc, none, s)
  if (← readField binary 16 2) ≠ etExec then return (-Err.noExec, none, s)
  if (← readField binary 18 2) ≠ emArm then return (-Err.notSup, none, s)
  let entry ← readField binary 24 4
  let phoff ← readField binary 28 4
  let phnum ← readField binary 44 2
  match ← loadSegments binary as phoff (List.range phnum) ⟨s, []⟩ with
  | (false, l) => return (-Err.noMem, some entry, l.vm)
  | (true, l) => return (0, some entry, l.vm)

def elfLoadIntoAddressSpace (file : ElfFile) (as : ℕ) (s : Vm) : Mapping (ℤ × Option ℕ × Vm) :=
  if file.openRc ≠ 0 then return (file.openRc, none, s)
  else if ¬ file.malloc then return (-Err.noMem, none, s)
  else if file.readRc < 0 then return (file.readRc, none, s)
  else tryLoadElf file.contents as s

def mapStackPages (as startaddr : ℕ) : ℕ → List ℕ → Vm → Mapping Vm
  | _, [], s => return s
  | i, page :: pages, s => do
    let s ← mapUser s as page (sub32 startaddr ((i + 1) * size4KB))
    mapStackPages as startaddr (i + 1) pages s

def allocUserStackPages (as tid : ℕ) (s : Vm) : Mapping (Bool × Vm) := do
  match ← allocStackPages 4 [] s.pages with
  | (none, a) => return (false, { s with pages := a })
  | (some pages, a) =>
    let s ← mapStackPages as (userStackStart tid) 0 pages { s with pages := a }
    return (true, s)

/-- The memory, and the address space of the process that calls. -/
structure Space where
  vm : Vm
  addressSpace : ℕ

/-- What `sys$execve` does to the page tables, in a process of one thread. -/
def sysExecve (file : ElfFile) (m : Space) : Mapping (ℤ × Space) := do
  match ← vmCreateAddressSpace m.vm with
  | (none, _) => liftM (m := Except Panic) (.error (.undefined "vm_free before vm_create_address_space"))
  | (some newAs, s) =>
    let (rc, _, s) ← elfLoadIntoAddressSpace file newAs s
    if rc ≠ 0 then return (rc, { m with vm := ← vmFree s newAs })
    match ← allocUserStackPages newAs 0 s with
    | (false, s) => return (-Err.noMem, { m with vm := ← vmFree s newAs })
    | (true, s) => return (0, ⟨← vmFree s m.addressSpace, newAs⟩)

/-- `sys$mmap` with the descriptor of a framebuffer, or with one that no file is open at. -/
def sysMmap (file : Option DisplayInfo) (vaddr length : ℕ) (m : Space) : Mapping (ℤ × Space) := do
  if vaddr % size4KB ≠ 0 then return (-Err.inval, m)
  match file with
  | none => return (-Err.badF, m)
  | some d =>
    let (rc, vm) ← framebufferMmap d m.addressSpace vaddr (roundUp32 length size4KB) m.vm
    return (rc, { m with vm := vm })

inductive UserCall where
  | execve (file : ElfFile)
  | mmap (file : Option DisplayInfo) (vaddr length : ℕ)

def UserCall.run : UserCall → Space → Mapping (ℤ × Space)
  | .execve file => sysExecve file
  | .mmap file vaddr length => sysMmap file vaddr length

def pageOf : LoadStep → Option ℕ
  | .map addr => some addr
  | _ => none

def filePages (file : ElfFile) : List ℕ :=
  if file.openRc = 0 ∧ file.malloc ∧ 0 ≤ file.readRc ∧ HeaderAccepted file.contents then
    (fileSteps file.contents).filterMap pageOf
  else []

def framebufferPages (file : Option DisplayInfo) (vaddr : ℕ) : List ℕ :=
  match file with
  | none => []
  | some d => if vaddr % size4KB = 0 then (framebufferOffsets d).map (add32 vaddr) else []

/-- The pages that a call asks for. -/
def UserCall.pages : UserCall → List ℕ
  | .execve file => filePages file ++ stackPages 0
  | .mmap file vaddr _ => framebufferPages file vaddr

def UserCall.BelowKernel (call : UserCall) : Prop := ∀ a ∈ call.pages, a < Areas.kernelArea.start

/-- A space with the addresses at which pages for the user have been entered. -/
structure Run where
  space : Space
  entered : List ℕ -- ghost

/-- The calls that return; a call that does not is the last. -/
def userCalls : TransitionSystem Run UserCall where
  Init m := m.entered = []
  Step m call m' := ∃ rc notes, call.run m.space = ⟨.ok (rc, m'.space), notes⟩ ∧ m'.entered = m.entered ++ notes

section Results

variable {as : ℕ} {s : Vm} {l : Loading} {binary : List UInt8}

lemma mapUser_result (page virt : ℕ) : (mapUser s as page virt).result = vmMap s as page virt .userFullAccess := by
  rw [mapUser, Noted.result_bind, Noted.result_lift]
  cases vmMap s as page virt .userFullAccess <;> rfl

lemma loadPages_result (addrs : List ℕ) : (loadPages as addrs l).result = Task.loadPages as addrs l := by
  induction addrs generalizing l with
  | nil => rfl
  | cons addr addrs ih =>
    rw [loadPages, Task.loadPages, Noted.result_bind, Noted.result_lift]
    congr 1
    funext r
    obtain ⟨page, pages⟩ := r
    cases page with
    | none => rfl
    | some page =>
      simp only [Noted.result_bind, mapUser_result, Noted.result_lift, ih]

lemma loadSegments_result (phoff : ℕ) (is : List ℕ) :
    (loadSegments binary as phoff is l).result = Task.loadSegments binary as phoff is l := by
  induction is generalizing l with
  | nil => rfl
  | cons i is ih =>
    rw [loadSegments, Task.loadSegments, Noted.result_bind, Noted.result_lift]
    congr 1
    funext type
    by_cases htype : type ≠ ptLoad
    · rw [if_pos htype, if_pos htype, ih]
    rw [if_neg htype, if_neg htype]
    simp only [Noted.result_bind, Noted.result_lift, loadPages_result]
    congr 1
    funext vaddr
    congr 1
    funext paddr
    congr 1
    funext memsz
    congr 1
    funext r
    obtain ⟨done, l'⟩ := r
    cases done with
    | false => rfl
    | true =>
      simp only [Noted.result_bind, Noted.result_lift]
      congr 1
      funext filesz
      split_ifs
      · exact ih
      · simp only [Noted.result_bind, Noted.result_lift, ih]

lemma tryLoadElf_result : (tryLoadElf binary as s).result = Task.tryLoadElf binary as s := by
  rw [tryLoadElf, Task.tryLoadElf]
  by_cases hlen : binary.length < sizeofElf32Ehdr
  · rw [if_pos hlen, if_pos hlen]
    rfl
  rw [if_neg hlen, if_neg hlen, Noted.result_bind, Noted.result_lift]
  congr 1
  funext rc
  by_cases hrc : rc ≠ 0
  · rw [if_pos hrc, if_pos hrc]
    rfl
  rw [if_neg hrc, if_neg hrc, Noted.result_bind, Noted.result_lift]
  congr 1
  funext type
  by_cases htype : type ≠ etExec
  · rw [if_pos htype, if_pos htype]
    rfl
  rw [if_neg htype, if_neg htype, Noted.result_bind, Noted.result_lift]
  congr 1
  funext machine
  by_cases hmachine : machine ≠ emArm
  · rw [if_pos hmachine, if_pos hmachine]
    rfl
  rw [if_neg hmachine, if_neg hmachine]
  simp only [Noted.result_bind, Noted.result_lift, loadSegments_result]
  congr 1
  funext entry
  congr 1
  funext phoff
  congr 1
  funext phnum
  congr 1
  funext r
  obtain ⟨done, l⟩ := r
  cases done <;> rfl

/-- With the notes left out, the loader is that of `elfloader.cpp`. -/
lemma elfLoadIntoAddressSpace_result (file : ElfFile) :
    (elfLoadIntoAddressSpace file as s).result = Task.elfLoadIntoAddressSpace file as s := by
  rw [elfLoadIntoAddressSpace, Task.elfLoadIntoAddressSpace]
  split_ifs
  · rfl
  · rfl
  · exact tryLoadElf_result
  · rfl

lemma mapStackPages_result (startaddr i : ℕ) (pages : List ℕ) :
    (mapStackPages as startaddr i pages s).result = Task.mapStackPages as startaddr i pages s := by
  induction pages generalizing i s with
  | nil => rfl
  | cons page pages ih =>
    rw [mapStackPages, Task.mapStackPages]
    simp only [Noted.result_bind, mapUser_result, ih]

lemma allocUserStackPages_result (tid : ℕ) :
    (allocUserStackPages as tid s).result = Task.allocUserStackPages as tid s := by
  rw [allocUserStackPages, Task.allocUserStackPages, Noted.result_bind, Noted.result_lift]
  congr 1
  funext r
  obtain ⟨pages, a⟩ := r
  cases pages with
  | none => rfl
  | some pages =>
    simp only [Noted.result_bind, mapStackPages_result]
    rfl

end Results

section Pages

variable {as : ℕ} {s : Vm} {l : Loading} {binary : List UInt8} {file : ElfFile}

lemma mapUser_follows (page virt : ℕ) : Noted.Follows (fun _ => True) [virt] (mapUser s as page virt) :=
  .lift_bind fun _ _ => .bind_all .note fun _ _ => .pure

lemma mapFramebuffer_follows (fbPhysAddr vaddr : ℕ) (offsets : List ℕ) :
    Noted.Follows (fun _ => True) (offsets.map (add32 vaddr)) (mapFramebuffer as fbPhysAddr vaddr offsets s) := by
  induction offsets generalizing s with
  | nil => exact .pure
  | cons offset offsets ih => exact .lift_bind fun page _ => .bind_all (mapUser_follows page _) fun _ _ => ih

lemma loadPages_follows (addrs : List ℕ) :
    Noted.Follows (fun r => r.1 = true) addrs (loadPages as addrs l) := by
  induction addrs generalizing l with
  | nil => exact .pure
  | cons addr addrs ih =>
    refine .lift_bind fun r _ => ?_
    obtain ⟨page, pages⟩ := r
    cases page with
    | none => exact .stop Bool.false_ne_true
    | some page => exact .bind_all (mapUser_follows page addr) fun _ _ => .lift_bind fun _ _ => ih

lemma readField_eq_ok {offset n v : ℕ} (h : readField binary offset n = .ok v) : v = field binary offset n :=
  (Except.ok.inj (panicIf_bind_eq_ok.mp h).2).symm

lemma pages_headerSteps (pHdr : ℕ) : (headerSteps binary pHdr).filterMap pageOf =
    if field binary pHdr 4 ≠ ptLoad then []
    else segmentPages (field binary (pHdr + 8) 4) (field binary (pHdr + 12) 4) (field binary (pHdr + 20) 4) := by
  have hmaps (addrs : List ℕ) : (addrs.map LoadStep.map).filterMap pageOf = addrs := by
    rw [List.filterMap_map]
    exact List.filterMap_some
  rw [headerSteps]
  by_cases htype : field binary pHdr 4 ≠ ptLoad
  · rw [if_pos htype, if_pos htype]
    rfl
  rw [if_neg htype, if_neg htype, List.filterMap_cons_none rfl, List.filterMap_cons_none rfl, List.filterMap_append,
    hmaps]
  split_ifs
  · exact List.append_nil _
  · exact List.append_nil _

lemma loadSegments_follows (phoff : ℕ) (is : List ℕ) : Noted.Follows (fun r => r.1 = true)
    ((loadSteps binary phoff is).filterMap pageOf) (loadSegments binary as phoff is l) := by
  induction is generalizing l with
  | nil => exact .pure
  | cons i is ih =>
    have hsteps : (loadSteps binary phoff (i :: is)).filterMap pageOf =
        (headerSteps binary (phoff + i * sizeofElf32Phdr)).filterMap pageOf ++
          (loadSteps binary phoff is).filterMap pageOf := List.filterMap_append
    rw [hsteps, pages_headerSteps, loadSegments]
    generalize phoff + i * sizeofElf32Phdr = pHdr
    refine .lift_bind fun type htype => ?_
    rw [readField_eq_ok htype]
    by_cases hload : field binary pHdr 4 ≠ ptLoad
    · rw [if_pos hload, if_pos hload]
      exact ih
    rw [if_neg hload, if_neg hload]
    refine .lift_bind fun vaddr hvaddr => .lift_bind fun paddr hpaddr => .lift_bind fun memsz hmemsz => ?_
    rw [← readField_eq_ok hvaddr, ← readField_eq_ok hpaddr, ← readField_eq_ok hmemsz]
    refine (loadPages_follows _).bind (fun r _ hr => ?_) (fun r _ hr => ?_)
    · obtain ⟨done, l'⟩ := r
      obtain rfl : done = true := hr
      refine .lift_bind fun filesz _ => ?_
      split_ifs
      · exact ih
      · exact .lift_bind fun offset _ => .lift_bind fun _ _ => ih
    · obtain ⟨done, l'⟩ := r
      obtain rfl : done = false := by simpa using hr
      exact .pure Bool.false_ne_true

lemma accepted_of_verified {rc : ℤ} (hlen : sizeofElf32Ehdr ≤ binary.length)
    (h : verifyIdentification binary = .ok rc) (hrc : rc = 0) : ¬ BadMagic binary ∧ ¬ BadClass binary := by
  rw [verifyIdentification_eq hlen] at h
  have hif := (Except.ok.inj h).trans hrc
  constructor
  · intro hmagic
    rw [if_pos hmagic] at hif
    exact absurd hif (by decide)
  · intro hclass
    rw [if_pos hclass] at hif
    split_ifs at hif
    · exact absurd hif (by decide)
    · exact absurd hif (by decide)

lemma tryLoadElf_follows : Noted.Follows (fun r => r.1 = 0)
    (if HeaderAccepted binary then (fileSteps binary).filterMap pageOf else []) (tryLoadElf binary as s) := by
  rw [tryLoadElf]
  by_cases hlen : binary.length < sizeofElf32Ehdr
  · rw [if_pos hlen]
    exact .stop (show (-Err.noExec : ℤ) ≠ 0 by decide)
  rw [if_neg hlen]
  refine .lift_bind fun rc hverify => ?_
  by_cases hrc : rc ≠ 0
  · rw [if_pos hrc]
    exact .stop hrc
  rw [if_neg hrc]
  refine .lift_bind fun type htype => ?_
  by_cases hexec : type ≠ etExec
  · rw [if_pos hexec]
    exact .stop (show (-Err.noExec : ℤ) ≠ 0 by decide)
  rw [if_neg hexec]
  refine .lift_bind fun machine hmachine => ?_
  by_cases harm : machine ≠ emArm
  · rw [if_pos harm]
    exact .stop (show (-Err.notSup : ℤ) ≠ 0 by decide)
  rw [if_neg harm]
  refine .lift_bind fun entry _ => .lift_bind fun phoff hphoff => .lift_bind fun phnum hphnum => ?_
  have hlen := Nat.not_lt.mp hlen
  obtain ⟨hmagic, hclass⟩ := accepted_of_verified hlen hverify (not_not.mp hrc)
  have haccepted : HeaderAccepted binary := ⟨hlen, hmagic, hclass,
    (readField_eq_ok htype).symm.trans (not_not.mp hexec), (readField_eq_ok hmachine).symm.trans (not_not.mp harm)⟩
  rw [if_pos haccepted, fileSteps, ← readField_eq_ok hphoff, ← readField_eq_ok hphnum,
    ← List.append_nil (List.filterMap ..)]
  refine (loadSegments_follows phoff _).bind (fun r _ hr => ?_) (fun r _ hr => ?_)
  · obtain ⟨done, l⟩ := r
    obtain rfl : done = true := hr
    exact .pure
  · obtain ⟨done, l⟩ := r
    obtain rfl : done = false := by simpa using hr
    exact .pure (show (-Err.noMem : ℤ) ≠ 0 by decide)

lemma elfLoadIntoAddressSpace_follows :
    Noted.Follows (fun r => r.1 = 0) (filePages file) (elfLoadIntoAddressSpace file as s) := by
  rw [elfLoadIntoAddressSpace]
  by_cases hopen : file.openRc ≠ 0
  · rw [if_pos hopen]
    exact .stop hopen
  rw [if_neg hopen]
  by_cases hmalloc : ¬ file.malloc
  · rw [if_pos hmalloc]
    exact .stop (show (-Err.noMem : ℤ) ≠ 0 by decide)
  rw [if_neg hmalloc]
  by_cases hread : file.readRc < 0
  · rw [if_pos hread]
    exact .stop hread.ne
  rw [if_neg hread]
  have hpages : filePages file =
      if HeaderAccepted file.contents then (fileSteps file.contents).filterMap pageOf else [] := by
    rw [filePages]
    simp only [not_not.mp hopen, not_not.mp hmalloc, Int.not_lt.mp hread, true_and]
  rw [hpages]
  exact tryLoadElf_follows

lemma length_allocStackPages {n : ℕ} {pages pages' : List ℕ} {a a' : PageAllocator}
    (h : allocStackPages n pages a = .ok (some pages', a')) : pages'.length = pages.length + n := by
  induction n generalizing pages a with
  | zero =>
    cases h
    rfl
  | succ n ih =>
    obtain ⟨⟨page, a₁⟩, -, h⟩ := bind_eq_ok.mp h
    cases page with
    | none =>
      obtain ⟨_, -, h⟩ := bind_eq_ok.mp h
      cases h
    | some page =>
      rw [ih h, List.length_append, List.length_singleton]
      omega

lemma mapStackPages_follows (startaddr i : ℕ) (pages : List ℕ) : Noted.Follows (fun _ => True)
    ((List.range' i pages.length).map fun i => sub32 startaddr ((i + 1) * size4KB))
    (mapStackPages as startaddr i pages s) := by
  induction pages generalizing i s with
  | nil => exact .pure
  | cons page pages ih => exact .bind_all (mapUser_follows page _) fun _ _ => ih (i + 1)

lemma allocUserStackPages_follows (tid : ℕ) :
    Noted.Follows (fun r => r.1 = true) (stackPages tid) (allocUserStackPages as tid s) := by
  refine .lift_bind fun r hr => ?_
  obtain ⟨pages, a⟩ := r
  cases pages with
  | none => exact .stop Bool.false_ne_true
  | some pages =>
    have hlen : pages.length = 4 := length_allocStackPages hr
    have hpages : Noted.Follows (fun _ => True) _
        (mapStackPages as (userStackStart tid) 0 pages { s with pages := a }) := mapStackPages_follows _ 0 pages
    rw [hlen, ← List.range_eq_range'] at hpages
    rw [← List.append_nil (stackPages tid)]
    exact hpages.bind_all fun _ _ => .pure

lemma sysExecve_follows (m : Space) :
    Noted.Follows (fun r => r.1 = 0) (filePages file ++ stackPages 0) (sysExecve file m) := by
  refine .lift_bind fun r _ => ?_
  obtain ⟨newAs, s⟩ := r
  cases newAs with
  | none => exact .of_stops .lift_error
  | some newAs =>
    refine elfLoadIntoAddressSpace_follows.bind (fun r _ hr => ?_) (fun r _ hr => ?_)
    · obtain ⟨rc, entry, s⟩ := r
      obtain rfl : rc = 0 := hr
      rw [← List.append_nil (stackPages 0)]
      refine (allocUserStackPages_follows 0).bind (fun r _ hr => ?_) (fun r _ hr => ?_)
      · obtain ⟨done, s⟩ := r
        obtain rfl : done = true := hr
        exact .lift_bind fun _ _ => .pure
      · obtain ⟨done, s⟩ := r
        obtain rfl : done = false := by simpa using hr
        exact .lift_bind fun _ _ => .pure (show (-Err.noMem : ℤ) ≠ 0 by decide)
    · obtain ⟨rc, entry, s⟩ := r
      dsimp only
      rw [if_pos hr]
      exact .lift_bind fun _ _ => .pure hr

lemma sysMmap_follows (d : Option DisplayInfo) (vaddr length : ℕ) (m : Space) :
    Noted.Follows (fun r => r.1 = 0) (framebufferPages d vaddr) (sysMmap d vaddr length m) := by
  unfold sysMmap
  by_cases halign : vaddr % size4KB ≠ 0
  · rw [if_pos halign]
    exact .stop (show (-Err.inval : ℤ) ≠ 0 by decide)
  rw [if_neg halign]
  cases d with
  | none => exact .stop (show (-Err.badF : ℤ) ≠ 0 by decide)
  | some d =>
    have hpages : framebufferPages (some d) vaddr = (framebufferOffsets d).map (add32 vaddr) ++ [] ++ [] := by
      rw [List.append_nil, List.append_nil]
      exact if_pos (not_not.mp halign)
    rw [hpages]
    refine .bind_all (.lift_bind fun _ _ => .lift_bind fun _ _ => ?_) fun _ _ => .pure
    exact .bind_all (mapFramebuffer_follows _ vaddr _) fun _ _ => .pure

lemma run_follows (call : UserCall) (m : Space) : Noted.Follows (fun r => r.1 = 0) call.pages (call.run m) := by
  cases call with
  | execve file => exact sysExecve_follows m
  | mmap file vaddr length => exact sysMmap_follows file vaddr length m

end Pages

section Runs

variable {m m' : Run}

lemma notes_below {call : UserCall} (h : call.BelowKernel) (m : Space) :
    ∀ a ∈ (call.run m).notes, a < Areas.kernelArea.start :=
  fun a ha => h a ((run_follows call m).start.subset ha)

lemma entered_below (h : (userCalls.restrict fun _ call => call.BelowKernel).Reachable m) :
    ∀ a ∈ m.entered, a < Areas.kernelArea.start := by
  refine h.invariant (I := fun m => ∀ a ∈ m.entered, a < Areas.kernelArea.start) ⟨?_, ?_⟩
  · intro m hm a ha
    rw [show m.entered = [] from hm] at ha
    cases ha
  · rintro m call m' hi ⟨⟨rc, notes, hrun, hentered⟩, hbelow⟩ a ha
    rw [hentered] at ha
    rcases List.mem_append.mp ha with ha | ha
    · exact hi a ha
    · have hnotes := notes_below hbelow m.space
      rw [hrun] at hnotes
      exact hnotes a ha

-- A framebuffer of one page, in the memory of the kernel.
def smallFramebuffer : DisplayInfo := ⟨1, size4KB, 0x40006000⟩

/-- The framebuffer is mapped in a new address space of the small board. -/
def smallMmap (vaddr : ℕ) : Except Panic (Space × ℤ × Space) := do
  let pages ← physicalPageAllocatorInit smallBoot
  match ← vmCreateAddressSpace ⟨pages, smallBoot.ramSize, smallWords, 0⟩ with
  | (none, _) => .error (.undefined "out of memory")
  | (some as, s) => return (⟨s, as⟩, ← (sysMmap (some smallFramebuffer) vaddr size4KB ⟨s, as⟩).result)

lemma smallMmap_step (vaddr : ℕ) (h : (smallMmap vaddr).toOption.map (fun r => r.2.1) = some 0) :
    ∃ m m' : Space, (UserCall.mmap (some smallFramebuffer) vaddr size4KB).run m =
      ⟨.ok (0, m'), framebufferPages (some smallFramebuffer) vaddr⟩ := by
  obtain ⟨⟨m, rc, m'⟩, hrun, rfl⟩ := Option.map_eq_some_iff.mp h
  have hrun : smallMmap vaddr = .ok (m, 0, m') := by
    cases hx : smallMmap vaddr with
    | error e =>
      rw [hx] at hrun
      cases hrun
    | ok x =>
      rw [hx] at hrun
      exact congrArg _ (Option.some.inj hrun)
  obtain ⟨pages, -, hrun⟩ := bind_eq_ok.mp hrun
  obtain ⟨⟨as, s⟩, -, hrun⟩ := bind_eq_ok.mp hrun
  cases as with
  | none => cases hrun
  | some as =>
    obtain ⟨r, hresult, hrun⟩ := bind_eq_ok.mp hrun
    cases hrun
    have hnotes := (run_follows (.mmap (some smallFramebuffer) vaddr size4KB) ⟨s, as⟩).all (0, m') hresult rfl
    exact ⟨⟨s, as⟩, m', Noted.ext hresult hnotes⟩

end Runs

end UserMappings

end Pi0Os.Task
