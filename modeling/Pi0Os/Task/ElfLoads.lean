import Pi0Os.Memory.UserTables
import Pi0Os.Task.ElfLoader

/-! For which files `elf_load_into_address_space` stays in the file and in the pages that it maps. -/

namespace Pi0Os.Task

open Kernel Library Memory

/-- What the loader does for the program headers. -/
inductive LoadStep where
  | read (offset size : ℕ)
  | map (addr : ℕ)
  | copy (vaddr offset size : ℕ)

def headerSteps (binary : List UInt8) (pHdr : ℕ) : List LoadStep :=
  let vaddr := field binary (pHdr + 8) 4
  let filesz := field binary (pHdr + 16) 4
  .read pHdr 4 ::
    if field binary pHdr 4 ≠ ptLoad then []
    else .read pHdr 24 :: ((segmentPages vaddr (field binary (pHdr + 12) 4) (field binary (pHdr + 20) 4)).map .map ++
      if filesz = 0 then [] else [.copy vaddr (field binary (pHdr + 4) 4) filesz])

def loadSteps (binary : List UInt8) (phoff : ℕ) (is : List ℕ) : List LoadStep :=
  is.flatMap fun i => headerSteps binary (phoff + i * sizeofElf32Phdr)

/-- The first megabyte has a second-level table from the start. -/
def HasTable (mapped : List ℕ) (addr : ℕ) : Prop := lvl1Index addr = 0 ∨ ∃ a ∈ mapped, lvl1Index a = lvl1Index addr

instance (mapped : List ℕ) (addr : ℕ) : Decidable (HasTable mapped addr) := inferInstanceAs (Decidable (_ ∨ _))

/-- The allocator once there is a table for `addr`, if there is memory for it. -/
def withTable (mapped : List ℕ) (addr : ℕ) (pages : PageAllocator) : Option PageAllocator :=
  if HasTable mapped addr then some pages
  else
    match physicalPageAlloc .kb1 pages with
    | .ok (some _, pages) => some pages
    | _ => none

/-- Each step that there is memory for can be done: a read is inside of the file, a page to map is a page of the user
that is not mapped, and a copy is from the file to pages that are. -/
def Loadable (binary : List UInt8) : List LoadStep → PageAllocator → List ℕ → Prop
  | [], _, _ => True
  | .read offset size :: steps, pages, mapped => offset + size ≤ binary.length ∧ Loadable binary steps pages mapped
  | .copy vaddr offset size :: steps, pages, mapped =>
    (offset + size ≤ binary.length ∧ ∀ i < size, roundDown (vaddr + i) size4KB ∈ mapped) ∧
      Loadable binary steps pages mapped
  | .map addr :: steps, pages, mapped =>
    match physicalPageAlloc .kb4 pages with
    | .ok (some _, pages) =>
      (addr ≠ 0 ∧ addr < Areas.kernelVirtStartAddr ∧ addr ∉ mapped) ∧
        ∃ pages', withTable mapped addr pages = some pages' ∧ Loadable binary steps pages' (addr :: mapped)
    | _ => True

/-- The point of a load at which the pages of `l.mapped` have frames. -/
structure LoadPoint (first limit as : ℕ) (l : Loading) : Prop where
  ready : RamReady limit l.vm
  tables : ∃ live tables frames, UserTables first limit l.vm live as tables frames ∧
    (∀ i, (tables i).isSome ↔ i = 0 ∨ ∃ a ∈ l.mapped, lvl1Index a = i) ∧
    ∀ v, (frames v).isSome ↔ v * size4KB ∈ l.mapped

section Steps

variable {first limit as addr : ℕ} {binary : List UInt8} {l : Loading}

lemma readField_of_le {offset n : ℕ} (hle : offset + n ≤ binary.length) :
    readField binary offset n = .ok (field binary offset n) := by
  rw [readField, panicIf, if_neg (Nat.not_lt.mpr hle)]
  rfl

lemma readField_of_lt {offset n : ℕ} (hlt : binary.length < offset + n) :
    readField binary offset n = .error (.undefined "a read outside of the buffer of the file") := by
  rw [readField, panicIf, if_pos hlt]
  rfl

lemma userFrame_error {virt : ℕ} (hm : Areas.kernelVirtStartAddr ≤ virt ∨ roundDown virt size4KB ∉ l.mapped) :
    userFrame as virt l = .error (.undefined "a write to memory that the loader has not mapped for the user") := by
  rw [userFrame, panicIf, if_pos hm]
  rfl

lemma isSome_update_frames {p : ℕ} {mapped : List ℕ} {frames : ℕ → Option ℕ} (hd : size4KB ∣ addr)
    (hf : ∀ v, (frames v).isSome ↔ v * size4KB ∈ mapped) (v : ℕ) :
    (Function.update frames (addr / size4KB) (some p) v).isSome ↔ v * size4KB ∈ addr :: mapped := by
  by_cases he : v = addr / size4KB
  · rw [he, Function.update_self, Nat.div_mul_cancel hd]
    exact iff_of_true rfl (List.mem_cons_self ..)
  · have hne : v * size4KB ≠ addr := by
      rintro rfl
      exact he (Nat.mul_div_cancel v (by decide)).symm
    rw [Function.update_of_ne he, hf v, List.mem_cons, or_iff_right hne]

def PageFits (mapped : List ℕ) (addr : ℕ) (pages : PageAllocator) : Prop :=
  (addr ≠ 0 ∧ addr < Areas.kernelVirtStartAddr ∧ addr ∉ mapped) ∧ (withTable mapped addr pages).isSome

/-- The rest of the inner loop once there is a page. -/
def mapPage (as page addr : ℕ) (pages : PageAllocator) (l : Loading) : Except Panic Loading := do
  let vm ← vmMap { l.vm with pages := pages } as page addr .userFullAccess
  vmMemset as addr ⟨vm, addr :: l.mapped⟩

namespace LoadPoint

lemma lt_of_mapped {virt : ℕ} (h : LoadPoint first limit as l) (hm : roundDown virt size4KB ∈ l.mapped) :
    virt < Areas.kernelVirtStartAddr := by
  obtain ⟨live, tables, frames, ht, -, hf⟩ := h.tables
  obtain ⟨f, hf⟩ := Option.isSome_iff_exists.mp ((hf (virt / size4KB)).mpr hm)
  obtain ⟨-, -, hlt, -⟩ := ht.frame _ f hf
  simp only [userPages, kernelStartIdx, lvl2Entries, size4KB, Areas.kernelVirtStartAddr] at *
  omega

lemma userFrame_ok {virt : ℕ} (h : LoadPoint first limit as l) (hm : roundDown virt size4KB ∈ l.mapped) :
    ∃ frame, userFrame as virt l = .ok frame ∧ size4KB ∣ frame ∧
      ∀ words, (∀ S, Disjoint S (Set.Ico frame (frame + size4KB)) → Set.EqOn words l.vm.words S) →
        LoadPoint first limit as { l with vm := { l.vm with words := words } } := by
  have hv := h.lt_of_mapped hm
  obtain ⟨live, tables, frames, ht, hi, hf⟩ := h.tables
  obtain ⟨f, hframe⟩ := Option.isSome_iff_exists.mp ((hf (virt / size4KB)).mpr hm)
  obtain ⟨hlive, -⟩ := ht.frame _ f hframe
  refine ⟨pageAddr l.vm.pages.ramStart f, ?_, (ht.blocks.address hlive).1, fun words hw => ?_⟩
  · have hin : ¬ (Areas.kernelVirtStartAddr ≤ virt ∨ roundDown virt size4KB ∉ l.mapped) :=
      not_or.mpr ⟨Nat.not_le.mpr hv, not_not.mpr hm⟩
    rw [userFrame, panicIf, if_neg hin, ok_bind, ht.blocks.rootTablePtr_ok h.ready ht.root, ok_bind,
      ht.baseAddress_pageEntry hv hframe]
    rfl
  · exact ⟨h.ready.congr rfl rfl rfl rfl, live, tables, frames, ht.write hlive hw, hi, hf⟩

lemma vmMemset_ok (h : LoadPoint first limit as l) (hd : size4KB ∣ addr) (hm : addr ∈ l.mapped) :
    ∃ l', vmMemset as addr l = .ok l' ∧ LoadPoint first limit as l' ∧ l'.vm.pages = l.vm.pages ∧
      l'.mapped = l.mapped := by
  have hround : roundDown addr size4KB = addr := Nat.div_mul_cancel hd
  rw [← hround] at hm
  obtain ⟨frame, hframe, -, hwrite⟩ := h.userFrame_ok hm
  have hmemset : vmMemset as addr l = .ok { l with vm := l.vm.clear frame size4KB } := by
    rw [vmMemset, hframe, ok_bind]
    rfl
  exact ⟨_, hmemset, hwrite _ fun _ hS => fill_eqOn hS, rfl, rfl⟩

lemma storeByte_ok {dest : ℕ} (byte : UInt8) (h : LoadPoint first limit as l) (hm : roundDown dest size4KB ∈ l.mapped) :
    ∃ frame, userFrame as dest l = .ok frame ∧
      LoadPoint first limit as { l with vm := storeByte (frame + dest % size4KB) byte l.vm } := by
  obtain ⟨frame, hframe, hd, hwrite⟩ := h.userFrame_ok hm
  refine ⟨frame, hframe, hwrite _ fun S hS => update_eqOn fun hin => Set.disjoint_left.mp hS hin ?_⟩
  simp only [Set.mem_Ico, size4KB] at hd ⊢
  omega

lemma vmCopyToUser_ok {n : ℕ} (h : LoadPoint first limit as l) {dest offset : ℕ}
    (hread : ∀ i < n, offset + i < binary.length) (hmem : ∀ i < n, roundDown (dest + i) size4KB ∈ l.mapped) :
    ∃ l', vmCopyToUser binary as dest offset n l = .ok l' ∧ LoadPoint first limit as l' ∧
      l'.vm.pages = l.vm.pages ∧ l'.mapped = l.mapped := by
  induction n generalizing dest offset l with
  | zero => exact ⟨l, rfl, h, rfl, rfl⟩
  | succ n ih =>
    have hm : roundDown dest size4KB ∈ l.mapped := hmem 0 (Nat.succ_pos n)
    obtain ⟨frame, hframe, hstore⟩ := h.storeByte_ok (UInt8.ofNat (field binary offset 1)) hm
    have hread₁ : ∀ i < n, offset + 1 + i < binary.length := fun i hi => by
      have hlt := hread (i + 1) (Nat.succ_lt_succ hi)
      omega
    have hmem₁ : ∀ i < n, roundDown (dest + 1 + i) size4KB ∈ l.mapped := fun i hi => by
      have hin := hmem (i + 1) (Nat.succ_lt_succ hi)
      rwa [show dest + 1 + i = dest + (i + 1) by omega]
    obtain ⟨l', hrun, hpoint, hpages, hmapped⟩ := ih hstore hread₁ hmem₁
    refine ⟨l', ?_, hpoint, hpages, hmapped⟩
    rw [vmCopyToUser, readField_of_le (hread 0 (Nat.succ_pos n)), ok_bind, hframe, ok_bind]
    exact hrun

lemma vmCopyToUser_error {n i : ℕ} (h : LoadPoint first limit as l) {dest offset : ℕ} (hi : i < n)
    (hbad : binary.length ≤ offset + i ∨ roundDown (dest + i) size4KB ∉ l.mapped) :
    ∃ e, vmCopyToUser binary as dest offset n l = .error e := by
  induction n generalizing i dest offset l with
  | zero => exact absurd hi (Nat.not_lt_zero i)
  | succ n ih =>
    rw [vmCopyToUser]
    by_cases hread : offset + 1 ≤ binary.length
    · rw [readField_of_le hread, ok_bind]
      by_cases hm : roundDown dest size4KB ∈ l.mapped
      · obtain ⟨frame, hframe, hstore⟩ := h.storeByte_ok (UInt8.ofNat (field binary offset 1)) hm
        rw [hframe, ok_bind]
        cases i with
        | zero => exact absurd hbad (not_or.mpr ⟨Nat.not_le.mpr hread, not_not.mpr hm⟩)
        | succ i =>
          refine ih hstore (Nat.lt_of_succ_lt_succ hi) ?_
          rwa [show dest + 1 + i = dest + (i + 1) by omega, show offset + 1 + i = offset + (i + 1) by omega]
      · rw [userFrame_error (Or.inr hm)]
        exact ⟨_, rfl⟩
    · rw [readField_of_lt (Nat.not_le.mp hread)]
      exact ⟨_, rfl⟩

lemma of_mapped {p : ℕ} {vm : Vm} {pages : PageAllocator} {tables frames : ℕ → Option ℕ} (hd : size4KB ∣ addr)
    (hi : ∀ i, (tables i).isSome ↔ i = 0 ∨ ∃ a ∈ l.mapped, lvl1Index a = i)
    (hf : ∀ v, (frames v).isSome ↔ v * size4KB ∈ l.mapped)
    (hm : UserTables.Mapped first limit vm pages as addr p frames (fun i => (tables i).isSome)) :
    LoadPoint first limit as ⟨vm, addr :: l.mapped⟩ := by
  obtain ⟨live, tables', ht, hi'⟩ := hm.tables
  refine ⟨hm.ready, live, tables', _, ht, fun i => ?_, fun v => ?_⟩
  · rw [hi' i, hi i, List.exists_mem_cons_iff, or_assoc, or_comm (b := i = lvl1Index addr)]
    exact or_congr_right (or_congr_left eq_comm)
  · exact isSome_update_frames hd hf v

lemma mapPage_cases {p : ℕ} {pages : PageAllocator} (h : LoadPoint first limit as l) (hd : size4KB ∣ addr)
    (ha : physicalPageAlloc .kb4 l.vm.pages = .ok (some p, pages)) :
    (¬ PageFits l.mapped addr pages ∧ ∃ e, mapPage as p addr pages l = .error e) ∨
    (PageFits l.mapped addr pages ∧ ∃ l', mapPage as p addr pages l = .ok l' ∧ LoadPoint first limit as l' ∧
      withTable l.mapped addr pages = some l'.vm.pages ∧ l'.mapped = addr :: l.mapped) := by
  obtain ⟨live, tables, frames, ht, hi, hf⟩ := h.tables
  have hready : RamReady limit { l.vm with pages := pages } := h.ready.alloc ht.blocks ha
  have ht₁ := ht.alloc ha
  have hp : (⟨p, .kb4⟩ : Block) ∈ insert (⟨p, .kb4⟩ : Block) live := Finset.mem_insert_self _ _
  have hmapped : (frames (addr / size4KB)).isSome ↔ addr ∈ l.mapped := by rw [hf, Nat.div_mul_cancel hd]
  have htable : (tables (lvl1Index addr)).isSome ↔ HasTable l.mapped addr := hi (lvl1Index addr)
  have hdone {vm : Vm} {pages' : PageAllocator} (hmap : vmMap
    { l.vm with pages := pages } as p addr .userFullAccess = .ok vm)
      (hm : UserTables.Mapped first limit vm pages' as addr p frames (fun i => (tables i).isSome))
      (hw : withTable l.mapped addr pages = some pages') :
      ∃ l', mapPage as p addr pages l = .ok l' ∧ LoadPoint first limit as l' ∧
        withTable l.mapped addr pages = some l'.vm.pages ∧ l'.mapped = addr :: l.mapped := by
    obtain ⟨l', hrun, hpoint, hpages, hmapped'⟩ := (of_mapped hd hi hf hm).vmMemset_ok hd (List.mem_cons_self ..)
    exact ⟨l', by rw [mapPage, hmap]; exact hrun, hpoint, by rw [hpages, hw, hm.pages], hmapped'⟩
  by_cases hv : addr < Areas.kernelVirtStartAddr
  swap
  · refine Or.inl ⟨fun hfits => hv hfits.1.2.1, ?_⟩
    rw [mapPage]
    cases vmMap { l.vm with pages := pages } as p addr .userFullAccess with
    | error e => exact ⟨e, rfl⟩
    | ok vm =>
      rw [ok_bind, vmMemset, userFrame_error (Or.inl (Nat.not_lt.mp hv))]
      exact ⟨_, rfl⟩
  by_cases htaken : addr / size4KB = 0 ∨ (frames (addr / size4KB)).isSome
  · refine Or.inl ⟨?_, ?_⟩
    · rintro ⟨⟨hz, -, hnot⟩, -⟩
      rcases htaken with he | hs
      · exact hz (by rw [← Nat.div_mul_cancel hd, he, Nat.zero_mul])
      · exact hnot (hmapped.mp hs)
    · rw [mapPage, ht₁.vmMap_taken hready hp hv htaken]
      exact ⟨_, rfl⟩
  obtain ⟨hz, hnot⟩ := not_or.mp htaken
  have hpage : addr ≠ 0 ∧ addr < Areas.kernelVirtStartAddr ∧ addr ∉ l.mapped := by
    refine ⟨?_, hv, fun hm => hnot (hmapped.mpr hm)⟩
    rintro rfl
    exact hz (Nat.zero_div _)
  have hfree : frames (addr / size4KB) = none := Option.not_isSome_iff_eq_none.mp hnot
  by_cases hhas : HasTable l.mapped addr
  · have hw : withTable l.mapped addr pages = some pages := if_pos hhas
    obtain ⟨vm, hmap, hm⟩ := ht₁.vmMap_withTable hready hp hv hz hfree (htable.mpr hhas)
    exact Or.inr ⟨⟨hpage, by rw [hw]; rfl⟩, hdone hmap hm hw⟩
  · have hnone : tables (lvl1Index addr) = none := Option.not_isSome_iff_eq_none.mp (fun hs => hhas (htable.mp hs))
    rcases ht₁.blocks.alloc_cases .kb1 with hno | ⟨t, pages', ha'⟩
    · have hw : withTable l.mapped addr pages = none := by
        rw [withTable, if_neg hhas, show physicalPageAlloc .kb1 pages = _ from hno]
      refine Or.inl ⟨fun hfits => ?_, ?_⟩
      · have hsome := hfits.2
        rw [hw] at hsome
        cases hsome
      · rw [mapPage, ht₁.vmMap_noTable hready hp hv hnone hno]
        exact ⟨_, rfl⟩
    · have hw : withTable l.mapped addr pages = some pages' := by
        rw [withTable, if_neg hhas, show physicalPageAlloc .kb1 pages = _ from ha']
      obtain ⟨vm, hmap, hm⟩ := ht₁.vmMap_withNewTable hready hp hv hz hnone ha'
      exact Or.inr ⟨⟨hpage, by rw [hw]; rfl⟩, hdone hmap hm hw⟩

end LoadPoint

/-- The part of the load that does `steps`: it fails if one of them cannot be done, else it does them all or runs out of
memory. -/
inductive LoadOutcome (first limit as : ℕ) (binary : List UInt8) (l : Loading) (steps : List LoadStep) :
    Except Panic (Bool × Loading) → Prop
  | failed {e} : (∀ rest, ¬ Loadable binary (steps ++ rest) l.vm.pages l.mapped) →
      LoadOutcome first limit as binary l steps (.error e)
  | outOfMemory {l'} : (∀ rest, Loadable binary (steps ++ rest) l.vm.pages l.mapped) →
      LoadOutcome first limit as binary l steps (.ok (false, l'))
  | done {l'} : LoadPoint first limit as l' →
      (∀ rest, Loadable binary (steps ++ rest) l.vm.pages l.mapped ↔ Loadable binary rest l'.vm.pages l'.mapped) →
      LoadOutcome first limit as binary l steps (.ok (true, l'))

namespace LoadOutcome

variable {steps steps' : List LoadStep} {x : Except Panic (Bool × Loading)}

lemma of_iff {l₀ : Loading} (hiff : ∀ rest, Loadable binary (steps' ++ rest) l.vm.pages l.mapped ↔
      Loadable binary (steps ++ rest) l₀.vm.pages l₀.mapped) (h : LoadOutcome first limit as binary l₀ steps x) :
    LoadOutcome first limit as binary l steps' x := by
  cases h with
  | failed hno => exact .failed fun rest => mt (hiff rest).mp (hno rest)
  | outOfMemory hyes => exact .outOfMemory fun rest => (hiff rest).mpr (hyes rest)
  | done hpoint hiff' => exact .done hpoint fun rest => (hiff rest).trans (hiff' rest)

lemma seq {f : Loading → Except Panic (Bool × Loading)} {g : Bool × Loading → Except Panic (Bool × Loading)}
    (hg : ∀ l', g (false, l') = .ok (false, l')) (hgf : ∀ l', g (true, l') = f l')
    (h : LoadOutcome first limit as binary l steps x)
    (hf : ∀ l', LoadPoint first limit as l' → LoadOutcome first limit as binary l' steps' (f l')) :
    LoadOutcome first limit as binary l (steps ++ steps') (x >>= g) := by
  cases h with
  | failed hno =>
    refine .failed fun rest => ?_
    rw [List.append_assoc]
    exact hno _
  | @outOfMemory l' hyes =>
    rw [ok_bind, hg]
    refine .outOfMemory fun rest => ?_
    rw [List.append_assoc]
    exact hyes _
  | @done l' hpoint hiff =>
    rw [ok_bind, hgf]
    refine (hf l' hpoint).of_iff fun rest => ?_
    rw [List.append_assoc]
    exact hiff _

lemma cons {step : LoadStep} {ok : Prop} (hstep : ∀ rest, Loadable binary (step :: rest) l.vm.pages l.mapped ↔
      ok ∧ Loadable binary rest l.vm.pages l.mapped) (hok : ok) (h : LoadOutcome first limit as binary l steps x) :
    LoadOutcome first limit as binary l (step :: steps) x :=
  h.of_iff fun _ => (hstep _).trans (and_iff_right hok)

end LoadOutcome

lemma loadPages_cons {p : ℕ} {pages : PageAllocator} (addrs : List ℕ)
    (ha : physicalPageAlloc .kb4 l.vm.pages = .ok (some p, pages)) :
    loadPages as (addr :: addrs) l = mapPage as p addr pages l >>= loadPages as addrs := by
  rw [loadPages, ha, ok_bind, mapPage, bind_assoc]

lemma loadPages_outcome {addrs : List ℕ} (h : LoadPoint first limit as l) (hd : ∀ addr ∈ addrs, size4KB ∣ addr) :
    LoadOutcome first limit as binary l (addrs.map .map) (loadPages as addrs l) := by
  induction addrs generalizing l with
  | nil => exact .done h fun _ => Iff.rfl
  | cons addr addrs ih =>
    obtain ⟨hd, hds⟩ := List.forall_mem_cons.mp hd
    obtain ⟨live, tables, frames, ht, -⟩ := h.tables
    rw [List.map_cons]
    rcases ht.blocks.alloc_cases .kb4 with hno | ⟨p, pages, ha⟩
    · rw [loadPages, hno]
      refine .outOfMemory fun rest => ?_
      rw [List.cons_append, Loadable, hno]
      trivial
    · have hstep (rest : List LoadStep) : Loadable binary (.map addr :: addrs.map .map ++ rest) l.vm.pages l.mapped ↔
          (addr ≠ 0 ∧ addr < Areas.kernelVirtStartAddr ∧ addr ∉ l.mapped) ∧
            ∃ pages', withTable l.mapped addr pages = some pages' ∧
              Loadable binary (addrs.map .map ++ rest) pages' (addr :: l.mapped) := by
        rw [List.cons_append, Loadable, ha]
      rw [loadPages_cons addrs ha]
      rcases h.mapPage_cases hd ha with ⟨hnot, e, he⟩ | ⟨hfits, l', hl', hpoint, hw, hmapped⟩
      · rw [he]
        refine .failed fun rest hload => hnot ?_
        obtain ⟨hpage, pages', hw, -⟩ := (hstep rest).mp hload
        exact ⟨hpage, by rw [hw]; rfl⟩
      · have hiff (rest : List LoadStep) :
            Loadable binary (.map addr :: addrs.map .map ++ rest) l.vm.pages l.mapped ↔
              Loadable binary (addrs.map .map ++ rest) l'.vm.pages l'.mapped := by
          rw [hstep, hw, hmapped]
          constructor
          · rintro ⟨-, pages', he, hload⟩
            exact Option.some.inj he ▸ hload
          · exact fun hload => ⟨hfits.1, _, rfl, hload⟩
        rw [hl', ok_bind]
        exact (ih hpoint hds).of_iff hiff

lemma dvd_of_mem_segmentPages {vaddr paddr memsz : ℕ} (h : addr ∈ segmentPages vaddr paddr memsz) : size4KB ∣ addr := by
  obtain ⟨k, -, rfl⟩ := List.mem_map.mp h
  exact Nat.dvd_add (dvd_roundDown _ _) (Dvd.intro_left _ rfl)

lemma copy_outcome {steps : List LoadStep} {vaddr offset n : ℕ} (h : LoadPoint first limit as l) (hn : n ≠ 0)
    {f : Loading → Except Panic (Bool × Loading)}
    (hf : ∀ l', LoadPoint first limit as l' → LoadOutcome first limit as binary l' steps (f l')) :
    LoadOutcome first limit as binary l (.copy vaddr offset n :: steps)
      (vmCopyToUser binary as vaddr offset n l >>= f) := by
  by_cases hfits : offset + n ≤ binary.length ∧ ∀ i < n, roundDown (vaddr + i) size4KB ∈ l.mapped
  · have hread : ∀ i < n, offset + i < binary.length := fun i hi => by omega
    obtain ⟨l', hrun, hpoint, hpages, hmapped⟩ := h.vmCopyToUser_ok hread hfits.2
    rw [hrun, ok_bind]
    refine (hf l' hpoint).of_iff fun rest => ?_
    rw [List.cons_append, Loadable, hpages, hmapped, and_iff_right hfits]
  · have hbad : ∃ i < n, binary.length ≤ offset + i ∨ roundDown (vaddr + i) size4KB ∉ l.mapped := by
      by_contra hnot
      refine hfits ⟨?_, fun i hi => ?_⟩
      · by_contra hread
        exact hnot ⟨n - 1, by omega, Or.inl (by omega)⟩
      · by_contra hm
        exact hnot ⟨i, hi, Or.inr hm⟩
    obtain ⟨i, hi, hbad⟩ := hbad
    obtain ⟨e, he⟩ := h.vmCopyToUser_error hi hbad
    rw [he]
    exact .failed fun rest hload => hfits hload.1

lemma loadSegments_outcome {phoff : ℕ} {is : List ℕ} (h : LoadPoint first limit as l) :
    LoadOutcome first limit as binary l (loadSteps binary phoff is) (loadSegments binary as phoff is l) := by
  induction is generalizing l with
  | nil => exact .done h fun _ => Iff.rfl
  | cons i is ih =>
    have hsteps : loadSteps binary phoff (i :: is) =
      headerSteps binary (phoff + i * sizeofElf32Phdr) ++ loadSteps binary phoff is := rfl
    rw [hsteps, loadSegments]
    generalize phoff + i * sizeofElf32Phdr = pHdr
    by_cases hread : pHdr + 4 ≤ binary.length
    swap
    · rw [readField_of_lt (Nat.not_le.mp hread)]
      exact .failed fun rest hload => hread hload.1
    rw [readField_of_le hread, ok_bind, headerSteps, List.cons_append]
    refine .cons (fun _ => Iff.rfl) hread ?_
    by_cases htype : field binary pHdr 4 ≠ ptLoad
    · rw [if_pos htype, if_pos htype]
      exact ih h
    rw [if_neg htype, if_neg htype, List.cons_append, List.append_assoc]
    by_cases hheader : pHdr + 24 ≤ binary.length
    swap
    · have hfailed {e : Panic} {steps : List LoadStep} :
          LoadOutcome first limit as binary l (.read pHdr 24 :: steps) (.error e) :=
        .failed fun rest hload => hheader hload.1
      cases readField binary (pHdr + 8) 4 with
      | error e => exact hfailed
      | ok vaddr =>
        cases readField binary (pHdr + 12) 4 with
        | error e => exact hfailed
        | ok paddr =>
          rw [readField_of_lt (show binary.length < pHdr + 20 + 4 by omega)]
          exact hfailed
    rw [readField_of_le (by omega), ok_bind, readField_of_le (by omega), ok_bind,
      readField_of_le (by omega), ok_bind]
    refine .cons (fun _ => Iff.rfl) hheader ?_
    refine .seq (fun _ => rfl) (fun _ => rfl) (loadPages_outcome h fun _ => dvd_of_mem_segmentPages) fun l' hl' => ?_
    dsimp only
    rw [readField_of_le (by omega), ok_bind]
    by_cases hfilesz : field binary (pHdr + 16) 4 = 0
    · rw [if_pos hfilesz, if_pos hfilesz]
      exact ih hl'
    · rw [if_neg hfilesz, if_neg hfilesz, readField_of_le (by omega), ok_bind]
      exact copy_outcome hl' hfilesz fun l'' hl'' => ih hl''

end Steps

def BadMagic (binary : List UInt8) : Prop :=
  field binary 0 1 ≠ 0x7f ∨ field binary 1 1 ≠ 'E'.toNat ∨ field binary 2 1 ≠ 'L'.toNat ∨ field binary 3 1 ≠ 'F'.toNat

def BadClass (binary : List UInt8) : Prop :=
  field binary 4 1 ≠ elfClass32 ∨ field binary 5 1 ≠ elfData2Lsb ∨ field binary 6 1 ≠ evCurrent

instance (binary : List UInt8) : Decidable (BadMagic binary) := inferInstanceAs (Decidable (_ ∨ _))

instance (binary : List UInt8) : Decidable (BadClass binary) := inferInstanceAs (Decidable (_ ∨ _))

def HeaderAccepted (binary : List UInt8) : Prop :=
  sizeofElf32Ehdr ≤ binary.length ∧ ¬ BadMagic binary ∧ ¬ BadClass binary ∧
    field binary 16 2 = etExec ∧ field binary 18 2 = emArm

instance (binary : List UInt8) : Decidable (HeaderAccepted binary) := inferInstanceAs (Decidable (_ ∧ _))

def fileSteps (binary : List UInt8) : List LoadStep :=
  loadSteps binary (field binary 28 4) (List.range (field binary 44 2))

section Header

variable {binary : List UInt8} (as : ℕ) (s : Vm)

lemma readHeader {offset n : ℕ} (hlen : sizeofElf32Ehdr ≤ binary.length) (h : offset + n ≤ sizeofElf32Ehdr) :
    readField binary offset n = .ok (field binary offset n) :=
  readField_of_le (h.trans hlen)

lemma verifyIdentification_eq (hlen : sizeofElf32Ehdr ≤ binary.length) :
    verifyIdentification binary =
      .ok (if BadMagic binary then -Err.noExec else if BadClass binary then -Err.notSup else 0) := by
  simp only [verifyIdentification, readHeader hlen (show 0 + 1 ≤ 52 by decide),
    readHeader hlen (show 1 + 1 ≤ 52 by decide), readHeader hlen (show 2 + 1 ≤ 52 by decide),
    readHeader hlen (show 3 + 1 ≤ 52 by decide), readHeader hlen (show 4 + 1 ≤ 52 by decide),
    readHeader hlen (show 5 + 1 ≤ 52 by decide), readHeader hlen (show 6 + 1 ≤ 52 by decide), ok_bind, pure_eq_ok]
  by_cases hmagic : BadMagic binary
  · rw [if_pos hmagic]
    exact if_pos hmagic
  rw [if_neg hmagic]
  refine (if_neg hmagic).trans ?_
  by_cases hclass : BadClass binary
  · rw [if_pos hclass]
    exact if_pos hclass
  · rw [if_neg hclass]
    exact if_neg hclass

lemma tryLoadElf_rejected (h : ¬ HeaderAccepted binary) : ∃ rc < 0, tryLoadElf binary as s = .ok (rc, none, s) := by
  by_cases hlt : binary.length < sizeofElf32Ehdr
  · exact ⟨-Err.noExec, by decide, if_pos hlt⟩
  have hlen := Nat.not_lt.mp hlt
  rw [tryLoadElf, if_neg hlt, verifyIdentification_eq hlen, ok_bind]
  by_cases hmagic : BadMagic binary
  · rw [if_pos hmagic, if_pos (by decide)]
    exact ⟨-Err.noExec, by decide, rfl⟩
  rw [if_neg hmagic]
  by_cases hclass : BadClass binary
  · rw [if_pos hclass, if_pos (by decide)]
    exact ⟨-Err.notSup, by decide, rfl⟩
  rw [if_neg hclass, if_neg (not_not.mpr rfl), readHeader hlen (show 16 + 2 ≤ 52 by decide), ok_bind]
  by_cases htype : field binary 16 2 ≠ etExec
  · rw [if_pos htype]
    exact ⟨-Err.noExec, by decide, rfl⟩
  rw [if_neg htype, readHeader hlen (show 18 + 2 ≤ 52 by decide), ok_bind]
  by_cases hmachine : field binary 18 2 ≠ emArm
  · rw [if_pos hmachine]
    exact ⟨-Err.notSup, by decide, rfl⟩
  exact absurd ⟨hlen, hmagic, hclass, not_not.mp htype, not_not.mp hmachine⟩ h

lemma tryLoadElf_accepted (h : HeaderAccepted binary) :
    tryLoadElf binary as s = do
      match ← loadSegments binary as (field binary 28 4) (List.range (field binary 44 2)) ⟨s, []⟩ with
      | (false, l) => return (-Err.noMem, some (field binary 24 4), l.vm)
      | (true, l) => return (0, some (field binary 24 4), l.vm) := by
  obtain ⟨hlen, hmagic, hclass, htype, hmachine⟩ := h
  rw [tryLoadElf, if_neg (Nat.not_lt.mpr hlen), verifyIdentification_eq hlen, ok_bind, if_neg hmagic, if_neg hclass,
    if_neg (not_not.mpr rfl), readHeader hlen (show 16 + 2 ≤ 52 by decide), ok_bind, if_neg (not_not.mpr htype),
    readHeader hlen (show 18 + 2 ≤ 52 by decide), ok_bind, if_neg (not_not.mpr hmachine),
    readHeader hlen (show 24 + 4 ≤ 52 by decide), ok_bind, readHeader hlen (show 28 + 4 ≤ 52 by decide), ok_bind,
    readHeader hlen (show 44 + 2 ≤ 52 by decide)]
  rfl

end Header

lemma LoadPoint.of_created {first limit as : ℕ} {s₀ s : Vm} {live : Finset Block} (hr : RamReady limit s₀)
    (hb : Blocks first limit s₀.pages live) (hv : VectorMapped first limit s₀ live)
    (h : vmCreateAddressSpace s₀ = .ok (some as, s)) : LoadPoint first limit as ⟨s, []⟩ := by
  obtain ⟨live', hcreated⟩ := vmCreateAddressSpace_created hb hv h
  obtain ⟨t, ht⟩ := UserTables.of_created hcreated
  refine ⟨hr.create hb h, live', _, _, ht, fun i => ?_, fun v => ?_⟩
  · simp
  · simp

def smallElf (programHeaders : List (List UInt8)) : ElfFile where
  openRc := 0
  openRc_le := le_rfl
  contents := [0x7f, 0x45, 0x4c, 0x46, 1, 1, 1, 0, 0, 0, 0, 0, 0, 0, 0, 0, 2, 0, 40, 0, 1, 0, 0, 0, 0, 0x80, 0, 0,
    52, 0, 0, 0, 0, 0, 0, 0, 0, 0, 0, 0, 52, 0, 32, 0, .ofNat programHeaders.length, 0, 0, 0, 0, 0, 0, 0] ++
      programHeaders.flatten
  malloc := true
  readRc := 52 + 32 * programHeaders.length

/-- A segment of 16 bytes at `0x8000 + low`, of which 4 are in the file. -/
def smallSegment (low : UInt8) : List UInt8 :=
  [1, 0, 0, 0, 0, 0, 0, 0, low, 0x80, 0, 0, low, 0x80, 0, 0, 4, 0, 0, 0, 16, 0, 0, 0, 5, 0, 0, 0, 0, 0x10, 0, 0]

/-- The code that the load of a file into a new address space of the small board returns. -/
def loadSmall (file : ElfFile) : Except Panic (Except Panic ℤ) := do
  let pages ← physicalPageAllocatorInit smallBoot
  match ← vmCreateAddressSpace ⟨pages, smallBoot.ramSize, smallWords, 0⟩ with
  | (none, _) => .error (.undefined "out of memory")
  | (some as, s) => return (elfLoadIntoAddressSpace file as s).map Prod.fst

lemma loadSmall_eq_ok {file : ElfFile} {rc : Except Panic ℤ} (h : loadSmall file = .ok rc) :
    ∃ pages as s, physicalPageAllocatorInit smallBoot = .ok pages ∧
      vmCreateAddressSpace ⟨pages, smallBoot.ramSize, smallWords, 0⟩ = .ok (some as, s) ∧
      (elfLoadIntoAddressSpace file as s).map Prod.fst = rc := by
  obtain ⟨pages, hinit, h⟩ := bind_eq_ok.mp h
  obtain ⟨⟨root, s⟩, hcreate, h⟩ := bind_eq_ok.mp h
  cases root with
  | none => cases h
  | some as => exact ⟨pages, as, s, hinit, hcreate, Except.ok.inj h⟩

lemma loadSmall_sharedPage : loadSmall (smallElf [smallSegment 0, smallSegment 0x10]) =
    .ok (.error (.message "vm_map_page: mapping already exists at %p (currenly mapped to %p)")) := by
  decide +kernel

lemma loadSmall_oneSegment : loadSmall (smallElf [smallSegment 0]) = .ok (.ok 0) := by decide +kernel

lemma smallBoard_ready {pages : PageAllocator} (h : physicalPageAllocatorInit smallBoot = .ok pages) :
    RamReady 256 ⟨pages, smallBoot.ramSize, smallWords, 0⟩ := by
  obtain ⟨pages', free, h', -, hram, hlen, -⟩ := physicalPageAllocatorInit_spec smallBoot_valid
  obtain rfl := Except.ok.inj (h.symm.trans h')
  have hram : pages.ramStart = 0x40000000 := hram
  have hlen : pages.len = 256 := hlen.trans (by decide)
  have hend : pageAddr 0x40000000 256 ≤ add32 0x40000000 smallBoot.ramSize := by decide
  refine ⟨?_, 0x40000000, ?_⟩
  · rw [hram]
    exact hend
  · simp only [rootTablePtr, page2addr, phys2virt, hram, hlen]
    decide

end Pi0Os.Task
