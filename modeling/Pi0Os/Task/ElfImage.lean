import Pi0Os.Library.PagedImage
import Pi0Os.Memory.UserBytes
import Pi0Os.Task.ElfLoads

/-! What an ELF file asks for: its segments, by `p_vaddr` and `p_memsz`, and when the loader maps the pages that are
theirs. -/

namespace Pi0Os.Task

open Kernel Library Memory

/-- A program header of the type `PT_LOAD`. -/
structure Segment where
  vaddr : ℕ
  paddr : ℕ
  memsz : ℕ
  filesz : ℕ
  offset : ℕ
deriving DecidableEq

def segmentAt (binary : List UInt8) (pHdr : ℕ) : Segment where
  vaddr := field binary (pHdr + 8) 4
  paddr := field binary (pHdr + 12) 4
  memsz := field binary (pHdr + 20) 4
  filesz := field binary (pHdr + 16) 4
  offset := field binary (pHdr + 4) 4

def segmentsFrom (binary : List UInt8) (phoff : ℕ) (is : List ℕ) : List Segment :=
  ((is.map fun i => phoff + i * sizeofElf32Phdr).filter fun pHdr => field binary pHdr 4 = ptLoad).map (segmentAt binary)

def segments (binary : List UInt8) : List Segment :=
  segmentsFrom binary (field binary 28 4) (List.range (field binary 44 2))

/-- The pages that the bytes of the segment lie in. -/
def Segment.pages (g : Segment) : Finset ℕ := (Finset.Ico g.vaddr (g.vaddr + g.memsz)).image (pageStart size4KB)

/-- The pages that the loader maps for the segment, and the bytes it copies. -/
def Segment.region (binary : List UInt8) (g : Segment) : Region UInt8 where
  pages := segmentPages g.vaddr g.paddr g.memsz
  start := g.vaddr
  data := (binary.drop g.offset).take g.filesz

def regions (binary : List UInt8) : List (Region UInt8) := (segments binary).map (Segment.region binary)

/-- The pages of a program. Page 0 is the vector page. -/
def UserPage (a : ℕ) : Prop := a ≠ 0 ∧ a < Areas.kernelVirtStartAddr

instance (a : ℕ) : Decidable (UserPage a) := inferInstanceAs (Decidable (_ ∧ _))

structure WellFormed (binary : List UInt8) : Prop where
  accepted : HeaderAccepted binary
  headers : ∀ i < field binary 44 2, field binary 28 4 + i * sizeofElf32Phdr + sizeofElf32Phdr ≤ binary.length
  ranges : ∀ g ∈ segments binary, ∀ k < g.filesz, g.offset + k < binary.length
  filesz_le : ∀ g ∈ segments binary, g.filesz ≤ g.memsz
  user : ∀ g ∈ segments binary, ∀ a ∈ g.pages, UserPage a
  apart : (segments binary).Pairwise fun g g' => Disjoint g.pages g'.pages

/-- The pages, and the second-level tables for them that a new address space has not got. -/
def elfPages (binary : List UInt8) : Finset ℕ := (segments binary).toFinset.biUnion Segment.pages

def elfTables (binary : List UInt8) : Finset ℕ := ((elfPages binary).image lvl1Index).erase 0

/-- The program is in the address space as the file has it, and nothing else is. -/
structure Loaded (binary : List UInt8) (as : ℕ) (s : Vm) : Prop where
  contents : ∀ g ∈ segments binary, ∀ k < g.memsz,
    s.userByte as (g.vaddr + k) = some (if k < g.filesz then binary.getD (g.offset + k) 0 else 0)
  only : ∀ virt, UserPage (pageStart size4KB virt) → (s.userByte as virt).isSome →
    ∃ g ∈ segments binary, pageStart size4KB virt ∈ g.pages

/-- The pages from the one of `p_vaddr` up to `p_paddr + p_memsz` are those of the segments, each once, and the bytes of
the file find theirs mapped. -/
def PagesAgree (binary : List UInt8) : Prop :=
  Fits size4KB (regions binary) [] ∧
    ∀ a, a ∈ (regions binary).flatMap Region.pages ↔ ∃ g ∈ segments binary, a ∈ g.pages

section Pages

variable {binary : List UInt8} {g : Segment} {a k : ℕ}

lemma mem_elfPages : a ∈ elfPages binary ↔ ∃ g ∈ segments binary, a ∈ g.pages := by
  simp only [elfPages, Finset.mem_biUnion, List.mem_toFinset]

lemma Segment.pageStart_mem (hk : k < g.memsz) : pageStart size4KB (g.vaddr + k) ∈ g.pages :=
  Finset.mem_image_of_mem _ (Finset.mem_Ico.mpr ⟨Nat.le_add_right .., Nat.add_lt_add_left hk _⟩)

lemma Segment.length_data (h : ∀ k < g.filesz, g.offset + k < binary.length) :
    (g.region binary).data.length = g.filesz := by
  change ((binary.drop g.offset).take g.filesz).length = g.filesz
  rw [List.length_take, List.length_drop, min_eq_left_iff]
  by_contra hlt
  have hin := h (g.filesz - 1) (by omega)
  omega

namespace WellFormed

variable (h : WellFormed binary)
include h

lemma pageStart_mem_of_holds (hg : g ∈ segments binary) (ha : (g.region binary).Holds a) :
    pageStart size4KB a ∈ g.pages := by
  have hlen := Segment.length_data (h.ranges g hg)
  have hle := h.filesz_le g hg
  obtain ⟨hlo, hhi⟩ := ha
  rw [hlen] at hhi
  change g.vaddr ≤ a at hlo
  change a < g.vaddr + g.filesz at hhi
  exact Finset.mem_image_of_mem _ (Finset.mem_Ico.mpr ⟨hlo, by omega⟩)

lemma regions_apart : (regions binary).Pairwise fun r r' => ∀ a, r.Holds a → ¬ r'.Holds a := by
  refine List.pairwise_map.mpr ((List.Pairwise.and_mem.mp h.apart).imp ?_)
  rintro g g' ⟨hg, hg', hd⟩ a ha ha'
  exact Finset.disjoint_left.mp hd (h.pageStart_mem_of_holds hg ha) (h.pageStart_mem_of_holds hg' ha')

lemma content (hfits : Fits size4KB (regions binary) []) (hg : g ∈ segments binary) (hk : k < g.memsz)
    (hmapped : pageStart size4KB (g.vaddr + k) ∈ (regions binary).flatMap Region.pages) (f : ℕ → UInt8) :
    (Image.load size4KB 0 (regions binary) ⟨[], f⟩).content (g.vaddr + k) =
      if k < g.filesz then binary.getD (g.offset + k) 0 else 0 := by
  have hlen := Segment.length_data (h.ranges g hg)
  have hr : g.region binary ∈ regions binary := List.mem_map_of_mem hg
  by_cases hfile : k < g.filesz
  · have hin := h.ranges g hg k hfile
    have hbyte : (g.region binary).data[k]? = some binary[g.offset + k] := by
      change ((binary.drop g.offset).take g.filesz)[k]? = _
      rw [List.getElem?_take_of_lt hfile, List.getElem?_drop, List.getElem?_eq_getElem hin]
    obtain ⟨hlt, hbyte⟩ := List.getElem?_eq_some_iff.mp hbyte
    rw [if_pos hfile, List.getD_eq_getElem _ _ hin, ← hbyte]
    exact hfits.content_data h.regions_apart hr hlt
  · rw [if_neg hfile]
    refine hfits.content_blank hmapped fun r hr' hholds => ?_
    obtain ⟨g', hg', rfl⟩ := List.mem_map.mp hr'
    by_cases he : g = g'
    · subst he
      obtain ⟨-, hhi⟩ := hholds
      rw [hlen] at hhi
      change g.vaddr + k < g.vaddr + g.filesz at hhi
      omega
    · have hsymm : Std.Symm fun g g' : Segment => Disjoint g.pages g'.pages := ⟨fun _ _ hd => hd.symm⟩
      have hd := h.apart.forall hg hg' he
      exact Finset.disjoint_left.mp hd (Segment.pageStart_mem hk) (h.pageStart_mem_of_holds hg' hholds)

end WellFormed

lemma nodup_segmentPages (vaddr paddr memsz : ℕ) : (segmentPages vaddr paddr memsz).Nodup := by
  refine List.Nodup.map (fun i j he => ?_) List.nodup_range
  simp only [size4KB] at he
  omega

lemma mem_segmentPages {vaddr paddr memsz : ℕ} : a ∈ segmentPages vaddr paddr memsz ↔
    size4KB ∣ a ∧ roundDown vaddr size4KB ≤ a ∧ a < roundUp32 (add32 paddr memsz) size4KB := by
  simp only [segmentPages, List.mem_map, List.mem_range, roundDown, roundUp32, size4KB]
  constructor
  · rintro ⟨k, hk, rfl⟩
    omega
  · rintro ⟨⟨v, rfl⟩, hlo, hhi⟩
    exact ⟨v - vaddr / 4096, by omega, by omega⟩

lemma Segment.mem_pages (hpos : 0 < g.memsz) :
    a ∈ g.pages ↔ size4KB ∣ a ∧ roundDown g.vaddr size4KB ≤ a ∧ a < g.vaddr + g.memsz := by
  simp only [Segment.pages, Finset.mem_image, Finset.mem_Ico, pageStart, roundDown, size4KB]
  constructor
  · rintro ⟨x, ⟨hlo, hhi⟩, rfl⟩
    omega
  · rintro ⟨⟨v, rfl⟩, hlo, hhi⟩
    exact ⟨max g.vaddr (4096 * v), by omega, by omega⟩

/-- Where the physical addresses are the virtual ones, a segment gets its own pages. -/
lemma Segment.pages_of_paddr_eq (hu : ∀ a ∈ g.pages, UserPage a) (hpos : 0 < g.memsz) (hp : g.paddr = g.vaddr) :
    a ∈ (g.region binary).pages ↔ a ∈ g.pages := by
  have hlast := (hu _ (Segment.pageStart_mem (Nat.sub_lt hpos Nat.one_pos))).2
  rw [Segment.mem_pages hpos]
  refine mem_segmentPages.trans (and_congr_right fun hd => and_congr_right fun _ => ?_)
  obtain ⟨v, rfl⟩ := hd
  simp only [pageStart, roundUp32, add32, size4KB, Areas.kernelVirtStartAddr, hp] at hlast ⊢
  omega

lemma WellFormed.pagesAgree (h : WellFormed binary)
    (hp : ∀ g ∈ segments binary, 0 < g.memsz ∧ g.paddr = g.vaddr) : PagesAgree binary := by
  have hown {g : Segment} {a : ℕ} (hg : g ∈ segments binary) : a ∈ (g.region binary).pages ↔ a ∈ g.pages :=
    Segment.pages_of_paddr_eq (h.user g hg) (hp g hg).1 (hp g hg).2
  have hregion {r : Region UInt8} (hr : r ∈ regions binary) : ∃ g ∈ segments binary, g.region binary = r :=
    List.mem_map.mp hr
  refine ⟨Fits.of_apart (fun r hr => ?_) (fun _ _ _ _ => List.not_mem_nil) (fun r hr k hk => ?_) ?_, fun a => ?_⟩
  · obtain ⟨g, -, rfl⟩ := hregion hr
    exact nodup_segmentPages ..
  · obtain ⟨g, hg, rfl⟩ := hregion hr
    exact (hown hg).mpr (h.pageStart_mem_of_holds hg ⟨Nat.le_add_right .., Nat.add_lt_add_left hk _⟩)
  · refine List.pairwise_map.mpr ((List.Pairwise.and_mem.mp h.apart).imp ?_)
    rintro g g' ⟨hg, hg', hd⟩ a ha ha'
    exact Finset.disjoint_left.mp hd ((hown hg).mp ha) ((hown hg').mp ha')
  · rw [List.mem_flatMap]
    constructor
    · rintro ⟨r, hr, ha⟩
      obtain ⟨g, hg, rfl⟩ := hregion hr
      exact ⟨g, hg, (hown hg).mp ha⟩
    · rintro ⟨g, hg, ha⟩
      exact ⟨_, List.mem_map_of_mem hg, (hown hg).mpr ha⟩

end Pages

section Tables

variable {mapped addrs addrs' : List ℕ} {a : ℕ}

/-- The tables that the pages `addrs` need, one after the other. -/
def newTables : List ℕ → List ℕ → ℕ
  | _, [] => 0
  | mapped, a :: addrs => (if HasTable mapped a then 0 else 1) + newTables (a :: mapped) addrs

lemma newTables_append (mapped addrs addrs' : List ℕ) :
    newTables mapped (addrs ++ addrs') = newTables mapped addrs + newTables (addrs.reverse ++ mapped) addrs' := by
  induction addrs generalizing mapped with
  | nil => exact (Nat.zero_add _).symm
  | cons a addrs ih =>
    rw [List.cons_append, newTables, newTables, ih, List.reverse_cons, List.append_assoc, Nat.add_assoc]
    rfl

def tableIndices (mapped : List ℕ) : Finset ℕ := insert 0 (mapped.toFinset.image lvl1Index)

lemma hasTable_iff : HasTable mapped a ↔ lvl1Index a ∈ tableIndices mapped := by
  simp only [HasTable, tableIndices, Finset.mem_insert, Finset.mem_image, List.mem_toFinset]

lemma tableIndices_cons (a : ℕ) (mapped : List ℕ) :
    tableIndices (a :: mapped) = insert (lvl1Index a) (tableIndices mapped) := by
  rw [tableIndices, tableIndices, List.toFinset_cons, Finset.image_insert, Finset.insert_comm]

lemma newTables_eq (mapped addrs : List ℕ) :
    newTables mapped addrs = (addrs.toFinset.image lvl1Index \ tableIndices mapped).card := by
  induction addrs generalizing mapped with
  | nil => rw [newTables, List.toFinset_nil, Finset.image_empty, Finset.empty_sdiff, Finset.card_empty]
  | cons a addrs ih =>
    rw [newTables, ih, tableIndices_cons, List.toFinset_cons, Finset.image_insert]
    generalize addrs.toFinset.image lvl1Index = is
    by_cases ha : lvl1Index a ∈ tableIndices mapped
    · rw [if_pos (hasTable_iff.mpr ha), Finset.insert_eq_of_mem ha, Finset.insert_sdiff_of_mem _ ha, Nat.zero_add]
    · have hsame : insert (lvl1Index a) is \ tableIndices mapped =
          insert (lvl1Index a) (is \ insert (lvl1Index a) (tableIndices mapped)) := by grind
      have hnew : lvl1Index a ∉ is \ insert (lvl1Index a) (tableIndices mapped) := by
        simp only [Finset.mem_sdiff, Finset.mem_insert_self, not_true_eq_false, and_false, not_false_eq_true]
      rw [if_neg (mt hasTable_iff.mp ha), hsame, Finset.card_insert_of_notMem hnew, Nat.add_comm]

lemma PagesAgree.length_pages {binary : List UInt8} (h : PagesAgree binary) :
    ((regions binary).flatMap Region.pages).length = (elfPages binary).card ∧
      newTables [] ((regions binary).flatMap Region.pages) = (elfTables binary).card := by
  have hpages : ((regions binary).flatMap Region.pages).toFinset = elfPages binary := by
    ext a
    rw [List.mem_toFinset, h.2, mem_elfPages]
  constructor
  · rw [← hpages, List.toFinset_card_of_nodup h.1.nodup.1]
  · rw [newTables_eq, hpages, elfTables, ← Finset.sdiff_singleton_eq_erase]
    rfl

end Tables

end Pi0Os.Task
