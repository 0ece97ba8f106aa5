import Pi0Os.Memory.PageSupply
import Pi0Os.Task.ElfImage

/-! The program that `try_load_elf` leaves in the address space. -/

namespace Pi0Os.Task

open Kernel Library Memory

lemma setByte_div {i j : ℕ} (hi : i < 4) (hj : j < 4) (w : ℕ) (byte : UInt8) :
    UInt8.ofNat (setByte w i byte / 256 ^ j) = if j = i then byte else UInt8.ofNat (w / 256 ^ j) := by
  have hb := byte.toNat_lt
  have hmod (n : ℕ) : UInt8.ofNat n = UInt8.ofNat (n % 256) := by
    refine UInt8.toNat_inj.mp ?_
    rw [UInt8.toNat_ofNat', UInt8.toNat_ofNat', Nat.mod_mod]
  have hself : byte = UInt8.ofNat (byte.toNat % 256) := by rw [← hmod, UInt8.ofNat_toNat]
  rw [setByte, hmod]
  split_ifs with he
  · rw [hself]
    congr 1
    subst he
    interval_cases j <;> simp only [UInt8.toNat_ofNat'] <;> omega
  · rw [hmod (w / 256 ^ j)]
    congr 1
    interval_cases i <;> interval_cases j <;> omega

lemma byteAt_storeByte (s : Vm) (a c : ℕ) (byte : UInt8) :
    byteAt (storeByte a byte s).words c = if c = a then byte else byteAt s.words c := by
  have hword : (storeByte a byte s).words =
    Function.update s.words (a - a % 4) (setByte (s.words (a - a % 4)) (a % 4) byte) := rfl
  rw [byteAt, hword]
  by_cases he : c - c % 4 = a - a % 4
  · rw [he, Function.update_self, setByte_div (Nat.mod_lt _ (by decide)) (Nat.mod_lt _ (by decide)), byteAt, he]
    refine if_congr ?_ rfl rfl
    omega
  · have hne : c ≠ a := by
      rintro rfl
      exact he rfl
    rw [if_neg hne, Function.update_of_ne he, byteAt]

lemma field_byte {binary : List UInt8} {offset : ℕ} (h : offset < binary.length) :
    UInt8.ofNat (field binary offset 1) = binary[offset] := by
  have htake : (binary.drop offset).take 1 = [binary[offset]] := by
    rw [List.drop_eq_getElem_cons h, List.take_succ_cons, List.take_zero]
  rw [field, htake, List.map_singleton, Nat.ofDigits_singleton, UInt8.ofNat_toNat]

/-- The bytes of the pages that the loader has mapped. -/
structure LoadView (first limit as : ℕ) (l : Loading) (content : ℕ → UInt8) : Prop where
  ready : RamReady limit l.vm
  frames : ∃ live tables frames, UserTables first limit l.vm live as tables frames ∧
    (∀ v, (frames v).isSome ↔ v * size4KB ∈ l.mapped) ∧
    (∀ v v' f, frames v = some f → frames v' = some f → v = v') ∧
    ∀ v f, frames v = some f → ∀ o < size4KB,
      byteAt l.vm.words (pageAddr l.vm.pages.ramStart f + o) = content (v * size4KB + o)

section View

variable {first limit as virt addr dest frame : ℕ} {l l' : Loading} {content : ℕ → UInt8}

lemma pageStart_add {v o : ℕ} (ho : o < size4KB) : pageStart size4KB (v * size4KB + o) = v * size4KB := by
  simp only [pageStart, size4KB] at *
  omega

lemma userFrame_eq_ok (h : userFrame as virt l = .ok frame) :
    (virt < Areas.kernelVirtStartAddr ∧ roundDown virt size4KB ∈ l.mapped) ∧ ∃ root, rootTablePtr l.vm as = .ok root ∧
      frame = SmallPageEntry.baseAddress (pageEntry l.vm.words root virt) := by
  by_cases hm : Areas.kernelVirtStartAddr ≤ virt ∨ roundDown virt size4KB ∉ l.mapped
  · rw [userFrame_error hm] at h
    cases h
  · rw [userFrame, panicIf, if_neg hm, ok_bind] at h
    obtain ⟨hlt, hin⟩ := not_or.mp hm
    obtain ⟨root, hroot, h⟩ := bind_eq_ok.mp h
    exact ⟨⟨Nat.not_le.mp hlt, not_not.mp hin⟩, root, hroot, (Except.ok.inj h).symm⟩

namespace LoadView

/-- The frame of a page shows its bytes, and a write to it changes these only. -/
lemma frame_bytes (h : LoadView first limit as l content) (hu : userFrame as virt l = .ok frame) :
    size4KB ∣ frame ∧ (∀ o < size4KB, byteAt l.vm.words (frame + o) = content (pageStart size4KB virt + o)) ∧
      ∀ words content', (∀ S, Disjoint S (Set.Ico frame (frame + size4KB)) → Set.EqOn words l.vm.words S) →
        (∀ a, pageStart size4KB a ≠ pageStart size4KB virt → content' a = content a) →
        (∀ o < size4KB, byteAt words (frame + o) = content' (pageStart size4KB virt + o)) →
        LoadView first limit as { l with vm := { l.vm with words := words } } content' := by
  obtain ⟨⟨hv, hm⟩, root, hroot, hframe⟩ := userFrame_eq_ok hu
  obtain ⟨live, tables, frames, ht, hf, hinj, hbytes⟩ := h.frames
  obtain ⟨f, hvf⟩ := Option.isSome_iff_exists.mp ((hf (virt / size4KB)).mpr hm)
  obtain ⟨hlive, -⟩ := ht.frame _ f hvf
  obtain rfl := Except.ok.inj ((ht.blocks.rootTablePtr_ok h.ready ht.root).symm.trans hroot)
  rw [ht.baseAddress_pageEntry hv hvf] at hframe
  subst hframe
  have hd := (ht.blocks.address hlive).1
  refine ⟨hd, hbytes _ f hvf, fun words content' hw hout hin => ⟨h.ready.congr rfl rfl rfl rfl, live, tables, frames,
    ht.write hlive hw, hf, hinj, fun v f' hf' o ho => ?_⟩⟩
  by_cases hff : f' = f
  · subst hff
    obtain rfl := hinj v _ f' hf' hvf
    exact hin o ho
  · have hne : pageStart size4KB (v * size4KB + o) ≠ pageStart size4KB virt := by
      rw [pageStart_add ho]
      intro he
      have hvv : v = virt / size4KB := Nat.eq_of_mul_eq_mul_right (show 0 < size4KB by decide) he
      rw [hvv, hvf] at hf'
      exact hff (Option.some.inj hf').symm
    obtain ⟨hlive', -⟩ := ht.frame v f' hf'
    have hdisj := ht.blocks.disjoint hlive' hlive (by simpa using hff)
    have hsame : Set.EqOn words l.vm.words (Set.Ico (pageAddr l.vm.pages.ramStart f')
        (pageAddr l.vm.pages.ramStart f' + size4KB)) := hw _ hdisj
    have hd' : size4KB ∣ pageAddr l.vm.pages.ramStart f' := (ht.blocks.address hlive').1
    rw [hout _ hne, ← hbytes v f' hf' o ho]
    exact byteAt_eqOn ((show 4 ∣ size4KB by decide).trans hd') hsame ⟨Nat.le_add_right .., Nat.add_lt_add_left ho _⟩

lemma memset (h : LoadView first limit as l content) (hd : size4KB ∣ addr) (hm : vmMemset as addr l = .ok l') :
    LoadView first limit as l' (blankPages size4KB 0 [addr] content) ∧ l'.mapped = l.mapped := by
  obtain ⟨frame, hu, hm⟩ := bind_eq_ok.mp hm
  obtain rfl := Except.ok.inj hm
  obtain ⟨hdf, -, hwrite⟩ := h.frame_bytes hu
  have hpage : pageStart size4KB addr = addr := Nat.div_mul_cancel hd
  rw [hpage] at hwrite
  refine ⟨hwrite _ _ (fun _ hS => fill_eqOn hS) (fun a ha => ?_) fun o ho => ?_, rfl⟩
  · exact if_neg (by rwa [List.mem_singleton])
  · have hin : frame + o ∈ Set.Ico frame (frame + size4KB) := ⟨Nat.le_add_right .., Nat.add_lt_add_left ho _⟩
    have hblank : pageStart size4KB (addr + o) ∈ [addr] := by
      obtain ⟨v, rfl⟩ := hd
      rw [Nat.mul_comm, pageStart_add ho]
      exact List.mem_singleton_self _
    rw [byteAt_fill ((show 4 ∣ size4KB by decide).trans hdf) (by decide), if_pos hin, blankPages, if_pos hblank]

lemma storeByte (h : LoadView first limit as l content) (byte : UInt8) (hu : userFrame as dest l = .ok frame) :
    LoadView first limit as { l with vm := storeByte (frame + dest % size4KB) byte l.vm }
      (overwrite content dest [byte]) := by
  obtain ⟨hdf, hbytes, hwrite⟩ := h.frame_bytes hu
  have hdest : dest = pageStart size4KB dest + dest % size4KB := (Nat.div_add_mod' dest size4KB).symm
  refine hwrite _ _ (fun S hS => update_eqOn fun hin => Set.disjoint_left.mp hS hin ?_) (fun a ha => ?_) fun o ho => ?_
  · simp only [Set.mem_Ico, size4KB] at hdf ⊢
    omega
  · refine overwrite_of_notMem ?_
    have hne : a ≠ dest := by
      rintro rfl
      exact ha rfl
    rw [List.length_singleton]
    omega
  · refine (byteAt_storeByte l.vm _ _ byte).trans ?_
    by_cases he : o = dest % size4KB
    · rw [if_pos (by rw [he]), he, ← hdest]
      exact (overwrite_add (k := 0) (w := [byte]) Nat.one_pos).symm
    · rw [if_neg (by omega), hbytes o ho]
      refine (overwrite_of_notMem ?_).symm
      rw [List.length_singleton]
      omega

lemma copy {binary : List UInt8} {offset n : ℕ} (h : LoadView first limit as l content)
    (hread : ∀ k < n, offset + k < binary.length) (hc : vmCopyToUser binary as dest offset n l = .ok l') :
    (∀ k < n, pageStart size4KB (dest + k) ∈ l.mapped) ∧ l'.mapped = l.mapped ∧
      LoadView first limit as l' (overwrite content dest ((binary.drop offset).take n)) := by
  induction n generalizing dest offset l content with
  | zero =>
    obtain rfl := Except.ok.inj hc
    rw [List.take_zero, overwrite_nil]
    exact ⟨fun k hk => absurd hk (Nat.not_lt_zero k), rfl, h⟩
  | succ n ih =>
    have hlt : offset < binary.length := hread 0 (Nat.succ_pos n)
    rw [vmCopyToUser, readField_of_le hlt, ok_bind, field_byte hlt] at hc
    obtain ⟨frame, hu, hc⟩ := bind_eq_ok.mp hc
    obtain ⟨⟨-, hm⟩, -⟩ := userFrame_eq_ok hu
    have hread₁ : ∀ k < n, offset + 1 + k < binary.length := fun k hk => by
      have hin := hread (k + 1) (Nat.succ_lt_succ hk)
      omega
    obtain ⟨hpages, hmapped, hview⟩ := ih (h.storeByte binary[offset] hu) hread₁ hc
    refine ⟨fun k hk => ?_, hmapped, ?_⟩
    · cases k with
      | zero => exact hm
      | succ k =>
        rw [show dest + (k + 1) = dest + 1 + k by omega]
        exact hpages k (Nat.lt_of_succ_lt_succ hk)
    · have hnext := overwrite_append content dest [binary[offset]] ((binary.drop (offset + 1)).take n)
      rw [List.length_singleton, List.singleton_append, ← List.take_succ_cons, ← List.drop_eq_getElem_cons hlt] at hnext
      rwa [hnext] at hview

lemma mapPage {p : ℕ} {pages : PageAllocator} (h : LoadView first limit as l content) (hd : size4KB ∣ addr)
    (ha : physicalPageAlloc .kb4 l.vm.pages = .ok (some p, pages)) (hm : mapPage as p addr pages l = .ok l') :
    addr ∉ l.mapped ∧ l'.mapped = addr :: l.mapped ∧
      LoadView first limit as l' (blankPages size4KB 0 [addr] content) := by
  obtain ⟨vm, hmap, hm⟩ := bind_eq_ok.mp hm
  obtain ⟨_, hu, -⟩ := bind_eq_ok.mp hm
  obtain ⟨⟨hv, -⟩, -⟩ := userFrame_eq_ok hu
  obtain ⟨live, tables, frames, ht, hf, hinj, hbytes⟩ := h.frames
  have hnew := ht.blocks.alloc ha
  have hp : (⟨p, .kb4⟩ : Block) ∈ insert (⟨p, .kb4⟩ : Block) live := Finset.mem_insert_self _ _
  have hready : RamReady limit { l.vm with pages := pages } := h.ready.alloc ht.blocks ha
  obtain ⟨⟨hz, hfree⟩, hram, -, hready', live', tables', ht', -⟩ := (ht.alloc ha).mapped_of_vmMap hready hp hv hmap
  have hold {v f : ℕ} (hvf : frames v = some f) : v ≠ addr / size4KB ∧ f ≠ p := by
    refine ⟨ne_of_eq_some hfree hvf, ?_⟩
    rintro rfl
    exact hnew.fresh (ht.frame v f hvf).1
  -- the new page shows what was in its frame
  have hview : LoadView first limit as ⟨vm, addr :: l.mapped⟩ fun a =>
      if pageStart size4KB a = addr then byteAt vm.words (pageAddr vm.pages.ramStart p + a % size4KB)
      else content a := by
    refine ⟨hready', live', tables', _, ht', fun v => ?_, fun v v' f hvf hvf' => ?_, fun v f hvf o ho => ?_⟩
    · exact isSome_update_frames hd hf v
    · rcases update_some_eq_some.mp hvf with ⟨rfl, rfl⟩ | ⟨-, hvf⟩
      · rcases update_some_eq_some.mp hvf' with ⟨rfl, -⟩ | ⟨-, hvf'⟩
        · rfl
        · exact absurd rfl (hold hvf').2
      · rcases update_some_eq_some.mp hvf' with ⟨-, rfl⟩ | ⟨-, hvf'⟩
        · exact absurd rfl (hold hvf).2
        · exact hinj v v' f hvf hvf'
    · rw [pageStart_add ho]
      rcases update_some_eq_some.mp hvf with ⟨rfl, rfl⟩ | ⟨-, hvf⟩
      · rw [if_pos (Nat.div_mul_cancel hd), Nat.mul_add_mod', Nat.mod_eq_of_lt ho]
      · have hlive := (ht.frame v f hvf).1
        have hne : v * size4KB ≠ addr := fun he => (hold hvf).1 (by rw [← he, Nat.mul_div_cancel v (by decide)])
        have hsame : Set.EqOn vm.words l.vm.words (Set.Ico (pageAddr pages.ramStart f)
            (pageAddr pages.ramStart f + size4KB)) :=
          (ht.alloc ha).vmMap_frame_words hready hp hv hmap (Finset.mem_insert_of_mem hlive)
        have hd' : size4KB ∣ pageAddr pages.ramStart f := by
          rw [hnew.ramStart]
          exact (ht.blocks.address hlive).1
        rw [if_neg hne, ← hbytes v f hvf o ho, hram, ← hnew.ramStart]
        exact byteAt_eqOn ((show 4 ∣ size4KB by decide).trans hd') hsame
          ⟨Nat.le_add_right .., Nat.add_lt_add_left ho _⟩
  obtain ⟨hview', hmapped⟩ := hview.memset hd hm
  refine ⟨fun hin => ?_, hmapped, ?_⟩
  · rw [← Nat.div_mul_cancel hd, ← hf, hfree] at hin
    cases hin
  · have hsame : blankPages size4KB (0 : UInt8) [addr] (fun a => if pageStart size4KB a = addr then
        byteAt vm.words (pageAddr vm.pages.ramStart p + a % size4KB) else content a) =
          blankPages size4KB 0 [addr] content := by
      funext a
      simp only [blankPages, List.mem_singleton]
      split_ifs
      · rfl
      · rfl
    rwa [hsame] at hview'

lemma loadPages {addrs : List ℕ} (h : LoadView first limit as l content) (hd : ∀ a ∈ addrs, size4KB ∣ a)
    (hl : loadPages as addrs l = .ok (true, l')) :
    (addrs.Nodup ∧ ∀ a ∈ addrs, a ∉ l.mapped) ∧ l'.mapped = addrs.reverse ++ l.mapped ∧
      LoadView first limit as l' (blankPages size4KB 0 addrs content) := by
  induction addrs generalizing l content with
  | nil =>
    obtain ⟨-, rfl⟩ := Prod.mk.inj (Except.ok.inj hl)
    exact ⟨⟨List.nodup_nil, fun _ ha => absurd ha List.not_mem_nil⟩, rfl, h⟩
  | cons addr addrs ih =>
    obtain ⟨hd, hds⟩ := List.forall_mem_cons.mp hd
    obtain ⟨live, tables, frames, ht, -⟩ := h.frames
    rcases ht.blocks.alloc_cases .kb4 with hno | ⟨p, pages, ha⟩
    · rw [Task.loadPages, hno] at hl
      cases (Prod.mk.inj (Except.ok.inj hl)).1
    rw [loadPages_cons addrs ha] at hl
    obtain ⟨l₁, hm, hl⟩ := bind_eq_ok.mp hl
    obtain ⟨hnot, hmapped₁, hview₁⟩ := h.mapPage hd ha hm
    obtain ⟨⟨hnodup, hnew⟩, hmapped, hview⟩ := ih hview₁ hds hl
    rw [hmapped₁] at hnew hmapped
    refine ⟨⟨List.nodup_cons.mpr ⟨fun hin => hnew addr hin (List.mem_cons_self ..), hnodup⟩, fun a hin => ?_⟩, ?_, ?_⟩
    · rcases List.mem_cons.mp hin with rfl | hin
      · exact hnot
      · exact fun hm => hnew a hin (List.mem_cons_of_mem _ hm)
    · rw [hmapped, List.reverse_cons, List.append_assoc, List.singleton_append]
    · rwa [blankPages_cons]

end LoadView

end View

/-- The loop over the program headers of the segments. -/
def placeSegments (binary : List UInt8) (as : ℕ) : List Segment → Loading → Except Panic (Bool × Loading)
  | [], l => .ok (true, l)
  | g :: gs, l => do
    match ← loadPages as (segmentPages g.vaddr g.paddr g.memsz) l with
    | (false, l) => return (false, l)
    | (true, l) => placeSegments binary as gs (← vmCopyToUser binary as g.vaddr g.offset g.filesz l)

section Segments

variable {first limit as phoff : ℕ} {binary : List UInt8} {l l' : Loading} {is : List ℕ} {gs : List Segment}

lemma loadSegments_eq (hin : ∀ i ∈ is, phoff + i * sizeofElf32Phdr + sizeofElf32Phdr ≤ binary.length) :
    loadSegments binary as phoff is l = placeSegments binary as (segmentsFrom binary phoff is) l := by
  induction is generalizing l with
  | nil => rfl
  | cons i is ih =>
    obtain ⟨hi, his⟩ := List.forall_mem_cons.mp hin
    have hsegments : segmentsFrom binary phoff (i :: is) =
        if field binary (phoff + i * sizeofElf32Phdr) 4 = ptLoad then
          segmentAt binary (phoff + i * sizeofElf32Phdr) :: segmentsFrom binary phoff is
        else segmentsFrom binary phoff is := by
      rw [segmentsFrom, List.map_cons, List.filter_cons]
      split_ifs with h₁ h₂ h₂
      · rfl
      · exact absurd (of_decide_eq_true h₁) h₂
      · exact absurd (decide_eq_true h₂) h₁
      · rfl
    rw [hsegments, loadSegments]
    generalize phoff + i * sizeofElf32Phdr = pHdr at hi ⊢
    have hread {k n : ℕ} (hk : k + n ≤ sizeofElf32Phdr) : readField binary (pHdr + k) n =
        .ok (field binary (pHdr + k) n) := readField_of_le (by omega)
    rw [show readField binary pHdr 4 = _ from hread (k := 0) (by decide), ok_bind, Nat.add_zero]
    by_cases htype : field binary pHdr 4 = ptLoad
    swap
    · rw [if_pos htype, if_neg htype]
      exact ih his
    rw [if_neg (not_not.mpr htype), if_pos htype, hread (by decide), ok_bind, hread (by decide), ok_bind,
      hread (by decide), ok_bind, placeSegments]
    refine bind_congr fun r => ?_
    obtain ⟨b, l₁⟩ := r
    cases b with
    | false => rfl
    | true =>
      dsimp only
      rw [hread (by decide), ok_bind]
      by_cases hfilesz : field binary (pHdr + 16) 4 = 0
      · rw [if_pos hfilesz, segmentAt, hfilesz, vmCopyToUser, ok_bind]
        exact ih his
      · rw [if_neg hfilesz, hread (by decide), ok_bind]
        exact bind_congr fun l₂ => ih his

lemma LoadView.place {content : ℕ → UInt8} (h : LoadView first limit as l content)
    (hread : ∀ g ∈ gs, ∀ k < g.filesz, g.offset + k < binary.length)
    (hp : placeSegments binary as gs l = .ok (true, l')) :
    Fits size4KB (gs.map (Segment.region binary)) l.mapped ∧
      l'.mapped = (Image.load size4KB 0 (gs.map (Segment.region binary)) ⟨l.mapped, content⟩).mapped ∧
      LoadView first limit as l'
        (Image.load size4KB 0 (gs.map (Segment.region binary)) ⟨l.mapped, content⟩).content := by
  induction gs generalizing l content with
  | nil =>
    obtain ⟨-, rfl⟩ := Prod.mk.inj (Except.ok.inj hp)
    exact ⟨trivial, rfl, h⟩
  | cons g gs ih =>
    obtain ⟨hg, hgs⟩ := List.forall_mem_cons.mp hread
    obtain ⟨⟨b, l₁⟩, hpages, hp⟩ := bind_eq_ok.mp hp
    cases b with
    | false => cases (Prod.mk.inj (Except.ok.inj hp)).1
    | true =>
      obtain ⟨l₂, hcopy, hp⟩ := bind_eq_ok.mp hp
      obtain ⟨hnew, hmapped₁, hview₁⟩ := h.loadPages (fun _ => dvd_of_mem_segmentPages) hpages
      obtain ⟨hdata, hmapped₂, hview₂⟩ := hview₁.copy hg hcopy
      obtain ⟨hfits, hmapped, hview⟩ := ih hview₂ hgs hp
      rw [hmapped₂, hmapped₁] at hfits hmapped hview
      rw [hmapped₁] at hdata
      refine ⟨⟨hnew, fun k hk => hdata k ?_, hfits⟩, hmapped, hview⟩
      rwa [Segment.length_data hg] at hk

/-- With enough memory, the pages that fit are mapped. -/
lemma LoadPoint.loadPages {addrs : List ℕ} {m n : ℕ} (h : LoadPoint first limit as l) (hd : ∀ a ∈ addrs, size4KB ∣ a)
    (huser : ∀ a ∈ addrs, UserPage a) (hnew : addrs.Nodup ∧ ∀ a ∈ addrs, a ∉ l.mapped)
    (hmem : Affords l.vm.pages (addrs.length + m) (newTables l.mapped addrs + n)) :
    ∃ l', loadPages as addrs l = .ok (true, l') ∧ LoadPoint first limit as l' ∧
      l'.mapped = addrs.reverse ++ l.mapped ∧ Affords l'.vm.pages m n := by
  induction addrs generalizing l with
  | nil =>
    rw [List.length_nil, Nat.zero_add, newTables, Nat.zero_add] at hmem
    exact ⟨l, rfl, h, rfl, hmem⟩
  | cons addr addrs ih =>
    obtain ⟨hd, hds⟩ := List.forall_mem_cons.mp hd
    obtain ⟨hu, hus⟩ := List.forall_mem_cons.mp huser
    obtain ⟨hnodup, hnot⟩ := hnew
    obtain ⟨hfirst, hnodup⟩ := List.nodup_cons.mp hnodup
    obtain ⟨hout, hnot⟩ := List.forall_mem_cons.mp hnot
    rw [List.length_cons, Nat.succ_add, newTables, Nat.add_assoc] at hmem
    obtain ⟨p, pages, ha, hmem⟩ := hmem.kb4
    have htable : ∃ pages', withTable l.mapped addr pages = some pages' ∧
        Affords pages' (addrs.length + m) (newTables (addr :: l.mapped) addrs + n) := by
      rw [withTable]
      split_ifs at hmem ⊢ with hhas
      · exact ⟨pages, rfl, by rwa [Nat.zero_add] at hmem⟩
      · rw [Nat.add_comm 1] at hmem
        obtain ⟨t, pages', ha', hmem⟩ := hmem.kb1
        exact ⟨pages', by rw [ha'], hmem⟩
    obtain ⟨pages', hw, hmem⟩ := htable
    rcases h.mapPage_cases hd ha with ⟨hno, -⟩ | ⟨-, l₁, hm, hpoint, hw', hmapped⟩
    · exact absurd ⟨⟨hu.1, hu.2, hout⟩, by rw [hw]; rfl⟩ hno
    obtain rfl := Option.some.inj (hw.symm.trans hw')
    rw [← hmapped] at hmem
    have hnew : addrs.Nodup ∧ ∀ a ∈ addrs, a ∉ l₁.mapped := by
      refine ⟨hnodup, fun a ha => ?_⟩
      rw [hmapped, List.mem_cons, not_or]
      refine ⟨?_, hnot a ha⟩
      rintro rfl
      exact hfirst ha
    obtain ⟨l', hl', hpoint', hmapped', hmem'⟩ := ih hpoint hds hus hnew hmem
    refine ⟨l', ?_, hpoint', ?_, hmem'⟩
    · rw [loadPages_cons addrs ha, hm, ok_bind, hl']
    · rw [hmapped', hmapped, List.reverse_cons, List.append_assoc, List.singleton_append]

lemma LoadPoint.place {m n : ℕ} (h : LoadPoint first limit as l)
    (hread : ∀ g ∈ gs, ∀ k < g.filesz, g.offset + k < binary.length)
    (huser : ∀ a ∈ (gs.map (Segment.region binary)).flatMap Region.pages, UserPage a)
    (hfits : Fits size4KB (gs.map (Segment.region binary)) l.mapped)
    (hmem : Affords l.vm.pages (((gs.map (Segment.region binary)).flatMap Region.pages).length + m)
      (newTables l.mapped ((gs.map (Segment.region binary)).flatMap Region.pages) + n)) :
    ∃ l', placeSegments binary as gs l = .ok (true, l') := by
  induction gs generalizing l with
  | nil => exact ⟨l, rfl⟩
  | cons g gs ih =>
    obtain ⟨hg, hgs⟩ := List.forall_mem_cons.mp hread
    obtain ⟨hnew, hdata, hfits⟩ := hfits
    rw [List.map_cons, List.flatMap_cons] at huser hmem
    rw [List.length_append, newTables_append, Nat.add_assoc, Nat.add_assoc] at hmem
    obtain ⟨l₁, hpages, hpoint, hmapped, hmem⟩ := h.loadPages (fun _ => dvd_of_mem_segmentPages)
      (fun a ha => huser a (List.mem_append_left _ ha)) hnew hmem
    change l₁.mapped = (g.region binary).pages.reverse ++ l.mapped at hmapped
    rw [← hmapped] at hdata hfits
    rw [Segment.length_data hg] at hdata
    obtain ⟨l₂, hcopy, hpoint, hvm, hmapped₂⟩ := hpoint.vmCopyToUser_ok hg hdata
    rw [← hmapped, ← hvm] at hmem
    rw [← hmapped₂] at hfits hmem
    obtain ⟨l', hl'⟩ := ih hpoint hgs (fun a ha => huser a (List.mem_append_right _ ha)) hfits hmem
    refine ⟨l', ?_⟩
    rw [placeSegments, hpages, ok_bind]
    exact bind_eq_ok.mpr ⟨l₂, hcopy, hl'⟩

end Segments

lemma LoadView.userByte {first limit as virt : ℕ} {l : Loading} {content : ℕ → UInt8}
    (h : LoadView first limit as l content) (hu : UserPage (pageStart size4KB virt)) :
    l.vm.userByte as virt = if pageStart size4KB virt ∈ l.mapped then some (content virt) else none := by
  obtain ⟨live, tables, frames, ht, hf, -, hbytes⟩ := h.frames
  obtain ⟨hne, hlt⟩ := hu
  have hz : virt / size4KB ≠ 0 := fun hz => hne (by rw [pageStart, hz, Nat.zero_mul])
  have hv : virt < Areas.kernelVirtStartAddr := by
    simp only [pageStart, size4KB, Areas.kernelVirtStartAddr] at hlt ⊢
    omega
  have hmem : (frames (virt / size4KB)).isSome ↔ pageStart size4KB virt ∈ l.mapped := hf _
  rw [Vm.userByte, ht.walk_eq hz hv]
  cases hvf : frames (virt / size4KB) with
  | none =>
    rw [hvf] at hmem
    rw [if_neg fun hin => Bool.false_ne_true (hmem.mpr hin)]
    rfl
  | some f =>
    rw [hvf] at hmem
    have hbyte := hbytes _ f hvf (virt % size4KB) (Nat.mod_lt _ (by decide))
    rw [Nat.div_add_mod'] at hbyte
    rw [if_pos (hmem.mp rfl), ← hbyte]
    rfl

/-- A new address space shows nothing yet. -/
lemma LoadView.of_created {first limit as : ℕ} {s₀ s : Vm} {live : Finset Block} (hr : RamReady limit s₀)
    (hb : Blocks first limit s₀.pages live) (hv : VectorMapped first limit s₀ live)
    (h : vmCreateAddressSpace s₀ = .ok (some as, s)) (content : ℕ → UInt8) :
    LoadView first limit as ⟨s, []⟩ content := by
  obtain ⟨live', hcreated⟩ := vmCreateAddressSpace_created hb hv h
  obtain ⟨t, ht⟩ := UserTables.of_created hcreated
  refine ⟨hr.create hb h, live', _, _, ht, fun v => ?_, fun v v' f hf => ?_, fun v f hf => ?_⟩
  · exact iff_of_false Bool.false_ne_true List.not_mem_nil
  · cases hf
  · cases hf

section Faithful

variable {first limit as : ℕ} {binary : List UInt8} {s₀ s s' : Vm} {live : Finset Block}

lemma tryLoadElf_eq_ok (h : HeaderAccepted binary) {entry : Option ℕ} :
    tryLoadElf binary as s = .ok (0, entry, s') ↔ entry = some (field binary 24 4) ∧ ∃ l',
      loadSegments binary as (field binary 28 4) (List.range (field binary 44 2)) ⟨s, []⟩ = .ok (true, l') ∧
        l'.vm = s' := by
  rw [tryLoadElf_accepted as s h]
  cases loadSegments binary as (field binary 28 4) (List.range (field binary 44 2)) ⟨s, []⟩ with
  | error e =>
    refine iff_of_false (fun hrun => ?_) (fun hrun => ?_)
    · cases hrun
    · obtain ⟨-, _, hrun, -⟩ := hrun
      cases hrun
  | ok r =>
    obtain ⟨b, l'⟩ := r
    rw [ok_bind]
    cases b with
    | false =>
      refine iff_of_false (fun hrun => ?_) (fun hrun => ?_)
      · exact absurd (Prod.mk.inj (Except.ok.inj hrun)).1 (by decide)
      · obtain ⟨-, _, hrun, -⟩ := hrun
        cases (Prod.mk.inj (Except.ok.inj hrun)).1
    | true =>
      constructor
      · intro hrun
        obtain ⟨-, hrun⟩ := Prod.mk.inj (Except.ok.inj hrun)
        obtain ⟨hentry, hvm⟩ := Prod.mk.inj hrun
        exact ⟨hentry.symm, l', rfl, hvm⟩
      · rintro ⟨rfl, _, hrun, rfl⟩
        obtain ⟨-, rfl⟩ := Prod.mk.inj (Except.ok.inj hrun)
        rfl

lemma LoadView.userPage {l : Loading} {content : ℕ → UInt8} {a : ℕ} (h : LoadView first limit as l content)
    (hd : size4KB ∣ a) (ha : a ∈ l.mapped) : UserPage a := by
  obtain ⟨live, tables, frames, ht, hf, -⟩ := h.frames
  obtain ⟨v, rfl⟩ := hd
  rw [Nat.mul_comm] at ha ⊢
  obtain ⟨f, hvf⟩ := Option.isSome_iff_exists.mp ((hf v).mpr ha)
  obtain ⟨-, hz, hlt, -⟩ := ht.frame v f hvf
  simp only [UserPage, userPages, kernelStartIdx, lvl2Entries, size4KB, Areas.kernelVirtStartAddr] at hlt ⊢
  omega

/-- The memory shows the program exactly if the mapped pages are its own. -/
lemma loaded_iff {l : Loading} {f : ℕ → UInt8} (hwf : WellFormed binary) (hfits : Fits size4KB (regions binary) [])
    (hmapped : l.mapped = (Image.load size4KB 0 (regions binary) ⟨[], f⟩).mapped)
    (h : LoadView first limit as l (Image.load size4KB 0 (regions binary) ⟨[], f⟩).content) :
    Loaded binary as l.vm ↔ PagesAgree binary := by
  have hmem {a : ℕ} : a ∈ l.mapped ↔ a ∈ (regions binary).flatMap Region.pages := by
    rw [hmapped, Image.mapped_load, List.append_nil, List.mem_reverse]
  have hpage {a : ℕ} (ha : size4KB ∣ a) : pageStart size4KB a = a := Nat.div_mul_cancel ha
  constructor
  · intro hl
    refine ⟨hfits, fun a => ⟨fun ha => ?_, ?_⟩⟩
    · obtain ⟨r, hr, hin⟩ := List.mem_flatMap.mp ha
      obtain ⟨g, -, rfl⟩ := List.mem_map.mp hr
      have hd : size4KB ∣ a := dvd_of_mem_segmentPages hin
      have hu := h.userPage hd (hmem.mpr ha)
      rw [← hpage hd] at ha hu ⊢
      exact hl.only a hu (by rw [h.userByte hu, if_pos (hmem.mpr ha)]; rfl)
    · rintro ⟨g, hg, ha⟩
      have hu := hwf.user g hg a ha
      obtain ⟨x, hx, rfl⟩ := Finset.mem_image.mp ha
      obtain ⟨hlo, hhi⟩ := Finset.mem_Ico.mp hx
      obtain ⟨k, rfl⟩ := Nat.exists_eq_add_of_le hlo
      have hbyte := hl.contents g hg k (Nat.lt_of_add_lt_add_left hhi)
      rw [h.userByte hu] at hbyte
      by_contra hout
      rw [if_neg (mt hmem.mp hout)] at hbyte
      cases hbyte
  · intro hagree
    refine ⟨fun g hg k hk => ?_, fun virt hu hsome => ?_⟩
    · have hin := Segment.pageStart_mem hk
      have hflat := (hagree.2 _).mpr ⟨g, hg, hin⟩
      rw [h.userByte (hwf.user g hg _ hin), if_pos (hmem.mpr hflat), hwf.content hfits hg hk hflat]
    · rw [h.userByte hu] at hsome
      refine (hagree.2 _).mp (hmem.mp ?_)
      by_contra hout
      rw [if_neg hout] at hsome
      cases hsome

/-- An ELF file is loaded as it says exactly if its `p_paddr` lead to the pages of its segments. -/
theorem tryLoadElf_faithful_iff (hr : RamReady limit s₀) (hb : Blocks first limit s₀.pages live)
    (hv : VectorMapped first limit s₀ live) (h : vmCreateAddressSpace s₀ = .ok (some as, s)) (hwf : WellFormed binary)
    (hmem : Affords s.pages (elfPages binary).card (elfTables binary).card) :
    (∃ s', tryLoadElf binary as s = .ok (0, some (field binary 24 4), s') ∧ Loaded binary as s') ↔
      PagesAgree binary := by
  have hview := LoadView.of_created hr hb hv h fun _ => 0
  have heq : loadSegments binary as (field binary 28 4) (List.range (field binary 44 2)) ⟨s, []⟩ =
      placeSegments binary as (segments binary) ⟨s, []⟩ :=
    loadSegments_eq fun i hi => hwf.headers i (List.mem_range.mp hi)
  constructor
  · rintro ⟨s', hrun, hl⟩
    obtain ⟨-, l', hload, rfl⟩ := (tryLoadElf_eq_ok hwf.accepted).mp hrun
    obtain ⟨hfits, hmapped, hview'⟩ := hview.place hwf.ranges (heq.symm.trans hload)
    exact (loaded_iff hwf hfits hmapped hview').mp hl
  · intro hagree
    have huser : ∀ a ∈ (regions binary).flatMap Region.pages, UserPage a := fun a ha => by
      obtain ⟨g, hg, hin⟩ := (hagree.2 a).mp ha
      exact hwf.user g hg a hin
    obtain ⟨hlen, htables⟩ := hagree.length_pages
    rw [← hlen, ← htables] at hmem
    obtain ⟨l', hplace⟩ := (LoadPoint.of_created hr hb hv h).place (m := 0) (n := 0) hwf.ranges huser hagree.1 hmem
    obtain ⟨hfits, hmapped, hview'⟩ := hview.place hwf.ranges hplace
    refine ⟨l'.vm, (tryLoadElf_eq_ok hwf.accepted).mpr ⟨rfl, l', heq.trans hplace, rfl⟩, ?_⟩
    exact (loaded_iff hwf hfits hmapped hview').mpr hagree

end Faithful

/-- A segment of 16 bytes at `0x8000` with no physical address, of which 4 are in the file. -/
def segmentWithoutPaddr : List UInt8 :=
  [1, 0, 0, 0, 0, 0, 0, 0, 0, 0x80, 0, 0, 0, 0, 0, 0, 4, 0, 0, 0, 16, 0, 0, 0, 5, 0, 0, 0, 0, 0x10, 0, 0]

def allocSmall : Except Panic Bool := do
  let pages ← physicalPageAllocatorInit smallBoot
  let (_, s) ← vmCreateAddressSpace ⟨pages, smallBoot.ramSize, smallWords, 0⟩
  let (page, _) ← physicalPageAlloc .kb4 s.pages
  return page.isSome

lemma allocSmall_eq : allocSmall = .ok true := by decide +kernel

lemma loadSmall_withoutPaddr : loadSmall (smallElf [segmentWithoutPaddr]) =
    .ok (.error (.undefined "a write to memory that the loader has not mapped for the user")) := by
  decide +kernel

lemma smallElf_eq (programHeaders : List (List UInt8)) (as : ℕ) (s : Vm) :
    elfLoadIntoAddressSpace (smallElf programHeaders) as s = tryLoadElf (smallElf programHeaders).contents as s := by
  have hread : ¬ (smallElf programHeaders).readRc < 0 := by
    simp only [smallElf]
    omega
  have hopen : ¬ (smallElf programHeaders).openRc ≠ 0 := not_not.mpr rfl
  have hmalloc : ¬ ¬ (smallElf programHeaders).malloc = true := not_not.mpr rfl
  rw [elfLoadIntoAddressSpace, if_neg hopen, if_neg hmalloc, if_neg hread]

lemma loadSmall_affords {file : ElfFile} {rc : Except Panic ℤ} (h : loadSmall file = .ok rc) :
    ∃ pages as s, physicalPageAllocatorInit smallBoot = .ok pages ∧
      vmCreateAddressSpace ⟨pages, smallBoot.ramSize, smallWords, 0⟩ = .ok (some as, s) ∧ Affords s.pages 1 0 ∧
      (elfLoadIntoAddressSpace file as s).map Prod.fst = rc := by
  obtain ⟨pages, as, s, hinit, hcreate, hload⟩ := loadSmall_eq_ok h
  refine ⟨pages, as, s, hinit, hcreate, fun os hos => ?_, hload⟩
  obtain ⟨pages', hinit', halloc⟩ := bind_eq_ok.mp allocSmall_eq
  obtain rfl := Except.ok.inj (hinit.symm.trans hinit')
  obtain ⟨⟨as', s'⟩, hcreate', halloc⟩ := bind_eq_ok.mp halloc
  obtain ⟨-, rfl⟩ := Prod.mk.inj (Except.ok.inj (hcreate.symm.trans hcreate'))
  obtain ⟨⟨page, pages'⟩, halloc, hsome⟩ := bind_eq_ok.mp halloc
  obtain ⟨p, rfl⟩ := Option.isSome_iff_exists.mp (Except.ok.inj hsome)
  obtain rfl := List.perm_singleton.mp hos
  exact ⟨p, pages', halloc, trivial⟩

/-- A linker may leave `p_paddr` at 0: then nothing is mapped for the segment. -/
theorem tryLoadElf_withoutPaddr : ∃ pages as s, physicalPageAllocatorInit smallBoot = .ok pages ∧
    vmCreateAddressSpace ⟨pages, smallBoot.ramSize, smallWords, 0⟩ = .ok (some as, s) ∧
    WellFormed (smallElf [segmentWithoutPaddr]).contents ∧
    Affords s.pages (elfPages (smallElf [segmentWithoutPaddr]).contents).card
      (elfTables (smallElf [segmentWithoutPaddr]).contents).card ∧
    tryLoadElf (smallElf [segmentWithoutPaddr]).contents as s =
      .error (.undefined "a write to memory that the loader has not mapped for the user") := by
  obtain ⟨pages, as, s, hinit, hcreate, hmem, hload⟩ := loadSmall_affords loadSmall_withoutPaddr
  have hpages : (elfPages (smallElf [segmentWithoutPaddr]).contents).card = 1 := by decide +kernel
  have htables : (elfTables (smallElf [segmentWithoutPaddr]).contents).card = 0 := by decide +kernel
  refine ⟨pages, as, s, hinit, hcreate, ?_, by rwa [hpages, htables], ?_⟩
  · refine ⟨by decide +kernel, by decide +kernel, by decide +kernel, by decide +kernel, by decide +kernel, ?_⟩
    exact List.pairwise_singleton _ _
  · rw [← smallElf_eq]
    cases hrun : elfLoadIntoAddressSpace (smallElf [segmentWithoutPaddr]) as s with
    | ok r =>
      rw [hrun] at hload
      cases hload
    | error e =>
      rw [hrun] at hload
      cases hload
      rfl

theorem tryLoadElf_faithful_small : ∃ pages as s s', physicalPageAllocatorInit smallBoot = .ok pages ∧
    vmCreateAddressSpace ⟨pages, smallBoot.ramSize, smallWords, 0⟩ = .ok (some as, s) ∧
    tryLoadElf (smallElf [smallSegment 0]).contents as s = .ok (0, some 0x8000, s') ∧
    Loaded (smallElf [smallSegment 0]).contents as s' := by
  obtain ⟨pages, as, s, hinit, hcreate, hmem, -⟩ := loadSmall_affords loadSmall_oneSegment
  obtain ⟨-, hb, hv, -⟩ := smallBoard hinit
  have hpages : (elfPages (smallElf [smallSegment 0]).contents).card = 1 := by decide +kernel
  have htables : (elfTables (smallElf [smallSegment 0]).contents).card = 0 := by decide +kernel
  have hentry : field (smallElf [smallSegment 0]).contents 24 4 = 0x8000 := by decide +kernel
  have hwf : WellFormed (smallElf [smallSegment 0]).contents := by
    refine ⟨by decide +kernel, by decide +kernel, by decide +kernel, by decide +kernel, by decide +kernel, ?_⟩
    exact List.pairwise_singleton _ _
  have hagree : PagesAgree (smallElf [smallSegment 0]).contents := hwf.pagesAgree (by decide +kernel)
  obtain ⟨s', hrun, hl⟩ := (tryLoadElf_faithful_iff (smallBoard_ready hinit) hb hv hcreate hwf
    (by rwa [hpages, htables])).mpr hagree
  exact ⟨pages, as, s, s', hinit, hcreate, hentry ▸ hrun, hl⟩

end Pi0Os.Task
