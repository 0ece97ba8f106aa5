import Pi0Os.Library.SlotOwnership
import Pi0Os.Library.TransitionSystem
import Pi0Os.Vfs.InodeCache

/-! The slots of `ptyfs.cpp`, from the first open of a master to the last close of its two ends. -/

namespace Pi0Os.Vfs.Ptyfs

open Kernel Library

abbrev maxOpenPtys : ℕ := 16
abbrev rootInodeId : ℕ := 2 * maxOpenPtys

/-- The flags of a `PtyMaster` and of the `PtySlave` that lies inside it. -/
structure PtyMaster where
  ptyid : ℕ
  closed : Bool
  slaveOpen : Bool

/-- The two devices at the address of a `PtyMaster`. -/
inductive CharacterDevice where
  | master (m : ℕ)
  | slave (m : ℕ)

def CharacterDevice.address : CharacterDevice → ℕ
  | master m => m
  | slave m => m

structure FilesystemCtx where
  masters : ℕ → Option ℕ
  slaves : ℕ → Option ℕ -- by the address of the master around the slave
  heap : ℕ → Option PtyMaster
  -- ghost: the inodes that were opened and not closed since
  opened : List ℕ

def FilesystemCtx.initial : FilesystemCtx := ⟨fun _ => none, fun _ => none, fun _ => none, []⟩

def masterInodeId (ptyId : ℕ) : ℕ := ptyId
def slaveInodeId (ptyId : ℕ) : ℕ := ptyId + maxOpenPtys

section Code

variable (s : FilesystemCtx)

def FilesystemCtx.pty (m : ℕ) : Except Panic PtyMaster :=
  match s.heap m with
  | some pty => .ok pty
  | none => .error (.undefined "a PtyMaster that is gone")

def FilesystemCtx.setPty (m : ℕ) (pty : Option PtyMaster) : FilesystemCtx :=
  { s with heap := Function.update s.heap m pty }

/-- `slots[i]->..`, for `masters` and `slaves`. -/
def FilesystemCtx.slotPty (slots : ℕ → Option ℕ) (i : ℕ) : Except Panic PtyMaster :=
  match slots i with
  | some m => s.pty m
  | none => .error (.undefined "a null pointer")

def getDeviceByInode (identifier : ℕ) : Except Panic (Option CharacterDevice) := do
  kassert "inode->identifier < 2*MAX_OPEN_PTYS" (identifier < 2 * maxOpenPtys)
  if identifier < maxOpenPtys then return (s.masters identifier).map .master
  else return (s.slaves (identifier - maxOpenPtys)).map .slave

/-- `mem` is the answer of `malloc`. -/
def createPtyPair (mem : Option ℕ) (ptyId : ℕ) : ℤ × FilesystemCtx :=
  match mem with
  | none => (-Err.noMem, s)
  | some m => (0, { s.setPty m (some ⟨ptyId % 2 ^ 8, false, false⟩) with
      masters := Function.update s.masters ptyId (some m)
      slaves := Function.update s.slaves ptyId (some m) })

def ptyInode (self : Inode) (identifier : ℕ) : Inode := ⟨1, .characterDevice, identifier, self.filesystem, false⟩

def lookupPtmx (self : Inode) : Except ℤ Inode :=
  match (List.range maxOpenPtys).find? fun i => s.masters i = none ∧ s.slaves i = none with
  | none => .error (-Err.noEnt)
  | some i => .ok (ptyInode self (masterInodeId i))

def lookupPty (self : Inode) (pty : ℤ) : Except ℤ Inode :=
  if pty < 0 ∨ maxOpenPtys ≤ pty ∨ s.slaves pty.toNat = none then .error (-Err.noEnt)
  else .ok (ptyInode self (slaveInodeId pty.toNat))

def ptmx : CString := [0x70, 0x74, 0x6d, 0x78]

/-- `scan` is what `sscanf` reads as the number after `pty`. -/
def dirInodeLookup (scan : CString → Option ℤ) (self : Inode) (name : CString) : Except ℤ Inode :=
  if name = ptmx then lookupPtmx s self
  else
    match scan name with
    | some pty => lookupPty s self pty
    | none => .error (-Err.noEnt)

def fsOpenInode (mem : Option ℕ) (identifier : ℕ) : Except Panic (ℤ × FilesystemCtx) :=
  if identifier = rootInodeId then .ok (0, s)
  else do
    kassert "inode->identifier < 2*MAX_OPEN_PTYS" (identifier < 2 * maxOpenPtys)
    if identifier < maxOpenPtys then
      -- the return value stays in `rc`, which is only returned after a `goto failed`
      let (_, s) := createPtyPair s mem identifier
      return (0, s)
    else
      match s.slaves (identifier - maxOpenPtys) with
      | none => return (-Err.noEnt, s)
      | some m =>
        let pty ← s.pty m
        return (0, s.setPty m (some { pty with slaveOpen := true }))

/-- The end of `ptyfs_fs_close_inode`, for both ends. -/
def freeIfClosed (ptyId : ℕ) : Except Panic FilesystemCtx := do
  let master ← s.slotPty s.masters ptyId
  if ¬ master.closed then return s
  let slave ← s.slotPty s.slaves ptyId
  if slave.slaveOpen then return s
  match s.masters ptyId with
  | none => return s
  | some m => return { s.setPty m none with
      masters := Function.update s.masters ptyId none
      slaves := Function.update s.slaves ptyId none }

def fsCloseInode (identifier : ℕ) : Except Panic (ℤ × FilesystemCtx) :=
  if identifier = rootInodeId then .ok (0, s)
  else do
    kassert "inode->identifier < 2*MAX_OPEN_PTYS" (identifier < 2 * maxOpenPtys)
    if identifier < maxOpenPtys then
      match s.masters identifier with
      | none => return (-Err.noEnt, s)
      | some m =>
        let pty ← s.pty m
        return (0, ← freeIfClosed (s.setPty m (some { pty with closed := true })) identifier)
    else
      match s.slaves (identifier - maxOpenPtys) with
      | none => return (-Err.noEnt, s)
      | some m =>
        let pty ← s.pty m
        return (0, ← freeIfClosed (s.setPty m (some { pty with slaveOpen := false })) (identifier - maxOpenPtys))

end Code

inductive Act where
  | lookup (name : CString)
  | «open» (name : CString) (mem : Option ℕ)
  | close (identifier : ℕ)

/-- `lookup_inode` opens what the lookup finds, unless it is open already; `close_inode` comes to the
filesystem with the last reference. -/
inductive Step (scan : CString → Option ℤ) (self : Inode) : FilesystemCtx → Act → FilesystemCtx → Prop
  | lookup {s name} : Step scan self s (.lookup name) s
  | notFound {s name mem rc} : dirInodeLookup s scan self name = .error rc → Step scan self s (.open name mem) s
  | shared {s name mem inode} : dirInodeLookup s scan self name = .ok inode → inode.identifier ∈ s.opened →
      Step scan self s (.open name mem) s
  | opened {s name mem inode rc s'} : dirInodeLookup s scan self name = .ok inode → inode.identifier ∉ s.opened →
      (∀ m ∈ mem, s.heap m = none) → fsOpenInode s mem inode.identifier = .ok (rc, s') →
      Step scan self s (.open name mem) { s' with
        opened := if rc = 0 then inode.identifier :: s'.opened else s'.opened }
  | closed {s identifier rc s'} : identifier ∈ s.opened → fsCloseInode s identifier = .ok (rc, s') →
      Step scan self s (.close identifier) { s' with opened := s'.opened.erase identifier }

def ptyfs (scan : CString → Option ℤ) (self : Inode) : TransitionSystem FilesystemCtx Act where
  Init s := s = .initial
  Step := Step scan self

/-- `malloc` finds room for every new pair. -/
def Granted (scan : CString → Option ℤ) (self : Inode) (s : FilesystemCtx) : Act → Prop
  | .open name mem => ∀ inode, dirInodeLookup s scan self name = .ok inode → inode.identifier < maxOpenPtys →
      inode.identifier ∉ s.opened → mem.isSome
  | _ => True

/-- A slot is taken exactly while one of its ends is open, and the `PtyMaster` in it says which. -/
structure Inv (s : FilesystemCtx) : Prop where
  slaves : s.slaves = s.masters
  owned : Owned s.masters s.heap
  slot_lt : ∀ i m, s.masters i = some m → i < maxOpenPtys
  opened_lt : ∀ identifier ∈ s.opened, identifier < 2 * maxOpenPtys
  nodup : s.opened.Nodup
  taken : ∀ i < maxOpenPtys, s.masters i = none ↔ masterInodeId i ∉ s.opened ∧ slaveInodeId i ∉ s.opened
  master_end : ∀ i m pty, s.masters i = some m → s.heap m = some pty → (pty.closed = false ↔ masterInodeId i ∈ s.opened)
  slave_end : ∀ i m pty, s.masters i = some m → s.heap m = some pty → (pty.slaveOpen = true ↔ slaveInodeId i ∈ s.opened)

/-- Only the inodes of the slot `i` differ. -/
def SameElsewhere (i : ℕ) (opened opened' : List ℕ) : Prop :=
  ∀ j < maxOpenPtys, j ≠ i → (masterInodeId j ∈ opened' ↔ masterInodeId j ∈ opened) ∧
    (slaveInodeId j ∈ opened' ↔ slaveInodeId j ∈ opened)

section Slots

variable {s : FilesystemCtx} {i m identifier : ℕ} {pty : PtyMaster} {opened : List ℕ}

lemma inode_ne {j : ℕ} (hi : i < maxOpenPtys) (hj : j < maxOpenPtys) (hne : j ≠ i)
    (hid : identifier = masterInodeId i ∨ identifier = slaveInodeId i) :
    masterInodeId j ≠ identifier ∧ slaveInodeId j ≠ identifier := by
  simp only [masterInodeId, slaveInodeId, maxOpenPtys] at *
  omega

lemma sameElsewhere_cons (hi : i < maxOpenPtys) (hid : identifier = masterInodeId i ∨ identifier = slaveInodeId i) :
    SameElsewhere i opened (identifier :: opened) := by
  intro j hj hne
  obtain ⟨hmaster, hslave⟩ := inode_ne hi hj hne hid
  exact ⟨List.mem_cons.trans (or_iff_right hmaster), List.mem_cons.trans (or_iff_right hslave)⟩

lemma sameElsewhere_erase (hi : i < maxOpenPtys) (hid : identifier = masterInodeId i ∨ identifier = slaveInodeId i) :
    SameElsewhere i opened (opened.erase identifier) := by
  intro j hj hne
  obtain ⟨hmaster, hslave⟩ := inode_ne hi hj hne hid
  exact ⟨List.mem_erase_of_ne hmaster, List.mem_erase_of_ne hslave⟩

lemma inv_initial : Inv .initial := by
  constructor <;> simp [FilesystemCtx.initial]
  exact ⟨by simp, by simp⟩

lemma Inv.setPty (h : Inv s) (hm : s.masters i = some m) (hsame : SameElsewhere i s.opened opened)
    (hlt : ∀ identifier ∈ opened, identifier < 2 * maxOpenPtys) (hnodup : opened.Nodup)
    (hmaster : pty.closed = false ↔ masterInodeId i ∈ opened) (hslave : pty.slaveOpen = true ↔ slaveInodeId i ∈ opened)
    (htaken : masterInodeId i ∈ opened ∨ slaveInodeId i ∈ opened) :
    Inv { s.setPty m (some pty) with opened := opened } := by
  have hlive := h.owned.filled i m hm
  have hends : ∀ j n q, s.masters j = some n → Function.update s.heap m (some pty) n = some q →
      j = i ∧ q = pty ∨ j ≠ i ∧ j < maxOpenPtys ∧ s.heap n = some q := by
    intro j n q hj hn
    rcases update_some_eq_some.mp hn with ⟨rfl, rfl⟩ | ⟨hne, hn'⟩
    · exact Or.inl ⟨h.owned.slot_inj hj hm, rfl⟩
    · refine Or.inr ⟨?_, h.slot_lt j n hj, hn'⟩
      rintro rfl
      exact hne (Option.some.inj (hj.symm.trans hm))
  refine ⟨h.slaves, h.owned.congr fun n => ?_, h.slot_lt, hlt, hnodup, ?_, ?_, ?_⟩
  · by_cases hn : n = m
    · subst hn
      simp [FilesystemCtx.setPty, hlive]
    · simp [FilesystemCtx.setPty, hn]
  · intro j hj
    by_cases hji : j = i
    · subst hji
      dsimp only [FilesystemCtx.setPty]
      rw [hm]
      simp only [reduceCtorEq, false_iff, not_and_or, not_not]
      exact htaken
    · rw [(hsame j hj hji).1, (hsame j hj hji).2]
      exact h.taken j hj
  · intro j n q hj hn
    rcases hends j n q hj hn with ⟨rfl, rfl⟩ | ⟨hji, hlt', hn'⟩
    · exact hmaster
    · rw [(hsame j hlt' hji).1]
      exact h.master_end j n q hj hn'
  · intro j n q hj hn
    rcases hends j n q hj hn with ⟨rfl, rfl⟩ | ⟨hji, hlt', hn'⟩
    · exact hslave
    · rw [(hsame j hlt' hji).2]
      exact h.slave_end j n q hj hn'

lemma Inv.free (h : Inv s) (hm : s.masters i = some m) (hsame : SameElsewhere i s.opened opened)
    (hlt : ∀ identifier ∈ opened, identifier < 2 * maxOpenPtys) (hnodup : opened.Nodup)
    (hclosed : masterInodeId i ∉ opened ∧ slaveInodeId i ∉ opened) :
    Inv { s.setPty m none with
      masters := Function.update s.masters i none
      slaves := Function.update s.slaves i none
      opened := opened } := by
  have hends : ∀ j n q, Function.update s.masters i none j = some n → Function.update s.heap m none n = some q →
      j ≠ i ∧ s.masters j = some n ∧ s.heap n = some q := by
    intro j n q hj hn
    obtain ⟨hji, hj'⟩ := update_none_eq_some.mp hj
    exact ⟨hji, hj', (update_none_eq_some.mp hn).2⟩
  refine ⟨by simp [h.slaves], h.owned.release hm, ?_, hlt, hnodup, ?_, ?_, ?_⟩
  · intro j n hj
    exact h.slot_lt j n (update_none_eq_some.mp hj).2
  · intro j hj
    by_cases hji : j = i
    · subst hji
      simpa using hclosed
    · rw [(hsame j hj hji).1, (hsame j hj hji).2]
      dsimp only
      rw [Function.update_of_ne hji]
      exact h.taken j hj
  · intro j n q hj hn
    obtain ⟨hji, hj', hn'⟩ := hends j n q hj hn
    rw [(hsame j (h.slot_lt j n hj') hji).1]
    exact h.master_end j n q hj' hn'
  · intro j n q hj hn
    obtain ⟨hji, hj', hn'⟩ := hends j n q hj hn
    rw [(hsame j (h.slot_lt j n hj') hji).2]
    exact h.slave_end j n q hj' hn'

lemma Inv.create (h : Inv s) (hi : i < maxOpenPtys) (hfree : s.masters i = none) (hm : s.heap m = none) :
    Inv { (createPtyPair s (some m) i).2 with opened := masterInodeId i :: s.opened } := by
  obtain ⟨hmaster, hslave⟩ := (h.taken i hi).mp hfree
  have hsame : SameElsewhere i s.opened (masterInodeId i :: s.opened) := sameElsewhere_cons hi (Or.inl rfl)
  have hends : ∀ j n q, Function.update s.masters i (some m) j = some n →
      Function.update s.heap m (some ⟨i % 2 ^ 8, false, false⟩) n = some q →
      j = i ∧ q = ⟨i % 2 ^ 8, false, false⟩ ∨ j ≠ i ∧ s.masters j = some n ∧ s.heap n = some q := by
    intro j n q hj hn
    rcases update_some_eq_some.mp hj with ⟨hji, rfl⟩ | ⟨hji, hj'⟩
    · rw [Function.update_self] at hn
      exact Or.inl ⟨hji, (Option.some.inj hn).symm⟩
    · rcases update_some_eq_some.mp hn with ⟨rfl, -⟩ | ⟨-, hn'⟩
      · exact absurd hj' (h.owned.not_mem hm j)
      · exact Or.inr ⟨hji, hj', hn'⟩
  have hne : slaveInodeId i ≠ masterInodeId i := by simp [slaveInodeId, masterInodeId]
  refine ⟨by simp [createPtyPair, h.slaves], h.owned.acquire hfree hm _, ?_, ?_, ?_, ?_, ?_, ?_⟩
  · intro j n hj
    rcases update_some_eq_some.mp hj with ⟨rfl, -⟩ | ⟨-, hj'⟩
    · exact hi
    · exact h.slot_lt j n hj'
  · intro identifier hid
    rcases List.mem_cons.mp hid with rfl | hid
    · exact hi.trans (by decide)
    · exact h.opened_lt identifier hid
  · exact List.nodup_cons.mpr ⟨hmaster, h.nodup⟩
  · intro j hj
    by_cases hji : j = i
    · subst hji
      simp [createPtyPair]
    · rw [(hsame j hj hji).1, (hsame j hj hji).2]
      dsimp only [createPtyPair]
      rw [Function.update_of_ne hji]
      exact h.taken j hj
  · intro j n q hj hn
    rcases hends j n q hj hn with ⟨rfl, rfl⟩ | ⟨hji, hj', hn'⟩
    · exact ⟨fun _ => List.mem_cons_self, fun _ => rfl⟩
    · rw [(hsame j (h.slot_lt j n hj') hji).1]
      exact h.master_end j n q hj' hn'
  · intro j n q hj hn
    rcases hends j n q hj hn with ⟨rfl, rfl⟩ | ⟨hji, hj', hn'⟩
    · simp [hne, hslave]
    · rw [(hsame j (h.slot_lt j n hj') hji).2]
      exact h.slave_end j n q hj' hn'

lemma pty_of (h : s.heap m = some pty) : s.pty m = .ok pty := by simp [FilesystemCtx.pty, h]

lemma lookupPtmx_spec {self inode : Inode} (h : lookupPtmx s self = .ok inode) :
    ∃ i < maxOpenPtys, inode.identifier = masterInodeId i ∧ s.masters i = none ∧ s.slaves i = none := by
  rw [lookupPtmx] at h
  split at h
  · cases h
  · rename_i i hfind
    obtain rfl := Except.ok.inj h
    have hfree := List.find?_some hfind
    exact ⟨i, List.mem_range.mp (List.mem_of_find?_eq_some hfind), rfl, by simpa using hfree⟩

lemma lookup_spec {scan : CString → Option ℤ} {self inode : Inode} {name : CString}
    (h : dirInodeLookup s scan self name = .ok inode) :
    (∃ i < maxOpenPtys, inode.identifier = masterInodeId i ∧ s.masters i = none ∧ s.slaves i = none) ∨
      ∃ i < maxOpenPtys, inode.identifier = slaveInodeId i ∧ (s.slaves i).isSome := by
  rw [dirInodeLookup] at h
  split at h
  · exact Or.inl (lookupPtmx_spec h)
  · split at h
    · rename_i pty _
      rw [lookupPty] at h
      split at h
      · cases h
      · rename_i hpty
        obtain rfl := Except.ok.inj h
        simp only [not_or, not_lt, not_le, maxOpenPtys] at hpty
        exact Or.inr ⟨pty.toNat, by simp only [maxOpenPtys]; omega, rfl, Option.isSome_iff_ne_none.mpr hpty.2.2⟩
    · cases h

lemma fsOpenInode_master {mem : Option ℕ} (hi : i < maxOpenPtys) :
    fsOpenInode s mem (masterInodeId i) = .ok (0, (createPtyPair s mem i).2) := by
  have hroot : masterInodeId i ≠ rootInodeId := by simp only [masterInodeId, rootInodeId, maxOpenPtys] at *; omega
  have hlt : masterInodeId i < 2 * maxOpenPtys := by simp only [masterInodeId, maxOpenPtys] at *; omega
  have hmaster : masterInodeId i < maxOpenPtys := hi
  rw [fsOpenInode, if_neg hroot, kassert_of hlt, ok_bind, if_pos hmaster]
  rfl

lemma fsOpenInode_slave {mem : Option ℕ} (hi : i < maxOpenPtys) (hm : s.slaves i = some m) (hp : s.heap m = some pty) :
    fsOpenInode s mem (slaveInodeId i) = .ok (0, s.setPty m (some { pty with slaveOpen := true })) := by
  have hroot : slaveInodeId i ≠ rootInodeId := by simp only [slaveInodeId, rootInodeId, maxOpenPtys] at *; omega
  have hlt : slaveInodeId i < 2 * maxOpenPtys := by simp only [slaveInodeId, maxOpenPtys] at *; omega
  have hge : ¬ slaveInodeId i < maxOpenPtys := by simp [slaveInodeId]
  have hsub : slaveInodeId i - maxOpenPtys = i := by simp [slaveInodeId]
  rw [fsOpenInode, if_neg hroot, kassert_of hlt, ok_bind, if_neg hge, hsub, hm]
  dsimp only
  rw [pty_of hp, ok_bind]
  rfl

lemma freeIfClosed_eq (hslaves : s.slaves = s.masters) (hm : s.masters i = some m) (hp : s.heap m = some pty) :
    freeIfClosed s i = .ok (if pty.closed = true ∧ pty.slaveOpen = false then { s.setPty m none with
      masters := Function.update s.masters i none
      slaves := Function.update s.slaves i none } else s) := by
  have hmaster : s.slotPty s.masters i = .ok pty := by rw [FilesystemCtx.slotPty, hm]; exact pty_of hp
  rw [freeIfClosed, hslaves, hmaster, ok_bind, ok_bind]
  cases hc : pty.closed <;> cases ho : pty.slaveOpen <;> simp [hm]

lemma fsCloseInode_master (hi : i < maxOpenPtys) (hm : s.masters i = some m) (hp : s.heap m = some pty) :
    fsCloseInode s (masterInodeId i) =
      (freeIfClosed (s.setPty m (some { pty with closed := true })) i).map fun s => (0, s) := by
  have hroot : masterInodeId i ≠ rootInodeId := by simp only [masterInodeId, rootInodeId, maxOpenPtys] at *; omega
  have hlt : masterInodeId i < 2 * maxOpenPtys := by simp only [masterInodeId, maxOpenPtys] at *; omega
  have hmaster : masterInodeId i < maxOpenPtys := hi
  rw [fsCloseInode, if_neg hroot, kassert_of hlt, ok_bind, if_pos hmaster, masterInodeId, hm]
  dsimp only
  rw [pty_of hp, ok_bind]
  cases freeIfClosed (s.setPty m (some { pty with closed := true })) i <;> rfl

lemma fsCloseInode_slave (hi : i < maxOpenPtys) (hm : s.slaves i = some m) (hp : s.heap m = some pty) :
    fsCloseInode s (slaveInodeId i) =
      (freeIfClosed (s.setPty m (some { pty with slaveOpen := false })) i).map fun s => (0, s) := by
  have hroot : slaveInodeId i ≠ rootInodeId := by simp only [slaveInodeId, rootInodeId, maxOpenPtys] at *; omega
  have hlt : slaveInodeId i < 2 * maxOpenPtys := by simp only [slaveInodeId, maxOpenPtys] at *; omega
  have hge : ¬ slaveInodeId i < maxOpenPtys := by simp [slaveInodeId]
  have hsub : slaveInodeId i - maxOpenPtys = i := by simp [slaveInodeId]
  rw [fsCloseInode, if_neg hroot, kassert_of hlt, ok_bind, if_neg hge, hsub, hm]
  dsimp only
  rw [pty_of hp, ok_bind]
  cases freeIfClosed (s.setPty m (some { pty with slaveOpen := false })) i <;> rfl

lemma Inv.pty_of_opened (h : Inv s) (hid : identifier ∈ s.opened) : ∃ i m pty, i < maxOpenPtys ∧
    s.masters i = some m ∧ s.heap m = some pty ∧ (identifier = masterInodeId i ∨ identifier = slaveInodeId i) := by
  have hlt := h.opened_lt identifier hid
  obtain ⟨i, hi, he⟩ : ∃ i < maxOpenPtys, identifier = masterInodeId i ∨ identifier = slaveInodeId i := by
    by_cases hmaster : identifier < maxOpenPtys
    · exact ⟨identifier, hmaster, Or.inl rfl⟩
    · refine ⟨identifier - maxOpenPtys, ?_, Or.inr ?_⟩ <;> simp only [slaveInodeId, maxOpenPtys] at * <;> omega
  have hsome : s.masters i ≠ none := by
    intro hnone
    obtain ⟨hmaster, hslave⟩ := (h.taken i hi).mp hnone
    rcases he with rfl | rfl
    · exact hmaster hid
    · exact hslave hid
  obtain ⟨m, hm⟩ := Option.ne_none_iff_exists'.mp hsome
  obtain ⟨pty, hp⟩ := Option.isSome_iff_exists.mp (h.owned.filled i m hm)
  exact ⟨i, m, pty, hi, hm, hp, he⟩

lemma ends_ne : slaveInodeId i ≠ masterInodeId i := by simp [slaveInodeId, masterInodeId]

lemma Inv.open (h : Inv s) {mem : Option ℕ} {scan : CString → Option ℤ} {self inode : Inode} {name : CString}
    (hlookup : dirInodeLookup s scan self name = .ok inode) (hnew : inode.identifier ∉ s.opened)
    (hfresh : ∀ m ∈ mem, s.heap m = none) (hmem : inode.identifier < maxOpenPtys → mem.isSome) :
    ∃ s', fsOpenInode s mem inode.identifier = .ok (0, s') ∧
      Inv { s' with opened := inode.identifier :: s'.opened } := by
  rcases lookup_spec hlookup with ⟨i, hi, he, hfree, -⟩ | ⟨i, hi, he, hsome⟩
  · rw [he] at hnew hmem ⊢
    obtain ⟨m, rfl⟩ := Option.isSome_iff_exists.mp (hmem hi)
    exact ⟨_, fsOpenInode_master hi, h.create hi hfree (hfresh m rfl)⟩
  · rw [he] at hnew ⊢
    obtain ⟨m, hm⟩ := Option.isSome_iff_exists.mp hsome
    have hmaster : s.masters i = some m := h.slaves ▸ hm
    obtain ⟨pty, hp⟩ := Option.isSome_iff_exists.mp (h.owned.filled i m hmaster)
    refine ⟨_, fsOpenInode_slave hi hm hp, h.setPty hmaster (sameElsewhere_cons hi (Or.inr rfl)) ?_
      (List.nodup_cons.mpr ⟨hnew, h.nodup⟩) ?_ ?_ (Or.inr List.mem_cons_self)⟩
    · intro identifier hid
      rcases List.mem_cons.mp hid with rfl | hid
      · simp only [slaveInodeId, maxOpenPtys] at *
        omega
      · exact h.opened_lt identifier hid
    · rw [List.mem_cons, or_iff_right ends_ne.symm]
      exact h.master_end i m pty hmaster hp
    · exact ⟨fun _ => List.mem_cons_self, fun _ => rfl⟩

lemma Inv.close (h : Inv s) (hid : identifier ∈ s.opened) : ∃ s', fsCloseInode s identifier = .ok (0, s') ∧
    Inv { s' with opened := s'.opened.erase identifier } := by
  obtain ⟨i, m, pty, hi, hm, hp, he⟩ := h.pty_of_opened hid
  have hlt : ∀ x ∈ s.opened.erase identifier, x < 2 * maxOpenPtys :=
    fun x hx => h.opened_lt x (List.mem_of_mem_erase hx)
  have hsame : SameElsewhere i s.opened (s.opened.erase identifier) := sameElsewhere_erase hi he
  have hgone : identifier ∉ s.opened.erase identifier := h.nodup.not_mem_erase
  have hmaster := h.master_end i m pty hm hp
  have hslave := h.slave_end i m pty hm hp
  -- the end that is closed, then what the other one says
  rcases he with he | he
  · rw [he] at hid hlt hsame hgone ⊢
    have hkept : slaveInodeId i ∈ s.opened.erase (masterInodeId i) ↔ slaveInodeId i ∈ s.opened :=
      List.mem_erase_of_ne ends_ne
    rw [fsCloseInode_master hi hm hp, freeIfClosed_eq (s := s.setPty m _) h.slaves hm (Function.update_self ..)]
    refine ⟨_, rfl, ?_⟩
    by_cases hopen : pty.slaveOpen = true
    · rw [if_neg (by simp [hopen])]
      exact h.setPty hm hsame hlt (h.nodup.erase _) (iff_of_false (by simp) hgone) (hslave.trans hkept.symm)
        (Or.inr (hkept.mpr (hslave.mp hopen)))
    · rw [if_pos ⟨rfl, Bool.not_eq_true _ ▸ hopen⟩]
      have hfree := h.free hm hsame hlt (h.nodup.erase _) ⟨hgone, fun hin => hopen (hslave.mpr (hkept.mp hin))⟩
      simpa [FilesystemCtx.setPty] using hfree
  · rw [he] at hid hlt hsame hgone ⊢
    have hkept : masterInodeId i ∈ s.opened.erase (slaveInodeId i) ↔ masterInodeId i ∈ s.opened :=
      List.mem_erase_of_ne ends_ne.symm
    rw [fsCloseInode_slave hi (h.slaves ▸ hm) hp, freeIfClosed_eq (s := s.setPty m _) h.slaves hm
      (Function.update_self ..)]
    refine ⟨_, rfl, ?_⟩
    by_cases hclosed : pty.closed = true
    · rw [if_pos ⟨hclosed, rfl⟩]
      have hfree := h.free hm hsame hlt (h.nodup.erase _)
        ⟨fun hin => by simp [hmaster.mpr (hkept.mp hin)] at hclosed, hgone⟩
      simpa [FilesystemCtx.setPty] using hfree
    · rw [if_neg (by simp [hclosed])]
      exact h.setPty hm hsame hlt (h.nodup.erase _) (hmaster.trans hkept.symm) (iff_of_false (by simp) hgone)
        (Or.inl (hkept.mpr (hmaster.mp (Bool.not_eq_true _ ▸ hclosed))))

end Slots

variable {scan : CString → Option ℤ} {self : Inode}

lemma ptyfs_inductive : ((ptyfs scan self).restrict (Granted scan self)).Inductive Inv := by
  constructor
  · rintro s rfl
    exact inv_initial
  · rintro s act s' h ⟨hs, hg⟩
    cases hs with
    | lookup => exact h
    | notFound => exact h
    | shared => exact h
    | opened hlookup hnew hfresh hopen =>
      obtain ⟨s₁, he, hinv⟩ := h.open hlookup hnew hfresh fun hlt => hg _ hlookup hlt hnew
      obtain ⟨rfl, rfl⟩ := Prod.mk.inj (Except.ok.inj (he.symm.trans hopen))
      exact hinv
    | closed hid hclose =>
      obtain ⟨s₁, he, hinv⟩ := h.close hid
      obtain ⟨rfl, rfl⟩ := Prod.mk.inj (Except.ok.inj (he.symm.trans hclose))
      exact hinv

/-- Both arrays name one live `PtyMaster` in each taken slot, every open inode has its device, and a slot is
free exactly when both of its ends are closed. -/
structure PtySlots (scan : CString → Option ℤ) (dir : Inode) (s : FilesystemCtx) : Prop where
  paired : ∀ i, (s.masters i = none ∧ s.slaves i = none) ∨
    ∃ m pty, s.masters i = some m ∧ s.slaves i = some m ∧ s.heap m = some pty
  device : ∀ identifier ∈ s.opened, ∃ d, getDeviceByInode s identifier = .ok (some d) ∧ (s.heap d.address).isSome
  free_iff : ∀ i < maxOpenPtys, s.masters i = none ↔ masterInodeId i ∉ s.opened ∧ slaveInodeId i ∉ s.opened
  one_slot : ∀ m, (s.heap m).isSome → ∃! i, s.masters i = some m
  handed_out : ∀ inode, dirInodeLookup s scan dir ptmx = .ok inode → ∃ i < maxOpenPtys,
    inode.identifier = masterInodeId i ∧ masterInodeId i ∉ s.opened ∧ slaveInodeId i ∉ s.opened
  opens : ∀ name inode m, dirInodeLookup s scan dir name = .ok inode → inode.identifier ∉ s.opened →
    s.heap m = none → ∃ s', fsOpenInode s (some m) inode.identifier = .ok (0, s')
  closes : ∀ identifier ∈ s.opened, ∃ s', fsCloseInode s identifier = .ok (0, s')

/-- In every run in which `malloc` finds room for each new pair. -/
theorem ptySlots_of_granted {s : FilesystemCtx} (h : ((ptyfs scan self).restrict (Granted scan self)).Reachable s) :
    PtySlots scan self s := by
  have hinv := h.invariant ptyfs_inductive
  refine ⟨?_, ?_, hinv.taken, hinv.owned.unique, ?_, ?_, ?_⟩
  · intro i
    rw [hinv.slaves]
    cases hm : s.masters i with
    | none => exact Or.inl ⟨rfl, rfl⟩
    | some m =>
      obtain ⟨pty, hp⟩ := Option.isSome_iff_exists.mp (hinv.owned.filled i m hm)
      exact Or.inr ⟨m, pty, rfl, rfl, hp⟩
  · intro identifier hid
    obtain ⟨i, m, pty, hi, hm, hp, he⟩ := hinv.pty_of_opened hid
    rw [getDeviceByInode, kassert_of (hinv.opened_lt identifier hid), ok_bind]
    rcases he with he | he <;> rw [he]
    · have hlt : masterInodeId i < maxOpenPtys := hi
      refine ⟨.master m, by rw [if_pos hlt, masterInodeId, hm]; rfl, ?_⟩
      rw [CharacterDevice.address, hp]
      rfl
    · have hge : ¬ slaveInodeId i < maxOpenPtys := by simp [slaveInodeId]
      have hsub : slaveInodeId i - maxOpenPtys = i := by simp [slaveInodeId]
      refine ⟨.slave m, by rw [if_neg hge, hsub, hinv.slaves, hm]; rfl, ?_⟩
      rw [CharacterDevice.address, hp]
      rfl
  · intro inode hlookup
    rw [dirInodeLookup, if_pos rfl] at hlookup
    obtain ⟨i, hi, he, hfree, -⟩ := lookupPtmx_spec hlookup
    exact ⟨i, hi, he, (hinv.taken i hi).mp hfree⟩
  · intro name inode m hlookup hnew hm
    obtain ⟨s', hs', -⟩ := hinv.open hlookup hnew (by simpa using hm : ∀ n ∈ some m, s.heap n = none) fun _ => rfl
    exact ⟨s', hs'⟩
  · intro identifier hid
    obtain ⟨s', hs', -⟩ := hinv.close hid
    exact ⟨s', hs'⟩

section Example

def scanFirst (_ : CString) : Option ℤ := some 0

def devPts : Inode := ⟨1, .directory, rootInodeId, 0, true⟩

/-- The first master is open, at the address 5. -/
def masterOpen : FilesystemCtx where
  masters := Function.update (fun _ => none) 0 (some 5)
  slaves := Function.update (fun _ => none) 0 (some 5)
  heap := Function.update (fun _ => none) 5 (some ⟨0, false, false⟩)
  opened := [0]

lemma masterOpen_reachable : ((ptyfs scanFirst devPts).restrict (Granted scanFirst devPts)).Reachable masterOpen := by
  have h₀ : ((ptyfs scanFirst devPts).restrict (Granted scanFirst devPts)).Reachable .initial := .init rfl
  have hlookup : dirInodeLookup .initial scanFirst devPts ptmx = .ok (ptyInode devPts 0) := rfl
  have hopen : fsOpenInode .initial (some 5) 0 = .ok (0, { masterOpen with opened := [] }) := rfl
  exact h₀.step (a := .open ptmx (some 5)) ⟨.opened hlookup List.not_mem_nil (fun _ _ => rfl) hopen, fun _ _ _ _ => rfl⟩

theorem ptySlots_of_granted_masterOpen : PtySlots scanFirst devPts masterOpen :=
  ptySlots_of_granted masterOpen_reachable

/-- Without room for the pair the open succeeds all the same, and the inode has no device. -/
theorem ptySlots_noMem : ∃ s, (ptyfs scanFirst devPts).Reachable s ∧ ¬ PtySlots scanFirst devPts s := by
  have h₀ : (ptyfs scanFirst devPts).Reachable .initial := .init rfl
  have hlookup : dirInodeLookup .initial scanFirst devPts ptmx = .ok (ptyInode devPts 0) := rfl
  have hopen : fsOpenInode .initial none 0 = .ok (0, .initial) := rfl
  have hstep : Step scanFirst devPts .initial (.open ptmx none) { FilesystemCtx.initial with opened := [0] } :=
    .opened hlookup List.not_mem_nil (by simp) hopen
  refine ⟨_, h₀.step hstep, fun h => ?_⟩
  obtain ⟨d, hd, -⟩ := h.device 0 List.mem_cons_self
  cases hd

end Example

end Pi0Os.Vfs.Ptyfs
