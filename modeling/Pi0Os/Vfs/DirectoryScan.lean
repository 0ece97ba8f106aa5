import Mathlib.Data.Set.Finite.List
import Pi0Os.Library.PartialWalk
import Pi0Os.Vfs.DirectoryListing

/-! Where `foreach_8_3_directory_entry` stops: at which entry of a directory, and on which chains at all. -/

namespace Pi0Os.Vfs.Fat32

open Kernel Byte Library

section EndMarker

variable {vol : Volume} (d : Directory vol)

/-- The callback is given the entries before the end of the directory, one after the other from the number 0,
until it asks for no more. -/
def Directory.StopsAtEnd : Prop :=
  ∀ (τ : Type) (cb : ℕ → DirectoryEntry → τ → Bool × τ) (t : τ) (cache : FatCache),
    (cacheSystem vol.toFilesystemCtx).Reachable cache →
    ∃ cache', foreachEntry vol.toFilesystemCtx cb (maxClusters + 1) cache (d.identifier % 2 ^ 32) 0 t =
      .ok (if (runEntries cb (shown (d.clusters.flatMap vol.slots)) 0 t).1 then 0 else -Err.noEnt, cache',
        (runEntries cb (shown (d.clusters.flatMap vol.slots)) 0 t).2.2)

/-- A callback that keeps the entries it is given. -/
def collect (_ : ℕ) (e : DirectoryEntry) (es : List DirectoryEntry) : Bool × List DirectoryEntry := (false, es ++ [e])

lemma runEntries_collect (es out : List DirectoryEntry) (idx : ℕ) :
    (runEntries collect es idx out).2.2 = out ++ es := by
  induction es generalizing idx out with
  | nil => rw [List.append_nil, runEntries]
  | cons e es ih => rw [runEntries, collect, ih, List.append_assoc, List.singleton_append]

lemma Directory.handed_eq_iff : d.handed = shown (d.clusters.flatMap vol.slots) ↔ d.EndsOnce := by
  obtain ⟨rest, hrest, hends⟩ := flatMap_shown vol d.clusters
  rw [handed, hrest, EndsOnce, ← hends, List.append_right_eq_self]

lemma Directory.stopsAtEnd_handed_iff : d.StopsAtEnd ↔ d.handed = shown (d.clusters.flatMap vol.slots) := by
  constructor
  · intro h
    have hinit : (cacheSystem vol.toFilesystemCtx).Reachable sampleCache := .init rfl
    obtain ⟨cache₁, hrun₁⟩ := h _ collect [] sampleCache hinit
    obtain ⟨cache₂, hrun₂, -⟩ := d.foreachEntry_eq collect (cacheSystem_coherent hinit) 0 []
    have heq := Except.ok.inj (hrun₂.symm.trans hrun₁)
    simp only [Prod.mk.injEq, runEntries_collect, List.nil_append] at heq
    exact heq.2.2
  · intro h τ cb t cache hcache
    obtain ⟨cache', hrun, -⟩ := d.foreachEntry_eq cb (cacheSystem_coherent hcache) 0 t
    rw [h] at hrun
    exact ⟨cache', hrun⟩

theorem directory_stopsAtEnd_iff : d.StopsAtEnd ↔ d.EndsOnce :=
  d.stopsAtEnd_handed_iff.trans d.handed_eq_iff

/-- The entry of the second cluster follows the end of the directory in the first. -/
theorem directory_scan_stale : ¬ staleDirectory.StopsAtEnd := fun h =>
  staleDirectory_not_endsOnce (staleDirectory.handed_eq_iff.mp (staleDirectory.stopsAtEnd_handed_iff.mp h))

end EndMarker

section Termination

variable {τ : Type} (ctx : FilesystemCtx) (cb : ℕ → DirectoryEntry → τ → Bool × τ)

/-- A callback that asks for more at every entry. -/
def pass (_ : ℕ) (_ : DirectoryEntry) (_ : Unit) : Bool × Unit := (false, ())

/-- Where a scan that no callback ends goes from a cluster, with the FAT sector that is cached then. -/
def scanNext (s : FatCache × ℕ) : Option (FatCache × ℕ) :=
  if ¬ isValidCluster s.2 then none
  else
    match (scanSectors ctx pass (clusterIdxToSector ctx.bpb s.2) ctx.bpb.secPerClus 0 0 ()).1 with
    | some _ => none
    | none =>
      match ctx.nextCluster s.1 s.2 with
      | (_, .error _) => none
      | (cache, .ok next) => some (cache, next)

variable {ctx cb} {cache : FatCache} {cluster : ℕ}

lemma runEntries_pass (es : List DirectoryEntry) (idx : ℕ) : (runEntries pass es idx ()).1 = false := by
  induction es generalizing idx with
  | nil => rfl
  | cons e es ih => exact ih (idx + 1)

lemma scanEntries_pass {es : List DirectoryEntry} {idx : ℕ} {t : τ} (idx' : ℕ)
    (h : (scanEntries cb es idx t).1 ≠ .handled) :
    (scanEntries pass es idx' ()).1 = (scanEntries cb es idx t).1 := by
  rw [scanEntries_eq] at h ⊢
  rw [scanEntries_eq, runEntries_pass]
  dsimp only at h ⊢
  cases hstop : (runEntries cb (shown es) idx t).1 with
  | true =>
    rw [hstop] at h
    exact absurd rfl h
  | false => rfl

/-- A scan that goes on behind a cluster with one callback does so with the one that never accepts. -/
lemma scanSectors_pass {start n j idx : ℕ} {t : τ} (idx' : ℕ) (h : (scanSectors ctx cb start n j idx t).1 = none) :
    (scanSectors ctx pass start n j idx' ()).1 = none := by
  induction n generalizing j idx t idx' with
  | zero => rfl
  | succ n ih =>
    rw [scanSectors] at h ⊢
    dsimp only at h ⊢
    split at h
    · cases h
    · rename_i hrc
      rw [if_neg hrc]
      generalize entriesIn (ctx.readSector (add32 start j) (List.replicate sectorSize 0)).2 = es at h ⊢
      have hpass := @scanEntries_pass _ cb es idx t idx'
      generalize scanEntries cb es idx t = r at h hpass
      generalize scanEntries pass es idx' () = r' at hpass ⊢
      obtain ⟨stop, idx, t⟩ := r
      obtain ⟨stop', idx', _⟩ := r'
      cases stop with
      | full =>
        obtain rfl : stop' = .full := hpass SectorEnd.noConfusion
        exact ih idx' h
      | ended =>
        obtain rfl : stop' = .ended := hpass SectorEnd.noConfusion
        rfl
      | handled => cases h

/-- One round of a scan: it is over, or it goes on where `scanNext` leads. -/
lemma foreachEntry_next (idx : ℕ) (t : τ) :
    (∃ r, ∀ fuel, foreachEntry ctx cb (fuel + 1) cache cluster idx t = .ok r) ∨
      ∃ s idx' t', scanNext ctx (cache, cluster) = some s ∧
        ∀ fuel, foreachEntry ctx cb (fuel + 1) cache cluster idx t = foreachEntry ctx cb fuel s.1 s.2 idx' t' := by
  simp only [foreachEntry, scanNext]
  by_cases hvalid : ¬ isValidCluster cluster
  · simp only [if_pos hvalid]
    exact .inl ⟨_, fun _ => rfl⟩
  simp only [if_neg hvalid]
  have hpass := @scanSectors_pass _ ctx cb (clusterIdxToSector ctx.bpb cluster) ctx.bpb.secPerClus 0 idx t 0
  generalize scanSectors ctx cb (clusterIdxToSector ctx.bpb cluster) ctx.bpb.secPerClus 0 idx t = r at hpass ⊢
  obtain ⟨_ | rc, idx', t'⟩ := r
  · rw [hpass rfl]
    dsimp only
    generalize ctx.nextCluster cache cluster = r
    obtain ⟨cache', rc | next⟩ := r
    · exact .inl ⟨_, fun _ => rfl⟩
    · exact .inr ⟨_, idx', t', rfl, fun _ => rfl⟩
  · exact .inl ⟨_, fun _ => rfl⟩

lemma foreachEntry_of_walkEnds {s : FatCache × ℕ} (h : WalkEnds (scanNext ctx) s) (idx : ℕ) (t : τ) :
    ∃ fuel r, foreachEntry ctx cb fuel s.1 s.2 idx t = .ok r := by
  obtain ⟨n, hn⟩ := h
  induction n generalizing s idx t with
  | zero => cases hn
  | succ n ih =>
    obtain ⟨r, hr⟩ | ⟨s', idx', t', hs', hround⟩ := @foreachEntry_next _ ctx cb s.1 s.2 idx t
    · exact ⟨1, r, hr 0⟩
    · obtain ⟨fuel, r, hrest⟩ := ih idx' t' ((walk_succ_of hs' n).symm.trans hn)
      exact ⟨fuel + 1, r, (hround fuel).trans hrest⟩

lemma foreachEntry_pass {s s' : FatCache × ℕ} (h : scanNext ctx s = some s') (idx : ℕ) :
    ∃ idx', ∀ fuel, foreachEntry ctx pass (fuel + 1) s.1 s.2 idx () = foreachEntry ctx pass fuel s'.1 s'.2 idx' () := by
  simp only [foreachEntry]
  rw [scanNext] at h
  by_cases hvalid : ¬ isValidCluster s.2
  · rw [if_pos hvalid] at h
    cases h
  rw [if_neg hvalid] at h
  simp only [if_neg hvalid]
  cases hscan : (scanSectors ctx pass (clusterIdxToSector ctx.bpb s.2) ctx.bpb.secPerClus 0 0 ()).1 with
  | some rc =>
    rw [hscan] at h
    cases h
  | none =>
    have hpass := scanSectors_pass idx hscan
    rw [hscan] at h
    generalize scanSectors ctx pass (clusterIdxToSector ctx.bpb s.2) ctx.bpb.secPerClus 0 idx () = r at hpass ⊢
    obtain ⟨_, idx', _⟩ := r
    obtain rfl := hpass
    dsimp only at h ⊢
    generalize ctx.nextCluster s.1 s.2 = found at h ⊢
    obtain ⟨cache, rc | next⟩ := found
    · cases h
    · cases h
      exact ⟨idx', fun _ => rfl⟩

lemma walkEnds_of_pass {fuel : ℕ} {s : FatCache × ℕ} {idx : ℕ} {r : ℤ × FatCache × Unit}
    (h : foreachEntry ctx pass fuel s.1 s.2 idx () = .ok r) : WalkEnds (scanNext ctx) s := by
  induction fuel generalizing s idx with
  | zero => cases h
  | succ fuel ih =>
    cases hs : scanNext ctx s with
    | none => exact ⟨1, hs⟩
    | some s' =>
      obtain ⟨idx', hround⟩ := foreachEntry_pass hs idx
      exact (ih ((hround fuel).symm.trans h)).of_step hs

/-- The places below a bound on the numbers of the cached sector and of the cluster. -/
def placesBelow (n : ℕ) : Set (FatCache × ℕ) := {s | s.1.sectorIdx < n ∧ s.2 < n}

lemma finite_placesBelow (n : ℕ) : (placesBelow n).Finite := by
  have hbyte : Finite UInt8 := .of_injective UInt8.toFin fun _ _ => UInt8.toFin_inj.mp
  let code (s : FatCache × ℕ) : (ℕ × Buffer) × ℕ := ((s.1.sectorIdx, s.1.buffer), s.2)
  have hinj : Function.Injective code := by
    rintro ⟨⟨i, buf, hbuf⟩, c⟩ ⟨⟨i', buf', hbuf'⟩, c'⟩ h
    simp only [code, Prod.mk.injEq] at h
    obtain ⟨⟨rfl, rfl⟩, rfl⟩ := h
    rfl
  have hfin : (((Set.Iio n).prod {buf : Buffer | buf.length = sectorSize}).prod (Set.Iio n)).Finite :=
    ((Set.finite_Iio n).prod (List.finite_length_eq UInt8 sectorSize)).prod (Set.finite_Iio n)
  exact (hfin.preimage hinj.injOn).subset fun s hs => ⟨⟨hs.1, s.1.length_buffer⟩, hs.2⟩

lemma scanNext_placesBelow {n : ℕ} (hn : 2 ^ 32 ≤ n) {s s' : FatCache × ℕ} (hs : s ∈ placesBelow n)
    (h : scanNext ctx s = some s') : s' ∈ placesBelow n := by
  have hmask (x : ℕ) : x &&& 0x0fffffff < n := Nat.and_le_right.trans_lt (by omega)
  have hsector (a b : ℕ) : add32 a b < n := (Nat.mod_lt _ (by decide)).trans_le hn
  rw [scanNext] at h
  split at h
  · cases h
  split at h
  · cases h
  rw [FilesystemCtx.nextCluster] at h
  dsimp only at h
  split_ifs at h
  · cases h
    exact ⟨hsector _ _, hmask _⟩
  · cases h
    exact ⟨hs.1, hmask _⟩

/-- Whatever the callback asks for, the loop over the directory at the cluster comes to an end. -/
def ScansEnd (ctx : FilesystemCtx) (cache : FatCache) (cluster : ℕ) : Prop :=
  ∀ (τ : Type) (cb : ℕ → DirectoryEntry → τ → Bool × τ) (t : τ),
    ∃ fuel r, foreachEntry ctx cb fuel cache cluster 0 t = .ok r

theorem scansEnd_iff (ctx : FilesystemCtx) (cache : FatCache) (cluster : ℕ) :
    ScansEnd ctx cache cluster ↔ ¬ WalkRepeats (scanNext ctx) (cache, cluster) := by
  have hplace : (cache, cluster) ∈ placesBelow (2 ^ 32 + cache.sectorIdx + cluster + 1) :=
    ⟨show cache.sectorIdx < _ by omega, show cluster < _ by omega⟩
  rw [← walkEnds_iff (finite_placesBelow _) hplace fun s hs s' => scanNext_placesBelow (by omega) hs]
  constructor
  · intro h
    obtain ⟨fuel, r, hrun⟩ := h Unit pass ()
    exact @walkEnds_of_pass ctx fuel (cache, cluster) 0 r hrun
  · exact fun h τ cb t => foreachEntry_of_walkEnds h 0 t

variable {vol : Volume} {c : ℕ}

/-- On a chain that never leaves the clusters, a callback that accepts none of the entries is called for ever. -/
lemma foreachEntry_endless (hc : ∀ n, vol.IsCluster (vol.fatEntry^[n] c))
    (hcb : ∀ n idx t, (runEntries cb (shown (vol.slots (vol.fatEntry^[n] c))) idx t).1 = false)
    (h : cache.Coherent vol.toFilesystemCtx) (idx : ℕ) (t : τ) (fuel : ℕ) :
    foreachEntry vol.toFilesystemCtx cb fuel cache c idx t = .error (.undefined "the loop did not end") := by
  induction fuel generalizing cache c idx t with
  | zero => rfl
  | succ fuel ih =>
    have hcluster : vol.IsCluster c := hc 0
    have hmore : (runEntries cb (shown (vol.slots c)) idx t).1 = false := hcb 0 idx t
    obtain ⟨cache', hcache', hround⟩ := foreachEntry_round cb idx t h hcluster fuel
    rw [hround, if_neg (by rw [hmore]; decide)]
    exact ih (fun n => hc (n + 1)) (fun n => hcb (n + 1)) hcache' _ _

/-- So it is for a chain that runs into itself. -/
lemma not_scansEnd_of_chain (hc : ∀ n, vol.IsCluster (vol.fatEntry^[n] c)) (h : cache.Coherent vol.toFilesystemCtx) :
    ¬ ScansEnd vol.toFilesystemCtx cache c := by
  intro hends
  obtain ⟨fuel, r, hrun⟩ := hends Unit pass ()
  rw [foreachEntry_endless hc (fun n idx _ => runEntries_pass _ idx) h] at hrun
  cases hrun

/-- In the table cluster 2 is followed by itself, and the cluster is empty. -/
def loopByte (i : ℕ) : UInt8 := if i = 520 then 2 else 0

def loopVolume : Volume :=
  { sampleVolume with
    storage :=
      { size := 2048
        byte := loopByte
        read := fun off buf => (buf.length, slice loopByte off buf.length)
        length_read := fun _ _ => length_slice _ _ _
        read_inRange := fun _ _ _ => rfl }
    onDevice := by decide }

lemma loopVolume_chain (n : ℕ) : loopVolume.fatEntry^[n] 2 = 2 := Function.iterate_fixed (by decide) n

/-- A lookup of "a" goes round and round. -/
theorem lookup_endless : ¬ ScansEnd loopVolume.toFilesystemCtx sampleCache 2 ∧
    ¬ ∃ fuel r,
      foreachEntry loopVolume.toFilesystemCtx (lookupCallback 0 [0x61]) fuel sampleCache 2 0 none = .ok r := by
  have hcluster : ∀ n, loopVolume.IsCluster (loopVolume.fatEntry^[n] 2) := by
    intro n
    rw [loopVolume_chain]
    exact ⟨by decide, by decide⟩
  have hempty : shown (loopVolume.slots 2) = [] := List.length_eq_zero_iff.mp (by decide +kernel)
  have hcache : sampleCache.Coherent loopVolume.toFilesystemCtx := fun h => absurd rfl h
  refine ⟨not_scansEnd_of_chain hcluster hcache, ?_⟩
  rintro ⟨fuel, r, hrun⟩
  rw [foreachEntry_endless hcluster (fun n idx out => by rw [loopVolume_chain, hempty]; rfl) hcache] at hrun
  cases hrun

end Termination

end Pi0Os.Vfs.Fat32
