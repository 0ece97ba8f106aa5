import Pi0Os.Library.Slice

/-! A memory into which regions are loaded one after the other: the pages of a region are mapped, blank, and its data is
written to what is mapped by then. -/

namespace Pi0Os.Library

structure Region (α : Type*) where
  pages : List ℕ -- their addresses
  start : ℕ
  data : List α

/-- A memory, of which only the pages at the addresses `mapped` can be used. -/
structure Image (α : Type*) where
  mapped : List ℕ
  content : ℕ → α

variable {α : Type*}

/-- The page of `size` that an address lies in. -/
def pageStart (size a : ℕ) : ℕ := a / size * size

def blankPages (size : ℕ) (blank : α) (pages : List ℕ) (content : ℕ → α) : ℕ → α :=
  fun a => if pageStart size a ∈ pages then blank else content a

def Image.map (size : ℕ) (blank : α) (pages : List ℕ) (m : Image α) : Image α :=
  ⟨pages.reverse ++ m.mapped, blankPages size blank pages m.content⟩

def Image.write (start : ℕ) (data : List α) (m : Image α) : Image α := ⟨m.mapped, overwrite m.content start data⟩

def Image.load (size : ℕ) (blank : α) : List (Region α) → Image α → Image α
  | [], m => m
  | r :: rs, m => load size blank rs ((m.map size blank r.pages).write r.start r.data)

/-- No page is mapped twice, and data goes to pages that are mapped. -/
def Fits (size : ℕ) : List (Region α) → List ℕ → Prop
  | [], _ => True
  | r :: rs, mapped => (r.pages.Nodup ∧ (∀ p ∈ r.pages, p ∉ mapped)) ∧
      (∀ k < r.data.length, pageStart size (r.start + k) ∈ r.pages.reverse ++ mapped) ∧
      Fits size rs (r.pages.reverse ++ mapped)

def Region.Holds (r : Region α) (a : ℕ) : Prop := r.start ≤ a ∧ a < r.start + r.data.length

section Load

variable {size a : ℕ} {blank : α} {m : Image α} {r : Region α} {rs : List (Region α)} {pages mapped : List ℕ}

lemma overwrite_add {f : ℕ → α} {o k : ℕ} {w : List α} (h : k < w.length) : overwrite f o w (o + k) = w[k] := by
  rw [overwrite, if_pos (Nat.le_add_right ..), Nat.add_sub_cancel_left, List.getElem?_eq_getElem h, Option.getD_some]

lemma blankPages_cons (p : ℕ) (pages : List ℕ) (f : ℕ → α) :
    blankPages size blank (p :: pages) f = blankPages size blank pages (blankPages size blank [p] f) := by
  funext a
  simp only [blankPages, List.mem_cons, List.not_mem_nil, or_false]
  split_ifs <;> tauto

lemma Image.map_cons (p : ℕ) (pages : List ℕ) (m : Image α) :
    m.map size blank (p :: pages) = (m.map size blank [p]).map size blank pages := by
  rw [map, map, map, blankPages_cons, List.reverse_cons, List.append_assoc]
  rfl

lemma Image.content_of_not_holds (h : ¬ r.Holds a) :
    ((m.map size blank r.pages).write r.start r.data).content a = blankPages size blank r.pages m.content a := by
  refine overwrite_of_notMem ?_
  rw [Region.Holds] at h
  omega

lemma Image.mapped_load (rs : List (Region α)) (m : Image α) :
    (m.load size blank rs).mapped = (rs.flatMap Region.pages).reverse ++ m.mapped := by
  induction rs generalizing m with
  | nil => rfl
  | cons r rs ih =>
    rw [load, ih, List.flatMap_cons, List.reverse_append, List.append_assoc]
    rfl

/-- Regions that keep to pages of their own. -/
lemma Fits.of_apart (hnodup : ∀ r ∈ rs, r.pages.Nodup) (hnew : ∀ r ∈ rs, ∀ p ∈ r.pages, p ∉ mapped)
    (hdata : ∀ r ∈ rs, ∀ k < r.data.length, pageStart size (r.start + k) ∈ r.pages)
    (hapart : rs.Pairwise fun r r' => r.pages.Disjoint r'.pages) : Fits size rs mapped := by
  induction rs generalizing mapped with
  | nil => trivial
  | cons r rs ih =>
    obtain ⟨hr, hnodup⟩ := List.forall_mem_cons.mp hnodup
    obtain ⟨hfirst, hnew⟩ := List.forall_mem_cons.mp hnew
    obtain ⟨hin, hdata⟩ := List.forall_mem_cons.mp hdata
    obtain ⟨hhead, hapart⟩ := List.pairwise_cons.mp hapart
    refine ⟨⟨hr, hfirst⟩, fun k hk => ?_, ih hnodup (fun r' hr' p hp hm => ?_) hdata hapart⟩
    · exact List.mem_append_left _ (List.mem_reverse.mpr (hin k hk))
    · rcases List.mem_append.mp hm with hm | hm
      · exact hhead r' hr' (List.mem_reverse.mp hm) hp
      · exact hnew r' hr' p hp hm

lemma Fits.nodup (h : Fits size rs mapped) :
    (rs.flatMap Region.pages).Nodup ∧ ∀ p ∈ rs.flatMap Region.pages, p ∉ mapped := by
  induction rs generalizing mapped with
  | nil => exact ⟨List.nodup_nil, fun _ hp => absurd hp List.not_mem_nil⟩
  | cons r rs ih =>
    obtain ⟨⟨hr, hnew⟩, -, hrs⟩ := h
    obtain ⟨hnodup, hout⟩ := ih hrs
    rw [List.flatMap_cons]
    refine ⟨hr.append hnodup fun p hp hp' => hout p hp' ?_, fun p hp => ?_⟩
    · exact List.mem_append_left _ (List.mem_reverse.mpr hp)
    · rcases List.mem_append.mp hp with hp | hp
      · exact hnew p hp
      · exact fun hm => hout p hp (List.mem_append_right _ hm)

/-- What is mapped already stays, but for the data that is written to it. -/
lemma Fits.content_kept (h : Fits size rs m.mapped) (ha : pageStart size a ∈ m.mapped) (hout : ∀ r ∈ rs, ¬ r.Holds a) :
    (m.load size blank rs).content a = m.content a := by
  induction rs generalizing m with
  | nil => rfl
  | cons r rs ih =>
    obtain ⟨⟨-, hnew⟩, -, hrs⟩ := h
    obtain ⟨hr, hout⟩ := List.forall_mem_cons.mp hout
    rw [Image.load, ih hrs (List.mem_append_right _ ha) hout, Image.content_of_not_holds hr]
    exact if_neg fun hp => hnew _ hp ha

lemma Fits.content_data (h : Fits size rs m.mapped) (hd : rs.Pairwise fun r r' => ∀ a, r.Holds a → ¬ r'.Holds a)
    (hr : r ∈ rs) {k : ℕ} (hk : k < r.data.length) : (m.load size blank rs).content (r.start + k) = r.data[k] := by
  induction rs generalizing m with
  | nil => exact absurd hr List.not_mem_nil
  | cons r' rs ih =>
    obtain ⟨-, hmapped, hrs⟩ := h
    obtain ⟨hhead, htail⟩ := List.pairwise_cons.mp hd
    rw [Image.load]
    rcases List.mem_cons.mp hr with rfl | hr
    · have hin : r.Holds (r.start + k) := ⟨Nat.le_add_right .., Nat.add_lt_add_left hk _⟩
      refine (hrs.content_kept (hmapped k hk) fun r' hr' => hhead r' hr' _ hin).trans ?_
      exact overwrite_add hk
    · exact ih hrs htail hr

lemma Fits.content_blank (h : Fits size rs m.mapped) (ha : pageStart size a ∈ rs.flatMap Region.pages)
    (hout : ∀ r ∈ rs, ¬ r.Holds a) : (m.load size blank rs).content a = blank := by
  induction rs generalizing m with
  | nil => exact absurd ha List.not_mem_nil
  | cons r rs ih =>
    obtain ⟨-, -, hrs⟩ := h
    obtain ⟨hr, hout⟩ := List.forall_mem_cons.mp hout
    rw [Image.load]
    rcases List.mem_append.mp ha with ha | ha
    · have hmem : pageStart size a ∈ r.pages.reverse ++ m.mapped := List.mem_append_left _ (List.mem_reverse.mpr ha)
      rw [hrs.content_kept hmem hout, Image.content_of_not_holds hr]
      exact if_pos ha
    · exact ih hrs ha hout

end Load

end Pi0Os.Library
