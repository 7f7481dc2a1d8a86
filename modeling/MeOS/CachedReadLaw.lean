import MeOS.CachedRead

/-! # What cached reads leave behind

The whole pages of a request are provided and copied out (`readPages_whole`);
the cache is as if they had only been loaded. The partial page at the end is
copied out like the others, and then as many bytes as were copied are cleared
behind it. `ReadsPure` says when that goes unnoticed.
-/

namespace MeOS

open Bytes

section Whole

variable {ops : FsOperations} {node g start count buffer i n r p c : Nat} {s t s' : FileState}
  {ls : List (Nat × Nat)}

theorem Delivered.refl {lo : Nat} (h : SameOutside s s') :
    Delivered ops node s s' g start buffer lo lo where
  bytes _ k hlo hhi := by omega
  outside x hx _ := h x hx

/-- Copying page `i` out of its cell, before anything is cleared. -/
theorem copyOut_delivered (h : ReadRequest s g node start count buffer)
    (hi : pageCacheSize * i < count) (hf : Fetched ops node s t g ls)
    (hh : Holds t g (start / pageCacheSize + i) c) (hout : SameOutside s t) :
    ∃ m : Mem, (t.copyOut count buffer i (pageCacheSize * i) (cellAddr t c) =
        if count - pageCacheSize * i < pageCacheSize then
          { t with mem := fill m (cellAddr t c + (count - pageCacheSize * i))
                            (count - pageCacheSize * i) 0 }
        else { t with mem := m }) ∧
      (∀ x, t.cache ≤ x → x < t.cache + t.cacheSize → m x = t.mem x) ∧
      Delivered ops node s { t with mem := m } g start buffer (pageCacheSize * i)
        (pageCacheSize * i + chunk count i) := by
  have h' := hf.request h
  obtain ⟨m, hrun, hframe, hcopy⟩ := copyOut_eq h' hi (hf.inv.cells hh).1
  have hchunk : chunk count i ≤ count - pageCacheSize * i := Nat.min_le_left _ _
  have hpage : chunk count i ≤ pageCacheSize := Nat.min_le_right _ _
  refine ⟨m, hrun, fun x hlo hhi => hframe x ?_, ?_, ?_⟩
  · have htarget := h'.target
    simp only [ClearOf] at htarget
    omega
  · intro hbuf k hlo hhi
    -- the byte `q` of the page, at the same offset in the cell
    obtain ⟨q, rfl⟩ := Nat.exists_eq_add_of_le hlo
    have hbyte : m (buffer + (pageCacheSize * i + q)) = t.mem (cellAddr t c + q) := by
      rw [← Nat.add_assoc]
      exact hcopy hbuf q (by omega)
    show Serves ops node s g _ (m _)
    rw [hbyte]
    refine hf.pureRead.serves hf.inv (fun _ => rfl) (Or.inl ⟨c, ?_, ?_⟩)
    · have hoff : (start + (pageCacheSize * i + q)) / pageCacheSize =
          start / pageCacheSize + i := by
        have haligned := h.aligned
        simp only [pageCacheSize] at *
        omega
      rw [hoff]
      exact hh
    · have hoff : (start + (pageCacheSize * i + q)) % pageCacheSize = q := by
        have haligned := h.aligned
        simp only [pageCacheSize] at *
        omega
      rw [hoff]
  · intro x hx hbuf
    exact (hframe x (by omega)).trans (hout x hx)

/-- Changing the memory outside of the cache changes nothing in it. -/
theorem Fetched.outside {m : Mem} (hf : Fetched ops node s t g ls)
    (hsame : ∀ x, t.cache ≤ x → x < t.cache + t.cacheSize → m x = t.mem x) :
    Fetched ops node s { t with mem := m } g ls ∧
      freeCells { t with mem := m } = freeCells t := by
  have hnonempty := hf.inv.nonempty
  have hlast := hf.inv.cell_bounds (i := pageCacheNumBuffers t - 1) (by omega)
  have hcache := cache_le_cellAddr (s := t) (i := pageCacheNumBuffers t - 1)
  have hfew := hf.inv.few
  have hmarks : ∀ x, bitmapAddr t ≤ x → x < bitmapAddr t + pageCacheNumBuffers t →
      m x = t.mem x := by
    intro x hlo hhi
    simp only [bitmapAddr] at hlo hhi
    exact hsame x (by omega) (by omega)
  refine ⟨?_, freeCells_of_mem hmarks⟩
  have hidle : Fetched ops node t { t with mem := m, frames := t.frames } g [] := by
    refine Fetched.idle (hf.inv.of_mem hmarks) fun {g' p c} hh x hlo hhi => hsame x ?_ ?_
    · exact cache_le_cellAddr.trans hlo
    · have hb := hf.inv.cell_bounds (i := c) (by have hlt := (hf.inv.cells hh).1; omega)
      omega
  have hall := hf.trans hidle
  rw [List.append_nil] at hall
  exact hall

/-- The whole pages of a request: all of them are copied out, or the loop is
left behind the pages it got through. -/
theorem readPages_whole (ops : FsOperations) (h : ReadRequest s g node start count buffer)
    (hn : pageCacheSize * (i + n) ≤ count) :
    (∃ j < n, Passes ops s g node (start / pageCacheSize + i) j ∧
      ¬ Passes ops s g node (start / pageCacheSize + i) (j + 1) ∧
      ∃ s', readPages ops g start count buffer (n + r) i (pageCacheSize * i) s =
          .ret (s', pageCacheSize * (i + j)) ∧
        Fetched ops node s s' g (loads s g (start / pageCacheSize + i) j) ∧
        Delivered ops node s s' g start buffer (pageCacheSize * i) (pageCacheSize * (i + j))) ∨
    (Passes ops s g node (start / pageCacheSize + i) n ∧
      ∃ s', readPages ops g start count buffer (n + r) i (pageCacheSize * i) s =
          readPages ops g start count buffer r (i + n) (pageCacheSize * (i + n)) s' ∧
        Fetched ops node s s' g (loads s g (start / pageCacheSize + i) n) ∧
        Consumed s s' g (missing s g (start / pageCacheSize + i) n)
          (start / pageCacheSize + (i + n)) ∧
        Delivered ops node s s' g start buffer (pageCacheSize * i) (pageCacheSize * (i + n))) := by
  induction n generalizing i s with
  | zero =>
    refine Or.inr ⟨passes_zero, s, by simp, ?_, ?_, Delivered.refl fun x hx => rfl⟩
    · exact Fetched.idle (m := s.mem) h.inv fun _ _ _ _ => rfl
    · exact ⟨rfl, fun a => by simp, fun _ _ => Iff.rfl⟩
  | succ n ih =>
    have hle : pageCacheSize * (i + 1) ≤ count := (Nat.mul_le_mul_left _ (by omega)).trans hn
    have hi : pageCacheSize * i < count := by
      simp only [pageCacheSize] at hle ⊢
      omega
    have hlen : n + 1 + r = (n + r) + 1 := by omega
    rw [hlen]
    -- one turn either leaves the loop or hands its state to the other pages
    rcases readPages_turn ops h hi (n + r) (pageCacheSize * i) with
      ⟨hpass, s', hrun, hfetched, hout⟩ | ⟨hpass, t, c, hrun, hfetched, hcons, hh, hout⟩
    · exact Or.inl ⟨0, by omega, passes_zero, hpass, s', hrun, hfetched, Delivered.refl hout⟩
    · obtain ⟨m, hcopy, hcache, hdeliver⟩ := copyOut_delivered h hi hfetched hh hout
      have hwhole : ¬ count - pageCacheSize * i < pageCacheSize := by
        simp only [pageCacheSize] at *
        omega
      have hchunk : pageCacheSize * i + chunk count i = pageCacheSize * (i + 1) := by
        simp only [chunk, pageCacheSize] at *
        omega
      have hadvance : advance count (pageCacheSize * i) = pageCacheSize * (i + 1) := by
        have hcount := h.countLt
        have hsub : sub32 count (pageCacheSize * i) = count - pageCacheSize * i :=
          sub32_eq hcount (by omega)
        simp only [advance, hsub, minimum_eq]
        rw [add32_eq (by simp only [pageCacheSize] at *; omega)]
        exact hchunk
      rw [if_neg hwhole] at hcopy
      rw [hcopy, hadvance] at hrun
      rw [hchunk] at hdeliver
      obtain ⟨hfetched₁, hfree⟩ := hfetched.outside hcache
      have h₁ := hfetched₁.request h
      -- what the turn has taken of the free cells and frames
      have hcons₁ : Consumed s { t with mem := m } g
          (missing s g (start / pageCacheSize + i) 1) (start / pageCacheSize + i + 1) :=
        ⟨hfree.trans hcons.cells, hcons.frames, hcons.later⟩
      have hadd := fun b => hpass.add (b := b) h.inv h.opened hfetched₁ h₁.opened hcons₁
      have hlist := fun b => loads_add (b := b) h.inv h.opened hfetched₁.inv h₁.opened hcons₁
        hpass.supply
      have hsum : i + 1 + n = i + (n + 1) := by omega
      have hpage : start / pageCacheSize + (i + 1) = start / pageCacheSize + i + 1 := by omega
      -- the other pages, from the state after the copy; the two parts are then joined
      rcases ih h₁ (by rw [hsum]; exact hn) with
        ⟨j, hj, hp, hnp, s', hrest, hf, hd⟩ | ⟨hp, s', hrest, hf, hc, hd⟩
      · rw [hpage, ← hadd] at hp hnp
        rw [hpage] at hf
        have hj' : 1 + j = j + 1 := Nat.add_comm 1 j
        have hsum' : i + 1 + j = i + (j + 1) := by omega
        have hall := hfetched₁.trans hf
        rw [← hlist, hj'] at hall
        rw [← Nat.add_assoc, hj'] at hnp
        rw [hj'] at hp
        rw [hsum'] at hrest hd
        refine Or.inl ⟨j + 1, by omega, hp, hnp, s', hrun.trans hrest, hall, ?_⟩
        exact hdeliver.trans h ((Nat.mul_le_mul_left _ (by omega)).trans hn) hfetched₁ hd
          (Nat.mul_le_mul_left _ (by omega)) (Nat.mul_le_mul_left _ (by omega))
      · rw [hpage, ← hadd] at hp
        rw [hpage] at hf
        have hn' : 1 + n = n + 1 := Nat.add_comm 1 n
        have hall := hfetched₁.trans hf
        rw [← hlist, hn'] at hall
        rw [hn'] at hp
        have hmiss := hcons₁.missing_eq (n := n) h.inv h₁.inv h.opened h₁.opened
        rw [hpage, hmiss, hsum] at hc
        have hctrans := hcons₁.trans hc (by omega)
        rw [← missing_add, hn'] at hctrans
        rw [hsum] at hrest hd
        refine Or.inr ⟨hp, s', hrun.trans hrest, hall, hctrans, ?_⟩
        exact hdeliver.trans h hn hfetched₁ hd
          (Nat.mul_le_mul_left _ (by omega)) (Nat.mul_le_mul_left _ (by omega))

end Whole

/-! ## The cleared bytes -/

/-- Cell `c` holds page `q` of `g'` after the loop has got through the pages
`p`, …, `p + n - 1` of `g`. -/
def InCell (s : FileState) (g p n g' q c : Nat) : Prop :=
  Holds s g' q c ∨ (g' = g ∧ (q, c) ∈ loads s g p n)

/-- The addresses a read of `count` bytes clears behind its partial page. -/
def Cleared (s : FileState) (g start count x : Nat) : Prop :=
  ∃ c, InCell s g (start / pageCacheSize) (count / pageCacheSize + 1) g
      (start / pageCacheSize + count / pageCacheSize) c ∧
    cellAddr s c + count % pageCacheSize ≤ x ∧ x < cellAddr s c + 2 * (count % pageCacheSize)

/-- What is cleared of cached pages is zero already. -/
def TailZero (ops : FsOperations) (s : FileState) (g node start count : Nat) : Prop :=
  ∀ g' off c b,
    InCell s g (start / pageCacheSize) (count / pageCacheSize + 1) g' (off / pageCacheSize) c →
    Cleared s g start count (cellAddr s c + off % pageCacheSize) →
    Serves ops node s g' off b → b = 0

/-- No mark of a used cell is cleared. -/
def SparesMarks (s : FileState) (g start count : Nat) : Prop :=
  ∀ c < pageCacheNumBuffers s, Cleared s g start count (bitmapAddr s + c) →
    c ∈ (freeCells s).drop
      (missing s g (start / pageCacheSize) (count / pageCacheSize + 1))

/-- The condition under which a cached read is pure: there are whole pages
only, or the loop is left before the partial page, or the clearing behind it
goes unnoticed. -/
def ReadsPure (ops : FsOperations) (s : FileState) (g node start count : Nat) : Prop :=
  count % pageCacheSize = 0 ∨
    ¬ Passes ops s g node (start / pageCacheSize) (count / pageCacheSize + 1) ∨
    TailZero ops s g node start count

section Clear

variable {ops : FsOperations} {node g a r : Nat} {s t : FileState} {ls : List (Nat × Nat)}

/-- Clearing `r` bytes at `a` after loading pages. -/
theorem Fetched.clear_pure_iff (hf : Fetched ops node s t g ls) :
    PureRead ops node s { t with mem := fill t.mem a r 0 } g ↔
      ∀ g' off c b, (Holds s g' (off / pageCacheSize) c ∨
          (g' = g ∧ (off / pageCacheSize, c) ∈ ls)) →
        a ≤ cellAddr s c + off % pageCacheSize → cellAddr s c + off % pageCacheSize < a + r →
        Serves ops node s g' off b → b = 0 := by
  have hcell : ∀ c, cellAddr s c = cellAddr t c := by
    intro c
    rw [cellAddr, cellAddr, hf.same.1]
  constructor
  · -- a byte the clearing overwrites is kept exactly when it was 0
    intro hp g' off c b hin hlo hhi hs
    have hh : Holds t g' (off / pageCacheSize) c := hf.holds.mpr hin
    have hzero : fill t.mem a r 0 (cellAddr t c + off % pageCacheSize) = 0 := by
      rw [← hcell]
      exact fill_inside _ _ hlo hhi
    rcases hs with hb | ⟨hc, rfl⟩
    · obtain ⟨j, hj, hbj⟩ := hp.kept g' off b hb
      obtain rfl : j = c := hf.inv.fn hj hh
      exact hbj.symm.trans hzero
    · obtain ⟨rfl, hbyte⟩ := hp.loaded g' off 0 hc ⟨c, hh, hzero⟩
      exact hbyte.symm
  · intro hz
    refine ⟨fun g' off b hb => ?_, ?_⟩
    · obtain ⟨c, hh, hbyte⟩ := hf.kept g' off b hb
      refine ⟨c, hh, ?_⟩
      show fill t.mem a r 0 (cellAddr t c + off % pageCacheSize) = b
      by_cases hin : a ≤ cellAddr t c + off % pageCacheSize ∧
          cellAddr t c + off % pageCacheSize < a + r
      · rw [fill_inside _ _ hin.1 hin.2]
        rw [← hcell] at hin
        exact (hz g' off c b (hf.holds.mp hh) hin.1 hin.2 (Or.inl hb)).symm
      · rw [fill_frame _ _ (by omega)]
        exact hbyte
    · rintro g' off b hno ⟨c, hh, hb⟩
      have hb' : fill t.mem a r 0 (cellAddr t c + off % pageCacheSize) = b := hb
      rcases hf.holds.mp hh with hold | ⟨rfl, hmem⟩
      · exact absurd ⟨c, hold⟩ hno
      refine ⟨rfl, ?_⟩
      by_cases hin : a ≤ cellAddr t c + off % pageCacheSize ∧
          cellAddr t c + off % pageCacheSize < a + r
      · rw [fill_inside _ _ hin.1 hin.2] at hb'
        rw [← hcell] at hin
        rw [← hb']
        exact (hz g' off c _ (Or.inr ⟨rfl, hmem⟩) hin.1 hin.2 (Or.inr ⟨hno, rfl⟩)).symm
      · rw [fill_frame _ _ (by omega)] at hb'
        exact hf.inv.fileByte_unique ⟨c, hh, hb'⟩ (hf.loaded off c hmem)

/-- A clearing that goes unnoticed leaves the cache as if pages had only been
loaded. -/
theorem Fetched.clear (hf : Fetched ops node s t g ls)
    (hp : PureRead ops node s { t with mem := fill t.mem a r 0 } g)
    (hmarks : ∀ c < pageCacheNumBuffers t, a ≤ bitmapAddr t + c → bitmapAddr t + c < a + r →
      c ∈ freeCells t) :
    Fetched ops node s { t with mem := fill t.mem a r 0 } g ls where
  inv := by
    refine hf.inv.of_mem fun x hlo hhi => ?_
    obtain ⟨c, rfl⟩ := Nat.exists_eq_add_of_le hlo
    by_cases hin : a ≤ bitmapAddr t + c ∧ bitmapAddr t + c < a + r
    · rw [fill_inside _ _ hin.1 hin.2]
      exact (mem_freeCells.mp (hmarks c (by omega) hin.1 hin.2)).2.symm
    · exact fill_frame _ _ (by omega)
  same := hf.same
  entry := hf.entry
  holds := hf.holds
  kept := hp.kept
  loaded := by
    intro off c hmem
    have hh : Holds t g (off / pageCacheSize) c := hf.holds.mpr (Or.inr ⟨rfl, hmem⟩)
    by_cases hcached : Cached s g (off / pageCacheSize)
    · -- a page that was cached already keeps its bytes, and `loaded` says which
      obtain ⟨b, hb⟩ := fileByte_of_cached hcached
      have hb₁ := hf.inv.fileByte_unique (hf.kept g off b hb) (hf.loaded off c hmem)
      exact hb₁ ▸ hp.kept g off b hb
    · have hbyte : FileByte { t with mem := fill t.mem a r 0 } g off
          (fill t.mem a r 0 (cellAddr t c + off % pageCacheSize)) := ⟨c, hh, rfl⟩
      rw [← (hp.loaded g off _ hcached hbyte).2]
      exact hbyte
  driven := hf.driven

end Clear

/-! ## The loop of a read -/

/-- The number of bytes a read returns: those of the pages it gets through. -/
def ReadCount (ops : FsOperations) (s : FileState) (g node start count n : Nat) : Prop :=
  ∃ j ≤ ceilDivision count pageCacheSize, Passes ops s g node (start / pageCacheSize) j ∧
    (j < ceilDivision count pageCacheSize →
      ¬ Passes ops s g node (start / pageCacheSize) (j + 1)) ∧
    n = min count (pageCacheSize * j)

section Loop

variable {ops : FsOperations} {node g start count buffer n n' : Nat} {s s' : FileState}

/-- What the page loop of a cached read leaves and returns. -/
structure ReadLaw (ops : FsOperations) (s s' : FileState) (g node start count buffer n : Nat) :
    Prop where
  returned : ReadCount ops s g node start count n
  delivered : Delivered ops node s s' g start buffer 0 n
  pure_iff : PureRead ops node s s' g ↔ ReadsPure ops s g node start count
  fetched : ReadsPure ops s g node start count → SparesMarks s g start count →
    ∃ ls, Fetched ops node s s' g ls

/-- The last, partial page. -/
theorem readPages_last {t : FileState} (h : ReadRequest s g node start count buffer)
    (hrem : count % pageCacheSize ≠ 0)
    (hpass : Passes ops s g node (start / pageCacheSize) (count / pageCacheSize))
    (hf : Fetched ops node s t g (loads s g (start / pageCacheSize) (count / pageCacheSize)))
    (hcons : Consumed s t g (missing s g (start / pageCacheSize) (count / pageCacheSize))
      (start / pageCacheSize + count / pageCacheSize))
    (hd : Delivered ops node s t g start buffer 0 (pageCacheSize * (count / pageCacheSize))) :
    ∃ s' n, readPages ops g start count buffer 1 (count / pageCacheSize)
        (pageCacheSize * (count / pageCacheSize)) t = .ret (s', n) ∧
      ReadLaw ops s s' g node start count buffer n := by
  have ht := hf.request h
  have htotal := totalPages_eq h.countLt
  rw [if_neg hrem] at htotal
  have hlt : pageCacheSize * (count / pageCacheSize) < count := by
    simp only [pageCacheSize] at *
    omega
  have hrest : count - pageCacheSize * (count / pageCacheSize) = count % pageCacheSize := by
    simp only [pageCacheSize]
    omega
  have hadd := hpass.add (b := 1) h.inv h.opened hf ht.opened hcons
  have hloads := loads_add (b := 1) h.inv h.opened hf.inv ht.opened hcons hpass.supply
  rcases readPages_turn ops ht hlt 0 (pageCacheSize * (count / pageCacheSize)) with
    ⟨hstop, s', hrun, hidle, hout⟩ | ⟨hgo, u, c, hrun, hload, hcons', hh, hout⟩
  · -- the loop is left before the page
    rw [← hadd] at hstop
    have hall := hf.trans hidle
    refine ⟨s', _, hrun, ?_, ?_, ?_, fun _ _ => ⟨_, hall⟩⟩
    · exact ⟨count / pageCacheSize, by omega, hpass, fun _ => hstop, by omega⟩
    · exact hd.trans h (by omega) hf (Delivered.refl hout) (le_refl _) (Nat.zero_le _)
    · exact iff_of_true hall.pureRead (Or.inr (Or.inl hstop))
  · rw [← hadd] at hgo
    have hall := hf.trans hload
    rw [← hloads] at hall
    obtain ⟨m, hcopy, hcache, hdeliver⟩ := copyOut_delivered ht hlt hload hh hout
    have hchunk : pageCacheSize * (count / pageCacheSize) + chunk count (count / pageCacheSize) =
        count := by
      simp only [chunk, pageCacheSize] at *
      omega
    have hadvance : advance count (pageCacheSize * (count / pageCacheSize)) = count := by
      have hsub : sub32 count (pageCacheSize * (count / pageCacheSize)) = count % pageCacheSize := by
        rw [← hrest]
        exact sub32_eq h.countLt (by omega)
      simp only [advance, hsub, minimum_eq]
      rw [add32_eq (by have := h.countLt; simp only [pageCacheSize] at *; omega)]
      simp only [pageCacheSize]
      omega
    have hpart : count % pageCacheSize < pageCacheSize := Nat.mod_lt _ (by decide)
    rw [hrest, if_pos hpart] at hcopy
    rw [hcopy, hadvance] at hrun
    rw [hchunk] at hdeliver
    obtain ⟨hall₁, hfree⟩ := hall.outside hcache
    -- no copy moves the cache
    have hcell : ∀ i, cellAddr u i = cellAddr s i := by
      intro i
      rw [cellAddr, cellAddr, hall.same.1]
    have hnum : pageCacheNumBuffers u = pageCacheNumBuffers s := by
      rw [pageCacheNumBuffers, pageCacheNumBuffers, hall.same.2.1]
    have hmarks : bitmapAddr u = bitmapAddr s := by rw [bitmapAddr, bitmapAddr, hcell, hnum]
    have hlast : InCell s g (start / pageCacheSize) (count / pageCacheSize + 1) g
        (start / pageCacheSize + count / pageCacheSize) c := hall.holds.mp hh
    -- the bytes that the short copy clears, behind those it has copied
    have hcleared : ∀ x, Cleared s g start count x ↔
        cellAddr u c + count % pageCacheSize ≤ x ∧
          x < cellAddr u c + count % pageCacheSize + count % pageCacheSize := by
      intro x
      rw [Cleared, hcell]
      constructor
      · rintro ⟨c', hc', hlo, hhi⟩
        obtain rfl : c' = c := hall.inv.fn (hall.holds.mpr hc') hh
        omega
      · rintro ⟨hlo, hhi⟩
        exact ⟨c, hlast, by omega, by omega⟩
    have hpure : PureRead ops node s
        { u with mem := fill m (cellAddr u c + count % pageCacheSize) (count % pageCacheSize) 0 } g ↔
          ReadsPure ops s g node start count := by
      rw [hall₁.clear_pure_iff, ReadsPure]
      constructor
      · intro hz
        refine Or.inr (Or.inr fun g' off j b hin hclear hs => ?_)
        rw [hcleared] at hclear
        exact hz g' off j b hin hclear.1 hclear.2 hs
      · intro hz g' off j b hin hlo hhi hs
        rcases hz with hz | hz | hz
        · exact absurd hz hrem
        · exact absurd hgo hz
        · exact hz g' off j b hin ((hcleared _).mpr ⟨hlo, hhi⟩) hs
    refine ⟨_, count, hrun, ?_, ?_, hpure, fun hz hspare => ?_⟩
    · refine ⟨count / pageCacheSize + 1, by omega, hgo, by omega, ?_⟩
      simp only [pageCacheSize]
      omega
    · -- the clearing stays in the cache
      have htail : Delivered ops node t
          { u with mem := fill m (cellAddr u c + count % pageCacheSize) (count % pageCacheSize) 0 }
          g start buffer (pageCacheSize * (count / pageCacheSize)) count := by
        have hbounds := ht.inv.cell_bounds (i := c + 1) (by
          have hc := (hall.inv.cells hh).1
          have hsame : pageCacheNumBuffers t = pageCacheNumBuffers s := by
            rw [pageCacheNumBuffers, pageCacheNumBuffers, hf.same.2.1]
          omega)
        have hcellt : cellAddr t (c + 1) = cellAddr s (c + 1) := by
          rw [cellAddr, cellAddr, hf.same.1]
        have hkeep : ∀ x, x < t.cache ∨ t.cache + t.cacheSize ≤ x →
            fill m (cellAddr u c + count % pageCacheSize) (count % pageCacheSize) 0 x = m x := by
          intro x hx
          refine fill_frame _ _ ?_
          rw [hcell]
          rw [hcellt] at hbounds
          have hbase := hf.same.1
          simp only [cellAddr, pageCacheSize] at *
          omega
        refine ⟨fun hbuf k hlo hhi => ?_, fun x hx hbuf => ?_⟩
        · obtain ⟨_, hclear⟩ := ht.target.resolve_left hbuf
          show Serves ops node t g _ (fill m _ _ 0 _)
          rw [hkeep _ (by simp only [ClearOf] at hclear; omega)]
          exact hdeliver.bytes hbuf k hlo hhi
        · exact (hkeep x hx).trans (hdeliver.outside x hx hbuf)
      exact hd.trans h (le_refl _) hf htail hlt.le (Nat.zero_le _)
    · refine ⟨_, hall₁.clear (hpure.mpr hz) fun j hj hlo hhi => ?_⟩
      have hj' : j < pageCacheNumBuffers s := hnum ▸ hj
      have hmark : Cleared s g start count (bitmapAddr s + j) := by
        rw [hcleared]
        rw [← hmarks]
        exact ⟨hlo, hhi⟩
      have hfreej := hspare j hj' hmark
      rw [hfree, hcons'.cells, hcons.cells, List.drop_drop]
      have hmiss := hcons.missing_eq (n := 1) h.inv ht.inv h.opened ht.opened
      rw [hmiss, ← missing_add]
      exact hfreej

/-- The page loop of a cached read ends and obeys the law. -/
theorem readPages_law (ops : FsOperations) (h : ReadRequest s g node start count buffer) :
    ∃ s' n, readPages ops g start count buffer (ceilDivision count pageCacheSize) 0 0 s =
        .ret (s', n) ∧ ReadLaw ops s s' g node start count buffer n := by
  have htotal := totalPages_eq h.countLt
  have hfull : pageCacheSize * (0 + count / pageCacheSize) ≤ count := by
    rw [Nat.zero_add]
    exact Nat.mul_div_le _ _
  have hwhole := readPages_whole ops (n := count / pageCacheSize)
    (r := if count % pageCacheSize = 0 then 0 else 1) h hfull
  rw [Nat.mul_zero, Nat.zero_add, Nat.add_zero, ← htotal] at hwhole
  rcases hwhole with ⟨j, hj, hp, hstop, s', hrun, hf, hd⟩ | ⟨hp, s', hrun, hf, hcons, hd⟩
  · -- the loop is left inside the whole pages
    rw [Nat.zero_add] at hrun hd
    have hle : pageCacheSize * j ≤ count :=
      (Nat.mul_le_mul_left _ hj.le).trans (Nat.mul_div_le _ _)
    refine ⟨s', _, hrun, ⟨j, by omega, hp, fun _ => hstop, by omega⟩, hd, ?_,
      fun _ _ => ⟨_, hf⟩⟩
    refine iff_of_true hf.pureRead (Or.inr (Or.inl fun hall => hstop ?_))
    exact hall.mono (by omega)
  · by_cases hrem : count % pageCacheSize = 0
    · -- there are whole pages only
      rw [if_pos hrem] at hrun htotal
      have hcount : pageCacheSize * (count / pageCacheSize) = count := by
        simp only [pageCacheSize] at *
        omega
      rw [hcount] at hrun hd
      refine ⟨s', count, hrun, ⟨count / pageCacheSize, by omega, hp, by omega, by omega⟩, hd, ?_,
        fun _ _ => ⟨_, hf⟩⟩
      exact iff_of_true hf.pureRead (Or.inl hrem)
    · rw [if_neg hrem] at hrun
      obtain ⟨s₁, n, hlast, hlaw⟩ := readPages_last h hrem hp hf hcons hd
      exact ⟨s₁, n, hrun.trans hlast, hlaw⟩

end Loop

/-! ## Two reads -/

/-- A cached read of any range returns in `s'` what it returns in `s`: the same
bytes, as far as both get, and as many when neither runs out of cells. -/
def SameReads (ops : FsOperations) (s s' : FileState) : Prop :=
  ∀ g node start count buffer caps t t' n n',
    ReadRequest s g node start count buffer →
    chkBit caps vfsCapRead = true → chkBit caps vfsCapCache = true →
    readFileGlobal ops s g start count buffer caps = .ret (t, .ok n) →
    readFileGlobal ops s' g start count buffer caps = .ret (t', .ok n') →
    (buffer ≠ noBuffer → ∀ k, k < n → k < n' → t'.mem (buffer + k) = t.mem (buffer + k)) ∧
    (¬ Shortage s (missing s g (start / pageCacheSize) (ceilDivision count pageCacheSize)) →
      ¬ Shortage s' (missing s' g (start / pageCacheSize) (ceilDivision count pageCacheSize)) →
      n' = n)

section Reads

variable {ops : FsOperations} {node g p start count buffer caps n n' : Nat} {s s' : FileState}
  {ls : List (Nat × Nat)}

/-- Without a shortage, the loop gets through the pages in the file that are
cached or that the driver delivers. -/
theorem passes_iff (h : CacheInv s) (hg : OpenFile s g) (hs : ¬ Shortage s (missing s g p n)) :
    Passes ops s g node p n ↔ ∀ q, p ≤ q → q < p + n →
      ¬ PastEnd s node q ∧ (Cached s g q ∨ DriverOk ops g node q) := by
  constructor
  · intro hp q hlo hhi
    refine ⟨hp.inFile q hlo hhi, ?_⟩
    by_cases hc : Cached s g q
    · exact Or.inl hc
    · exact Or.inr (hp.driver q ((mem_missingPages h hg).mpr ⟨⟨hlo, hhi⟩, hc⟩))
  · intro hall
    refine ⟨fun q hlo hhi => (hall q hlo hhi).1, hs, fun q hq => ?_⟩
    obtain ⟨⟨hlo, hhi⟩, hc⟩ := (mem_missingPages h hg).mp hq
    exact (hall q hlo hhi).2.resolve_left hc

/-- The node of an entry. -/
theorem EntryNode.unique {node' : Nat} (h : EntryNode s g node) (h' : EntryNode s g node') :
    node' = node := by
  obtain ⟨e, he, rfl⟩ := h
  obtain ⟨e', he', rfl⟩ := h'
  rw [Option.some.inj (he.symm.trans he')]

/-- A call that is let through is its page loop. -/
theorem readFileGlobal_cached (h : ReadRequest s g node start count buffer)
    (hread : chkBit caps vfsCapRead = true) (hcache : chkBit caps vfsCapCache = true)
    (hrun : readPages ops g start count buffer (ceilDivision count pageCacheSize) 0 0 s =
      .ret (s', n)) :
    readFileGlobal ops s g start count buffer caps = .ret (s', .ok n) := by
  obtain ⟨e, he, hnode⟩ := h.entry
  have hvalid : gfeIsInvalid e = false := by simpa [gfeIsInvalid, hnode] using h.inUse
  simp [readFileGlobal, gftGet, he, hvalid, hread, hcache, h.aligned, hrun]

theorem ReadCount.eq (h : ReadCount ops s g node start count n)
    (h' : ReadCount ops s' g node start count n')
    (hsame : ∀ j ≤ ceilDivision count pageCacheSize,
      Passes ops s g node (start / pageCacheSize) j ↔
        Passes ops s' g node (start / pageCacheSize) j) : n' = n := by
  obtain ⟨j, hj, hp, hmax, rfl⟩ := h
  obtain ⟨j', hj', hp', hmax', rfl⟩ := h'
  rcases Nat.lt_trichotomy j j' with hlt | rfl | hlt
  · exact absurd (((hsame j' hj').mpr hp').mono (m := j + 1) hlt) (hmax (by omega))
  · rfl
  · exact absurd (((hsame j hj).mp hp).mono (m := j' + 1) hlt) (hmax' (by omega))

/-- After a read that only loaded pages, reads return what they returned. -/
theorem Fetched.sameReads (hf : Fetched ops node s s' g ls) (hn : EntryNode s g node)
    (hinv : CacheInv s) : SameReads ops s s' := by
  intro g₂ node₂ start count buffer caps t t' n n' h hread hcache hrun hrun'
  have h' := hf.request h
  obtain ⟨u, k, hloop, hlaw⟩ := readPages_law ops h
  obtain ⟨u', k', hloop', hlaw'⟩ := readPages_law ops h'
  have hu := (readFileGlobal_cached h hread hcache hloop).symm.trans hrun
  have hu' := (readFileGlobal_cached h' hread hcache hloop').symm.trans hrun'
  simp only [Outcome.ret.injEq, Prod.mk.injEq, Except.ok.injEq] at hu hu'
  obtain ⟨rfl, rfl⟩ := hu
  obtain ⟨rfl, rfl⟩ := hu'
  have hnode : g₂ = g → node₂ = node := by
    rintro rfl
    exact hn.unique h.entry
  refine ⟨fun hbuf i hi hi' => ?_, fun hs hs' => ?_⟩
  · have hb := hlaw.delivered.bytes hbuf i (Nat.zero_le _) hi
    have hb' := hlaw'.delivered.bytes hbuf i (Nat.zero_le _) hi'
    exact hinv.serves_unique (hf.pureRead.serves hf.inv hnode hb') hb
  · refine hlaw.returned.eq hlaw'.returned fun j hj => ?_
    have hle : ∀ x : FileState, missing x g₂ (start / pageCacheSize) j ≤
        missing x g₂ (start / pageCacheSize) (ceilDivision count pageCacheSize) := by
      intro x
      obtain ⟨r, hr⟩ := Nat.exists_eq_add_of_le hj
      rw [hr, missing_add]
      exact Nat.le_add_right _ _
    rw [passes_iff h.inv h.opened fun hj => hs (hj.mono (hle s)),
      passes_iff h'.inv h'.opened fun hj => hs' (hj.mono (hle s'))]
    refine forall_congr' fun q => forall_congr' fun _ => forall_congr' fun _ => ?_
    refine and_congr (by rw [PastEnd, PastEnd, hf.same.2.2]) ?_
    rw [hf.cached, or_assoc]
    refine or_congr_right ⟨Or.inr, fun hq => hq.elim ?_ id⟩
    rintro ⟨hg, c, hc⟩
    subst hg
    rw [hnode rfl]
    exact hf.driven q c hc

/-- One data cell, which holds page 0 of an open file of 4096 bytes, all 1. -/
def onePage : FileState where
  mem := fun x => if x = 8194 then 0 else 1
  cache := 4096
  cacheSize := 8192
  gft := [⟨1, 1, [⟨0, 0, false⟩]⟩]
  nodes := fun _ => ⟨4096⟩
  frames := fun _ => some fun _ => 0

theorem onePage_holds {q i : Nat} : Holds onePage g q i ↔ g = 0 ∧ q = 0 ∧ i = 0 := by
  constructor
  · rintro ⟨e, d, he, hmem⟩
    rcases g with _ | g
    · obtain rfl : (⟨1, 1, [⟨0, 0, false⟩]⟩ : Gfe) = e := Option.some.inj he
      have heq := List.mem_singleton.mp hmem
      exact ⟨rfl, congrArg PageInfo.page heq, congrArg PageInfo.bufferIndex heq⟩
    · simp [onePage] at he
  · rintro ⟨rfl, rfl, rfl⟩
    exact ⟨_, false, rfl, List.mem_singleton_self _⟩

/-- The first 512 bytes of the file are read without a caller buffer. -/
theorem onePage_request : ReadRequest onePage 0 1 0 512 noBuffer := by
  have hinv : CacheInv onePage :=
    { base := by decide, size := by decide, nonempty := by decide, few := by decide,
      top := by decide, self := by decide,
      cells := fun hh => by
        obtain ⟨rfl, rfl, rfl⟩ := onePage_holds.mp hh
        exact ⟨by decide, by decide⟩
      inj := fun h₁ h₂ => by
        obtain ⟨rfl, rfl, _⟩ := onePage_holds.mp h₁
        obtain ⟨rfl, rfl, _⟩ := onePage_holds.mp h₂
        exact ⟨rfl, rfl⟩
      fn := fun h₁ h₂ => (onePage_holds.mp h₁).2.2.trans (onePage_holds.mp h₂).2.2.symm }
  exact ⟨hinv, ⟨_, rfl, rfl⟩, by decide, by decide, by decide, by decide, Or.inl rfl⟩

/-- Reading 512 bytes clears the next 512 bytes of the cached page. -/
theorem readCached_pure_fails : ∃ s' n,
    readFileGlobal zeroOps onePage 0 0 512 noBuffer 10 = .ret (s', .ok n) ∧
      ¬ PureRead zeroOps 1 onePage s' 0 := by
  obtain ⟨s', n, hloop, hlaw⟩ := readPages_law zeroOps onePage_request
  refine ⟨s', n, readFileGlobal_cached onePage_request (by decide) (by decide) hloop, fun hp => ?_⟩
  have hcell : Holds onePage 0 0 0 := onePage_holds.mpr ⟨rfl, rfl, rfl⟩
  rcases hlaw.pure_iff.mp hp with hrem | hstop | hzero
  · exact absurd hrem (by decide)
  · -- the page is reached: it is cached and in the file
    refine hstop ⟨fun q hlo hhi => ?_, ?_, fun q hq => ?_⟩
    · obtain rfl : q = 0 := by simp only [pageCacheSize] at hhi; omega
      unfold PastEnd
      decide
    · have hmiss : missing onePage 0 (0 / pageCacheSize) (512 / pageCacheSize + 1) = 0 := by
        decide
      rw [hmiss]
      exact shortage_zero
    · have hlist : missingPages onePage 0 (0 / pageCacheSize) (512 / pageCacheSize + 1) = [] := by
        decide
      rw [hlist] at hq
      exact absurd hq List.not_mem_nil
  · -- byte 512 of the page is 1
    have hone := hzero 0 512 0 1 (Or.inl hcell) ⟨0, Or.inl hcell, by decide, by decide⟩
      (Or.inl ⟨0, hcell, by decide⟩)
    exact absurd hone (by decide)

/-- A cached read is pure exactly under `ReadsPure`, and then, when it spares
the marks of used cells, any second read returns what it would have returned
alone. -/
theorem readCached_pure_iff (h : ReadRequest s g node start count buffer)
    (hread : chkBit caps vfsCapRead = true) (hcache : chkBit caps vfsCapCache = true) :
    ∃ s' n, readFileGlobal ops s g start count buffer caps = .ret (s', .ok n) ∧
      (PureRead ops node s s' g ↔ ReadsPure ops s g node start count) ∧
      (ReadsPure ops s g node start count → SparesMarks s g start count →
        SameReads ops s s') := by
  obtain ⟨s', n, hloop, hlaw⟩ := readPages_law ops h
  refine ⟨s', n, readFileGlobal_cached h hread hcache hloop, hlaw.pure_iff, fun hp hspare => ?_⟩
  obtain ⟨ls, hf⟩ := hlaw.fetched hp hspare
  exact hf.sameReads h.entry h.inv

theorem readCached_pure_iff_onePage : ∃ s' n,
    readFileGlobal zeroOps onePage 0 0 512 noBuffer 10 = .ret (s', .ok n) ∧
      (PureRead zeroOps 1 onePage s' 0 ↔ ReadsPure zeroOps onePage 0 1 0 512) ∧
      (ReadsPure zeroOps onePage 0 1 0 512 → SparesMarks onePage 0 0 512 →
        SameReads zeroOps onePage s') :=
  readCached_pure_iff onePage_request (by decide) (by decide)

end Reads

end MeOS
