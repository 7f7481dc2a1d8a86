import MeOS.AllocLeak
import MeOS.PageRights

/-! # An address space by the entries of its pages

What the functions on pages do to a space whose directory and tables are frames in
use, apart from each other: a mapping that succeeds gives one page a new entry, and
one that fails leaves every entry. A block that has been taken is not seen.
-/

namespace MeOS

open WordFields

/-- The entry of the page of `v`; it is empty when there is no table for it. -/
def entryAt (s : VmState) (v : BitVec 32) : BitVec 32 := oldEntry s s.currentDirectory v

/-- The frames of the directory and of the tables are in use. -/
structure SpaceUsed (s : VmState) : Prop extends SpaceOk s where
  dirUsed : frameUsed s s.currentDirectory
  tableUsed : ∀ i < 1024, pdEntryIsPresent (pdEntry s i) = true → frameUsed s (tableFrame s i)

/-- `s'` is `s` with the entry `x` for the page of `virt`. -/
structure Entered (s s' : VmState) (virt x : BitVec 32) : Prop where
  space : SpaceUsed s'
  dir : s'.currentDirectory = s.currentDirectory
  entry : ∀ v : BitVec 32, entryAt s' v = if v >>> 12 = virt >>> 12 then x else entryAt s v

section Entries

variable {s s' : VmState} {v virt phys flags x : BitVec 32} {b : Nat}

theorem entryAt_eq (hp : pdEntryIsPresent (pdEntry s (pageDirIndex v)) = true) :
    entryAt s v = ptEntry s (pageDirIndex v) (pageTableIndex v) := if_pos hp

theorem entryAt_absent (hp : pdEntryIsPresent (pdEntry s (pageDirIndex v)) = false) :
    entryAt s v = 0#32 :=
  if_neg (by rw [show pdEntryIsPresent (dirEntry s _ v) = false from hp]; decide)

/-- A page is present when its entry is. -/
theorem isPagePresent_entryAt (h : TablesApart s) :
    vmmngrIsPagePresent s v = ptEntryIsPresent (entryAt s v) := by
  rw [Bool.eq_iff_iff, isPagePresent_eq h.dir]
  cases hp : pdEntryIsPresent (pdEntry s (pageDirIndex v)) with
  | true =>
    rw [entryAt_eq hp]
    exact ⟨fun hall => hall.2.2, fun hpage => ⟨rfl, h.nonzero _ pageDirIndex_lt hp, hpage⟩⟩
  | false =>
    rw [entryAt_absent hp]
    exact ⟨fun hall => absurd hall.1 (by decide), fun hno => absurd hno (by decide)⟩

theorem SpaceUsed.dirOk (h : SpaceUsed s) : DirOk s s.currentDirectory :=
  h.toTablesApart.dirOk h.small h.dirUsed

/-- A frame that is not in use is neither the directory nor a table. -/
theorem SpaceUsed.notTable (h : SpaceUsed s) {f : BitVec 32} (hfree : ¬ frameUsed s f) :
    NotTable s f := by
  constructor
  · intro heq
    exact hfree (heq ▸ h.dirUsed)
  · intro i hi hp heq
    exact hfree (heq ▸ h.tableUsed i hi hp)

theorem not_frameUsed_block (hb : b < 1048576) (hfree : mmapTest s.phys b = false) :
    ¬ frameUsed s (BitVec.ofNat 32 (b * pmmngrBlockSize)) := by
  unfold frameUsed
  rw [ofNat_block hb, hfree]
  decide

theorem frameUsed_take {f : BitVec 32} {m : Nat → BitVec 32} {d : BitVec 32}
    (h : frameUsed s f) : frameUsed ⟨s.phys.take b, m, d⟩ f := by
  unfold frameUsed at h ⊢
  rw [mmapTest_take, h, Bool.or_true]

/-- Taking a block leaves the entries. -/
theorem SpaceUsed.take (h : SpaceUsed s) : SpaceUsed { s with phys := s.phys.take b } where
  toTablesApart := h.toTablesApart.congr rfl fun _ _ => rfl
  small := h.small
  dirUsed := frameUsed_take h.dirUsed
  tableUsed i hi hp := frameUsed_take (h.tableUsed i hi hp)

/-! ## Mapping a page -/

/-- Where there is a table, the entry of the page is written and no other one. -/
theorem SpaceUsed.storeEntry (h : SpaceUsed s)
    (hp : pdEntryIsPresent (pdEntry s (pageDirIndex virt)) = true) :
    Entered s (storeEntry s (pageDirIndex virt) (pageTableIndex virt) x) virt x := by
  have hentry : ∀ k < 1024,
      pdEntry (MeOS.storeEntry s (pageDirIndex virt) (pageTableIndex virt) x) k = pdEntry s k :=
    fun k hk => pdEntry_storeEntry h.toTablesApart pageDirIndex_lt pageTableIndex_lt hp hk
  refine ⟨⟨⟨h.toTablesApart.stored pageDirIndex_lt pageTableIndex_lt hp, h.small⟩, h.dirUsed, ?_⟩,
    rfl, fun v => ?_⟩
  · intro i hi hpi
    unfold tableFrame
    rw [hentry i hi] at hpi ⊢
    exact h.tableUsed i hi hpi
  cases hv : pdEntryIsPresent (pdEntry s (pageDirIndex v)) with
  | true =>
    rw [entryAt_eq (by rwa [hentry _ pageDirIndex_lt]), entryAt_eq hv,
      ptEntry_storeEntry h.toTablesApart pageDirIndex_lt pageTableIndex_lt hp pageDirIndex_lt
        pageTableIndex_lt]
    by_cases hsame : v >>> 12 = virt >>> 12
    · rcases samePage_iff.mp hsame with ⟨hi, hj⟩
      rw [if_pos hsame, if_pos ⟨by rw [hi], hj⟩]
    · rw [if_neg hsame, if_neg]
      intro ⟨hframe, hj⟩
      exact hsame (samePage_iff.mpr
        ⟨h.apart _ pageDirIndex_lt _ pageDirIndex_lt hv hp hframe, hj⟩)
  | false =>
    have hother : v >>> 12 ≠ virt >>> 12 := by
      intro hsame
      rw [(samePage_iff.mp hsame).1, hp] at hv
      cases hv
    rw [entryAt_absent (by rwa [hentry _ pageDirIndex_lt]), entryAt_absent hv, if_neg hother]

section Table

variable {a : PhysState} {f : BitVec 32}

/-- The table that has been made is one in use. -/
theorem SpaceUsed.withTable (virt : BitVec 32) (h : SpaceUsed s) (hf : f &&& i86PteFrame = f)
    (hnot : NotTable s f) (hzero : f ≠ 0#32) (hused : frameUsed { s with phys := s.phys.take b } f)
    (hflags : flags &&& i86PteFrame = 0#32) :
    SpaceUsed (withTable s (s.phys.take b) (pageDirIndex virt) f flags) := by
  have hi := pageDirIndex_lt (x := virt)
  have hapart := h.toTablesApart.withTable (a := s.phys.take b) hf hnot hzero hflags hi
  refine ⟨⟨hapart, h.small⟩, frameUsed_take h.dirUsed, fun k hk hp => ?_⟩
  rw [tableFrame_withTable h.toTablesApart hf hnot.1 hflags hi hk]
  rw [pdEntry_withTable h.toTablesApart hf hnot.1 hi hk] at hp
  by_cases hki : k = pageDirIndex virt
  · rw [if_pos hki]
    exact hused
  · rw [if_neg hki] at hp ⊢
    exact frameUsed_take (h.tableUsed k hk hp)

/-- It is empty, as its pages were before. -/
theorem entryAt_withTable (h : TablesApart s) (hf : f &&& i86PteFrame = f) (hnot : NotTable s f)
    (hflags : flags &&& i86PteFrame = 0#32)
    (habsent : pdEntryIsPresent (pdEntry s (pageDirIndex virt)) = false) :
    entryAt (withTable s a (pageDirIndex virt) f flags) v = entryAt s v := by
  have hi := pageDirIndex_lt (x := virt)
  have hv := pageDirIndex_lt (x := v)
  have htable := tableFrame_withTable (a := a) h hf hnot.1 hflags hi hv
  have hentry : pdEntry (MeOS.withTable s a (pageDirIndex virt) f flags) (pageDirIndex v) = _ :=
    pdEntry_withTable h hf hnot.1 hi hv
  by_cases hvi : pageDirIndex v = pageDirIndex virt
  · have hold : entryAt s v = 0#32 := entryAt_absent (by rwa [hvi])
    rw [if_pos hvi] at htable
    rw [hold]
    cases hp : pdEntryIsPresent
        (pdEntry (MeOS.withTable s a (pageDirIndex virt) f flags) (pageDirIndex v)) with
    | true =>
      rw [entryAt_eq hp, ptEntry_withTable h hf hi pageTableIndex_lt
        (by rw [htable]; exact hnot.1), if_pos htable]
    | false => exact entryAt_absent hp
  · rw [if_neg hvi] at hentry htable
    cases hp : pdEntryIsPresent (pdEntry s (pageDirIndex v)) with
    | true =>
      rw [entryAt_eq (by rwa [hentry]), entryAt_eq hp, ptEntry_withTable h hf hi pageTableIndex_lt
        (by rw [htable]; exact h.notDir _ hv hp), htable, if_neg (hnot.2 _ hv hp)]
      rfl
    | false => rw [entryAt_absent (by rwa [hentry]), entryAt_absent hp]

end Table

/-- What the entry of the page becomes. -/
theorem MapResult.entered (h : SpaceUsed s) (hflags : flags &&& i86PteFrame = 0#32)
    (hpresent : flags &&& i86PtePresent = i86PtePresent) {r : VmState × ErrorT}
    (hr : MapResult s s.currentDirectory phys virt flags r) (hok : r.2 = .ok) :
    Entered s r.1 virt (ptEntrySetFrame (entryAt s virt ||| flags) phys) := by
  cases hr with
  | noTable hp hnull => cases hok
  | noBlock habsent halloc => cases hok
  | mapped hp hframe =>
    rw [entryAt_eq hp]
    exact h.storeEntry hp
  | @made b habsent hpos hb hfree halloc =>
    have hlt : b < 1048576 := hb.trans_le h.small
    have hf := block_frame hlt
    have hnot := h.notTable (not_frameUsed_block hlt hfree)
    have hused : frameUsed { s with phys := s.phys.take b }
        (BitVec.ofNat 32 (b * pmmngrBlockSize)) := by
      unfold frameUsed
      rw [ofNat_block hlt, mmapTest_take, decide_eq_true rfl, Bool.true_or]
    have hspace := h.withTable virt hf hnot (block_ne_zero hpos hlt) hused hflags
    have hsame := fun v => entryAt_withTable (v := v) (a := s.phys.take b) h.toTablesApart hf hnot
      hflags habsent
    have hp := present_withTable (a := s.phys.take b) h.toTablesApart hf hnot.1 hpresent
      (pageDirIndex_lt (x := virt))
    rw [← hsame virt, entryAt_eq hp]
    refine ⟨(hspace.storeEntry hp).space, rfl, fun v => ?_⟩
    rw [← hsame v]
    exact (hspace.storeEntry hp).entry v

/-! ## A page and its rights -/

/-- When `comes` holds, the page of `virt` is present with the rights of its old entry, of `carried`
and of the flags. Otherwise its entry stays, as those of the other pages do in any case. -/
structure PageSet (s s' : VmState) (virt carried flags : BitVec 32) (comes : Prop) : Prop where
  space : SpaceUsed s'
  dir : s'.currentDirectory = s.currentDirectory
  other : ∀ v : BitVec 32, v >>> 12 ≠ virt >>> 12 → entryAt s' v = entryAt s v
  sets : comes → ptEntryIsPresent (entryAt s' virt) = true ∧
    entryAt s' virt &&& rightBits = (entryAt s virt ||| carried ||| flags) &&& rightBits
  keeps : ¬ comes → entryAt s' virt = entryAt s virt

/-- There is a block for the page, unless it is that of a device, and a table to enter it in. -/
def AllocComes (s : VmState) (base : BitVec 32) : Prop :=
  vmmngrIsPagePresent s base = true ∨
    if base < 0xF0000000#32 then ¬ NoBlock s.phys ∧ TableFollows s base else TableComes s base

theorem setFrame_present (hpresent : flags &&& i86PtePresent = i86PtePresent) :
    ptEntryIsPresent (ptEntrySetFrame (x ||| flags) phys) = true := by
  rw [ptEntryIsPresent_iff, ptEntrySetFrame]
  have hkept : (x ||| flags) &&& ~~~i86PteFrame &&& i86PtePresent = i86PtePresent := by
    rw [get_del (by decide), or_and_of_le hpresent]
  rw [BitVec.or_comm]
  exact or_and_of_le hkept

theorem Entered.pageSet (h : Entered s s' virt (ptEntrySetFrame (entryAt s virt ||| flags) phys))
    (hpresent : flags &&& i86PtePresent = i86PtePresent) {comes : Prop} (hcomes : comes) :
    PageSet s s' virt phys flags comes where
  space := h.space
  dir := h.dir
  other v hv := by rw [h.entry, if_neg hv]
  sets _ := by
    rw [h.entry, if_pos rfl]
    refine ⟨setFrame_present hpresent, ?_⟩
    unfold ptEntrySetFrame
    rw [set_and frame_rightBits, BitVec.or_assoc, BitVec.or_comm flags, ← BitVec.or_assoc]
  keeps hno := absurd hcomes hno

theorem PageSet.none (h : SpaceUsed s) {comes : Prop} (hno : ¬ comes) :
    PageSet s s virt phys flags comes where
  space := h
  dir := rfl
  other _ _ := rfl
  sets hcomes := absurd hcomes hno
  keeps _ := rfl

theorem PageSet.congr {comes comes' : Prop} (h : PageSet s s' virt phys flags comes)
    (hcomes : comes ↔ comes') (hphys : phys &&& rightBits = x &&& rightBits) :
    PageSet s s' virt x flags comes' where
  space := h.space
  dir := h.dir
  other := h.other
  sets hc := by
    rw [(h.sets (hcomes.mpr hc)).2, BitVec.or_assoc, BitVec.or_comm phys, ← BitVec.or_assoc,
      or_and_congr hphys, BitVec.or_assoc, BitVec.or_comm flags, ← BitVec.or_assoc]
    exact ⟨(h.sets (hcomes.mpr hc)).1, rfl⟩
  keeps hno := h.keeps (mt hcomes.mp hno)

/-- `vmmngr_map_page` sets the page if there is a table for it or a block for one. -/
theorem MapResult.pageSet (h : SpaceUsed s) (hflags : flags &&& i86PteFrame = 0#32)
    (hpresent : flags &&& i86PtePresent = i86PtePresent) {r : VmState × ErrorT}
    (hr : MapResult s s.currentDirectory phys virt flags r) :
    PageSet s r.1 virt phys flags (TableComes s virt) := by
  have hcomes : r.2 = .occur ↔ ¬ TableComes s virt := hr.occur_iff h.small
  cases hok : r.2 with
  | ok =>
    refine (hr.entered h hflags hpresent hok).pageSet hpresent (by_contra fun hno => ?_)
    rw [hcomes.mpr hno] at hok
    cases hok
  | occur =>
    rw [(hr.occur h.small).2 hok]
    exact .none h (hcomes.mp hok)

/-- `vmmngr_alloc_page_f` sets a page that is present, and otherwise if the memory suffices. -/
theorem AllocResult.pageSet (h : SpaceUsed s) (halign : virt &&& i86PteFrame = virt)
    (hflags : flags &&& i86PteFrame = 0#32) (hpresent : flags &&& i86PtePresent = i86PtePresent)
    {r : VmState × ErrorT} (hr : AllocResult s virt flags r) :
    PageSet s r.1 virt 0#32 flags (AllocComes s virt) := by
  unfold AllocComes
  cases hr with
  | present hp hr =>
    have hpd := (isPagePresent_eq h.dir).mp hp
    have htable : TableComes s virt := by
      unfold TableComes
      rw [if_pos (show pdEntryIsPresent (dirEntry s _ virt) = true from hpd.1)]
      exact hpd.2.1
    apply (hr.pageSet h hflags hpresent).congr (iff_of_true htable (Or.inl hp))
    rw [physAddr_rights h.dir hp, aligned_rights halign]
  | noBlock hp hbase hnone =>
    rw [hp, if_pos hbase]
    exact .none h (by simp [hnone])
  | taken hp hbase hblock hr =>
    rw [hp, if_pos hbase]
    have hset := hr.pageSet (h.take (b := mmapFirstFree s.phys)) hflags hpresent
    have hset' : PageSet _ r.1 virt 0#32 flags (_ ∨ ¬ NoBlock s.phys ∧ _) := hset.congr
      ⟨fun hc => Or.inr ⟨hblock, hc⟩, fun hc => (hc.resolve_left Bool.false_ne_true).2⟩
      (aligned_rights (block_frame (firstFree_lt h.small hblock)))
    exact ⟨hset'.space, hset'.dir, hset'.other, hset'.sets, hset'.keeps⟩
  | device hp hbase hr =>
    rw [hp, if_neg hbase]
    exact (hr.pageSet h hflags hpresent).congr
      ⟨Or.inr, fun hc => hc.resolve_left Bool.false_ne_true⟩ (aligned_rights halign)

end Entries

end MeOS
