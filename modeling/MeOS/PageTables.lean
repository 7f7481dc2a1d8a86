import MeOS.Lib.WordFields
import MeOS.MmngrVirtual

/-! # Page tables

The directory and the tables are frames of one memory. When the tables of a
directory are apart from each other and from the directory, a write to one
entry is seen by no other page.
-/

namespace MeOS

open WordFields

/-! ## Words -/

section Words

variable {x v f p flags : BitVec 32}

theorem frame_getLsbD {i : Nat} (hi : i < 32) : i86PteFrame.getLsbD i = decide (12 ≤ i) := by
  have h : ∀ j : Fin 32, i86PteFrame.getLsbD j = decide (12 ≤ j.val) := by decide
  exact h ⟨i, hi⟩

/-- A frame address is a multiple of 4096. -/
theorem frame_toNat_mod (h : p &&& i86PteFrame = p) : p.toNat % 4096 = 0 := by
  have hbits : p.toNat % 2 ^ 12 = 0 := by
    apply Nat.eq_of_testBit_eq
    intro i
    rw [Nat.testBit_mod_two_pow, Nat.zero_testBit]
    by_cases hi : i < 12
    · have hbit := congrArg (fun y => y.getLsbD i) h
      simp only [BitVec.getLsbD_and, frame_getLsbD (show i < 32 by omega)] at hbit
      have hnot : ¬12 ≤ i := by omega
      simp only [hnot, decide_false, Bool.and_false] at hbit
      rw [BitVec.testBit_toNat, ← hbit]
      simp
    · simp [hi]
  simpa using hbits

theorem frame_of_toNat_mod (h : p.toNat % 4096 = 0) : p &&& i86PteFrame = p := by
  apply BitVec.eq_of_getLsbD_eq
  intro i hi
  rw [BitVec.getLsbD_and, frame_getLsbD hi]
  by_cases h12 : 12 ≤ i
  · simp [h12]
  · have hbit : (p.toNat % 2 ^ 12).testBit i = false := by
      rw [show (2 : Nat) ^ 12 = 4096 from rfl, h, Nat.zero_testBit]
    rw [Nat.testBit_mod_two_pow, BitVec.testBit_toNat] at hbit
    have hlt : i < 12 := by omega
    simp only [hlt, decide_true, Bool.true_and] at hbit
    simp [h12, hbit]

/-- Reading the frame of a frame address. -/
theorem frame_frame : (x &&& i86PteFrame) &&& i86PteFrame = x &&& i86PteFrame := by
  rw [BitVec.and_assoc, BitVec.and_self]

/-- Flags below 4096 have no frame bits. -/
theorem flags_frame (h : flags < 0x1000#32) : flags &&& i86PteFrame = 0#32 := by
  have hlt : flags.toNat < 2 ^ 12 := by
    simpa [BitVec.lt_def] using h
  apply BitVec.eq_of_getLsbD_eq
  intro i hi
  rw [BitVec.getLsbD_and, frame_getLsbD hi, BitVec.getLsbD_zero]
  by_cases h12 : 12 ≤ i
  · rw [← BitVec.testBit_toNat, Nat.testBit_lt_two_pow
      (hlt.trans_le (Nat.pow_le_pow_right (by decide) h12))]
    rfl
  · simp [h12]

/-- An address with no offset is a frame address. -/
theorem frame_of_offset (h : p &&& 0xfff#32 = 0#32) : p &&& i86PteFrame = p := by
  have hsplit : p &&& i86PteFrame ||| p &&& 0xfff#32 = p := by
    rw [← BitVec.and_or_distrib_left]
    have : i86PteFrame ||| 0xfff#32 = BitVec.allOnes 32 := by decide
    rw [this, BitVec.and_allOnes]
  rw [h, BitVec.or_zero] at hsplit
  exact hsplit

theorem pageDirIndex_eq : pageDirIndex x = x.toNat / 4194304 := by
  have hx := x.isLt
  unfold pageDirIndex
  rw [BitVec.toNat_and, BitVec.toNat_ushiftRight, Nat.shiftRight_eq_div_pow,
    show (0x3ff#32).toNat = 2 ^ 10 - 1 from rfl, Nat.and_two_pow_sub_one_eq_mod]
  omega

theorem pageTableIndex_eq : pageTableIndex x = x.toNat / 4096 % 1024 := by
  unfold pageTableIndex
  rw [BitVec.toNat_and, BitVec.toNat_ushiftRight, Nat.shiftRight_eq_div_pow,
    show (0x3ff#32).toNat = 2 ^ 10 - 1 from rfl, Nat.and_two_pow_sub_one_eq_mod]

theorem pageDirIndex_lt : pageDirIndex x < 1024 := by
  have hx := x.isLt
  rw [pageDirIndex_eq]
  omega

theorem pageTableIndex_lt : pageTableIndex x < 1024 := by
  rw [pageTableIndex_eq]
  exact Nat.mod_lt _ (by decide)

/-- Two addresses are in one page when both indices are the same. -/
theorem samePage_iff : x >>> 12 = v >>> 12 ↔
    pageDirIndex x = pageDirIndex v ∧ pageTableIndex x = pageTableIndex v := by
  have hx := x.isLt
  have hv := v.isLt
  rw [pageDirIndex_eq, pageDirIndex_eq, pageTableIndex_eq, pageTableIndex_eq]
  constructor
  · intro h
    have hdiv : x.toNat / 4096 = v.toNat / 4096 := by
      have := congrArg BitVec.toNat h
      simpa [Nat.shiftRight_eq_div_pow] using this
    omega
  · intro ⟨hd, ht⟩
    apply BitVec.eq_of_toNat_eq
    rw [BitVec.toNat_ushiftRight, BitVec.toNat_ushiftRight, Nat.shiftRight_eq_div_pow,
      Nat.shiftRight_eq_div_pow]
    omega

/-- Entries of frames are at one place only when frame and index are the same. -/
theorem slot_inj {f g : BitVec 32} {i j : Nat} (hf : f &&& i86PteFrame = f)
    (hg : g &&& i86PteFrame = g) (hi : i < 1024) (hj : j < 1024)
    (h : f.toNat + 4 * i = g.toNat + 4 * j) : f = g ∧ i = j := by
  have hfm := frame_toNat_mod hf
  have hgm := frame_toNat_mod hg
  exact ⟨BitVec.eq_of_toNat_eq (by omega), by omega⟩

end Words

/-! ## Entries -/

/-- Entry `i` of the current directory. -/
def pdEntry (s : VmState) (i : Nat) : BitVec 32 := s.memory (s.currentDirectory.toNat + 4 * i)

/-- The frame of the table that entry `i` of the directory points to. -/
def tableFrame (s : VmState) (i : Nat) : BitVec 32 := pdEntryGetFrame (pdEntry s i)

/-- Entry `j` of that table. -/
def ptEntry (s : VmState) (i j : Nat) : BitVec 32 := s.memory ((tableFrame s i).toNat + 4 * j)

/-- The directory and the tables of its present entries are in frames of their own. -/
structure TablesApart (s : VmState) : Prop where
  dir : s.currentDirectory ≠ 0#32
  aligned : s.currentDirectory &&& i86PteFrame = s.currentDirectory
  nonzero : ∀ i < 1024, pdEntryIsPresent (pdEntry s i) = true → tableFrame s i ≠ 0#32
  notDir : ∀ i < 1024, pdEntryIsPresent (pdEntry s i) = true →
    tableFrame s i ≠ s.currentDirectory
  apart : ∀ i < 1024, ∀ j < 1024, pdEntryIsPresent (pdEntry s i) = true →
    pdEntryIsPresent (pdEntry s j) = true → tableFrame s i = tableFrame s j → i = j

/-- A frame is neither the directory nor a table of one of its present entries. -/
def NotTable (s : VmState) (f : BitVec 32) : Prop :=
  f ≠ s.currentDirectory ∧
    ∀ i < 1024, pdEntryIsPresent (pdEntry s i) = true → tableFrame s i ≠ f

section Entries

variable {s s' : VmState} {v virt phys flags e : BitVec 32} {i j k l : Nat}

theorem tableFrame_frame : tableFrame s i &&& i86PteFrame = tableFrame s i := frame_frame

theorem lookupDirectory (h : s.currentDirectory ≠ 0#32) :
    vmmngrPdirectoryLookupEntry s.currentDirectory v =
      some (s.currentDirectory.toNat + 4 * pageDirIndex v) := if_pos h

theorem lookupTable (h : e ≠ 0#32) :
    vmmngrPtableLookupEntry e v = some (e.toNat + 4 * pageTableIndex v) := if_pos h

/-- The second lookup, in the table of the entry that the first one finds. -/
theorem getPhysAddr_lookup (h : s.currentDirectory ≠ 0#32) : vmmngrGetPhysAddr s v =
    (vmmngrPtableLookupEntry (tableFrame s (pageDirIndex v)) v).elim 0#32 fun page =>
      ptEntryGetFrame (s.memory page) + (v &&& 0xfff#32) := by
  unfold vmmngrGetPhysAddr tableFrame pdEntry
  rw [lookupDirectory h]
  dsimp only
  rcases vmmngrPtableLookupEntry _ v with _ | page <;> rfl

theorem isPagePresent_lookup (h : s.currentDirectory ≠ 0#32) : vmmngrIsPagePresent s v =
    if pdEntryIsPresent (pdEntry s (pageDirIndex v)) = false then false else
      (vmmngrPtableLookupEntry (tableFrame s (pageDirIndex v)) v).elim false fun page =>
        ptEntryIsPresent (s.memory page) := by
  unfold vmmngrIsPagePresent tableFrame pdEntry
  rw [lookupDirectory h]
  dsimp only
  rcases vmmngrPtableLookupEntry _ v with _ | page <;> rfl

/-- Presence of a page, by its two entries. -/
theorem isPagePresent_eq (h : s.currentDirectory ≠ 0#32) : vmmngrIsPagePresent s v = true ↔
    pdEntryIsPresent (pdEntry s (pageDirIndex v)) = true ∧
      tableFrame s (pageDirIndex v) ≠ 0#32 ∧
      ptEntryIsPresent (ptEntry s (pageDirIndex v) (pageTableIndex v)) = true := by
  rw [isPagePresent_lookup h]
  by_cases hp : pdEntryIsPresent (pdEntry s (pageDirIndex v)) = false
  · simp [hp]
  · rw [if_neg hp]
    by_cases hz : tableFrame s (pageDirIndex v) = 0#32
    · unfold vmmngrPtableLookupEntry
      simp [hz]
    · rw [lookupTable hz]
      unfold ptEntry
      simp [hz, Bool.eq_true_of_not_eq_false hp]

/-- Translation of an address whose table pointer is not null. -/
theorem getPhysAddr_eq (h : s.currentDirectory ≠ 0#32)
    (ht : tableFrame s (pageDirIndex v) ≠ 0#32) : vmmngrGetPhysAddr s v =
      ptEntryGetFrame (ptEntry s (pageDirIndex v) (pageTableIndex v)) + (v &&& 0xfff#32) := by
  rw [getPhysAddr_lookup h, lookupTable ht]
  rfl

theorem getPhysAddr_null (h : s.currentDirectory ≠ 0#32)
    (ht : tableFrame s (pageDirIndex v) = 0#32) : vmmngrGetPhysAddr s v = 0#32 := by
  rw [getPhysAddr_lookup h, ht]
  rfl

/-- Two states that agree on the entries of an address translate it the same. -/
theorem getPhysAddr_congr (h : s.currentDirectory ≠ 0#32)
    (hdir : s'.currentDirectory = s.currentDirectory)
    (htable : tableFrame s' (pageDirIndex v) = tableFrame s (pageDirIndex v))
    (hpage : tableFrame s (pageDirIndex v) ≠ 0#32 →
      ptEntry s' (pageDirIndex v) (pageTableIndex v) =
        ptEntry s (pageDirIndex v) (pageTableIndex v)) :
    vmmngrGetPhysAddr s' v = vmmngrGetPhysAddr s v := by
  have h' : s'.currentDirectory ≠ 0#32 := by rwa [hdir]
  by_cases hz : tableFrame s (pageDirIndex v) = 0#32
  · rw [getPhysAddr_null h hz, getPhysAddr_null h' (htable.trans hz)]
  · rw [getPhysAddr_eq h hz, getPhysAddr_eq h' (by rwa [htable]), hpage hz]

/-- Two states that agree on the entries of an address agree on its presence. -/
theorem isPagePresent_congr (h : s.currentDirectory ≠ 0#32)
    (hdir : s'.currentDirectory = s.currentDirectory)
    (hentry : pdEntry s' (pageDirIndex v) = pdEntry s (pageDirIndex v))
    (hpage : pdEntryIsPresent (pdEntry s (pageDirIndex v)) = true →
      ptEntry s' (pageDirIndex v) (pageTableIndex v) =
        ptEntry s (pageDirIndex v) (pageTableIndex v)) :
    vmmngrIsPagePresent s' v = vmmngrIsPagePresent s v := by
  have h' : s'.currentDirectory ≠ 0#32 := by rwa [hdir]
  rw [Bool.eq_iff_iff, isPagePresent_eq h, isPagePresent_eq h']
  unfold tableFrame
  rw [hentry]
  by_cases hp : pdEntryIsPresent (pdEntry s (pageDirIndex v)) = true
  · rw [hpage hp]
  · simp [hp]

/-! ## A write to one entry of a table -/

/-- Entry `j` of the table of entry `i` gets a value. -/
def storeEntry (s : VmState) (i j : Nat) (value : BitVec 32) : VmState :=
  s.store ((tableFrame s i).toNat + 4 * j) value

@[simp] theorem store_dir {p : Nat} {x : BitVec 32} :
    (s.store p x).currentDirectory = s.currentDirectory := rfl

@[simp] theorem storeEntry_dir {x : BitVec 32} :
    (storeEntry s i j x).currentDirectory = s.currentDirectory := rfl

@[simp] theorem storeEntry_phys {x : BitVec 32} : (storeEntry s i j x).phys = s.phys := rfl

theorem store_store {p : Nat} {x y : BitVec 32} : (s.store p x).store p y = s.store p y := by
  unfold VmState.store
  dsimp only
  rw [Function.update_idem]

theorem store_self {p : Nat} {x : BitVec 32} : (s.store p x).memory p = x :=
  Function.update_self _ _ _

variable {x : BitVec 32}

/-- The directory is not touched. -/
theorem pdEntry_storeEntry (h : TablesApart s) (hi : i < 1024) (hj : j < 1024)
    (hp : pdEntryIsPresent (pdEntry s i) = true) (hk : k < 1024) :
    pdEntry (storeEntry s i j x) k = pdEntry s k := by
  unfold pdEntry storeEntry VmState.store
  dsimp only
  rw [Function.update_of_ne]
  intro heq
  exact h.notDir i hi hp (slot_inj h.aligned tableFrame_frame hk hj heq).1.symm

/-- Only the one entry changes. -/
theorem ptEntry_storeEntry (h : TablesApart s) (hi : i < 1024) (hj : j < 1024)
    (hp : pdEntryIsPresent (pdEntry s i) = true) (hk : k < 1024) (hl : l < 1024) :
    ptEntry (storeEntry s i j x) k l =
      if tableFrame s k = tableFrame s i ∧ l = j then x else ptEntry s k l := by
  have hframe : tableFrame (storeEntry s i j x) k = tableFrame s k := by
    unfold tableFrame
    rw [pdEntry_storeEntry h hi hj hp hk]
  unfold ptEntry
  rw [hframe]
  unfold storeEntry VmState.store
  dsimp only
  by_cases hsame : tableFrame s k = tableFrame s i ∧ l = j
  · rw [if_pos hsame, hsame.1, hsame.2, Function.update_self]
  · rw [if_neg hsame, Function.update_of_ne]
    intro heq
    exact hsame (slot_inj tableFrame_frame tableFrame_frame hl hj heq)

/-- The tables stay apart as long as the directory does not change. -/
theorem TablesApart.congr (h : TablesApart s) (hdir : s'.currentDirectory = s.currentDirectory)
    (hentry : ∀ k < 1024, pdEntry s' k = pdEntry s k) : TablesApart s' where
  dir := by rw [hdir]; exact h.dir
  aligned := by rw [hdir]; exact h.aligned
  nonzero := by
    intro i hi hp
    unfold tableFrame
    rw [hentry i hi] at hp ⊢
    exact h.nonzero i hi hp
  notDir := by
    intro i hi hp
    unfold tableFrame
    rw [hentry i hi] at hp ⊢
    rw [hdir]
    exact h.notDir i hi hp
  apart := by
    intro i hi j hj hpi hpj hframe
    unfold tableFrame at hframe
    rw [hentry i hi] at hpi hframe
    rw [hentry j hj] at hpj hframe
    exact h.apart i hi j hj hpi hpj hframe

theorem TablesApart.stored (h : TablesApart s) (hi : i < 1024) (hj : j < 1024)
    (hp : pdEntryIsPresent (pdEntry s i) = true) : TablesApart (storeEntry s i j x) :=
  h.congr rfl fun _ hk => pdEntry_storeEntry h hi hj hp hk

/-- Another page keeps its presence. -/
theorem isPagePresent_storeEntry (h : TablesApart s)
    (hp : pdEntryIsPresent (pdEntry s (pageDirIndex virt)) = true)
    (hne : v >>> 12 ≠ virt >>> 12) :
    vmmngrIsPagePresent (storeEntry s (pageDirIndex virt) (pageTableIndex virt) x) v =
      vmmngrIsPagePresent s v := by
  apply isPagePresent_congr h.dir storeEntry_dir
  · exact pdEntry_storeEntry h pageDirIndex_lt pageTableIndex_lt hp pageDirIndex_lt
  · intro hpv
    rw [ptEntry_storeEntry h pageDirIndex_lt pageTableIndex_lt hp pageDirIndex_lt
      pageTableIndex_lt, if_neg]
    intro ⟨hframe, hidx⟩
    exact hne (samePage_iff.mpr
      ⟨h.apart _ pageDirIndex_lt _ pageDirIndex_lt hpv hp hframe, hidx⟩)

/-- Another page keeps its translation, unless an absent entry of the directory points to the
same table. -/
theorem getPhysAddr_storeEntry (h : TablesApart s)
    (hp : pdEntryIsPresent (pdEntry s (pageDirIndex virt)) = true)
    (hne : v >>> 12 ≠ virt >>> 12)
    (hv : pdEntryIsPresent (pdEntry s (pageDirIndex v)) = true ∨
      tableFrame s (pageDirIndex v) ≠ tableFrame s (pageDirIndex virt)) :
    vmmngrGetPhysAddr (storeEntry s (pageDirIndex virt) (pageTableIndex virt) x) v =
      vmmngrGetPhysAddr s v := by
  have hentry := pdEntry_storeEntry (x := x) h pageDirIndex_lt (pageTableIndex_lt (x := virt)) hp
    (pageDirIndex_lt (x := v))
  apply getPhysAddr_congr h.dir storeEntry_dir
  · unfold tableFrame
    rw [hentry]
  · intro _
    rw [ptEntry_storeEntry h pageDirIndex_lt pageTableIndex_lt hp pageDirIndex_lt
      pageTableIndex_lt, if_neg]
    intro ⟨hframe, hidx⟩
    rcases hv with hpv | hother
    · exact hne (samePage_iff.mpr
        ⟨h.apart _ pageDirIndex_lt _ pageDirIndex_lt hpv hp hframe, hidx⟩)
    · exact hother hframe

/-- The page itself. -/
theorem storeEntry_self (h : TablesApart s)
    (hp : pdEntryIsPresent (pdEntry s (pageDirIndex virt)) = true)
    (hsame : v >>> 12 = virt >>> 12) :
    vmmngrIsPagePresent (storeEntry s (pageDirIndex virt) (pageTableIndex virt) x) v =
        ptEntryIsPresent x ∧
      vmmngrGetPhysAddr (storeEntry s (pageDirIndex virt) (pageTableIndex virt) x) v =
        ptEntryGetFrame x + (v &&& 0xfff#32) := by
  rcases samePage_iff.mp hsame with ⟨hdirIdx, htableIdx⟩
  have hentry := pdEntry_storeEntry (x := x) h pageDirIndex_lt (pageTableIndex_lt (x := virt)) hp
    (pageDirIndex_lt (x := virt))
  have hpage : ptEntry (storeEntry s (pageDirIndex virt) (pageTableIndex virt) x)
      (pageDirIndex virt) (pageTableIndex virt) = x := by
    rw [ptEntry_storeEntry h pageDirIndex_lt pageTableIndex_lt hp pageDirIndex_lt
      pageTableIndex_lt, if_pos ⟨rfl, rfl⟩]
  have hframe : tableFrame (storeEntry s (pageDirIndex virt) (pageTableIndex virt) x)
      (pageDirIndex virt) ≠ 0#32 := by
    unfold tableFrame
    rw [hentry]
    exact h.nonzero _ pageDirIndex_lt hp
  constructor
  · rw [Bool.eq_iff_iff, isPagePresent_eq (by exact h.dir), hdirIdx, htableIdx, hpage, hentry]
    simp [hp, hframe]
  · rw [getPhysAddr_eq (by exact h.dir) (by rwa [hdirIdx]), hdirIdx, htableIdx, hpage]

/-! ## A new table -/

/-- The current directory after `vmmngr_create_table` got the frame `f`. -/
def withTable (s : VmState) (phys : PhysState) (i : Nat) (f flags : BitVec 32) : VmState :=
  let s := ({ s with phys := phys }).clear f.toNat 4096
  let entry := s.currentDirectory.toNat + 4 * i
  s.store entry (pdEntrySetFrame (s.memory entry) f ||| flags)

variable {a : PhysState} {f : BitVec 32}

@[simp] theorem withTable_dir : (withTable s a i f flags).currentDirectory = s.currentDirectory :=
  rfl

@[simp] theorem withTable_phys : (withTable s a i f flags).phys = a := rfl

/-- Clearing a frame clears its words and no others. -/
theorem clear_slot {g : BitVec 32} (hf : f &&& i86PteFrame = f) (hg : g &&& i86PteFrame = g)
    (hj : j < 1024) : (s.clear f.toNat 4096).memory (g.toNat + 4 * j) =
      if g = f then 0#32 else s.memory (g.toNat + 4 * j) := by
  have hfm := frame_toNat_mod hf
  have hgm := frame_toNat_mod hg
  unfold VmState.clear
  dsimp only
  by_cases hgf : g = f
  · subst hgf
    rw [if_pos rfl, if_pos (by omega)]
  · have hne : g.toNat ≠ f.toNat := fun heq => hgf (BitVec.eq_of_toNat_eq heq)
    rw [if_neg hgf, if_neg (by omega)]

/-- The new entry of the directory, and the old ones. -/
theorem pdEntry_withTable (h : TablesApart s) (hf : f &&& i86PteFrame = f)
    (hfdir : f ≠ s.currentDirectory) (hi : i < 1024) (hk : k < 1024) :
    pdEntry (withTable s a i f flags) k =
      if k = i then pdEntrySetFrame (pdEntry s i) f ||| flags else pdEntry s k := by
  have hclear : ∀ j < 1024, (({ s with phys := a } : VmState).clear f.toNat 4096).memory
      (s.currentDirectory.toNat + 4 * j) = pdEntry s j := by
    intro j hj
    rw [clear_slot hf h.aligned hj, if_neg hfdir.symm]
    rfl
  unfold pdEntry withTable
  dsimp only [store_dir]
  unfold VmState.store
  dsimp only
  by_cases hki : k = i
  · subst hki
    rw [if_pos rfl]
    have hself := hclear k hk
    unfold pdEntry at hself
    rw [← hself]
    exact Function.update_self _ _ _
  · rw [if_neg hki, Function.update_of_ne]
    · exact hclear k hk
    · intro heq
      exact hki (slot_inj h.aligned h.aligned hk hi heq).2

/-- The new table is empty, and the others are as before. -/
theorem ptEntry_withTable (h : TablesApart s) (hf : f &&& i86PteFrame = f) (hi : i < 1024)
    (hl : l < 1024)
    (hkdir : tableFrame (withTable s a i f flags) k ≠ s.currentDirectory) :
    ptEntry (withTable s a i f flags) k l =
      if tableFrame (withTable s a i f flags) k = f then 0#32
      else s.memory ((tableFrame (withTable s a i f flags) k).toNat + 4 * l) := by
  unfold ptEntry
  generalize hg : tableFrame (withTable s a i f flags) k = g at hkdir ⊢
  have hgf : g &&& i86PteFrame = g := by
    rw [← hg]
    exact tableFrame_frame
  unfold withTable VmState.store
  dsimp only
  rw [Function.update_of_ne]
  · exact clear_slot hf hgf hl
  · intro heq
    exact hkdir (slot_inj hgf h.aligned hl hi heq).1

/-- The frame of the new table, which is present. -/
theorem tableFrame_withTable (h : TablesApart s) (hf : f &&& i86PteFrame = f)
    (hfdir : f ≠ s.currentDirectory) (hflags : flags &&& i86PteFrame = 0#32) (hi : i < 1024)
    (hk : k < 1024) :
    tableFrame (withTable s a i f flags) k = if k = i then f else tableFrame s k := by
  unfold tableFrame
  rw [pdEntry_withTable h hf hfdir hi hk]
  by_cases hki : k = i
  · rw [if_pos hki, if_pos hki]
    unfold pdEntryGetFrame
    rw [get_or hflags]
    exact get_set hf
  · rw [if_neg hki, if_neg hki]

theorem present_withTable (h : TablesApart s) (hf : f &&& i86PteFrame = f)
    (hfdir : f ≠ s.currentDirectory) (hpresent : flags &&& i86PtePresent = i86PtePresent)
    (hi : i < 1024) : pdEntryIsPresent (pdEntry (withTable s a i f flags) i) = true := by
  rw [pdEntry_withTable h hf hfdir hi hi, if_pos rfl]
  unfold pdEntryIsPresent
  rw [or_and_of_le hpresent]
  decide

/-- The tables stay apart when the new one is in a frame that is no table. -/
theorem TablesApart.withTable (h : TablesApart s) (hf : f &&& i86PteFrame = f)
    (hnot : NotTable s f) (hzero : f ≠ 0#32) (hflags : flags &&& i86PteFrame = 0#32)
    (hi : i < 1024) : TablesApart (withTable s a i f flags) := by
  have hframe := fun k (hk : k < 1024) =>
    tableFrame_withTable (a := a) h hf hnot.1 hflags hi hk
  -- apart from entry `i`, what is present now was present before
  have hold : ∀ k < 1024, k ≠ i →
      pdEntryIsPresent (pdEntry (MeOS.withTable s a i f flags) k) = true →
        pdEntryIsPresent (pdEntry s k) = true := by
    intro k hk hki hp
    rwa [pdEntry_withTable h hf hnot.1 hi hk, if_neg hki] at hp
  constructor
  · exact h.dir
  · exact h.aligned
  · intro k hk hp
    rw [hframe k hk]
    by_cases hki : k = i
    · rwa [if_pos hki]
    · rw [if_neg hki]
      exact h.nonzero k hk (hold k hk hki hp)
  · intro k hk hp
    rw [hframe k hk, withTable_dir]
    by_cases hki : k = i
    · rw [if_pos hki]
      exact hnot.1
    · rw [if_neg hki]
      exact h.notDir k hk (hold k hk hki hp)
  · intro k hk l hl hpk hpl hsame
    rw [hframe k hk, hframe l hl] at hsame
    by_cases hki : k = i
    · by_cases hli : l = i
      · rw [hki, hli]
      · rw [if_pos hki, if_neg hli] at hsame
        exact absurd hsame.symm (hnot.2 l hl (hold l hl hli hpl))
    · by_cases hli : l = i
      · rw [if_neg hki, if_pos hli] at hsame
        exact absurd hsame (hnot.2 k hk (hold k hk hki hpk))
      · rw [if_neg hki, if_neg hli] at hsame
        exact h.apart k hk l hl (hold k hk hki hpk) (hold l hl hli hpl) hsame

/-- A new table changes the presence of no page. -/
theorem isPagePresent_withTable (h : TablesApart s) (hf : f &&& i86PteFrame = f)
    (hnot : NotTable s f) (hzero : f ≠ 0#32) (hflags : flags &&& i86PteFrame = 0#32)
    (hi : i < 1024) (habsent : pdEntryIsPresent (pdEntry s i) = false) :
    vmmngrIsPagePresent (MeOS.withTable s a i f flags) v = vmmngrIsPagePresent s v := by
  have hapart := h.withTable (a := a) hf hnot hzero hflags hi
  have hframe := tableFrame_withTable (a := a) h hf hnot.1 hflags hi
    (pageDirIndex_lt (x := v))
  by_cases hvi : pageDirIndex v = i
  · -- the pages of the new table are absent before and after
    rw [Bool.eq_iff_iff, isPagePresent_eq h.dir, isPagePresent_eq hapart.dir]
    rw [if_pos hvi] at hframe
    rw [ptEntry_withTable h hf hi pageTableIndex_lt (by rw [hframe]; exact hnot.1),
      if_pos hframe]
    constructor
    · intro ⟨_, _, hp⟩
      exact absurd hp (by decide)
    · intro ⟨hp, _, _⟩
      rw [hvi, habsent] at hp
      cases hp
  · rw [if_neg hvi] at hframe
    apply isPagePresent_congr h.dir withTable_dir
    · rw [pdEntry_withTable h hf hnot.1 hi pageDirIndex_lt, if_neg hvi]
    · intro hp
      have hother := hnot.2 _ pageDirIndex_lt hp
      have hdir := h.notDir _ pageDirIndex_lt hp
      rw [ptEntry_withTable h hf hi pageTableIndex_lt (by rwa [hframe]), hframe, if_neg hother]
      rfl

/-- A new table changes the translation of no page that has a table of its own. -/
theorem getPhysAddr_withTable (h : TablesApart s) (hf : f &&& i86PteFrame = f)
    (hnot : NotTable s f) (hflags : flags &&& i86PteFrame = 0#32) (hi : i < 1024)
    (hvi : pageDirIndex v ≠ i) (hdir : tableFrame s (pageDirIndex v) ≠ s.currentDirectory)
    (hother : tableFrame s (pageDirIndex v) ≠ f) :
    vmmngrGetPhysAddr (MeOS.withTable s a i f flags) v = vmmngrGetPhysAddr s v := by
  have hframe := tableFrame_withTable (a := a) h hf hnot.1 hflags hi
    (pageDirIndex_lt (x := v))
  rw [if_neg hvi] at hframe
  apply getPhysAddr_congr h.dir withTable_dir hframe
  intro _
  rw [ptEntry_withTable h hf hi pageTableIndex_lt (by rwa [hframe]), hframe, if_neg hother]
  rfl

/-- The pages of the new table have no frame. -/
theorem getPhysAddr_newTable (h : TablesApart s) (hf : f &&& i86PteFrame = f)
    (hnot : NotTable s f) (hzero : f ≠ 0#32) (hflags : flags &&& i86PteFrame = 0#32)
    (hi : i < 1024) (hvi : pageDirIndex v = i) :
    vmmngrGetPhysAddr (MeOS.withTable s a i f flags) v = v &&& 0xfff#32 := by
  have hframe := tableFrame_withTable (a := a) h hf hnot.1 hflags hi
    (pageDirIndex_lt (x := v))
  rw [if_pos hvi] at hframe
  rw [getPhysAddr_eq (by exact h.dir) (by rwa [hframe]),
    ptEntry_withTable h hf hi pageTableIndex_lt (by rw [hframe]; exact hnot.1), if_pos hframe]
  unfold ptEntryGetFrame
  rw [BitVec.zero_and, BitVec.zero_add]

end Entries

/-! ## `vmmngr_map_page` -/

section Map

variable {s s' : VmState} {v virt phys flags : BitVec 32}

/-- The frame allocator returns frame addresses. -/
theorem allocBlock_aligned {p p' : PhysState} {addr : Nat}
    (h : pmmngrAllocBlock p = (p', addr)) : addr < 4294967296 ∧ addr % 4096 = 0 := by
  unfold pmmngrAllocBlock at h
  by_cases hcount : pmmngrGetFreeBlockCount p ≤ 0
  · rw [if_pos hcount] at h
    cases h
    exact ⟨by decide, rfl⟩
  · rw [if_neg hcount] at h
    by_cases hframe : mmapFirstFree p = 0
    · simp only [if_pos hframe] at h
      cases h
      exact ⟨by decide, rfl⟩
    · simp only [if_neg hframe] at h
      cases h
      refine ⟨mul32_lt _ _, ?_⟩
      unfold mul32
      simp only [pmmngrBlockSize]
      omega

theorem ofNat_frame {addr : Nat} (hlt : addr < 4294967296) (hmod : addr % 4096 = 0) :
    BitVec.ofNat 32 addr &&& i86PteFrame = BitVec.ofNat 32 addr := by
  apply frame_of_toNat_mod
  rw [BitVec.toNat_ofNat, Nat.mod_eq_of_lt hlt, hmod]

theorem ofNat_ne_zero {addr : Nat} (hlt : addr < 4294967296) (hne : addr ≠ 0) :
    BitVec.ofNat 32 addr ≠ 0#32 := by
  intro h
  have := congrArg BitVec.toNat h
  rw [BitVec.toNat_ofNat, Nat.mod_eq_of_lt hlt] at this
  exact hne this

/-- `vmmngr_create_table` for an absent entry of the current directory. -/
theorem createTable_eq (h : TablesApart s)
    (habsent : pdEntryIsPresent (pdEntry s (pageDirIndex virt)) = false) :
    vmmngrCreateTable s s.currentDirectory virt flags =
      if (pmmngrAllocBlock s.phys).2 = 0 then
        ({ s with phys := (pmmngrAllocBlock s.phys).1 }, .occur)
      else
        (withTable s (pmmngrAllocBlock s.phys).1 (pageDirIndex virt)
          (BitVec.ofNat 32 (pmmngrAllocBlock s.phys).2) flags, .ok) := by
  unfold vmmngrCreateTable
  rw [lookupDirectory h.dir]
  dsimp only
  rw [if_pos (by exact habsent)]
  by_cases hzero : (pmmngrAllocBlock s.phys).2 = 0
  · rw [if_pos hzero, if_pos hzero]
  · rw [if_neg hzero, if_neg hzero]
    have hlt := (allocBlock_aligned (Prod.eta (pmmngrAllocBlock s.phys)).symm).1
    have hnat : (BitVec.ofNat 32 (pmmngrAllocBlock s.phys).2).toNat =
        (pmmngrAllocBlock s.phys).2 := by
      rw [BitVec.toNat_ofNat, Nat.mod_eq_of_lt hlt]
    rw [store_store, store_self]
    unfold withTable
    rw [hnat]
    rfl

/-- The entry is written in the table that the lookup finds. -/
theorem mapInTable_lookup (s : VmState) (e : Nat) (phys virt flags : BitVec 32) :
    mapInTable s e phys virt flags =
      (vmmngrPtableLookupEntry (pdEntryGetFrame (s.memory e)) virt).elim (s, .occur) fun page =>
        ((s.store page (s.memory page ||| flags)).store page
          (ptEntrySetFrame ((s.store page (s.memory page ||| flags)).memory page) phys), .ok) := by
  unfold mapInTable
  rcases vmmngrPtableLookupEntry _ virt with _ | page <;> rfl

/-- What is written to the entry of the page. -/
theorem mapInTable_eq (ht : tableFrame s (pageDirIndex virt) ≠ 0#32) :
    mapInTable s (s.currentDirectory.toNat + 4 * pageDirIndex virt) phys virt flags =
      (storeEntry s (pageDirIndex virt) (pageTableIndex virt)
        (ptEntrySetFrame (ptEntry s (pageDirIndex virt) (pageTableIndex virt) ||| flags) phys),
        .ok) := by
  rw [mapInTable_lookup]
  change (vmmngrPtableLookupEntry (tableFrame s (pageDirIndex virt)) virt).elim _ _ = _
  rw [lookupTable ht, Option.elim_some, store_store, store_self]
  rfl

theorem pdEntryTestAttrib_present {e : BitVec 32} :
    pdEntryTestAttrib e i86PtePresent = pdEntryIsPresent e := by
  have hbit : e &&& i86PtePresent = 0#32 ∨ e &&& i86PtePresent = 1#32 := by
    have hmod : (e &&& i86PtePresent).toNat = e.toNat % 2 := by
      rw [BitVec.toNat_and]
      exact Nat.and_two_pow_sub_one_eq_mod _ 1
    rcases Nat.mod_two_eq_zero_or_one e.toNat with h | h
    · exact Or.inl (BitVec.eq_of_toNat_eq (hmod.trans h))
    · exact Or.inr (BitVec.eq_of_toNat_eq (hmod.trans h))
  unfold pdEntryTestAttrib pdEntryIsPresent
  rcases hbit with h | h
  · rw [h]
    decide
  · rw [h]
    decide

/-- `vmmngr_map_page` when the table exists. -/
theorem mapPage_present (h : TablesApart s)
    (hp : pdEntryIsPresent (pdEntry s (pageDirIndex virt)) = true) :
    vmmngrMapPage s s.currentDirectory phys virt flags =
      .ret (storeEntry s (pageDirIndex virt) (pageTableIndex virt)
        (ptEntrySetFrame (ptEntry s (pageDirIndex virt) (pageTableIndex virt) ||| flags) phys),
        .ok) := by
  unfold vmmngrMapPage
  rw [lookupDirectory h.dir]
  dsimp only
  rw [if_neg, mapInTable_eq (h.nonzero _ pageDirIndex_lt hp)]
  rw [pdEntryTestAttrib_present]
  unfold pdEntry at hp
  rw [hp]
  decide

/-- `vmmngr_map_page` when there is no table. -/
theorem mapPage_absent (phys : BitVec 32) (h : TablesApart s) (hflags : flags &&& i86PteFrame = 0#32)
    (habsent : pdEntryIsPresent (pdEntry s (pageDirIndex virt)) = false)
    {ps : PhysState} {addr : Nat} (halloc : pmmngrAllocBlock s.phys = (ps, addr))
    (hnot : addr ≠ 0 → NotTable s (BitVec.ofNat 32 addr)) :
    vmmngrMapPage s s.currentDirectory phys virt flags =
      if addr = 0 then .ret ({ s with phys := ps }, .occur)
      else
        let t := withTable s ps (pageDirIndex virt) (BitVec.ofNat 32 addr) flags
        .ret (storeEntry t (pageDirIndex virt) (pageTableIndex virt)
          (ptEntrySetFrame (ptEntry t (pageDirIndex virt) (pageTableIndex virt) ||| flags) phys),
          .ok) := by
  unfold vmmngrMapPage
  rw [lookupDirectory h.dir]
  dsimp only
  rw [if_pos, createTable_eq h habsent, halloc]
  · dsimp only
    by_cases hzero : addr = 0
    · rw [if_pos hzero, if_pos hzero]
    · rw [if_neg hzero, if_neg hzero]
      dsimp only
      rcases allocBlock_aligned halloc with ⟨hlt, hmod⟩
      rw [← mapInTable_eq]
      · rfl
      · rw [tableFrame_withTable h (ofNat_frame hlt hmod) (hnot hzero).1 hflags pageDirIndex_lt
          pageDirIndex_lt, if_pos rfl]
        exact ofNat_ne_zero hlt hzero
  · rw [pdEntryTestAttrib_present]
    exact habsent

/-- The entry written for the page is present and has the frame. -/
theorem setFrame_spec {x : BitVec 32} (hphys : phys &&& 0xfff#32 = 0#32)
    (hpresent : flags &&& i86PtePresent = i86PtePresent) :
    ptEntryIsPresent (ptEntrySetFrame (x ||| flags) phys) = true ∧
      ptEntryGetFrame (ptEntrySetFrame (x ||| flags) phys) = phys := by
  have hframe := frame_of_offset hphys
  constructor
  · unfold ptEntryIsPresent ptEntrySetFrame
    rw [and_set hframe (by decide), or_and_of_le hpresent]
    decide
  · exact get_set hframe

/-- `vmmngr_map_page` maps the page and no other one. When it makes a table, the other pages
of that table stay absent, and translate to their offset. -/
theorem vmmngrMapPage_maps (h : TablesApart s) (hphys : phys &&& 0xfff#32 = 0#32)
    (hflags : flags < 0x1000#32) (hpresent : flags &&& i86PtePresent = i86PtePresent)
    (halloc : ∀ ps addr, pmmngrAllocBlock s.phys = (ps, addr) → addr ≠ 0 →
      NotTable s (BitVec.ofNat 32 addr)) :
    ∃ s' r, vmmngrMapPage s s.currentDirectory phys virt flags = .ret (s', r) ∧
      s'.currentDirectory = s.currentDirectory ∧ TablesApart s' ∧
      (r = .ok → ∀ v : BitVec 32,
        (v >>> 12 = virt >>> 12 → vmmngrIsPagePresent s' v = true ∧
          vmmngrGetPhysAddr s' v = phys + (v &&& 0xfff#32)) ∧
        (v >>> 12 ≠ virt >>> 12 → vmmngrIsPagePresent s' v = vmmngrIsPagePresent s v ∧
          (pdEntryIsPresent (pdEntry s (pageDirIndex v)) = true ∨
              pageDirIndex v ≠ pageDirIndex virt ∧
              tableFrame s (pageDirIndex v) ≠ s.currentDirectory ∧
              tableFrame s (pageDirIndex v) ≠ tableFrame s' (pageDirIndex virt) →
            vmmngrGetPhysAddr s' v = vmmngrGetPhysAddr s v) ∧
          (pdEntryIsPresent (pdEntry s (pageDirIndex v)) = false →
            pageDirIndex v = pageDirIndex virt → vmmngrGetPhysAddr s' v = v &&& 0xfff#32))) ∧
      (r = .occur → ∀ v, vmmngrIsPagePresent s' v = vmmngrIsPagePresent s v ∧
        vmmngrGetPhysAddr s' v = vmmngrGetPhysAddr s v) := by
  have hfl := flags_frame hflags
  cases hp : pdEntryIsPresent (pdEntry s (pageDirIndex virt)) with
  | true =>
    -- the table is there, and one entry of it changes
    refine ⟨_, _, mapPage_present h hp, rfl, h.stored pageDirIndex_lt pageTableIndex_lt hp, ?_,
      fun hr => ErrorT.noConfusion hr⟩
    intro _ v
    constructor
    · intro hsame
      rw [(storeEntry_self h hp hsame).1, (storeEntry_self h hp hsame).2]
      refine ⟨(setFrame_spec hphys hpresent).1, ?_⟩
      rw [(setFrame_spec hphys hpresent).2]
    · intro hne
      refine ⟨isPagePresent_storeEntry h hp hne, ?_, ?_⟩
      · intro hv
        apply getPhysAddr_storeEntry h hp hne
        rcases hv with hpv | ⟨_, _, hother⟩
        · exact Or.inl hpv
        · right
          unfold tableFrame at hother ⊢
          rwa [pdEntry_storeEntry h pageDirIndex_lt pageTableIndex_lt hp pageDirIndex_lt] at hother
      · intro habsent hidx
        rw [hidx, hp] at habsent
        cases habsent
  | false =>
    -- a frame is taken for the table, and the entry is stored in it
    obtain ⟨ps, addr, hal⟩ : ∃ ps addr, pmmngrAllocBlock s.phys = (ps, addr) := ⟨_, _, rfl⟩
    have heq := mapPage_absent phys h hfl hp hal (halloc ps addr hal)
    by_cases hzero : addr = 0
    · rw [if_pos hzero] at heq
      -- no frame is left
      exact ⟨_, _, heq, rfl, h.congr rfl fun _ _ => rfl, fun hr => ErrorT.noConfusion hr,
        fun _ v => ⟨rfl, rfl⟩⟩
    · rw [if_neg hzero] at heq
      rcases allocBlock_aligned hal with ⟨hlt, hmod⟩
      have hf := ofNat_frame hlt hmod
      have hnot := halloc ps addr hal hzero
      have hne0 := ofNat_ne_zero hlt hzero
      have hi := pageDirIndex_lt (x := virt)
      have ht := h.withTable (a := ps) hf hnot hne0 hfl hi
      have htp := present_withTable (a := ps) h hf hnot.1 hpresent hi
      refine ⟨_, _, heq, rfl, ht.stored pageDirIndex_lt pageTableIndex_lt htp, ?_,
        fun hr => ErrorT.noConfusion hr⟩
      intro _ v
      constructor
      · intro hsame
        rw [(storeEntry_self ht htp hsame).1, (storeEntry_self ht htp hsame).2]
        refine ⟨(setFrame_spec hphys hpresent).1, ?_⟩
        rw [(setFrame_spec hphys hpresent).2]
      · intro hne
        -- the new table goes into one directory entry and leaves the other tables where they are
        have hframe := tableFrame_withTable (a := ps) h hf hnot.1 hfl hi
          (pageDirIndex_lt (x := v))
        have hself := tableFrame_withTable (a := ps) h hf hnot.1 hfl hi hi
        rw [if_pos rfl] at hself
        refine ⟨?_, ?_, ?_⟩
        · rw [isPagePresent_storeEntry ht htp hne]
          exact isPagePresent_withTable h hf hnot hne0 hfl hi hp
        · intro hv
          rcases hv with hpv | ⟨hidx, hdir, hother⟩
          · have hidx : pageDirIndex v ≠ pageDirIndex virt := by
              intro hidx
              rw [hidx, hp] at hpv
              cases hpv
            rw [if_neg hidx] at hframe
            have hfv := hnot.2 _ pageDirIndex_lt hpv
            rw [getPhysAddr_storeEntry ht htp hne (Or.inr (by rwa [hframe, hself]))]
            exact getPhysAddr_withTable h hf hnot hfl hi hidx
              (h.notDir _ pageDirIndex_lt hpv) hfv
          · rw [if_neg hidx] at hframe
            have hfv : tableFrame s (pageDirIndex v) ≠ BitVec.ofNat 32 addr := by
              unfold tableFrame at hother hself ⊢
              rwa [pdEntry_storeEntry ht hi pageTableIndex_lt htp hi, hself] at hother
            rw [getPhysAddr_storeEntry ht htp hne (Or.inr (by rwa [hframe, hself]))]
            exact getPhysAddr_withTable h hf hnot hfl hi hidx hdir hfv
        · intro _ hidx
          rw [getPhysAddr_storeEntry ht htp hne (Or.inl (by rw [hidx]; exact htp))]
          exact getPhysAddr_newTable h hf hnot hne0 hfl hi hidx

/-- A directory without tables at 0x1000; frames 0 and 1 of 64 are in use. -/
def emptySpace : VmState where
  phys := ⟨256, 2, 64, fun i => if i = 0 then 3#32 else 0#32⟩
  memory _ := 0#32
  currentDirectory := 0x1000#32

theorem emptySpace_absent (i : Nat) : pdEntryIsPresent (pdEntry emptySpace i) ≠ true := by
  unfold pdEntry emptySpace
  dsimp only
  decide

theorem emptySpace_apart : TablesApart emptySpace where
  dir := by decide
  aligned := by decide
  nonzero := fun i _ hp => absurd hp (emptySpace_absent i)
  notDir := fun i _ hp => absurd hp (emptySpace_absent i)
  apart := fun i _ _ _ hp => absurd hp (emptySpace_absent i)

theorem emptySpace_alloc : ∀ ps addr, pmmngrAllocBlock emptySpace.phys = (ps, addr) → addr ≠ 0 →
    NotTable emptySpace (BitVec.ofNat 32 addr) := by
  intro ps addr h _
  have haddr : addr = 0x2000 := by
    have : (pmmngrAllocBlock emptySpace.phys).2 = 0x2000 := by decide
    rw [← this, h]
  rw [haddr]
  exact ⟨by decide, fun i _ hp => absurd hp (emptySpace_absent i)⟩

/-- Mapping page 0 of the empty space at 0x5000. -/
theorem vmmngrMapPage_maps_first : ∃ s' r,
    vmmngrMapPage emptySpace emptySpace.currentDirectory 0x5000#32 0#32 3#32 = .ret (s', r) ∧
      TablesApart s' ∧ (r = .ok → vmmngrGetPhysAddr s' 0x123#32 = 0x5123#32) := by
  have hphys : 0x5000#32 &&& 0xfff#32 = 0#32 := by decide
  have hflags : 3#32 < 0x1000#32 := by decide
  have hpresent : 3#32 &&& i86PtePresent = i86PtePresent := by decide
  rcases @vmmngrMapPage_maps _ 0#32 _ _ emptySpace_apart hphys hflags hpresent emptySpace_alloc
    with ⟨s', r, heq, _, hapart, hok, _⟩
  exact ⟨s', r, heq, hapart, fun hr => ((hok hr 0x123#32).1 (by decide)).2⟩

/-- The other pages of the new table translate to their offset instead of 0. -/
theorem vmmngrMapPage_moves_absent : ∃ (s : VmState) (phys virt flags v : BitVec 32)
    (s' : VmState), TablesApart s ∧
    phys &&& 0xfff#32 = 0#32 ∧ flags < 0x1000#32 ∧ flags &&& i86PtePresent = i86PtePresent ∧
    (∀ ps addr, pmmngrAllocBlock s.phys = (ps, addr) → addr ≠ 0 →
      NotTable s (BitVec.ofNat 32 addr)) ∧
    vmmngrMapPage s s.currentDirectory phys virt flags = .ret (s', .ok) ∧
    v >>> 12 ≠ virt >>> 12 ∧ vmmngrGetPhysAddr s' v ≠ vmmngrGetPhysAddr s v :=
  ⟨emptySpace, 0x5000#32, 0#32, 3#32, 0x1004#32, _, emptySpace_apart, by decide, by decide,
    by decide, emptySpace_alloc, rfl, by decide, by decide⟩

end Map

end MeOS
