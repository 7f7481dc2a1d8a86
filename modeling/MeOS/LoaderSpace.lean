import MeOS.BootMemory
import MeOS.KernelSpace

/-! # The loader's address space

The loader builds a directory of its own before the kernel does, from memory that
`kalloc` hands out and never takes back. Both map the first 4 MB and the start of
the image in the same way, so the kernel can change to its own directory while it
runs.
-/

namespace MeOS.Ldr

open MeOS WordFields

/-! ## `kalloc.c` -/

/-- The words of the memory by their addresses, the variables of `kalloc.c`, and `cr3`. -/
structure LdrState where
  memory : Nat → BitVec 32
  alloced : Nat
  maxAddr : Nat
  cr3 : BitVec 32

/-- `kalloc`; 0 when there is no room. -/
def kalloc (s : LdrState) (size : Nat) : LdrState × Nat :=
  if add32 s.alloced size ≥ s.maxAddr then (s, 0)
  else ({ s with alloced := add32 s.alloced size }, s.alloced)

/-- `kalloc_a`. -/
def kallocA (s : LdrState) (size align : Nat) : LdrState × Nat :=
  let alignCost := align - s.alloced % align
  if alignCost ≠ align then
    let (s, p) := kalloc s alignCost
    if p = 0 then (s, 0) else kalloc s size
  else
    kalloc s size

/-! ## `mmngr_virtual.c` -/

/-- `vmmngr_map_page`. The table is not checked: a null one is written through. -/
def vmmngrMapPage (s : LdrState) (dir phys virt : BitVec 32) : Outcome LdrState :=
  match vmmngrPdirectoryLookupEntry dir virt with
  | none => .undefined
  | some e =>
    match vmmngrPtableLookupEntry (s.memory e &&& i86PteFrame) virt with
    | none => .undefined
    | some page => .ret { s with memory := Function.update s.memory page (defaultFlags ||| phys) }

/-- `vmmngr_create_table`. -/
def vmmngrCreateTable (s : LdrState) (dir addr flags : BitVec 32) : Outcome (LdrState × Bool) :=
  match vmmngrPdirectoryLookupEntry dir addr with
  | none => .undefined
  | some entry =>
    if s.memory entry &&& 1#32 ≠ 1#32 then
      let (s, table) := kallocA s 4096 4096
      if table = 0 then
        .ret (s, false) -- not enough memory
      else
        let memory := fun p => if table ≤ p ∧ p < table + 4096 then 0#32 else s.memory p
        let memory := Function.update memory entry (BitVec.ofNat 32 table ||| flags)
        .ret ({ s with memory := memory }, true)
    else
      .ret (s, false)

/-- The loops of `vmmngr_initialize`. -/
def mapRange (dir : BitVec 32) : Nat → BitVec 32 → BitVec 32 → LdrState → Outcome LdrState
  | 0, _, _, s => .ret s
  | n + 1, phys, virt, s => do
    let s ← vmmngrMapPage s dir phys virt
    mapRange dir n (phys + 4096#32) (virt + 4096#32) s

/-- `vmmngr_initialize`. -/
def vmmngrInitialize (s : LdrState) : Outcome LdrState := do
  let (s, pdir) := kallocA s 4096 4096
  if pdir = 0 then .panic
  else
    let dir := BitVec.ofNat 32 pdir
    let s := { s with
      memory := fun p => if pdir ≤ p ∧ p < pdir + 4096 then 0#32 else s.memory p }
    let (s, _) ← vmmngrCreateTable s dir 0#32 defaultFlags
    let s ← mapRange dir 1024 0#32 0#32 s
    let (s, _) ← vmmngrCreateTable s dir 0xC0000000#32 defaultFlags
    let s ← mapRange dir 1024 0x100000#32 0xC0000000#32 s
    return { s with cr3 := dir }

/-! ## The loader's memory as the kernel's model sees it -/

/-- An allocator that has given everything away. -/
def allUsed : PhysState := ⟨0, 0, 1048576, fun _ => BitVec.allOnes 32⟩

/-- The memory of the loader. -/
def LdrState.view (s : LdrState) : VmState := ⟨allUsed, s.memory, s.cr3⟩

section Loader

variable {s s' : LdrState} {dir phys virt v : BitVec 32} {n a b : Nat}

theorem allUsed_test : mmapTest allUsed b = true := by
  rw [mmapTest_eq]
  unfold Bitmap.bit allUsed
  dsimp only
  rw [BitVec.getLsbD_allOnes]
  exact decide_eq_true (Nat.mod_lt b (by decide))

/-- The next multiple of 4096. -/
def pageUp (a : Nat) : Nat := (a + 4095) / 4096 * 4096

theorem pageUp_aligned (h : a % 4096 = 0) : pageUp a = a := by
  unfold pageUp
  omega

/-- With room, `kalloc_a` returns the next page. -/
theorem kallocA_page (hpos : 0 < s.alloced) (hroom : pageUp s.alloced + 4096 < s.maxAddr)
    (hmax : s.maxAddr ≤ 4294967296) : kallocA s 4096 4096 =
      ({ s with alloced := pageUp s.alloced + 4096 }, pageUp s.alloced) := by
  unfold pageUp at hroom ⊢
  unfold kallocA kalloc
  by_cases hmod : s.alloced % 4096 = 0
  · rw [if_neg (by omega), if_neg (by rw [add32_eq (by omega)]; omega), add32_eq (by omega),
      show (s.alloced + 4095) / 4096 * 4096 = s.alloced by omega]
  · have hcost : add32 s.alloced (4096 - s.alloced % 4096) =
        (s.alloced + 4095) / 4096 * 4096 := by
      rw [add32_eq (by omega)]
      omega
    rw [if_pos (by omega), if_neg (by rw [hcost]; omega)]
    dsimp only
    rw [if_neg (by omega), hcost, if_neg (by rw [add32_eq (by omega)]; omega),
      add32_eq (by omega)]

/-- A page is written in the table that the directory names. -/
theorem mapPage_store (phys : BitVec 32) (hdir : dir ≠ 0#32)
    (htable : pdEntryGetFrame (dirEntry s.view dir virt) ≠ 0#32) :
    ∃ s', vmmngrMapPage s dir phys virt = .ret s' ∧ s'.alloced = s.alloced ∧
      s'.maxAddr = s.maxAddr ∧
      s'.view =
        s.view.store (pageSlot (dirEntry s.view dir virt) virt) (defaultFlags ||| phys) := by
  have hlookup : vmmngrPdirectoryLookupEntry dir virt = some (dir.toNat + 4 * pageDirIndex virt) :=
    if_pos hdir
  let page := pageSlot (dirEntry s.view dir virt) virt
  refine ⟨{ s with memory := Function.update s.memory page (defaultFlags ||| phys) }, ?_, rfl,
    rfl, rfl⟩
  unfold vmmngrMapPage
  rw [hlookup]
  dsimp only
  rw [show s.memory (dir.toNat + 4 * pageDirIndex virt) &&& i86PteFrame =
    pdEntryGetFrame (dirEntry s.view dir virt) from rfl, lookupTable htable]
  rfl

/-- The entry that the loader writes. -/
theorem entry_spec (hphys : phys &&& 0xfff#32 = 0#32) :
    ptEntryIsPresent (defaultFlags ||| phys) = true ∧
      ptEntryGetFrame (defaultFlags ||| phys) = phys := by
  rw [BitVec.or_comm]
  constructor
  · exact ptEntryIsPresent_iff.mpr (or_and_of_le (by decide))
  · unfold ptEntryGetFrame
    rw [get_or (by decide)]
    exact frame_of_offset hphys

/-- One round of the loop. -/
theorem mapPage_spec (h : SpacesOk [dir] s.view)
    (hp : pdEntryIsPresent (dirEntry s.view dir virt) = true) (hphys : phys.toNat % 4096 = 0) :
    ∃ s', vmmngrMapPage s dir phys virt = .ret s' ∧ s'.alloced = s.alloced ∧
      s'.maxAddr = s.maxAddr ∧ SpacesOk [dir] s'.view ∧
      (∀ v, dirEntry s'.view dir v = dirEntry s.view dir v) ∧
      (∀ v : BitVec 32, v >>> 12 = virt >>> 12 →
        translate s'.view dir v = some (phys + (v &&& 0xfff#32))) ∧
      ∀ v : BitVec 32, v >>> 12 ≠ virt >>> 12 →
        translate s'.view dir v = translate s.view dir v := by
  have hdir : dir ∈ [dir] := List.mem_singleton_self dir
  obtain ⟨s', hret, halloc, hmax, hview⟩ := mapPage_store phys (h.dir dir hdir).1
    (h.table dir hdir virt hp).1
  obtain ⟨hok, hkept⟩ := h.storePage hdir hp (defaultFlags ||| phys)
  have hentry : ∀ v, dirEntry s'.view dir v = dirEntry s.view dir v := by
    intro v
    rw [hview]
    exact dirEntry_storePage h hdir hp hdir
  refine ⟨s', hret, halloc, hmax, by rwa [hview], hentry, fun v hv => ?_, fun v hv => ?_⟩
  · have hpv : pdEntryIsPresent (dirEntry s.view dir v) = true := by
      rwa [dirEntry_of_index (samePage_iff.mp hv).1]
    have hpage : pageEntry s'.view dir v = defaultFlags ||| phys := by
      rw [hview]
      exact (pageEntry_storePage h hdir hp hdir hpv).1 ⟨hv, Or.inl rfl⟩
    obtain ⟨hpres, hframe⟩ := entry_spec (aligned_iff.mpr hphys)
    rw [translate_of_present (by rwa [hentry]) (by rwa [hpage]), hpage, hframe]
  · rw [hview]
    exact hkept.page dir hdir v fun htouch => hv htouch.1

/-- The loop maps its range when the range is in one table. -/
theorem mapRange_spec (phys virt : BitVec 32) (h : SpacesOk [dir] s.view)
    (hphys : phys.toNat % 4096 = 0) (hvirt : virt.toNat % 4096 = 0)
    (hone : virt.toNat % 4194304 + 4096 * n ≤ 4194304)
    (hp : 0 < n → pdEntryIsPresent (dirEntry s.view dir virt) = true) :
    ∃ s', mapRange dir n phys virt s = .ret s' ∧ SpacesOk [dir] s'.view ∧
      s'.alloced = s.alloced ∧ s'.maxAddr = s.maxAddr ∧
      (∀ v, dirEntry s'.view dir v = dirEntry s.view dir v) ∧
      ∀ v, translate s'.view dir v =
        if virt.toNat ≤ v.toNat ∧ v.toNat < virt.toNat + 4096 * n then some (phys + (v - virt))
        else translate s.view dir v := by
  induction n generalizing s phys virt with
  | zero =>
    refine ⟨s, rfl, h, rfl, rfl, fun _ => rfl, fun v => ?_⟩
    rw [if_neg (by omega)]
  | succ n ih =>
    have hpresent := hp (Nat.succ_pos n)
    obtain ⟨t, hmap, halloc, hmax, hok, hentry, hmapped, hother⟩ := mapPage_spec h hpresent hphys
    have hlt := virt.isLt
    have hphys' : (phys + 4096#32).toNat % 4096 = 0 := by
      rw [BitVec.toNat_add, show (4096#32).toNat = 4096 from rfl]
      omega
    have hnext : (virt + 4096#32).toNat = (virt.toNat + 4096) % 4294967296 := by
      rw [BitVec.toNat_add]
      rfl
    have hvirt' : (virt + 4096#32).toNat % 4096 = 0 := by omega
    have hone' : (virt + 4096#32).toNat % 4194304 + 4096 * n ≤ 4194304 := by omega
    -- the next page, if there is one, is in the same table
    have hp' : 0 < n → pdEntryIsPresent (dirEntry t.view dir (virt + 4096#32)) = true := by
      intro hn
      have hidx : pageDirIndex (virt + 4096#32) = pageDirIndex virt := by
        rw [pageDirIndex_eq, pageDirIndex_eq]
        omega
      rw [hentry, dirEntry_of_index hidx]
      exact hpresent
    obtain ⟨s', hrest, hok', halloc', hmax', hentry', htrans⟩ := ih _ _ hok hphys' hvirt' hone' hp'
    refine ⟨s', ?_, hok', halloc'.trans halloc, hmax'.trans hmax,
      fun v => (hentry' v).trans (hentry v), fun v => ?_⟩
    · unfold mapRange
      rw [hmap]
      exact hrest
    rw [htrans v]
    have hv := v.isLt
    by_cases hfirst : v >>> 12 = virt >>> 12
    · -- the page that this round maps
      have hnat := samePage_toNat.mp hfirst
      rw [if_neg (by omega), if_pos (by omega), hmapped v hfirst,
        offset_of_first hvirt hfirst]
    · have hnat := mt samePage_toNat.mpr hfirst
      rw [hother v hfirst]
      by_cases hin : virt.toNat ≤ v.toNat ∧ v.toNat < virt.toNat + 4096 * (n + 1)
      · rw [if_pos (by omega), if_pos hin, add_sub_shift]
      · rw [if_neg (by omega), if_neg hin]

/-! ## A new table -/

theorem view_take {m : Nat → BitVec 32} {d : BitVec 32} (h : SpacesOk [dir] ⟨allUsed, m, d⟩)
    (hb : b * pmmngrBlockSize ≠ dir.toNat) (hfree : ∀ v,
      pdEntryIsPresent (dirEntry ⟨allUsed, m, d⟩ dir v) = true →
        (pdEntryGetFrame (dirEntry ⟨allUsed, m, d⟩ dir v)).toNat ≠ b * pmmngrBlockSize) :
    SpacesOk [dir] ⟨allUsed.give b, m, d⟩ := by
  have hused : ∀ f : BitVec 32, f &&& i86PteFrame = f → f.toNat ≠ b * pmmngrBlockSize →
      frameUsed ⟨allUsed.give b, m, d⟩ f := by
    intro f hf hne
    have hmod := frame_toNat_mod hf
    unfold frameUsed
    dsimp only
    rw [mmapTest_give, allUsed_test, Bool.and_true]
    simp only [pmmngrBlockSize] at hne ⊢
    simpa using show ¬ f.toNat / 4096 = b by omega
  refine h.congr give_max (fun _ _ _ => rfl) (fun e he _ => ?_) (fun e he v hp _ => ?_)
  · rw [List.mem_singleton.mp he]
    exact hused dir (h.dir dir (List.mem_singleton_self dir)).2.1 hb.symm
  · rw [List.mem_singleton.mp he] at hp ⊢
    exact hused _ frame_frame (hfree v hp)

/-- The directory and its tables are memory that `kalloc` has handed out. -/
def Below (s : LdrState) (dir : BitVec 32) : Prop :=
  dir.toNat < s.alloced ∧ ∀ v, pdEntryIsPresent (dirEntry s.view dir v) = true →
    (pdEntryGetFrame (dirEntry s.view dir v)).toNat < s.alloced

/-- The walk only reads the memory. -/
theorem translate_of_memory {s t : VmState} (h : t.memory = s.memory) :
    translate t dir v = translate s dir v := by
  unfold translate pageEntry dirEntry
  rw [h]

/-- The table that `vmmngr_create_table` makes is empty, and in memory of its own. -/
theorem createTable_spec (virt : BitVec 32) (h : SpacesOk [dir] s.view) (hbelow : Below s dir)
    (hzero : dirEntry s.view dir virt = 0#32) (hroom : pageUp s.alloced + 4096 < s.maxAddr)
    (hmax : s.maxAddr ≤ 4294967296) :
    ∃ s', vmmngrCreateTable s dir virt defaultFlags = .ret (s', true) ∧
      s'.alloced = pageUp s.alloced + 4096 ∧ s'.maxAddr = s.maxAddr ∧
      SpacesOk [dir] s'.view ∧ Below s' dir ∧
      (∀ v, translate s'.view dir v = translate s.view dir v) ∧
      pdEntryIsPresent (dirEntry s'.view dir virt) = true ∧
      ∀ v, pageDirIndex v ≠ pageDirIndex virt →
        dirEntry s'.view dir v = dirEntry s.view dir v := by
  have hdir : dir ∈ [dir] := List.mem_singleton_self dir
  obtain ⟨hne, haligned, -⟩ := h.dir dir hdir
  obtain ⟨b, hb⟩ : ∃ b, pageUp s.alloced = b * pmmngrBlockSize := ⟨_, rfl⟩
  have hup : s.alloced ≤ pageUp s.alloced := by
    unfold pageUp
    omega
  have hlt : b < 1048576 := by
    simp only [pmmngrBlockSize] at hb
    omega
  have hpos : 0 < s.alloced := Nat.zero_lt_of_lt hbelow.1
  have hbpos : 0 < b := by
    simp only [pmmngrBlockSize] at hb
    omega
  have hnat : (BitVec.ofNat 32 (pageUp s.alloced)).toNat = pageUp s.alloced := by
    rw [hb, block_toNat hlt]
  -- the page is free in a view in which all the others are taken
  have hview : SpacesOk [dir] ⟨allUsed.give b, s.memory, s.cr3⟩ :=
    view_take h (by have := hbelow.1; omega) fun v hp => by
      have hlow : (pdEntryGetFrame (dirEntry ⟨allUsed, s.memory, s.cr3⟩ dir v)).toNat <
        s.alloced := hbelow.2 v hp
      omega
  have habsent : pdEntryIsPresent (dirEntry ⟨allUsed.give b, s.memory, s.cr3⟩ dir virt) =
      false := by
    rw [show dirEntry ⟨allUsed.give b, s.memory, s.cr3⟩ dir virt = 0#32 from hzero]
    decide
  have hfree : mmapTest (allUsed.give b) b = false := by simp
  have hin : b < (allUsed.give b).mmngrMaxBlocks := by
    rw [give_max]
    exact hlt
  have hentries := fun v => dirEntry_tableMade_of_mem (v := v) virt defaultFlags
    hview hdir hin hfree hdir
  obtain ⟨hok, hkept, hpresent, -⟩ :=
    hview.tableMade defaultFlags hdir hin hbpos hfree (by decide) (by decide) habsent
  let memory : Nat → BitVec 32 := Function.update
    (fun p => if pageUp s.alloced ≤ p ∧ p < pageUp s.alloced + 4096 then 0#32 else s.memory p)
    (dir.toNat + 4 * pageDirIndex virt) (BitVec.ofNat 32 (pageUp s.alloced) ||| defaultFlags)
  have hmem : memory =
      (tableMade ⟨allUsed.give b, s.memory, s.cr3⟩ dir virt defaultFlags b).memory := by
    have hother : dir ≠ BitVec.ofNat 32 (pageUp s.alloced) := by
      intro heq
      have hlow := hbelow.1
      rw [heq, hnat] at hlow
      omega
    have hold : (VmState.clear ⟨(allUsed.give b).take b, s.memory, s.cr3⟩
        (BitVec.ofNat 32 (pageUp s.alloced)).toNat 4096).memory
          (dir.toNat + 4 * pageDirIndex virt) = 0#32 := by
      rw [clear_slot (hb ▸ block_frame hlt) haligned pageDirIndex_lt, if_neg hother]
      exact hzero
    unfold tableMade VmState.store
    dsimp only
    rw [← hb, hold]
    unfold pdEntrySetFrame VmState.clear
    dsimp only
    rw [BitVec.zero_and, BitVec.zero_or, hnat]
  obtain ⟨next, hret, halloced, hmaxAddr, hnext⟩ : ∃ next : LdrState,
      vmmngrCreateTable s dir virt defaultFlags = .ret (next, true) ∧
        next.alloced = pageUp s.alloced + 4096 ∧ next.maxAddr = s.maxAddr ∧
        next.view = ⟨allUsed, memory, s.cr3⟩ := by
    refine ⟨⟨memory, pageUp s.alloced + 4096, s.maxAddr, s.cr3⟩, ?_, rfl, rfl, rfl⟩
    unfold vmmngrCreateTable
    rw [show vmmngrPdirectoryLookupEntry dir virt = some (dir.toNat + 4 * pageDirIndex virt) from
      if_pos hne]
    dsimp only
    rw [show s.memory (dir.toNat + 4 * pageDirIndex virt) = 0#32 from hzero, if_pos (by decide),
      kallocA_page hpos hroom hmax]
    dsimp only
    rw [if_neg (by omega)]
  have hsame : ∀ {d : BitVec 32} v, dirEntry next.view d v =
      dirEntry (tableMade ⟨allUsed.give b, s.memory, s.cr3⟩ dir virt defaultFlags b) d v := by
    intro d v
    rw [hnext]
    exact congrFun hmem _
  refine ⟨next, hret, halloced, hmaxAddr, ?_, ?_, ?_, ?_, ?_⟩
  · have hused : ∀ f, frameUsed next.view f := by
      intro f
      rw [hnext]
      exact allUsed_test
    refine hok.congr ?_ (fun _ _ v => hsame v) (fun d _ _ => hused d) (fun _ _ _ _ _ => hused _)
    rw [hnext]
    show 1048576 = ((allUsed.give b).take b).mmngrMaxBlocks
    rw [take_max, give_max]
    rfl
  · refine ⟨by have := hbelow.1; omega, fun v hp => ?_⟩
    rw [hsame, hentries] at hp ⊢
    rw [halloced]
    by_cases hslot : dir = dir ∧ pageDirIndex v = pageDirIndex virt
    · rw [if_pos hslot, (newEntry_spec (block_frame hlt) (by decide) (by decide)).1, ← hb, hnat]
      exact Nat.lt_add_of_pos_right (by decide)
    · rw [if_neg hslot] at hp ⊢
      exact (hbelow.2 v hp).trans_le (hup.trans (Nat.le_add_right _ _))
  · intro v
    rw [hnext, translate_of_memory (s := tableMade _ dir virt defaultFlags b) hmem]
    exact hkept.page dir hdir v not_false
  · rw [hsame]
    exact hpresent
  · intro v hv
    rw [hsame, hentries, if_neg fun hslot => hv hslot.2]
    rfl

/-! ## The directory of the loader -/

/-- A directory that has just been cleared. -/
theorem cleared_spec (hdir : dir ≠ 0#32) (haligned : dir &&& i86PteFrame = dir)
    (hzero : ∀ v, dirEntry s.view dir v = 0#32) :
    SpacesOk [dir] s.view ∧ ∀ v, translate s.view dir v = none := by
  have habsent : ∀ d ∈ [dir], ∀ v, pdEntryIsPresent (dirEntry s.view d v) ≠ true := by
    intro d hd v
    rw [List.mem_singleton.mp hd, hzero]
    decide
  have hsmall : s.view.phys.mmngrMaxBlocks ≤ 1048576 := Nat.le_refl _
  refine ⟨⟨hsmall, fun d hd => ?_, fun d hd v hp => absurd hp (habsent d hd v),
    fun d hd _ _ v _ hp => absurd hp (habsent d hd v)⟩, fun v => ?_⟩
  · rw [List.mem_singleton.mp hd]
    exact ⟨hdir, haligned, allUsed_test⟩
  · exact if_neg fun hboth => habsent dir (List.mem_singleton_self dir) v hboth.1

/-- With room for three pages the loader gets a directory in its own memory, which maps the first
4 MB and the first 1024 pages of the image. -/
theorem initialize_spec (hpos : 0 < s.alloced) (hroom : s.alloced + 16384 ≤ s.maxAddr)
    (hmax : s.maxAddr ≤ 4294967296) :
    ∃ s', vmmngrInitialize s = .ret s' ∧ s'.cr3.toNat < s.maxAddr ∧
      ∀ v, translate s'.view s'.cr3 v = kernelAddress 1024 v := by
  have hup : s.alloced ≤ pageUp s.alloced ∧ pageUp s.alloced < s.alloced + 4096 ∧
      pageUp s.alloced % 4096 = 0 := by
    unfold pageUp
    omega
  obtain ⟨dir, hdir⟩ : ∃ dir, dir = BitVec.ofNat 32 (pageUp s.alloced) := ⟨_, rfl⟩
  have hnat : dir.toNat = pageUp s.alloced := by
    rw [hdir, BitVec.toNat_ofNat, Nat.mod_eq_of_lt (by omega)]
  have haligned : dir &&& i86PteFrame = dir := frame_of_toNat_mod (by omega)
  have hne : dir ≠ 0#32 := by
    intro hzero
    rw [hzero, show (0#32).toNat = 0 from rfl] at hnat
    omega
  -- the directory, cleared
  obtain ⟨s₁, hs₁⟩ : ∃ s₁ : LdrState, s₁ = ⟨fun p =>
      if pageUp s.alloced ≤ p ∧ p < pageUp s.alloced + 4096 then 0#32 else s.memory p,
      pageUp s.alloced + 4096, s.maxAddr, s.cr3⟩ := ⟨_, rfl⟩
  have hzero : ∀ v, dirEntry s₁.view dir v = 0#32 := by
    intro v
    have hidx := pageDirIndex_lt (x := v)
    unfold dirEntry
    rw [hs₁, hnat]
    exact if_pos (by omega)
  obtain ⟨hok₁, hnone⟩ := cleared_spec hne haligned hzero
  have hbelow₁ : Below s₁ dir := by
    refine ⟨by rw [hs₁, hnat]; exact Nat.lt_add_of_pos_right (by decide), fun v hp => ?_⟩
    rw [hzero] at hp
    exact absurd hp (by decide)
  have halloc₁ : s₁.alloced = pageUp s.alloced + 4096 := by rw [hs₁]
  have hmax₁ : s₁.maxAddr = s.maxAddr := by rw [hs₁]
  have hup₁ : pageUp s₁.alloced = pageUp s.alloced + 4096 := by
    rw [halloc₁]
    exact pageUp_aligned (by omega)
  -- the table of the first 4 MB
  obtain ⟨s₂, hret₂, halloc₂, hmax₂, hok₂, hbelow₂, htrans₂, hp₂, hother₂⟩ :=
    createTable_spec 0#32 hok₁ hbelow₁ (hzero _) (by omega) (by omega)
  obtain ⟨s₃, hret₃, hok₃, halloc₃, hmax₃, hentry₃, htrans₃⟩ :=
    mapRange_spec (n := 1024) 0#32 0#32 hok₂ (by decide) (by decide)
      (by decide) (fun _ => hp₂)
  have hbelow₃ : Below s₃ dir := by
    refine ⟨by rw [halloc₃]; exact hbelow₂.1, fun v hp => ?_⟩
    rw [hentry₃] at hp ⊢
    rw [halloc₃]
    exact hbelow₂.2 v hp
  have hzero₃ : dirEntry s₃.view dir 0xC0000000#32 = 0#32 := by
    rw [hentry₃, hother₂ _ (by decide), hzero]
  have hup₃ : pageUp s₃.alloced = pageUp s.alloced + 8192 := by
    rw [halloc₃, halloc₂, hup₁]
    exact pageUp_aligned (by omega)
  -- the table of the image
  obtain ⟨s₄, hret₄, halloc₄, hmax₄, hok₄, -, htrans₄, hp₄, -⟩ :=
    createTable_spec 0xC0000000#32 hok₃ hbelow₃ hzero₃ (by omega) (by omega)
  obtain ⟨s₅, hret₅, -, -, -, -, htrans₅⟩ :=
    mapRange_spec (n := 1024) 0x100000#32 0xC0000000#32 hok₄ (by decide)
      (by decide) (by decide) (fun _ => hp₄)
  refine ⟨{ s₅ with cr3 := dir }, ?_, by rw [hnat]; omega, fun v => ?_⟩
  · unfold vmmngrInitialize
    rw [kallocA_page hpos (by omega) hmax]
    dsimp only
    rw [if_neg (by omega), ← hdir, ← hs₁, hret₂]
    show (mapRange dir 1024 0#32 0#32 s₂).bind _ = _
    rw [hret₃]
    show (vmmngrCreateTable s₃ dir 0xC0000000#32 defaultFlags).bind _ = _
    rw [hret₄]
    show (mapRange dir 1024 0x100000#32 0xC0000000#32 s₄).bind _ = _
    rw [hret₅]
    rfl
  · show translate s₅.view dir v = _
    rw [htrans₅, htrans₄, htrans₃, htrans₂, hnone]
    have hv := v.isLt
    have hlowest : (0#32).toNat = 0 := rfl
    have hstart : (0xC0000000#32).toNat = 3221225472 := rfl
    unfold kernelAddress
    rw [hlowest, hstart, BitVec.sub_zero, BitVec.zero_add]
    by_cases hlow : v.toNat < 0x400000
    · rw [if_neg (by omega), if_pos (by omega), if_pos hlow]
    · rw [if_neg hlow]
      by_cases hin : 0xC0000000 ≤ v.toNat ∧ v.toNat < 0xC0000000 + 4096 * 1024
      · rw [if_pos hin, if_pos hin]
      · rw [if_neg hin, if_neg hin, if_neg (by omega)]

/-! ## The change to the kernel's directory -/

/-- On the pages of the kernel both say the same. -/
theorem kernelAddress_eq (hn : n ≤ 1024) (h : KernelPage n v) :
    kernelAddress 1024 v = kernelAddress n v := by
  unfold KernelPage at h
  unfold kernelAddress
  by_cases hlow : v.toNat < 0x400000
  · rw [if_pos hlow, if_pos hlow]
  · rw [if_neg hlow, if_neg hlow, if_pos (by omega), if_pos (by omega)]

/-- The loader runs below 1 MB and the kernel with the allocator of `kmain`: when the kernel
changes from the one directory to the other, no page of its own moves. -/
theorem handover_same {info : MultibootInfo} {kernelSize : Nat} (hmap : MapSound info kernelSize)
    (words : Nat → BitVec 32) (hpos : 0 < s.alloced) (hroom : s.alloced + 16384 ≤ s.maxAddr)
    (hlow : s.maxAddr ≤ 0x100000) (hn : n ≤ 1024) :
    ∃ s' p, vmmngrInitialize s = .ret s' ∧ kmainMemory info kernelSize words = .ret p ∧
      ∀ c₀ c : SpaceRun, c₀.vm.phys = p → c₀.cr3 = s'.cr3 →
        MeOS.vmmngrInitialize c₀ n = .ret (c, .ok) → ∀ v, KernelPage n v →
          translate c.vm c.cr3 v = translate s'.view s'.cr3 v ∧
            translate c.vm c.cr3 v = kernelAddress n v := by
  obtain ⟨s', hloader, hcr3, htrans⟩ := initialize_spec hpos hroom (by omega)
  obtain ⟨p, hkmain, hcount, -⟩ := kmainMemory_spec hmap words
  refine ⟨s', p, hloader, hkmain, fun c₀ c hphys hreg hinit v hv => ?_⟩
  have hsmall : c₀.vm.phys.mmngrMaxBlocks ≤ 1048576 := by
    rw [hphys, hcount.max]
    exact info.blocks_lt.le
  -- the directory of the loader is no frame that the kernel can get
  have hused : frameUsed c₀.vm c₀.cr3 := by
    unfold frameUsed
    rw [hphys, hreg]
    apply kmainMemory_low hmap hkmain
    simp only [pmmngrBlockSize]
    omega
  have hboot : PagingBooted n c := ⟨c₀, hsmall, hused, hinit⟩
  rw [hboot.cr3_translate (by omega), htrans, kernelAddress_eq hn hv]
  exact ⟨rfl, rfl⟩

/-- A loader of 40 KB, and the memory map with four megabytes. -/
theorem handover_same_fourMb : ∃ s' p,
    vmmngrInitialize ⟨fun _ => 0#32, 0x1A000, 0x80000, 0#32⟩ = .ret s' ∧
      kmainMemory fourMb 0x10000 (fun _ => 0#32) = .ret p := by
  obtain ⟨s', p, hloader, hkmain, -⟩ := handover_same (n := 17)
    (s := ⟨fun _ => 0#32, 0x1A000, 0x80000, 0#32⟩) fourMb_sound (fun _ => 0#32) (by decide)
    (by decide) (by decide) (by decide)
  exact ⟨s', p, hloader, hkmain⟩

end Loader

end MeOS.Ldr
