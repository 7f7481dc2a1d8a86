import MeOS.PageFrames
import MeOS.PageMapping

/-! # Rights of a mapped page

`vmmngr_map_page` adds its flags to what the entry of the page holds, and
`vmmngr_free_page` leaves the user bit in it. So the page gets the rights of the
flags and those that the old entry, or an address with an offset, brings along.
The flags reach the entry of the directory only when they make the table; what
that entry lacks is missing for every page of the table.
-/

namespace MeOS

open WordFields Runs

/-- `I86_PTE_USER`. -/
abbrev i86PteUser : BitVec 32 := 4#32

/-- The rights in an entry. -/
abbrev rightBits : BitVec 32 := i86PteWritable ||| i86PteUser

/-- Calls that map or free a page of the current directory. -/
inductive SpaceCall where
  | map (phys virt flags : BitVec 32)
  | alloc (base flags : BitVec 32)
  | free (addr : BitVec 32)
deriving Repr, DecidableEq

/-- Execute a call. -/
def SpaceCall.exec (s : VmState) : SpaceCall → Outcome (VmState × ErrorT)
  | .map phys virt flags => vmmngrMapPage s s.currentDirectory phys virt flags
  | .alloc base flags => vmmngrAllocPageF s base flags
  | .free addr => do
    let s ← vmmngrFreePageAddr s addr
    return (s, .ok)

/-- The page and the flags of a mapping. -/
def SpaceCall.maps : SpaceCall → Option (BitVec 32 × BitVec 32)
  | .map _ virt flags => some (virt, flags)
  | .alloc base flags => some (base, flags)
  | .free _ => none

/-- Flags are flags, and no free gives back the frame of the directory. -/
def SpaceCall.Made (s : VmState) : SpaceCall → Prop
  | .map _ _ flags => flags &&& i86PteFrame = 0#32
  | .alloc _ flags => flags &&& i86PteFrame = 0#32
  | .free addr => ptEntryGetFrame (pageEntry s s.currentDirectory addr) ≠ s.currentDirectory

/-- What the entry of the page gets besides the flags: its old bits, and those of the address. An
allocation passes the offset of its address on, unless it takes a new block. -/
def SpaceCall.carried (s : VmState) : SpaceCall → BitVec 32
  | .map phys virt _ => oldEntry s s.currentDirectory virt ||| phys
  | .alloc base _ => oldEntry s s.currentDirectory base |||
    if vmmngrIsPagePresent s base = true ∨ ¬ base < 0xF0000000#32 then base else 0#32
  | .free _ => 0#32

/-- A mapping carries no right that its flags do not have. -/
def SpaceCall.CarriesNone (s : VmState) (c : SpaceCall) : Prop :=
  ∀ v flags, c.maps = some (v, flags) → Within (c.carried s &&& rightBits) flags

/-- A run, with the page and the flags of the mapping just made. -/
structure MapRun where
  vm : VmState
  mapped : Option (BitVec 32 × BitVec 32)

/-- The runs from `start` whose calls meet `C`. -/
def spaceSystem (C : VmState → SpaceCall → Prop) (start : VmState) : System MapRun where
  Init c := c = ⟨start, none⟩
  Next c c' := ∃ (call : SpaceCall) (r : ErrorT), call.Made c.vm ∧ C c.vm call ∧
    call.exec c.vm = .ret (c'.vm, r) ∧ c'.mapped = if r = .ok then call.maps else none

/-- The entry of the page has exactly the rights of the flags. -/
def RightsExact (s : VmState) (v flags : BitVec 32) : Prop :=
  pageEntry s s.currentDirectory v &&& rightBits = flags &&& rightBits

/-! ## One call -/

section Step

variable {s s' : VmState} {phys virt base flags addr x : BitVec 32}

theorem frame_rightBits : rightBits &&& i86PteFrame = 0#32 := by decide

/-- The rights of a frame address. -/
theorem aligned_rights (h : phys &&& i86PteFrame = phys) :
    phys &&& rightBits = 0#32 &&& rightBits := by
  rw [← h, BitVec.and_assoc, BitVec.and_comm i86PteFrame, frame_rightBits, BitVec.and_zero,
    BitVec.zero_and]

/-- A successful mapping is exact when the old entry and the address add no right. -/
theorem setFrame_rights : ptEntrySetFrame (x ||| flags) phys &&& rightBits = flags &&& rightBits ↔
    Within ((x ||| phys) &&& rightBits) flags := by
  unfold ptEntrySetFrame
  rw [set_and frame_rightBits, ← or_and_eq_iff, BitVec.or_assoc, BitVec.or_comm flags phys,
    ← BitVec.or_assoc]

theorem MapResult.rights_iff {r : VmState × ErrorT} (h : DirOk s s.currentDirectory)
    (hflags : flags &&& i86PteFrame = 0#32)
    (hr : MapResult s s.currentDirectory phys virt flags r) (hok : r.2 = .ok) :
    RightsExact r.1 virt flags ↔
      Within ((oldEntry s s.currentDirectory virt ||| phys) &&& rightBits) flags := by
  unfold RightsExact
  rw [hr.currentDirectory, ((hr.spec h hflags).2 hok).1, setFrame_rights]

/-- What a call leaves: the directory, and a page whose rights are exact when none are carried. -/
structure CallLeaves (s : VmState) (c : SpaceCall) (s' : VmState) (r : ErrorT) : Prop where
  dir : s'.currentDirectory = s.currentDirectory
  ok : DirOk s' s'.currentDirectory
  rights : r = .ok → ∀ v flags, c.maps = some (v, flags) →
    (RightsExact s' v flags ↔ Within (c.carried s &&& rightBits) flags)

/-- The rights of an address are those of its offset. -/
theorem physAddr_rights (hdir : s.currentDirectory ≠ 0#32)
    (hp : vmmngrIsPagePresent s base = true) :
    vmmngrGetPhysAddr s base &&& rightBits = base &&& rightBits := by
  have hpd := (isPagePresent_eq hdir).mp hp
  have hframe : ptEntryGetFrame (ptEntry s (pageDirIndex base) (pageTableIndex base)) &&& rightBits =
      0#32 := by
    unfold ptEntryGetFrame
    rw [BitVec.and_assoc, BitVec.and_comm i86PteFrame, frame_rightBits, BitVec.and_zero]
  rw [getPhysAddr_eq hdir hpd.2.1, frame_add_offset ptEntryGetFrame_frame, BitVec.or_comm,
    get_or hframe, BitVec.and_assoc]
  rfl

/-- A mapping as a call. -/
theorem MapResult.leaves {c : SpaceCall} {r : VmState × ErrorT} (h : DirOk s s.currentDirectory)
    (hflags : flags &&& i86PteFrame = 0#32)
    (hr : MapResult s s.currentDirectory phys virt flags r)
    (hmaps : c.maps = some (virt, flags))
    (hcarried : c.carried s &&& rightBits =
      (oldEntry s s.currentDirectory virt ||| phys) &&& rightBits) :
    CallLeaves s c r.1 r.2 where
  dir := hr.currentDirectory
  ok := by
    rw [hr.currentDirectory]
    exact (hr.spec h hflags).1
  rights hok v f hvf := by
    cases hmaps.symm.trans hvf
    rw [hr.rights_iff h hflags hok, hcarried]

theorem DirOk.phys_take {b : Nat} (h : DirOk s s.currentDirectory) :
    DirOk { s with phys := s.phys.take b } s.currentDirectory where
  ne := h.ne
  aligned := h.aligned
  small := h.small
  used := by
    show mmapTest (s.phys.take b) _ = true
    rw [mmapTest_take, h.used, Bool.or_true]
  notSelf := h.notSelf

theorem or_and_congr {a b c m : BitVec 32} (h : b &&& m = c &&& m) :
    (a ||| b) &&& m = (a ||| c) &&& m := by
  rw [BitVec.and_comm (a ||| b), BitVec.and_comm (a ||| c), BitVec.and_or_distrib_left,
    BitVec.and_or_distrib_left, BitVec.and_comm m b, BitVec.and_comm m c, h]

/-- An allocation maps the page to its own frame, to a new block, or to itself. -/
theorem allocPageF_leaves (h : DirOk s s.currentDirectory) (hflags : flags &&& i86PteFrame = 0#32) :
    ∃ s' r, vmmngrAllocPageF s base flags = .ret (s', r) ∧
      CallLeaves s (.alloc base flags) s' r := by
  obtain ⟨r, heq, hr⟩ := allocPageF_result base flags h.ne h.small
  refine ⟨r.1, r.2, heq, ?_⟩
  cases hr with
  | present hp hr =>
    apply hr.leaves h hflags rfl
    rw [SpaceCall.carried, if_pos (Or.inl hp)]
    exact or_and_congr (physAddr_rights h.ne hp).symm
  | noBlock hp hbase hnone =>
    exact ⟨rfl, h, fun hok => ErrorT.noConfusion hok⟩
  | taken hp hbase hblock hr =>
    have hok : DirOk { s with phys := s.phys.take (mmapFirstFree s.phys) } s.currentDirectory :=
      h.phys_take
    have hcarried : SpaceCall.carried s (.alloc base flags) =
        oldEntry s s.currentDirectory base ||| 0#32 := by
      rw [SpaceCall.carried, if_neg (by rw [hp]; exact not_or.mpr ⟨by decide, not_not.mpr hbase⟩)]
    have haligned := aligned_rights (block_frame (firstFree_lt h.small hblock))
    have hleaves := hr.leaves (c := .alloc base flags) hok hflags rfl
      (hcarried ▸ (or_and_congr haligned).symm)
    exact ⟨hleaves.dir, hleaves.ok, hleaves.rights⟩
  | device hp hbase hr =>
    apply hr.leaves h hflags rfl
    rw [SpaceCall.carried, if_pos (Or.inr hbase)]

/-- What `vmmngr_free_page_addr` does: nothing without a table, and otherwise it gives back the
frame and clears two bits of the entry. -/
theorem freePageAddr_eq (hdir : s.currentDirectory ≠ 0#32) :
    vmmngrFreePageAddr s addr = .ret
      (if pdEntryGetFrame (dirEntry s s.currentDirectory addr) = 0#32 then s
      else
        { s with phys := freedPhys s (ptEntryGetFrame (pageEntry s s.currentDirectory addr)) }.store
          (pageSlot (dirEntry s s.currentDirectory addr) addr)
          (ptEntryDelAttrib (ptEntryDelAttrib (pageEntry s s.currentDirectory addr) i86PtePresent)
            i86PteWritable)) := by
  unfold vmmngrFreePageAddr
  rw [lookupDirectory hdir]
  dsimp only
  change Outcome.ret (vmmngrFreePage s (vmmngrPtableLookupEntry
    (pdEntryGetFrame (dirEntry s s.currentDirectory addr)) addr)).1 = _
  by_cases hnull : pdEntryGetFrame (dirEntry s s.currentDirectory addr) = 0#32
  · rw [if_pos hnull, hnull]
    rfl
  · rw [if_neg hnull, lookupTable hnull]
    unfold vmmngrFreePage
    dsimp only
    rw [store_store, store_self]
    unfold freedPhys
    by_cases hframe : ptEntryGetFrame (pageEntry s s.currentDirectory addr) ≠ 0#32
    · rw [if_pos (by exact hframe), if_pos hframe]
      rfl
    · rw [if_neg (by exact hframe), if_neg hframe]
      rfl

/-- A free keeps the directory; where a table is the directory itself, it makes an entry of it
absent. -/
theorem DirOk.freed (h : DirOk s s.currentDirectory)
    (hother : ptEntryGetFrame (pageEntry s s.currentDirectory addr) ≠ s.currentDirectory) :
    ∃ s', vmmngrFreePageAddr s addr = .ret s' ∧ s'.currentDirectory = s.currentDirectory ∧
      DirOk s' s.currentDirectory := by
  rw [freePageAddr_eq h.ne]
  by_cases hnull : pdEntryGetFrame (dirEntry s s.currentDirectory addr) = 0#32
  · rw [if_pos hnull]
    exact ⟨s, rfl, rfl, h⟩
  rw [if_neg hnull]
  refine ⟨_, rfl, rfl, h.ne, h.aligned, freedPhys_max.trans_le h.small, ?_, fun v hp => ?_⟩
  · show mmapTest (freedPhys s _) _ = true
    by_cases hzero : ptEntryGetFrame (pageEntry s s.currentDirectory addr) = 0#32
    · rw [freedPhys, if_neg (not_not_intro hzero)]
      exact h.used
    · have hiff : frameUsed { s with phys := freedPhys s _ } s.currentDirectory ↔ _ :=
        used_freed ptEntryGetFrame_frame h.aligned hzero rfl
      exact hiff.mpr ⟨hother.symm, h.used⟩
  · rw [dirEntry_storeAt] at hp ⊢
    by_cases hslot : s.currentDirectory.toNat + 4 * pageDirIndex v =
        pageSlot (dirEntry s s.currentDirectory addr) addr
    · rw [if_pos hslot] at hp
      cases hp.symm.trans delAttribs_absent
    · rw [if_neg hslot] at hp ⊢
      exact h.notSelf v hp

/-- Every call returns and keeps the directory; a mapping is exact when it carries no right. -/
theorem SpaceCall.exec_leaves (c : SpaceCall) (h : DirOk s s.currentDirectory) (hmade : c.Made s) :
    ∃ s' r, c.exec s = .ret (s', r) ∧ CallLeaves s c s' r := by
  cases c with
  | map phys virt flags =>
    obtain ⟨r, heq, hr⟩ := mapPage_result phys virt flags h.ne h.small
    exact ⟨r.1, r.2, heq, hr.leaves h hmade rfl rfl⟩
  | alloc base flags => exact allocPageF_leaves h hmade
  | free addr =>
    obtain ⟨s', heq, hdir, hok⟩ := h.freed hmade
    refine ⟨s', .ok, by rw [SpaceCall.exec, heq]; rfl, hdir, by rwa [hdir], ?_⟩
    intro _ v flags hmaps
    cases hmaps

end Step

/-! ## Runs -/

section Runs

variable {start : VmState} {c : MapRun} {C : VmState → SpaceCall → Prop}

theorem dirOk_inductive (h : DirOk start start.currentDirectory) :
    (spaceSystem C start).Inductive fun c => DirOk c.vm c.vm.currentDirectory where
  init := by
    intro c hc
    rw [hc]
    exact h
  next := by
    intro c c' hok ⟨call, r, hmade, _, hret, _⟩
    obtain ⟨s', r', heq, hleaves⟩ := call.exec_leaves hok hmade
    cases heq.symm.trans hret
    exact hleaves.ok

/-- In a run whose mappings carry no right that their flags do not have, the entry of a page that
has just been mapped has exactly the rights of the flags. In any run a mapping is exact if and
only if it carries none. -/
theorem mapping_rights_exact (h : DirOk start start.currentDirectory) :
    (∀ c, (spaceSystem (fun s call => call.CarriesNone s) start).Reachable c →
      ∀ v flags, c.mapped = some (v, flags) → RightsExact c.vm v flags) ∧
    ∀ c, (spaceSystem (fun _ _ => True) start).Reachable c → ∀ (call : SpaceCall) s' v flags,
      call.Made c.vm → call.exec c.vm = .ret (s', .ok) → call.maps = some (v, flags) →
      (RightsExact s' v flags ↔ Within (call.carried c.vm &&& rightBits) flags) := by
  constructor
  · intro c hreach v flags hmapped
    cases hreach with
    | init hinit =>
      rw [hinit] at hmapped
      cases hmapped
    | @next c₀ _ hreach hnext =>
      obtain ⟨call, r, hmade, hnone, hret, heq⟩ := hnext
      obtain ⟨s', r', hexec, hleaves⟩ := call.exec_leaves ((dirOk_inductive h).holds hreach) hmade
      cases hexec.symm.trans hret
      rw [heq] at hmapped
      by_cases hok : r = .ok
      · rw [if_pos hok] at hmapped
        exact (hleaves.rights hok v flags hmapped).mpr (hnone v flags hmapped)
      · rw [if_neg hok] at hmapped
        cases hmapped
  · intro c hreach call s' v flags hmade hret hmaps
    obtain ⟨t, r, hexec, hleaves⟩ := call.exec_leaves ((dirOk_inductive h).holds hreach) hmade
    cases hexec.symm.trans hret
    exact hleaves.rights rfl v flags hmaps

instance (s : VmState) : (c : SpaceCall) → Decidable (c.Made s)
  | .map _ _ flags => inferInstanceAs (Decidable (flags &&& i86PteFrame = 0#32))
  | .alloc _ flags => inferInstanceAs (Decidable (flags &&& i86PteFrame = 0#32))
  | .free addr => inferInstanceAs (Decidable
      (ptEntryGetFrame (pageEntry s s.currentDirectory addr) ≠ s.currentDirectory))

/-- A call that has succeeded, in a state that satisfies `p`. -/
theorem exists_of_succeeds {p : VmState → Bool} {x : Outcome (VmState × ErrorT)}
    (h : x.test (fun r => decide (r.2 = .ok) && p r.1) = true) :
    ∃ s, x = .ret (s, .ok) ∧ p s = true := by
  obtain ⟨⟨s, r⟩, hret, htest⟩ := Outcome.exists_of_test h
  rw [Bool.and_eq_true, decide_eq_true_eq] at htest
  exact ⟨s, htest.1 ▸ hret, htest.2⟩

/-- Calls in order. -/
def spaceCalls (c : MapRun) : List SpaceCall → Option MapRun
  | [] => some c
  | call :: calls =>
    if call.Made c.vm then
      match call.exec c.vm with
      | .ret (s, r) => spaceCalls ⟨s, if r = .ok then call.maps else none⟩ calls
      | _ => none
    else none

theorem reachable_spaceCalls {calls : List SpaceCall} {c' : MapRun}
    (h : (spaceSystem (fun _ _ => True) start).Reachable c) (hrun : spaceCalls c calls = some c') :
    (spaceSystem (fun _ _ => True) start).Reachable c' := by
  induction calls generalizing c with
  | nil =>
    cases hrun
    exact h
  | cons call calls ih =>
    unfold spaceCalls at hrun
    by_cases hmade : call.Made c.vm
    · rw [if_pos hmade] at hrun
      cases hexec : call.exec c.vm with
      | ret r =>
        rw [hexec] at hrun
        exact ih (.next h ⟨call, r.2, hmade, trivial, hexec, rfl⟩) hrun
      | panic =>
        rw [hexec] at hrun
        cases hrun
      | undefined =>
        rw [hexec] at hrun
        cases hrun
      | running =>
        rw [hexec] at hrun
        cases hrun
    · rw [if_neg hmade] at hrun
      cases hrun

theorem TablesApart.dirOk {s : VmState} (h : TablesApart s)
    (hsmall : s.phys.mmngrMaxBlocks ≤ 1048576)
    (hused : mmapTest s.phys (s.currentDirectory.toNat / pmmngrBlockSize) = true) :
    DirOk s s.currentDirectory where
  ne := h.dir
  aligned := h.aligned
  small := hsmall
  used := hused
  notSelf _ hp := h.notDir _ pageDirIndex_lt hp

theorem tableSpace_dirOk : DirOk tableSpace tableSpace.currentDirectory :=
  tableSpace_ok.toTablesApart.dirOk tableSpace_ok.small (by decide +kernel)

/-- Page 0 is mapped once. -/
theorem mapping_rights_exact_first : ∃ s,
    SpaceCall.exec tableSpace (.alloc 0#32 3#32) = .ret (s, .ok) ∧ RightsExact s 0#32 3#32 := by
  obtain ⟨s, hs, _⟩ := exists_of_succeeds (p := fun _ => true)
    (x := SpaceCall.exec tableSpace (.alloc 0#32 3#32)) (by decide +kernel)
  have hreach : (spaceSystem (fun s call => call.CarriesNone s) tableSpace).Reachable
      ⟨s, some (0#32, 3#32)⟩ := by
    refine .next (.init rfl) ⟨.alloc 0#32 3#32, .ok, by decide, ?_, hs, rfl⟩
    intro _ _ hmaps
    cases hmaps
    decide +kernel
  exact ⟨s, hs, (mapping_rights_exact tableSpace_dirOk).1 _ hreach _ _ rfl⟩

/-- Page 0 is mapped for the user, freed, and mapped for the kernel; the user can still read it. -/
theorem user_right_survives : ∃ start c v flags, DirOk start start.currentDirectory ∧
    (spaceSystem (fun _ _ => True) start).Reachable c ∧ c.mapped = some (v, flags) ∧
    flags &&& i86PtePresent = i86PtePresent ∧ ¬ RightsExact c.vm v flags := by
  obtain ⟨c, hc⟩ : ∃ c, spaceCalls ⟨tableSpace, none⟩
      [.alloc 0#32 5#32, .free 0#32, .alloc 0#32 1#32] = some c :=
    Option.isSome_iff_exists.mp (by decide +kernel)
  have hend : (spaceCalls ⟨tableSpace, none⟩
      [.alloc 0#32 5#32, .free 0#32, .alloc 0#32 1#32]).all (fun c =>
        c.mapped == some (0#32, 1#32) &&
          pageEntry c.vm c.vm.currentDirectory 0#32 &&& rightBits == i86PteUser) = true := by
    decide +kernel
  rw [hc] at hend
  simp only [Option.all_some, Bool.and_eq_true, beq_iff_eq] at hend
  refine ⟨tableSpace, c, 0#32, 1#32, tableSpace_dirOk, reachable_spaceCalls (.init rfl) hc, hend.1,
    by decide, fun h => ?_⟩
  unfold RightsExact at h
  rw [hend.2] at h
  exact absurd h (by decide)

end Runs

/-! ## Rights through the directory -/

/-- The runs of `vmmngr_map_page` on one directory, with calls that meet `C`. -/
def mapSystem (dir : BitVec 32) (C : VmState → BitVec 32 → BitVec 32 → Prop) (start : VmState) :
    System MapRun where
  Init c := c = ⟨start, none⟩
  Next c c' := ∃ (phys virt flags : BitVec 32) (r : ErrorT), flags &&& i86PteFrame = 0#32 ∧
    flags &&& i86PtePresent = i86PtePresent ∧ C c.vm virt flags ∧
    vmmngrMapPage c.vm dir phys virt flags = .ret (c'.vm, r) ∧
    c'.mapped = if r = .ok then some (virt, flags) else none

/-- The rights that both entries of the page have include those of the flags. -/
def RightsGranted (s : VmState) (dir v flags : BitVec 32) : Prop :=
  Within (flags &&& rightBits) (dirEntry s dir v &&& pageEntry s dir v)

instance (s : VmState) (dir v flags : BitVec 32) : Decidable (RightsGranted s dir v flags) :=
  inferInstanceAs (Decidable (Within _ _))

/-- If there is a table for the page, the directory gives it the rights of the flags. -/
def DirGrants (dir : BitVec 32) (s : VmState) (v flags : BitVec 32) : Prop :=
  pdEntryIsPresent (dirEntry s dir v) = true → Within (flags &&& rightBits) (dirEntry s dir v)

section Granted

variable {s : VmState} {dir phys virt flags x : BitVec 32} {start : VmState}
  {C : VmState → BitVec 32 → BitVec 32 → Prop}

theorem within_setFrame : Within (flags &&& rightBits) (ptEntrySetFrame (x ||| flags) phys) := by
  unfold Within ptEntrySetFrame
  apply BitVec.eq_of_getLsbD_eq
  intro i hi
  have hbits : ∀ a b m f p : Bool, (m && f) = false →
      ((a && m) && (((b || a) && !f) || p)) = (a && m) := by decide
  have hout := congrArg (fun y => y.getLsbD i) frame_rightBits
  simp only [BitVec.getLsbD_and, BitVec.getLsbD_or, BitVec.getLsbD_not, BitVec.getLsbD_zero,
    hi, decide_true, Bool.true_and] at hout ⊢
  exact hbits _ _ _ _ _ hout

/-- After a mapping that succeeds the page has the rights if and only if the directory gives them
to its table, or had no table for it. -/
theorem MapResult.granted_iff {r : VmState × ErrorT} (h : DirOk s dir)
    (hflags : flags &&& i86PteFrame = 0#32) (hr : MapResult s dir phys virt flags r)
    (hok : r.2 = .ok) : RightsGranted r.1 dir virt flags ↔ DirGrants dir s virt flags := by
  obtain ⟨hpage, hold, hnew⟩ := (hr.spec h hflags).2 hok
  unfold RightsGranted DirGrants
  rw [within_and_iff, hpage]
  cases hp : pdEntryIsPresent (dirEntry s dir virt) with
  | true =>
    rw [hold hp]
    exact ⟨fun hboth _ => hboth.1, fun hdir => ⟨hdir rfl, within_setFrame⟩⟩
  | false =>
    have hdir : Within (flags &&& rightBits) (dirEntry r.1 dir virt) := by
      have hflagsIn := hnew hp
      unfold Within at hflagsIn ⊢
      rw [BitVec.and_assoc, BitVec.and_comm rightBits, ← BitVec.and_assoc, hflagsIn]
    exact iff_of_true ⟨hdir, within_setFrame⟩ fun hno => absurd hno (by decide)

theorem mapSystem_dirOk (h : DirOk start dir) :
    (mapSystem dir C start).Inductive fun c => DirOk c.vm dir where
  init := by
    intro c hc
    rw [hc]
    exact h
  next := by
    intro c c' hok ⟨phys, virt, flags, r, hflags, _, _, hret, _⟩
    obtain ⟨r', heq, hr⟩ := mapPage_result phys virt flags
      hok.ne hok.small
    cases heq.symm.trans hret
    exact (hr.spec hok hflags).1

/-- In a run of mappings for whose tables the directory has the rights of the flags, the page just
mapped has the rights. In any run a mapping grants its rights if and only if the directory
does. -/
theorem mapping_rights_granted (h : DirOk start dir) :
    (∀ c, (mapSystem dir (DirGrants dir) start).Reachable c →
      ∀ v flags, c.mapped = some (v, flags) → RightsGranted c.vm dir v flags) ∧
    ∀ c, (mapSystem dir (fun _ _ _ => True) start).Reachable c → ∀ phys virt flags s',
      flags &&& i86PteFrame = 0#32 → flags &&& i86PtePresent = i86PtePresent →
      vmmngrMapPage c.vm dir phys virt flags = .ret (s', .ok) →
      (RightsGranted s' dir virt flags ↔ DirGrants dir c.vm virt flags) := by
  constructor
  · intro c hreach v flags hmapped
    cases hreach with
    | init hinit =>
      rw [hinit] at hmapped
      cases hmapped
    | @next c₀ _ hreach hnext =>
      obtain ⟨phys, virt, f, r, hflags, _, hdir, hret, heq⟩ := hnext
      have hok := (mapSystem_dirOk h).holds hreach
      obtain ⟨r', hres, hr⟩ := mapPage_result phys virt f
        hok.ne hok.small
      cases hres.symm.trans hret
      rw [heq] at hmapped
      by_cases hrok : r = .ok
      · rw [if_pos hrok] at hmapped
        cases hmapped
        exact (hr.granted_iff hok hflags hrok).mpr hdir
      · rw [if_neg hrok] at hmapped
        cases hmapped
  · intro c hreach phys virt flags s' hflags _ hret
    have hok := (mapSystem_dirOk h).holds hreach
    obtain ⟨r', hres, hr⟩ := mapPage_result phys virt flags
      hok.ne hok.small
    cases hres.symm.trans hret
    exact hr.granted_iff hok hflags rfl

theorem emptySpace_dirOk : DirOk emptySpace 0x1000#32 :=
  emptySpace_apart.dirOk (by decide) (by decide +kernel)

/-- The first page of an empty directory gets its rights. -/
theorem mapping_rights_granted_first : ∃ s,
    vmmngrMapPage emptySpace 0x1000#32 0x5000#32 0#32 7#32 = .ret (s, .ok) ∧
      RightsGranted s 0x1000#32 0#32 7#32 := by
  obtain ⟨s, hs, _⟩ := exists_of_succeeds (p := fun _ => true)
    (x := vmmngrMapPage emptySpace 0x1000#32 0x5000#32 0#32 7#32) (by decide +kernel)
  have hreach : (mapSystem 0x1000#32 (DirGrants 0x1000#32) emptySpace).Reachable
      ⟨s, some (0#32, 7#32)⟩ := by
    refine .next (.init rfl) ⟨0x5000#32, 0#32, 7#32, .ok, by decide, by decide, ?_, hs, rfl⟩
    intro hp
    exact absurd hp (emptySpace_absent 0)
  exact ⟨s, hs, (mapping_rights_granted emptySpace_dirOk).1 _ hreach _ _ rfl⟩

/-- The table of page 0 is made for the kernel, and page 1 is mapped for the user, who cannot
reach it. -/
theorem user_right_missing : ∃ start dir c v flags, DirOk start dir ∧
    (mapSystem dir (fun _ _ _ => True) start).Reachable c ∧ c.mapped = some (v, flags) ∧
    ¬ RightsGranted c.vm dir v flags := by
  obtain ⟨s, hs, hsecond⟩ := exists_of_succeeds
    (x := vmmngrMapPage emptySpace 0x1000#32 0x5000#32 0#32 3#32)
    (p := fun s => (vmmngrMapPage s 0x1000#32 0x6000#32 0x1000#32 7#32).test fun r =>
      decide (r.2 = .ok) && !decide (RightsGranted r.1 0x1000#32 0x1000#32 7#32))
    (by decide +kernel)
  obtain ⟨t, ht, hmissing⟩ := exists_of_succeeds
    (p := fun t => !decide (RightsGranted t 0x1000#32 0x1000#32 7#32)) hsecond
  have hreach : (mapSystem 0x1000#32 (fun _ _ _ => True) emptySpace).Reachable
      ⟨s, some (0#32, 3#32)⟩ :=
    .next (.init rfl) ⟨0x5000#32, 0#32, 3#32, .ok, by decide, by decide, trivial, hs, rfl⟩
  exact ⟨emptySpace, 0x1000#32, ⟨t, some (0x1000#32, 7#32)⟩, 0x1000#32, 7#32, emptySpace_dirOk,
    .next hreach ⟨0x6000#32, 0x1000#32, 7#32, .ok, by decide, by decide, trivial, ht, rfl⟩, rfl,
    by simpa using hmissing⟩

end Granted

end MeOS
