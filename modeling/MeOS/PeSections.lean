import MeOS.PeLoader

/-! # `pe_load_image`: the areas of the sections

The section loop asks `vfs_mmap_p` for an area of 4096 bytes for each section, whatever its
`VirtualSize`. Here the loop runs on the contract of the process, so what is reachable of the
image afterwards is what these areas hold.
-/

namespace MeOS.PeSections

open Bytes Traced Extents Runs

/-! ## The functions -/

/-- The section loop of `pe_load_image` from section `i` on, on a process. -/
def mapSections (raw : VmArea) (gfd : Nat) (m : Mem) (ntHeader sections imageBase : Nat) :
    Nat → Nat → Pcb → Outcome Pcb
  | 0, _, _ => .running
  | fuel + 1, i, proc =>
    if i < load16 m (add32 ntHeader 6) then do
      let mapping := ((peSection sections imageBase i).run m).value
      let (proc, res) ← vfsMmapP raw proc mapping.address gfd mapping.offset 4096
        mapping.protection mapping.flags
      match res with
      | .error _ => .panic
      | .ok _ => mapSections raw gfd m ntHeader sections imageBase fuel (i + 1) proc
    else .ret proc

/-- `pe_load_image`: the header, or 0, and the process. -/
def loadImage (raw : VmArea) (gfd : Nat) (m : Mem) (bytesRead buffer : Nat) (proc : Pcb) :
    Outcome (Nat × Pcb) :=
  if bytesRead < 512 then
    .ret (0, proc)
  else if buffer = 0 then
    .panic
  else if ((validatePEImage buffer).run m).value = false then
    .ret (0, proc)
  else do
    let ntHeader := ((peGetNtHeaders buffer).run m).value
    let imageBase := load32 m (add32 ntHeader 52)
    let sections := ((peGetSectionHeader buffer).run m).value
    let proc ← mapSections raw gfd m ntHeader sections imageBase 65536 0 proc
    .ret (buffer, proc)

/-! ## The sections -/

/-- The image base of the header at `buffer`. -/
def imageBaseOf (m : Mem) (buffer : Nat) : Nat :=
  load32 m (add32 ((peGetNtHeaders buffer).run m).value 52)

/-- What `vfs_mmap_p` is asked to map for section `i`. -/
def mappingOf (m : Mem) (buffer i : Nat) : SectionMapping :=
  ((peSection ((peGetSectionHeader buffer).run m).value (imageBaseOf m buffer) i).run m).value

/-- `VirtualSize` of section `i`. -/
def virtualSize (m : Mem) (buffer i : Nat) : Nat :=
  load32 m (add32 (add32 ((peGetSectionHeader buffer).run m).value (40 * i)) 8)

/-- The sections in order. -/
def mappingsOf (m : Mem) (buffer : Nat) : List SectionMapping :=
  (List.range (numberOfSections m buffer)).map (mappingOf m buffer)

/-- The area of one page that is made for a section. -/
def pageOf (gfd : Nat) (s : SectionMapping) : VmArea :=
  ⟨s.address, s.address + 4096, s.flags ||| s.protection, gfd, s.offset⟩

/-- Every address of section `i` lies in the area of the section, with its protection and flags
and at its place in the file. -/
def SectionReachable (m : Mem) (gfd buffer : Nat) (proc : Pcb) (i : Nat) : Prop :=
  let s := mappingOf m buffer i
  ∀ x, s.address ≤ x → x < s.address + virtualSize m buffer i →
    ∃ a ∈ proc.memoryContract.areas, a.startAddr = s.address ∧ x < a.endAddr ∧
      a.flags = s.flags ||| s.protection ∧ a.fd = gfd ∧
      a.offset + (x - a.startAddr) = s.offset + (x - s.address)

/-- If the image is returned, all of its sections are reachable. -/
def LoadsReachable (raw : VmArea) (gfd : Nat) (m : Mem) (bytesRead buffer : Nat) (proc : Pcb) :
    Prop :=
  ∀ proc', loadImage raw gfd m bytesRead buffer proc = .ret (buffer, proc') →
    ∀ i < numberOfSections m buffer, SectionReachable m gfd buffer proc' i

/-- A page can be mapped for each of the sections: `vfs_mmap_p` does not refuse what it is asked
for, and the pages lie in the space, outside of its areas and of each other. -/
structure Mappable (low high gfd : Nat) (proc : Pcb) (l : List SectionMapping) : Prop where
  asked : ∀ s ∈ l, ¬ RefusedEarly s.address 4096 s.protection s.flags
  lies : ∀ s ∈ l, Lies low high (pageOf gfd s)
  clear : ∀ s ∈ l, Clear proc.memoryContract (pageOf gfd s)
  apart : l.Pairwise fun s t => Apart VmArea.startAddr VmArea.endAddr (pageOf gfd s) (pageOf gfd t)

/-! ## The loop over the sections -/

section

variable {low high gfd fuel i buffer : Nat} {raw : VmArea} {m : Mem} {proc proc' : Pcb}
  {s : SectionMapping} {l : List SectionMapping}

/-- Sections mapped in order. -/
def mapAll (raw : VmArea) (gfd : Nat) : List SectionMapping → Pcb → Outcome Pcb
  | [], proc => .ret proc
  | s :: rest, proc => do
    let (proc, res) ← vfsMmapP raw proc s.address gfd s.offset 4096 s.protection s.flags
    match res with
    | .error _ => .panic
    | .ok _ => mapAll raw gfd rest proc

/-- The loop maps the sections from `i` on. -/
theorem mapSections_eq {nt sections base n : Nat} (hcount : load16 m (add32 nt 6) = i + n)
    (hfuel : n < fuel) :
    mapSections raw gfd m nt sections base fuel i proc =
      mapAll raw gfd ((List.range' i n).map fun k => ((peSection sections base k).run m).value)
        proc := by
  induction n generalizing fuel i proc with
  | zero =>
    obtain ⟨fuel, rfl⟩ : ∃ k, fuel = k + 1 := ⟨fuel - 1, by omega⟩
    rw [mapSections, if_neg (by omega)]
    rfl
  | succ n ih =>
    obtain ⟨fuel, rfl⟩ : ∃ k, fuel = k + 1 := ⟨fuel - 1, by omega⟩
    rw [mapSections, if_pos (by omega), List.range'_succ, List.map_cons, mapAll]
    dsimp only
    cases vfsMmapP raw proc ((peSection sections base i).run m).value.address gfd
      ((peSection sections base i).run m).value.offset 4096
      ((peSection sections base i).run m).value.protection
      ((peSection sections base i).run m).value.flags with
    | ret r =>
      obtain ⟨proc', res⟩ := r
      cases res with
      | error e => rfl
      | ok a => exact ih (by omega) (by omega)
    | panic => rfl
    | undefined => rfl
    | running => rfl

/-- A section of which a page can be mapped, and one of which none can. -/
theorem vfsMmapP_page (raw : VmArea) (gfd : Nat) (hhigh : high < 4294967296)
    (h : (contractSystem low high).Reachable proc.memoryContract)
    (hfree : proc.contractSpinlock = 0) (haddress : s.address < 4294967296) :
    (¬ RefusedEarly s.address 4096 s.protection s.flags ∧ Lies low high (pageOf gfd s) ∧
        Clear proc.memoryContract (pageOf gfd s) ∧
      ∃ proc', vfsMmapP raw proc s.address gfd s.offset 4096 s.protection s.flags =
          .ret (proc', .ok s.address) ∧
        (contractSystem low high).Reachable proc'.memoryContract ∧ proc'.contractSpinlock = 0 ∧
        proc'.memoryContract.areas.Perm (pageOf gfd s :: proc.memoryContract.areas)) ∨
      (¬ (¬ RefusedEarly s.address 4096 s.protection s.flags ∧ Lies low high (pageOf gfd s) ∧
          Clear proc.memoryContract (pageOf gfd s)) ∧
        ∃ proc' e, vfsMmapP raw proc s.address gfd s.offset 4096 s.protection s.flags =
          .ret (proc', .error e)) := by
  by_cases hearly : RefusedEarly s.address 4096 s.protection s.flags
  · obtain ⟨e, he⟩ := vfsMmapP_early raw proc gfd s.offset hearly
    exact .inr ⟨fun hnot => hnot.1 hearly, proc, e, he⟩
  have hstop := add32_of_late haddress (by decide) hearly
  obtain ⟨hcreate, hrun⟩ := vfsMmapP_late raw proc gfd s.offset hearly
  rw [hstop] at hcreate hrun
  have hcreated : Created (pageOf gfd s) :=
    ⟨raw, s.address, s.address + 4096, _, gfd, s.offset, hstop ▸ add32_lt s.address 4096,
      hcreate.symm⟩
  obtain ⟨c', res, hadd, hok, hgrows, _⟩ := vmContractAddArea_inUse hhigh h hcreated
  have hreach : (contractSystem low high).Reachable c' := .next h (.add _ hcreated hadd)
  have htake : spinlockAcquire 0 = .ret 1 := rfl
  change vmContractAddArea proc.memoryContract
    ⟨s.address, s.address + 4096, s.flags ||| s.protection, gfd, s.offset⟩ = _ at hadd
  rw [hfree, htake, Outcome.ret_bind, hadd, Outcome.ret_bind] at hrun
  cases res with
  | ok u =>
    obtain ⟨hlies, hclear⟩ := hok.mp rfl
    exact .inl ⟨hearly, hlies, hclear, ⟨c', 0⟩, hrun, hreach, rfl, (hgrows rfl).1⟩
  | error e =>
    refine .inr ⟨fun hnot => ?_, ⟨c', 1⟩, .contract e, hrun⟩
    cases hok.mpr hnot.2

/-- The sections are mapped when all of them can be, and then the contract has their pages in
addition. -/
theorem mapAll_iff (raw : VmArea) (gfd : Nat) (hhigh : high < 4294967296)
    (h : (contractSystem low high).Reachable proc.memoryContract)
    (hfree : proc.contractSpinlock = 0) (haddress : ∀ s ∈ l, s.address < 4294967296) :
    ((∃ proc', mapAll raw gfd l proc = .ret proc') ↔ Mappable low high gfd proc l) ∧
      ∀ proc', mapAll raw gfd l proc = .ret proc' → ∀ a, a ∈ proc'.memoryContract.areas ↔
        a ∈ l.map (pageOf gfd) ∨ a ∈ proc.memoryContract.areas := by
  induction l generalizing proc with
  | nil =>
    refine ⟨⟨fun _ => ⟨by simp, by simp, by simp, .nil⟩, fun _ => ⟨proc, rfl⟩⟩, ?_⟩
    intro proc' hret a
    cases hret
    simp
  | cons s l ih =>
    rcases List.forall_mem_cons.mp haddress with ⟨hs, hl⟩
    rw [mapAll]
    rcases vfsMmapP_page raw gfd hhigh h hfree hs with
      ⟨hearly, hlies, hclear, next, hrun, hreach, hlock, hperm⟩ | ⟨hnot, next, e, hrun⟩
    · obtain ⟨hiff, hareas⟩ := ih hreach hlock hl
      rw [hrun, Outcome.ret_bind]
      constructor
      · refine hiff.trans ⟨fun hrest => ?_, fun hall => ?_⟩
        · refine
            { asked := List.forall_mem_cons.mpr ⟨hearly, hrest.asked⟩
              lies := List.forall_mem_cons.mpr ⟨hlies, hrest.lies⟩
              clear := List.forall_mem_cons.mpr ⟨hclear, fun t ht b hb => ?_⟩
              apart := List.pairwise_cons.mpr ⟨fun t ht => ?_, hrest.apart⟩ }
          · exact hrest.clear t ht b (hperm.mem_iff.mpr (List.mem_cons_of_mem _ hb))
          · exact hrest.clear t ht _ (hperm.mem_iff.mpr List.mem_cons_self)
        · obtain ⟨hfirst, hapart⟩ := List.pairwise_cons.mp hall.apart
          refine
            { asked := (List.forall_mem_cons.mp hall.asked).2
              lies := (List.forall_mem_cons.mp hall.lies).2
              clear := fun t ht b hb => ?_
              apart := hapart }
          rcases List.mem_cons.mp (hperm.mem_iff.mp hb) with rfl | hb
          · exact hfirst t ht
          · exact hall.clear t (List.mem_cons_of_mem _ ht) b hb
      · intro proc' hret a
        rw [hareas proc' hret a, hperm.mem_iff, List.map_cons, List.mem_cons, List.mem_cons]
        exact or_left_comm.trans or_assoc.symm
    · rw [hrun, Outcome.ret_bind]
      refine ⟨⟨?_, fun hall => ?_⟩, ?_⟩
      · rintro ⟨proc', hret⟩
        cases hret
      · exact absurd ⟨hall.asked s List.mem_cons_self, hall.lies s List.mem_cons_self,
          hall.clear s List.mem_cons_self⟩ hnot
      · intro proc' hret
        cases hret

/-- With every answer a success, the section loop lists the sections from `i` on. -/
theorem peMapSections_all (sections base : Nat) (done : List SectionMapping) {nt n : Nat}
    (hcount : load16 m (add32 nt 6) = i + n) (hfuel : n < fuel) :
    ((peMapSections (fun _ => true) nt sections base fuel i done).run m).value =
      .ret (done ++ (List.range' i n).map fun k =>
        ((peSection sections base k).run m).value) := by
  induction n generalizing fuel i done with
  | zero =>
    obtain ⟨fuel, rfl⟩ : ∃ k, fuel = k + 1 := ⟨fuel - 1, by omega⟩
    rw [peMapSections, value_bind, run_read16, if_neg (show ¬ i < load16 m _ by omega),
      List.range'_zero, List.map_nil, List.append_nil]
    rfl
  | succ n ih =>
    obtain ⟨fuel, rfl⟩ : ∃ k, fuel = k + 1 := ⟨fuel - 1, by omega⟩
    rw [peMapSections, value_bind, run_read16, if_pos (show i < load16 m _ by omega), value_bind,
      if_pos rfl, peSection_mem, ih _ (by omega) (by omega), List.append_assoc, List.range'_succ,
      List.map_cons, List.singleton_append]

/-- The sections are those that `pe_load_image` is seen to ask for when all of them are mapped. -/
theorem peLoadImage_mappings {bytesRead : Nat} (hread : 512 ≤ bytesRead) (hbuffer : buffer ≠ 0)
    (hvalid : ((validatePEImage buffer).run m).value = true) :
    ((peLoadImage (fun _ => true) bytesRead buffer).run m).value =
      .ret (buffer, mappingsOf m buffer) := by
  have hcount : load16 m (add32 ((peGetNtHeaders buffer).run m).value 6) =
      0 + numberOfSections m buffer := (Nat.zero_add _).symm
  have hlt : numberOfSections m buffer < 65536 := load16_lt m _
  have hloop := peMapSections_all ((peGetSectionHeader buffer).run m).value
    (imageBaseOf m buffer) [] hcount hlt
  rw [List.nil_append, ← List.range_eq_range'] at hloop
  unfold peLoadImage
  rw [if_neg (by omega), if_neg hbuffer, value_bind, validatePEImage_readOnly,
    if_neg (by simp [hvalid])]
  change (((peMapSections _ _ _ _ 65536 0 []).run m).value >>= fun mappings =>
    Outcome.ret (buffer, mappings)) = _
  exact congrArg (· >>= fun mappings => Outcome.ret (buffer, mappings)) hloop

/-- An accepted image is loaded by mapping its sections in order. -/
theorem loadImage_accepted {bytesRead : Nat} (hread : 512 ≤ bytesRead) (hbuffer : buffer ≠ 0)
    (hvalid : ((validatePEImage buffer).run m).value = true) :
    loadImage raw gfd m bytesRead buffer proc =
      mapAll raw gfd (mappingsOf m buffer) proc >>= fun proc' => .ret (buffer, proc') := by
  have hcount : load16 m (add32 ((peGetNtHeaders buffer).run m).value 6) =
      0 + numberOfSections m buffer := (Nat.zero_add _).symm
  have hlt : numberOfSections m buffer < 65536 := load16_lt m _
  unfold loadImage
  rw [if_neg (by omega), if_neg hbuffer, if_neg (by simp [hvalid])]
  dsimp only
  rw [mapSections_eq hcount hlt, ← List.range_eq_range']
  rfl

theorem mappingOf_address : (mappingOf m buffer i).address < 4294967296 := add32_lt _ _

/-- After an accepted image is loaded all of its sections are reachable, exactly when no section
is longer than a page, if the pages of all sections can be mapped. -/
theorem loadsReachable_iff (low high : Nat) (raw : VmArea) (gfd : Nat) (m : Mem)
    (bytesRead buffer : Nat) (proc : Pcb) (hhigh : high < 4294967296)
    (hcontract : (contractSystem low high).Reachable proc.memoryContract)
    (hfree : proc.contractSpinlock = 0) (hread : 512 ≤ bytesRead) (hbuffer : buffer ≠ 0)
    (hvalid : ((validatePEImage buffer).run m).value = true) :
    LoadsReachable raw gfd m bytesRead buffer proc ↔
      (Mappable low high gfd proc (mappingsOf m buffer) →
        ∀ i < numberOfSections m buffer, virtualSize m buffer i ≤ 4096) := by
  have haddress : ∀ s ∈ mappingsOf m buffer, s.address < 4294967296 := by
    intro s hs
    obtain ⟨i, _, rfl⟩ := List.mem_map.mp hs
    exact mappingOf_address
  obtain ⟨hreturns, hareas⟩ := mapAll_iff raw gfd hhigh hcontract hfree haddress
  have hin : ∀ i < numberOfSections m buffer, mappingOf m buffer i ∈ mappingsOf m buffer :=
    fun i hi => List.mem_map.mpr ⟨i, List.mem_range.mpr hi, rfl⟩
  unfold LoadsReachable
  simp only [loadImage_accepted hread hbuffer hvalid]
  constructor
  · intro hloads hmappable i hi
    obtain ⟨proc', hret⟩ := hreturns.mpr hmappable
    by_contra hlong
    -- the first address behind the page of the section
    obtain ⟨a, ha, hstart, hend, _⟩ := hloads proc' (by rw [hret]; rfl) i hi
      ((mappingOf m buffer i).address + 4096) (by omega) (by omega)
    rcases (hareas proc' hret a).mp ha with ha | ha
    · obtain ⟨s, hs, rfl⟩ := List.mem_map.mp ha
      simp only [pageOf] at hstart hend
      omega
    · have hapart := hmappable.clear _ (hin i hi) a ha
      simp only [Apart, pageOf] at hapart
      omega
  · intro hshort proc' hload i hi
    obtain ⟨proc'', hret, hsame⟩ := Outcome.bind_eq_ret.mp hload
    injection hsame with hsame
    injection hsame with _ hsame
    subst hsame
    have hsize := hshort (hreturns.mp ⟨proc'', hret⟩) i hi
    intro x hlo hhi
    refine ⟨pageOf gfd (mappingOf m buffer i), (hareas proc'' hret _).mpr (.inl ?_), rfl, ?_, rfl,
      rfl, rfl⟩
    · exact List.mem_map.mpr ⟨_, hin i hi, rfl⟩
    · exact show x < (mappingOf m buffer i).address + 4096 by omega

/-- A contract of the user land without areas. -/
def userLand : VmContract where
  contract :=
    ⟨[⟨0, 4096, mmapNonRemove, invalidFd, 0⟩,
      ⟨3221221376, 3221225472, mmapNonRemove, invalidFd, 0⟩], 2⟩
  lowestAddr := 0
  highestAddr := 3221225472

theorem userLand_reachable : (contractSystem 0 3221225472).Reachable userLand :=
  .init ⟨⟨0, 0, 0, 0, 0⟩, by decide +kernel⟩

/-- An image at 4194304 with a section of code behind its first page, of `size` bytes. -/
def codeImage (size : Nat) : Mem :=
  let m := store32 (store32 (peImage 64) 4416 size) 4420 4096
  store32 (store32 m 4428 512) 4444 0x20

theorem loadsReachable_iff_small :
    LoadsReachable ⟨0, 0, 0, 0, 0⟩ 3 (codeImage 4096) 4096 4096 ⟨userLand, 0⟩ ↔
      (Mappable 0 3221225472 3 ⟨userLand, 0⟩ (mappingsOf (codeImage 4096) 4096) →
        ∀ i < numberOfSections (codeImage 4096) 4096, virtualSize (codeImage 4096) 4096 i ≤ 4096) :=
  loadsReachable_iff 0 3221225472 ⟨0, 0, 0, 0, 0⟩ 3 (codeImage 4096) 4096 4096 ⟨userLand, 0⟩
    (by decide) userLand_reachable rfl (by decide) (by decide) (by decide +kernel)

/-- Of a section of two pages only the first is mapped. -/
theorem loadsReachable_fails :
    ¬ LoadsReachable ⟨0, 0, 0, 0, 0⟩ 3 (codeImage 8192) 4096 4096 ⟨userLand, 0⟩ := by
  intro hloads
  have hload : loadImage ⟨0, 0, 0, 0, 0⟩ 3 (codeImage 8192) 4096 4096 ⟨userLand, 0⟩ =
      .ret (4096, ⟨⟨⟨[⟨0, 4096, mmapNonRemove, invalidFd, 0⟩, ⟨4198400, 4202496, 43, 3, 512⟩,
        ⟨3221221376, 3221225472, mmapNonRemove, invalidFd, 0⟩], 4⟩, 0, 3221225472⟩, 0⟩) := by
    decide +kernel
  have hcount : 0 < numberOfSections (codeImage 8192) 4096 := by decide +kernel
  have haddress : (mappingOf (codeImage 8192) 4096 0).address = 4198400 := by decide +kernel
  have hsize : virtualSize (codeImage 8192) 4096 0 = 8192 := by decide +kernel
  obtain ⟨a, ha, hstart, hend, _⟩ := hloads _ hload 0 hcount 4202496 (by rw [haddress]; decide)
    (by rw [haddress, hsize]; decide)
  rw [haddress] at hstart
  simp only [VmContract.areas, List.mem_cons, List.not_mem_nil, or_false] at ha
  rcases ha with rfl | rfl | rfl
  · revert hstart
    decide
  · revert hend
    decide
  · revert hstart
    decide

end

end MeOS.PeSections
