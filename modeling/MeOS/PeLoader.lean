import MeOS.Lib.Traced
import MeOS.Mmap
import MeOS.PageCache

/-! # `pe_loader.cpp`: the headers of an image

`pe_load_image` looks at the headers in the page-cache buffer of the first page of
the file, through offsets and counts that the file gives. `validate_PE_image` checks
two signatures, the machine, the characteristics and the image base, but no offset:
an image may be accepted with its headers outside the buffer.
-/

namespace MeOS

open Bytes Traced

/-! ## The headers -/

/-- `IMAGE_DOS_SIGNATURE`. -/
abbrev imageDosSignature : Nat := 0x5A4D

/-- `IMAGE_NT_SIGNATURE`. -/
abbrev imageNtSignature : Nat := 0x00004550

/-- `IMAGE_FILE_MACHINE_I386`. -/
abbrev imageFileMachineI386 : Nat := 0x14c

/-- `IMAGE_FILE_EXECUTABLE_IMAGE`. -/
abbrev imageFileExecutableImage : Nat := 0x0002

/-- `IMAGE_FILE_32BIT_MACHINE`. -/
abbrev imageFile32bitMachine : Nat := 0x0100

/-- `MMAP_EXEC`. -/
abbrev mmapExec : Nat := 1

/-- `pe_get_nt_headers`. -/
def peGetNtHeaders (header : Nat) : Prog Nat := do
  let lfanew ← read32 (add32 header 60)
  pure (add32 lfanew header)

/-- `pe_get_section_header`; `OptionalHeader` is at 24 of the NT headers. -/
def peGetSectionHeader (header : Nat) : Prog Nat := do
  let ntHeader ← peGetNtHeaders header
  let sizeOfOptionalHeader ← read16 (add32 ntHeader 20)
  pure (add32 (add32 ntHeader 24) sizeOfOptionalHeader)

/-- `validate_PE_image`. -/
def validatePEImage (image : Nat) : Prog Bool := do
  let lfanew ← read32 (add32 image 60)
  if lfanew = 0 then
    pure false
  else do
    let magic ← read16 image
    if magic ≠ imageDosSignature then
      pure false
    else do
      let ntHeaders ← peGetNtHeaders image
      let signature ← read32 ntHeaders
      if signature ≠ imageNtSignature then
        pure false
      else do
        let machine ← read16 (add32 ntHeaders 4)
        if machine ≠ imageFileMachineI386 then
          pure false
        else do
          let characteristics ← read16 (add32 ntHeaders 22)
          -- `==` binds tighter than `&`, so this test refuses nothing
          if characteristics &&&
              (if imageFileExecutableImage ||| imageFile32bitMachine = 0 then 1 else 0) ≠ 0 then
            pure false
          else do
            let characteristics ← read16 (add32 ntHeaders 22)
            if characteristics &&& 1 = 0 then
              pure false
            else do
              let imageBase ← read32 (add32 ntHeaders 52)
              if imageBase < 4194304 then
                pure false
              else do
                let imageBase ← read32 (add32 ntHeaders 52)
                if imageBase ≥ 2147483648 then
                  pure false
                else
                  pure true

/-- `pe_get_section_protection_and_flags`, from `PROT_NONE` and `MMAP_NO_ACCESS`. -/
def peGetSectionProtectionAndFlags (characteristics : Nat) : Nat × Nat :=
  let (protection, flags) :=
    if characteristics &&& 0x20 = 0x20 then
      -- code
      (mmapRead ||| mmapExec, mmapExec ||| mmapShared)
    else if characteristics &&& 0x40 = 0x40 then
      -- initialized data
      (mmapRead ||| mmapWrite, mmapPrivate)
    else if characteristics &&& 0x80 = 0x80 then
      -- uninitialized data
      (mmapRead ||| mmapWrite, mmapAnonymous ||| mmapPrivate)
    else (0, mmapNoAccess)
  (protection, flags ||| mmapUser)

/-- What `vfs_mmap_p` is asked to map for a section. -/
structure SectionMapping where
  address : Nat
  offset : Nat
  protection : Nat
  flags : Nat
deriving Repr, DecidableEq

/-- The body of the section loop up to the call of `vfs_mmap_p`; a section header has 40 bytes. -/
def peSection (sections imageBase i : Nat) : Prog SectionMapping := do
  let header := add32 sections (40 * i)
  let _name ← readBytes header 8
  -- what is printed
  let _virtualAddress ← read32 (add32 header 12)
  let _sizeOfRawData ← read32 (add32 header 16)
  let _pointerToRawData ← read32 (add32 header 20)
  let _virtualSize ← read32 (add32 header 8)
  let characteristics ← read32 (add32 header 36)
  let (protection, flags) := peGetSectionProtectionAndFlags characteristics
  let _characteristics ← read32 (add32 header 36)
  let virtualAddress ← read32 (add32 header 12)
  let pointerToRawData ← read32 (add32 header 20)
  pure ⟨add32 virtualAddress imageBase, pointerToRawData, protection, flags⟩

/-- The section loop from section `i` on; `mapped` are the answers of `vfs_mmap_p`, and a failure
ends in `PANIC`. -/
def peMapSections (mapped : Nat → Bool) (ntHeader sections imageBase : Nat) :
    Nat → Nat → List SectionMapping → Prog (Outcome (List SectionMapping))
  | 0, _, _ => pure .running
  | fuel + 1, i, done => do
    let numberOfSections ← read16 (add32 ntHeader 6)
    if i < numberOfSections then do
      let mapping ← peSection sections imageBase i
      if mapped i then
        peMapSections mapped ntHeader sections imageBase fuel (i + 1) (done ++ [mapping])
      else do
        let _virtualAddress ← read32 (add32 (add32 sections (40 * i)) 12)
        let _sizeOfRawData ← read32 (add32 (add32 sections (40 * i)) 16)
        pure .panic
    else pure (.ret done)

/-- `pe_load_image`, with the count that `read_file_global` returned and the buffer that
`page_cache_get_buffer` gave; the result is the header, or 0, and the mappings. -/
def peLoadImage (mapped : Nat → Bool) (bytesRead buffer : Nat) :
    Prog (Outcome (Nat × List SectionMapping)) :=
  if bytesRead < 512 then
    pure (.ret (0, []))
  else if buffer = 0 then
    pure .panic
  else do
    let valid ← validatePEImage buffer
    if valid = false then
      pure (.ret (0, []))
    else do
      let ntHeader ← peGetNtHeaders buffer
      let imageBase ← read32 (add32 ntHeader 52)
      let sections ← peGetSectionHeader buffer
      let done ← peMapSections mapped ntHeader sections imageBase 65536 0 []
      pure (done >>= fun mappings => .ret (buffer, mappings))

/-! ## What the file says -/

/-- `e_lfanew`. -/
def eLfanew (m : Mem) (image : Nat) : Nat := load32 m (add32 image 60)

/-- `NumberOfSections`. -/
def numberOfSections (m : Mem) (image : Nat) : Nat :=
  load16 m (add32 (add32 (eLfanew m image) image) 6)

/-- `SizeOfOptionalHeader`. -/
def sizeOfOptionalHeader (m : Mem) (image : Nat) : Nat :=
  load16 m (add32 (add32 (eLfanew m image) image) 20)

/-- The headers fit into the page: the NT headers up to `ImageBase`, and the header of each section
that is reached, behind the optional header of the size that the file gives. -/
def HeadersFit (mapped : Nat → Bool) (m : Mem) (image : Nat) : Prop :=
  eLfanew m image + 56 ≤ pageCacheSize ∧
    ∀ i, i < numberOfSections m image → (∀ j, j < i → mapped j = true) →
      eLfanew m image + 24 + sizeOfOptionalHeader m image + 40 * (i + 1) ≤ pageCacheSize

section Headers

variable {m : Mem} {image lfanew offset size : Nat} {mapped : Nat → Bool}

theorem add32_comm (a b : Nat) : add32 a b = add32 b a := by
  simp only [add32, Nat.add_comm]

/-- A field at `offset` of the buffer, reached with 32-bit sums, is inside when its end is. -/
theorem within_page (himage : image + pageCacheSize ≤ 4294967296) (hoff : offset < 4294967296)
    (hsize : 1 ≤ size) :
    (⟨add32 image offset, size⟩ : Access).Within image (image + pageCacheSize) ↔
      offset + size ≤ pageCacheSize := by
  simp only [Access.Within, add32, pageCacheSize] at *
  omega

/-- A field of the NT headers. -/
theorem nt_within (himage : image + pageCacheSize ≤ 4294967296)
    (hoff : lfanew + offset < 4294967296) (hsize : 1 ≤ size) :
    (⟨add32 (add32 lfanew image) offset, size⟩ : Access).Within image (image + pageCacheSize) ↔
      lfanew + offset + size ≤ pageCacheSize := by
  have heq : add32 (add32 lfanew image) offset = add32 image (lfanew + offset) := by
    simp only [add32]
    omega
  rw [heq, within_page himage hoff hsize]

/-- The fields up to `ImageBase` are inside when it is. -/
theorem nt_fits (himage : image + pageCacheSize ≤ 4294967296) (hfit : lfanew + 56 ≤ pageCacheSize)
    (hsize : 1 ≤ size) (hend : offset + size ≤ 56) :
    (⟨add32 (add32 lfanew image) offset, size⟩ : Access).Within image (image + pageCacheSize) := by
  simp only [pageCacheSize] at hfit
  rw [nt_within himage (by omega) hsize]
  simp only [pageCacheSize]
  omega

/-- A test that refuses is passed. -/
theorem value_guard {c : Prop} {_ : Decidable c} {x : Prog Bool} :
    ((if c then pure false else x : Prog Bool).run m).value = true ↔
      ¬ c ∧ (x.run m).value = true := by
  by_cases hc : c
  · simp [hc]
  · simp [hc]

/-- Reading the headers of an accepted image stays in the buffer when `ImageBase` is inside. -/
theorem validate_staysIn (himage : image + pageCacheSize ≤ 4294967296)
    (h : ((validatePEImage image).run m).value = true) :
    StaysIn image (image + pageCacheSize) (validatePEImage image) m ↔
      eLfanew m image + 56 ≤ pageCacheSize := by
  have hlt : eLfanew m image < 4294967296 := load32_lt _ _
  simp only [validatePEImage, value_bind, value_guard] at h
  simp only [peGetNtHeaders, value_bind, mem_bind, run_read32, run_read16, run_pure] at h
  rcases h with ⟨h₁, h₂, h₃, h₄, h₅, h₆, h₇, h₈, _⟩
  simp only [validatePEImage, staysIn_bind, staysIn_ite]
  simp only [peGetNtHeaders, staysIn_bind, staysIn_read32, staysIn_read16, staysIn_pure,
    value_bind, mem_bind, run_read32, run_read16, run_pure, h₁, h₂, h₃, h₄, h₅, h₆, h₇, h₈,
    not_false_eq_true, forall_const, IsEmpty.forall_iff, true_and, and_true]
  rw [show load32 m (add32 image 60) = eLfanew m image from rfl]
  constructor
  · -- the two reads furthest back are those of the signature and of the image base
    rintro ⟨_, _, _, hsignature, _, _, _, hbase, _⟩
    rw [add32_comm, within_page himage hlt (by decide)] at hsignature
    have hfar : eLfanew m image + 52 < 4294967296 := by
      simp only [pageCacheSize] at hsignature
      omega
    rw [nt_within himage hfar (by decide)] at hbase
    exact hbase
  · intro hfit
    have hnt : ∀ offset size, 1 ≤ size → offset + size ≤ 56 →
        (⟨add32 (add32 (eLfanew m image) image) offset, size⟩ : Access).Within image
          (image + pageCacheSize) :=
      fun offset size hsize hend => nt_fits himage hfit hsize hend
    have hsignature : (⟨add32 (eLfanew m image) image, 4⟩ : Access).Within image
        (image + pageCacheSize) := by
      rw [add32_comm, within_page himage hlt (by decide)]
      omega
    have hlfanew : (⟨add32 image 60, 4⟩ : Access).Within image (image + pageCacheSize) :=
      (within_page himage (by decide) (by decide)).mpr (by decide)
    have hmagic : (⟨image, 2⟩ : Access).Within image (image + pageCacheSize) :=
      ⟨Nat.le_refl _, Nat.add_le_add_left (show 2 ≤ 4096 by decide) image⟩
    exact ⟨hlfanew, hmagic, hlfanew, hsignature, hnt 4 2 (by decide) (by decide),
      hnt 22 2 (by decide) (by decide), hnt 22 2 (by decide) (by decide),
      hnt 52 4 (by decide) (by decide), hnt 52 4 (by decide) (by decide)⟩

theorem peGetNtHeaders_readOnly (header : Nat) : ReadOnly (peGetNtHeaders header) :=
  .bind (.read32 _) fun _ => .pure _

/-- Validation writes nothing. -/
theorem validatePEImage_readOnly (image : Nat) : ReadOnly (validatePEImage image) := by
  unfold validatePEImage
  refine .bind (.read32 _) fun _ => .ite (.pure _) ?_
  refine .bind (.read16 _) fun _ => .ite (.pure _) ?_
  refine .bind (peGetNtHeaders_readOnly _) fun _ => ?_
  refine .bind (.read32 _) fun _ => .ite (.pure _) ?_
  refine .bind (.read16 _) fun _ => .ite (.pure _) ?_
  refine .bind (.read16 _) fun _ => .ite (.pure _) ?_
  refine .bind (.read16 _) fun _ => .ite (.pure _) ?_
  refine .bind (.read32 _) fun _ => .ite (.pure _) ?_
  exact .bind (.read32 _) fun _ => .ite (.pure _) (.pure _)

/-! ## Section headers -/

/-- The section headers, where `pe_get_section_header` finds them. -/
def sectionsAt (lfanew image soh : Nat) : Nat := add32 (add32 (add32 lfanew image) 24) soh

/-- A field of a section header. -/
theorem section_within {soh i : Nat} (himage : image + pageCacheSize ≤ 4294967296)
    (hoff : lfanew + 24 + soh + 40 * i + offset < 4294967296) (hsize : 1 ≤ size) :
    (⟨add32 (add32 (sectionsAt lfanew image soh) (40 * i)) offset, size⟩ : Access).Within image
      (image + pageCacheSize) ↔ lfanew + 24 + soh + 40 * i + offset + size ≤ pageCacheSize := by
  have heq : add32 (add32 (sectionsAt lfanew image soh) (40 * i)) offset =
      add32 image (lfanew + 24 + soh + 40 * i + offset) := by
    simp only [sectionsAt, add32]
    omega
  rw [heq, within_page himage hoff hsize]

/-- Reading a section header stays in the buffer when its last field is inside. -/
theorem peSection_staysIn {soh i imageBase : Nat} (himage : image + pageCacheSize ≤ 4294967296)
    (hoff : lfanew + 24 + soh + 40 * (i + 1) < 4294967296) :
    StaysIn image (image + pageCacheSize) (peSection (sectionsAt lfanew image soh) imageBase i) m ↔
      lfanew + 24 + soh + 40 * (i + 1) ≤ pageCacheSize := by
  have hfield : ∀ offset size, 1 ≤ size → offset + size ≤ 40 →
      ((⟨add32 (add32 (sectionsAt lfanew image soh) (40 * i)) offset, size⟩ : Access).Within image
        (image + pageCacheSize) ↔ lfanew + 24 + soh + 40 * i + offset + size ≤ pageCacheSize) := by
    intro offset size hsize hend
    exact section_within himage (by omega) hsize
  have hname : (⟨add32 (sectionsAt lfanew image soh) (40 * i), 8⟩ : Access).Within image
      (image + pageCacheSize) ↔ lfanew + 24 + soh + 40 * i + 0 + 8 ≤ pageCacheSize := by
    have hzero : add32 (add32 (sectionsAt lfanew image soh) (40 * i)) 0 =
        add32 (sectionsAt lfanew image soh) (40 * i) := by
      simp only [add32]
      omega
    rw [← hzero]
    exact hfield 0 8 (by decide) (by decide)
  simp only [peSection, staysIn_bind, staysIn_readBytes, staysIn_read32, staysIn_pure,
    run_readBytes, run_read32, and_true]
  rw [hname, hfield 12 4 (by decide) (by decide), hfield 16 4 (by decide) (by decide),
    hfield 20 4 (by decide) (by decide), hfield 8 4 (by decide) (by decide),
    hfield 36 4 (by decide) (by decide)]
  omega

@[simp] theorem peSection_mem {sections imageBase i : Nat} :
    ((peSection sections imageBase i).run m).mem = m := rfl

/-- The section loop from section `i` on stays in the buffer when the headers that it reaches do. -/
theorem peMapSections_staysIn {soh imageBase : Nat} (himage : image + pageCacheSize ≤ 4294967296)
    (hlfanew : lfanew + 56 ≤ pageCacheSize) (hsoh : soh < 65536) (fuel : Nat) :
    ∀ i done, load16 m (add32 (add32 lfanew image) 6) ≤ i + fuel →
      (StaysIn image (image + pageCacheSize) (peMapSections mapped (add32 lfanew image)
          (sectionsAt lfanew image soh) imageBase fuel i done) m ↔
        ∀ k, i ≤ k → k < load16 m (add32 (add32 lfanew image) 6) →
          (∀ j, i ≤ j → j < k → mapped j = true) →
            lfanew + 24 + soh + 40 * (k + 1) ≤ pageCacheSize) := by
  have hcount := load16_lt m (add32 (add32 lfanew image) 6)
  induction fuel with
  | zero =>
    intro i done hfuel
    simp only [peMapSections, staysIn_pure, true_iff]
    intro k hik hk
    omega
  | succ fuel ih =>
    intro i done hfuel
    have hnumber : (⟨add32 (add32 lfanew image) 6, 2⟩ : Access).Within image
        (image + pageCacheSize) := nt_fits himage hlfanew (by decide) (by decide)
    simp only [peMapSections, staysIn_bind, staysIn_ite]
    simp only [staysIn_read16, staysIn_read32, staysIn_pure, run_read16, run_read32, peSection_mem,
      hnumber, true_and, and_true, implies_true]
    by_cases hi : i < load16 m (add32 (add32 lfanew image) 6)
    · have hoff : lfanew + 24 + soh + 40 * (i + 1) < 4294967296 := by
        simp only [pageCacheSize] at hlfanew
        omega
      simp only [hi, forall_const]
      rw [peSection_staysIn himage hoff, ih (i + 1) _ (by omega)]
      constructor
      · rintro ⟨hfirst, hrest, _⟩ k hik hk hmapped
        by_cases heq : k = i
        · rw [heq]
          exact hfirst
        · have hi' : mapped i = true := hmapped i (Nat.le_refl i) (by omega)
          exact hrest hi' k (by omega) hk fun j hj hjk => hmapped j (by omega) hjk
      · intro hall
        have hfirst := hall i (Nat.le_refl i) hi fun j hj hji => absurd hji (by omega)
        refine ⟨hfirst, ?_, ?_⟩
        · intro hi' k hik hk hmapped
          apply hall k (by omega) hk
          intro j hj hjk
          by_cases heq : j = i
          · rw [heq]
            exact hi'
          · exact hmapped j (by omega) hjk
        · -- what is printed about a section that could not be mapped
          intro _
          have hprinted : ∀ offset size, 1 ≤ size → offset + size ≤ 40 →
              (⟨add32 (add32 (sectionsAt lfanew image soh) (40 * i)) offset, size⟩ : Access).Within
                image (image + pageCacheSize) := by
            intro offset size hsize hend
            rw [section_within himage (by omega) hsize]
            omega
          exact ⟨hprinted 12 4 (by decide) (by decide), hprinted 16 4 (by decide) (by decide)⟩
    · simp only [hi, IsEmpty.forall_iff, true_iff]
      intro k hik hk
      omega

end Headers

/-- What `pe_load_image` reads lies in the page-cache buffer exactly when it does not get to the
headers, when the image is refused, or when the headers fit into the page. -/
theorem pe_headers_confined_iff (mapped : Nat → Bool) (m : Mem) (bytesRead buffer : Nat)
    (hbuffer : buffer + pageCacheSize ≤ 4294967296) :
    (((validatePEImage buffer).run m).value = true →
        StaysIn buffer (buffer + pageCacheSize) (peLoadImage mapped bytesRead buffer) m) ↔
      bytesRead < 512 ∨ buffer = 0 ∨ ((validatePEImage buffer).run m).value = false ∨
        HeadersFit mapped m buffer := by
  unfold peLoadImage
  by_cases hbytes : bytesRead < 512
  · simp [hbytes]
  by_cases hzero : buffer = 0
  · simp [hbytes, hzero]
  cases hvalid : ((validatePEImage buffer).run m).value with
  | false => simp
  | true =>
    have hheaders := validate_staysIn hbuffer hvalid
    have hlfanew : load32 m (add32 buffer 60) = eLfanew m buffer := rfl
    -- the checks of the headers are met, so only the section headers are left
    simp only [hbytes, hzero, if_false, staysIn_bind, staysIn_ite]
    simp only [hvalid, validatePEImage_readOnly buffer m, hheaders, staysIn_bind, staysIn_read32,
      staysIn_read16, staysIn_pure, peGetNtHeaders, peGetSectionHeader, value_bind, mem_bind,
      run_read32, run_read16, run_pure, hlfanew, forall_const, reduceCtorEq, not_false_eq_true,
      false_or, and_true, true_and, IsEmpty.forall_iff]
    unfold HeadersFit
    constructor
    · rintro ⟨hnt, _, _, _, hsections⟩
      refine ⟨hnt, ?_⟩
      have hall := (peMapSections_staysIn hbuffer hnt (load16_lt _ _) 65536 0 []
        (Nat.le_of_lt (Nat.lt_of_lt_of_le (load16_lt _ _) (by decide)))).mp hsections
      intro i hi hmapped
      exact hall i (Nat.zero_le i) hi fun j _ hji => hmapped j hji
    · rintro ⟨hnt, hsections⟩
      -- every field of the headers the loader reads lies in their first 56 bytes
      have hfield : ∀ offset size, 1 ≤ size → offset + size ≤ 56 →
          (⟨add32 (add32 (eLfanew m buffer) buffer) offset, size⟩ : Access).Within buffer
            (buffer + pageCacheSize) := by
        intro offset size hsize hend
        exact nt_fits hbuffer hnt hsize hend
      have hdos : (⟨add32 buffer 60, 4⟩ : Access).Within buffer (buffer + pageCacheSize) :=
        (within_page hbuffer (by decide) (by decide)).mpr (by decide)
      refine ⟨hnt, hdos, hfield 52 4 (by decide) (by decide),
        ⟨hdos, hfield 20 2 (by decide) (by decide)⟩, ?_⟩
      apply (peMapSections_staysIn hbuffer hnt (load16_lt _ _) 65536 0 []
        (Nat.le_of_lt (Nat.lt_of_lt_of_le (load16_lt _ _) (by decide)))).mpr
      intro k _ hk hmapped
      exact hsections k hk fun j hj => hmapped j (Nat.zero_le j) hj

/-- A buffer at 4096 with an image of one section whose NT headers are at `lfanew`. -/
def peImage (lfanew : Nat) : Mem :=
  let nt := 4096 + lfanew
  let m := store32 (store16 (fun _ => 0) 4096 imageDosSignature) 4156 lfanew
  let m := store32 m nt imageNtSignature
  let m := store16 (store16 m (nt + 4) imageFileMachineI386) (nt + 6) 1
  store32 (store16 (store16 m (nt + 20) 224) (nt + 22) 3) (nt + 52) 4194304

/-- The headers of an image right behind its DOS header are inside. -/
theorem pe_headers_confined_near :
    StaysIn 4096 8192 (peLoadImage (fun _ => true) 4096 4096) (peImage 64) := by
  refine (pe_headers_confined_iff (fun _ => true) (peImage 64) 4096 4096 (by decide)).mpr ?_
    (by decide +kernel)
  have hcount : numberOfSections (peImage 64) 4096 = 1 := by decide +kernel
  have hsize : sizeOfOptionalHeader (peImage 64) 4096 = 224 := by decide +kernel
  have hlfanew : eLfanew (peImage 64) 4096 = 64 := by decide +kernel
  refine Or.inr (Or.inr (Or.inr ⟨?_, ?_⟩))
  · rw [hlfanew]
    decide
  · intro i hi _
    rw [hcount] at hi
    rw [hlfanew, hsize]
    simp only [pageCacheSize]
    omega

/-- An image is accepted whose NT headers are two pages behind the buffer. -/
theorem pe_headers_far :
    ¬ ∀ mapped m bytesRead buffer, buffer + pageCacheSize ≤ 4294967296 →
      ((validatePEImage buffer).run m).value = true →
        StaysIn buffer (buffer + pageCacheSize) (peLoadImage mapped bytesRead buffer) m := by
  intro hclaim
  have hvalid : ((validatePEImage 4096).run (peImage 8192)).value = true := by decide +kernel
  have hconfined := hclaim (fun _ => true) (peImage 8192) 4096 4096 (by decide) hvalid
  have hvalidate : StaysIn 4096 (4096 + pageCacheSize) (validatePEImage 4096) (peImage 8192) :=
    (staysIn_bind _ _).mp hconfined |>.1
  have hfit := (validate_staysIn (by decide) hvalid).mp hvalidate
  have hlfanew : eLfanew (peImage 8192) 4096 = 8192 := by decide +kernel
  rw [hlfanew] at hfit
  revert hfit
  decide

end MeOS
