import MeOS.FatScratch

/-! # Links of the FAT

Entry `c` of the FAT is the word `c` of its sectors. `fat_fs_mark_cluster`
writes it there (`markCluster_ok`). `fat_fs_find_next_cluster` reads the block
that starts with the sector of entry `c`, but takes the word number `c` of the
block: entry `c + 128 * (c / 128)`, and what lies behind the buffer from
`c = 1024` on (`findNextCluster_ok`).

The sector of an entry is computed modulo `2 ^ 32`. `linkEntry` and `readLink`
are the values that are met whatever the size of the FAT (`markCluster_done`,
`findNextCluster_done`).
-/

namespace MeOS

open Bytes

/-! ## Entries -/

/-- The place of entry `c` on the disk. -/
def fatAddr (mp : MountPoint) (c : Nat) : Nat := 512 * mp.data.fatLba + 4 * c

/-- The value of entry `c`. -/
def fatEntry (d : Mem) (mp : MountPoint) (c : Nat) : Nat := load32 d (fatAddr mp c) &&& fatMask

/-- The FAT has `n` entries, of which the sectors have numbers. -/
structure FatSize (mp : MountPoint) (n : Nat) : Prop where
  few : n ≤ 268435456
  top : mp.data.fatLba + n / 128 < 4294967296

/-- The word that is marked for entry `c`. -/
def linkAddr (mp : MountPoint) (c : Nat) : Nat :=
  512 * add32 mp.data.fatLba (c / 128) + 4 * (c % 128)

/-- The value there. -/
def linkEntry (d : Mem) (mp : MountPoint) (c : Nat) : Nat := load32 d (linkAddr mp c) &&& fatMask

/-- The entry `fat_fs_find_next_cluster` takes for entry `c`. -/
def misreadIndex (c : Nat) : Nat := c + 128 * (c / 128)

/-- Word `c` from the start of the next buffer on, when it lies behind it. -/
def behindBuffer (s : FatState) (c : Nat) : Nat :=
  fatFsReadFatValue s.reserveAnonymous.1.mem s.reserveAnonymous.2 c

/-- The value `fat_fs_find_next_cluster` takes for the link of `c`. -/
def misread (s : FatState) (mp : MountPoint) (c : Nat) : Nat :=
  if c < 1024 then fatEntry s.disk mp (misreadIndex c) else behindBuffer s c

/-- The value `fat_fs_find_next_cluster` returns for `c` when nothing fails. -/
def readLink (s : FatState) (mp : MountPoint) (c : Nat) : Nat :=
  if c < 1024 then load32 s.disk (512 * add32 mp.data.fatLba (c / 128) + 4 * c) &&& fatMask
  else behindBuffer s c

section Mask

variable {d : Mem} {mp : MountPoint} {c v n : Nat}

theorem and_fatMask (v : Nat) : v &&& fatMask = v % 268435456 :=
  Nat.and_two_pow_sub_one_eq_mod v 28

theorem and_fatMask_lt (v : Nat) : v &&& fatMask < 268435456 := by
  rw [and_fatMask]
  exact Nat.mod_lt _ (by decide)

theorem and_fatMask_idem (v : Nat) : (v &&& fatMask) &&& fatMask = v &&& fatMask := by
  rw [and_fatMask, and_fatMask]
  omega

/-- Marking an entry with a value. -/
def markEntry (d : Mem) (mp : MountPoint) (c v : Nat) : Mem :=
  store32 d (fatAddr mp c) (v &&& fatMask)

theorem fatEntry_mark_same : fatEntry (markEntry d mp c v) mp c = v &&& fatMask := by
  rw [fatEntry, markEntry, load32_store32, Nat.mod_eq_of_lt (by have := and_fatMask_lt v; omega),
    and_fatMask_idem]

theorem fatEntry_mark_other {c' : Nat} (hne : c' ≠ c) :
    fatEntry (markEntry d mp c v) mp c' = fatEntry d mp c' := by
  rw [fatEntry, fatEntry]
  congr 1
  refine load32_congr fun x hlo hhi => ?_
  refine store32_frame _ _ ?_
  simp only [fatAddr] at *
  omega

/-- The sectors of a FAT have numbers, so entries are where they should be. -/
theorem fatLba_eq (hn : FatSize mp n) (hc : c < n) :
    add32 mp.data.fatLba (c / 128) = mp.data.fatLba + c / 128 := by
  have htop := hn.top
  have hle := Nat.div_le_div_right (c := 128) hc.le
  exact add32_eq (by omega)

theorem linkAddr_eq (hn : FatSize mp n) (hc : c < n) : linkAddr mp c = fatAddr mp c := by
  unfold linkAddr fatAddr
  rw [fatLba_eq hn hc]
  omega

theorem linkEntry_eq (hn : FatSize mp n) (hc : c < n) : linkEntry d mp c = fatEntry d mp c := by
  unfold linkEntry fatEntry
  rw [linkAddr_eq hn hc]

theorem readLink_eq {s : FatState} (hn : FatSize mp n) (hc : c < n) :
    readLink s mp c = misread s mp c := by
  unfold readLink misread
  split
  · rw [fatLba_eq hn hc, fatEntry, fatAddr, misreadIndex]
    congr 2
    omega
  · rfl

/-- The words of different entries do not overlap. -/
theorem linkAddr_apart (mp : MountPoint) {c' : Nat} (hc : c < 268435456)
    (hc' : c' < 268435456) (hne : c' ≠ c) :
    linkAddr mp c' + 4 ≤ linkAddr mp c ∨ linkAddr mp c + 4 ≤ linkAddr mp c' := by
  unfold linkAddr
  simp only [add32]
  omega

theorem linkEntry_store_same :
    linkEntry (store32 d (linkAddr mp c) (v &&& fatMask)) mp c = v &&& fatMask := by
  rw [linkEntry, load32_store32, Nat.mod_eq_of_lt (by have := and_fatMask_lt v; omega),
    and_fatMask_idem]

theorem linkEntry_store_other {c' : Nat} (hc : c < 268435456) (hc' : c' < 268435456)
    (hne : c' ≠ c) : linkEntry (store32 d (linkAddr mp c) v) mp c' = linkEntry d mp c' := by
  have hapart := linkAddr_apart mp hc hc' hne
  unfold linkEntry
  congr 1
  exact load32_congr fun x hlo hhi => store32_frame _ _ (by omega)

end Mask

/-! ## Reading and marking -/

section Links

variable {s : FatState} {mp : MountPoint} {n c v k : Nat}

/-- A word of a buffer. -/
theorem fatWord_eq {a i : Nat} (ha : a + pageCacheSize ≤ 4294967296) (hi : i < 1024) :
    fatWord a i = a + 4 * i := by
  unfold fatWord
  simp only [pageCacheSize] at ha
  rw [mul32_eq (by omega), add32_eq (by omega)]
  omega

/-- A word of a block that was read into a buffer. -/
theorem readFatValue_fetch {t : FatState} {lba a i : Nat} (ha : a + pageCacheSize ≤ 4294967296)
    (hi : i < 1024) :
    fatFsReadFatValue (t.fetch lba a).mem a i = load32 t.disk (512 * lba + 4 * i) &&& fatMask := by
  rw [fatFsReadFatValue, fatWord_eq ha hi]
  congr 1
  refine load32_copy fun j hj => ?_
  rw [Nat.add_assoc, t.fetch_byte lba a (by simp only [pageCacheSize]; omega), Nat.add_assoc]

/-- The state after a block was read, one of its words set, and it was written
back. -/
def FatState.editWord (t : FatState) (lba a i v : Nat) : FatState :=
  ((t.fetch lba a).setMem (store32 (t.fetch lba a).mem (fatWord a i) v)).put lba a

/-- On the disk the one word is set. -/
theorem editWord_disk {t : FatState} {lba a i : Nat} (ha : a + pageCacheSize ≤ 4294967296)
    (hi : i < 1024) (v : Nat) :
    (t.editWord lba a i v).disk = store32 t.disk (512 * lba + 4 * i) v := by
  unfold FatState.editWord
  rw [FatState.put_disk]
  apply blit_edited
  · intro k hk
    rw [FatState.setMem_mem, fatWord_eq ha hi]
    apply store32_copy
    exact t.fetch_byte lba a hk
  · intro x hx
    refine store32_frame _ _ ?_
    simp only [pageCacheSize] at hx
    omega

/-- Behind the buffer the memory stays. -/
theorem editWord_mem {t : FatState} {lba a i x : Nat} (ha : a + pageCacheSize ≤ 4294967296)
    (hi : i < 1024) (v : Nat) (hx : x < a ∨ a + pageCacheSize ≤ x) :
    (t.editWord lba a i v).mem x = t.mem x := by
  unfold FatState.editWord
  rw [FatState.put_mem, FatState.setMem_mem, fatWord_eq ha hi]
  simp only [pageCacheSize] at ha hx
  rw [store32_frame _ _ (by omega)]
  exact blit_frame _ _ _ hx

theorem Using.editWord {t : FatState} {j lba i : Nat} (h : Using s t j) (hinv : CacheInv s.files)
    (hi : i < 1024) (v : Nat) : Using s (t.editWord lba (cellAddr s.files j) i v) j := by
  have htop := h.top hinv
  have hfetch : Using s (t.fetch lba (cellAddr s.files j)) j := h.fetch hinv
  refine (hfetch.setMem hinv fun x hx => store32_frame _ _ ?_).put
  rw [fatWord_eq htop hi]
  simp only [pageCacheSize] at hx
  omega

/-- `fat_fs_find_next_cluster` when it has a buffer and the read goes through. -/
theorem findNextCluster_done (hinv : CacheInv s.files) (hmp : Mounted mp) (hc : c < 268435456)
    (hbuffer : s.reserveAnonymous.2 ≠ 0) (hdev : s.device 0 = true) :
    ∃ s', fatFsFindNextCluster s mp c = (s', readLink s mp c) ∧ Scratch s s' ∧
      (s'.disk = s.disk ∧ s'.written = s.written) ∧
      (∀ k, s'.device k = s.device (k + 1) ∧ s'.files.frames k = s.files.frames (k + 1)) ∧
      ∀ i x, (freeCells s.files).head? = some i →
        (x < cellAddr s.files i ∨ cellAddr s.files i + pageCacheSize ≤ x) → s'.mem x = s.mem x := by
  rcases reserve_cases hinv with ⟨s₁, hres, -⟩ |
    ⟨i, s₁, hres, husing, ⟨hdisk, hwritten, hdevice⟩, hmem⟩
  · rw [hres] at hbuffer
    exact absurd rfl hbuffer
  have hframes : s₁.files.frames = fun k => s.files.frames (k + 1) := by
    have hshift := (reserve_frames hbuffer).2
    rw [hres] at hshift
    exact hshift
  have htop := husing.top hinv
  rcases husing.addr hinv with ⟨a, ha⟩
  have hfetch : Using s (s₁.fetch (add32 mp.data.fatLba (c / 128)) (cellAddr s.files i)) i :=
    husing.fetch hinv
  have hdev₁ : s₁.device 0 = true := by rw [hdevice]; exact hdev
  have hvalue : fatFsReadFatValue (s₁.fetch (add32 mp.data.fatLba (c / 128))
      (cellAddr s.files i)).mem (cellAddr s.files i) c = readLink s mp c := by
    unfold readLink
    split
    · rename_i hsmall
      rw [readFatValue_fetch htop hsmall, hdisk]
    · -- the word lies behind the buffer, which only the transfer has written
      rename_i hlarge
      rw [behindBuffer, hres]
      simp only [fatFsReadFatValue]
      congr 1
      refine load32_congr fun x hlo hhi => ?_
      refine blit_frame _ _ _ ?_
      simp only [fatWord, add32, mul32, pageCacheSize] at *
      omega
  refine ⟨_, ?_, hfetch.release hinv, ⟨?_, hwritten⟩, ?_, ?_⟩
  · rw [fatFsFindNextCluster, hres, ha]
    simp only [readByLba_eq hmp, hdev₁, if_pos]
    rw [← ha, hvalue]
  · rw [FatState.release_disk, FatState.fetch_disk, hdisk]
  · intro k
    rw [FatState.release_device, FatState.fetch_device, hdevice, hfetch.release_eq hinv]
    exact ⟨rfl, congrFun hframes k⟩
  · intro j x hj hx
    obtain rfl : i = j := Option.some.inj (husing.first.symm.trans hj)
    rw [hfetch.release_eq hinv, FatState.setMem_mem]
    by_cases hxb : x = bitmapAddr s.files + i
    · rw [hxb, store8_same]
      exact (mem_freeCells.mp husing.free).2.symm
    · rw [store8_ne _ _ hxb]
      show blit _ _ _ _ _ x = _
      rw [blit_frame _ _ _ hx, hmem x hx, store8_ne _ _ hxb]

/-- A buffer can be had when nothing fails. -/
theorem Steady.buffer {s : FatState} {k : Nat} (h : Steady (k + 1) s) :
    s.reserveAnonymous.2 ≠ 0 := by
  rcases h.reserve with ⟨i, s₁, hres, husing, -⟩
  have hroom := husing.room h.inv
  have hpos := (h.inv.cell_bounds (i := i) (by omega)).1
  rw [hres]
  exact hpos.ne'

/-- `fat_fs_find_next_cluster` when nothing fails. -/
theorem findNextCluster_ok (h : Steady 1 s) (hmp : Mounted mp) (hn : FatSize mp n) (hc : c < n) :
    ∃ s', fatFsFindNextCluster s mp c = (s', misread s mp c) ∧ Scratch s s' ∧
      s'.disk = s.disk ∧ s'.written = s.written := by
  have hfew := hn.few
  rcases findNextCluster_done h.inv hmp (c := c) (by omega) h.buffer (h.calm.device 0) with
    ⟨s', hrun, hscratch, hdisk, -⟩
  rw [readLink_eq hn hc] at hrun
  exact ⟨s', hrun, hscratch, hdisk⟩

/-- `fat_fs_mark_cluster` when nothing fails: one word is written. -/
theorem markCluster_done (h : Steady 1 s) (hmp : Mounted mp) (c v : Nat) :
    ∃ s', fatFsMarkCluster s mp c v = (s', linkEntry s.disk mp c) ∧ Scratch s s' ∧
      s'.disk = store32 s.disk (linkAddr mp c) (v &&& fatMask) ∧
      ∀ i x, (freeCells s.files).head? = some i →
        (x < cellAddr s.files i ∨ cellAddr s.files i + pageCacheSize ≤ x) → s'.mem x = s.mem x := by
  obtain ⟨i, s₁, hres, husing, hsteady, ⟨hdisk, hwritten, hdevice⟩, hmem⟩ := h.reserve
  have htop := husing.top h.inv
  rcases husing.addr h.inv with ⟨a, ha⟩
  have hword : c % 128 < 1024 := by omega
  have hdev : s₁.device 0 = true := hsteady.calm.device 0
  have hdev' : s₁.device 1 = true := hsteady.calm.device 1
  -- the sector of the table is read, one word of it edited, and the sector written back
  generalize hlba : add32 mp.data.fatLba (c / 128) = lba
  have hentry : 512 * lba + 4 * (c % 128) = linkAddr mp c := by
    rw [← hlba]
    rfl
  have hedit : Using s (s₁.editWord lba (cellAddr s.files i) (c % 128) (v &&& fatMask)) i :=
    husing.editWord h.inv hword (v &&& fatMask)
  have hvalue : fatFsReadFatValue (s₁.fetch lba (cellAddr s.files i)).mem
      (cellAddr s.files i) (c % 128) = linkEntry s.disk mp c := by
    rw [readFatValue_fetch htop hword, hentry, hdisk]
    rfl
  refine ⟨_, ?_, hedit.release h.inv, ?_, ?_⟩
  · rw [fatFsMarkCluster, hres, ha]
    simp only [readByLba_eq hmp, hdev, if_pos, writeByLba_eq hmp, FatState.setMem_device,
      FatState.fetch_device, hdev', hlba]
    rw [← ha]
    exact congrArg₂ Prod.mk rfl hvalue
  · rw [FatState.release_disk, editWord_disk htop hword, hentry, hdisk]
  · intro j x hj hx
    obtain rfl : i = j := Option.some.inj (husing.first.symm.trans hj)
    rw [hedit.release_eq h.inv, FatState.setMem_mem]
    -- in memory only the buffer and its mark differ, and the release clears the mark
    have hm : (s₁.editWord lba (cellAddr s.files i) (c % 128) (v &&& fatMask)).mem x =
        store8 s.mem (bitmapAddr s.files + i) 1 x := by
      rw [editWord_mem htop hword _ hx]
      exact hmem x hx
    by_cases hxb : x = bitmapAddr s.files + i
    · rw [hxb, store8_same]
      exact (mem_freeCells.mp husing.free).2.symm
    · rw [store8_ne _ _ hxb]
      exact hm.trans (store8_ne _ _ hxb)

/-- `fat_fs_mark_cluster` when nothing fails: one entry is written. -/
theorem markCluster_ok (h : Steady 1 s) (hmp : Mounted mp) (hn : FatSize mp n) (hc : c < n)
    (v : Nat) :
    ∃ s', fatFsMarkCluster s mp c v = (s', fatEntry s.disk mp c) ∧ Scratch s s' ∧
      s'.disk = markEntry s.disk mp c v ∧
      ∀ i x, (freeCells s.files).head? = some i →
        (x < cellAddr s.files i ∨ cellAddr s.files i + pageCacheSize ≤ x) → s'.mem x = s.mem x := by
  have hdone := markCluster_done h hmp c v
  rw [linkEntry_eq hn hc, linkAddr_eq hn hc] at hdone
  exact hdone

/-- What lies behind the next buffer stays when the memory outside of the buffer does. -/
theorem behindBuffer_same {s' : FatState} (hinv : CacheInv s.files)
    (hbuffer : s.reserveAnonymous.2 ≠ 0) (hbuffer' : s'.reserveAnonymous.2 ≠ 0) (hs : Scratch s s')
    (hmem : ∀ i x, (freeCells s.files).head? = some i →
      (x < cellAddr s.files i ∨ cellAddr s.files i + pageCacheSize ≤ x) → s'.mem x = s.mem x)
    (hlarge : 1024 ≤ c) (hc : c < 268435456) : behindBuffer s' c = behindBuffer s c := by
  rcases reserve_cases hinv with ⟨s₁, hres, -⟩ | ⟨i, s₁, hres, husing, -, hcell⟩
  · rw [hres] at hbuffer
    exact absurd rfl hbuffer
  rcases reserve_cases (hs.cacheInv hinv) with ⟨s₁', hres', -⟩ |
    ⟨i', s₁', hres', husing', -, hcell'⟩
  · rw [hres'] at hbuffer'
    exact absurd rfl hbuffer'
  have hfirst := husing'.first
  rw [hs.freeCells] at hfirst
  obtain rfl : i = i' := Option.some.inj (husing.first.symm.trans hfirst)
  have htop := husing.top hinv
  rw [cellAddr_congr hs.same.1] at hres' hcell'
  rw [bitmapAddr_congr hs.same] at hcell'
  rw [behindBuffer, behindBuffer, hres, hres']
  simp only [fatFsReadFatValue]
  congr 1
  refine load32_congr fun x hlo hhi => ?_
  have hout : x < cellAddr s.files i ∨ cellAddr s.files i + pageCacheSize ≤ x := by
    simp only [fatWord, add32, mul32, pageCacheSize] at *
    omega
  rw [hcell' x hout, hcell x hout]
  by_cases hxb : x = bitmapAddr s.files + i
  · rw [hxb, store8_same, store8_same]
  · rw [store8_ne _ _ hxb, store8_ne _ _ hxb]
    exact hmem i x husing.first hout

/-- Marking leaves what lies behind the next buffer. -/
theorem behindBuffer_congr {s' : FatState} (h : Steady 1 s) (hs : Scratch s s')
    (hmem : ∀ i x, (freeCells s.files).head? = some i →
      (x < cellAddr s.files i ∨ cellAddr s.files i + pageCacheSize ≤ x) → s'.mem x = s.mem x)
    (hlarge : 1024 ≤ c) (hc : c < 268435456) : behindBuffer s' c = behindBuffer s c :=
  behindBuffer_same h.inv h.buffer (hs.steady h).buffer hs hmem hlarge hc

/-! ## Agreement -/

/-- After entry `c` was marked with `v` in `s`, the links in `s'` are those of
`s`, with `v` for `c`. -/
def LinkLaw (s s' : FatState) (mp : MountPoint) (n c v : Nat) : Prop :=
  (fatFsFindNextCluster s' mp c).2 = v &&& fatMask ∧
    ∀ c' < n, c' ≠ c → (fatFsFindNextCluster s' mp c').2 = (fatFsFindNextCluster s mp c').2

/-- When reader and writer agree on `c`: the entry is in the first sector, or
what is read in its place is the value already, and so is the entry itself if
it is read in the place of another one. -/
def LinksAgree (s : FatState) (mp : MountPoint) (n c v : Nat) : Prop :=
  c < 128 ∨ (misread s mp c = v &&& fatMask ∧
    ∀ c' < n, c' < 1024 → misreadIndex c' = c → fatEntry s.disk mp c = v &&& fatMask)

/-- Marking 128 with 5 in an empty FAT: the link read for 128 is that of 256. -/
theorem markCluster_links_fails : ∃ s' last,
    fatFsMarkCluster (freshState fun _ => 0) smallMount 128 5 = (s', last) ∧
      ¬ LinkLaw (freshState fun _ => 0) s' smallMount 1024 128 5 := by
  have hn : FatSize smallMount 1024 := ⟨by decide, by decide⟩
  have h := (freshState_steady fun _ => 0).mono (k := 1) (by decide)
  obtain ⟨s', hrun, hs, hdisk, _⟩ := markCluster_ok h smallMount_mounted hn (c := 128) (by decide) 5
  obtain ⟨_, hfind, _⟩ := findNextCluster_ok (hs.steady h) smallMount_mounted hn (c := 128)
    (by decide)
  refine ⟨s', _, hrun, fun hlaw => ?_⟩
  have hread : misread s' smallMount 128 = 5 &&& fatMask := by
    have h₁ := hlaw.1
    rw [hfind] at h₁
    exact h₁
  have hother : misread s' smallMount 128 = 0 := by
    rw [misread, if_pos (by decide), hdisk, fatEntry_mark_other (by decide)]
    decide
  rw [hother] at hread
  exact absurd hread (by decide)

/-- Marking and following links agree exactly under `LinksAgree`. -/
theorem markCluster_links_iff (h : Steady 1 s) (hmp : Mounted mp) (hn : FatSize mp n)
    (hc : c < n) (v : Nat) : ∃ s' last, fatFsMarkCluster s mp c v = (s', last) ∧
      (LinkLaw s s' mp n c v ↔ LinksAgree s mp n c v) := by
  obtain ⟨s', hrun, hs, hdisk, hmem⟩ := markCluster_ok h hmp hn hc v
  refine ⟨s', _, hrun, ?_⟩
  have hfew := hn.few
  have hnew : ∀ c' < n, (fatFsFindNextCluster s' mp c').2 = misread s' mp c' := by
    intro c' hc'
    obtain ⟨t, hfind, _⟩ := findNextCluster_ok (hs.steady h) hmp hn hc'
    rw [hfind]
  have hold : ∀ c' < n, (fatFsFindNextCluster s mp c').2 = misread s mp c' := by
    intro c' hc'
    obtain ⟨t, hfind, _⟩ := findNextCluster_ok h hmp hn hc'
    rw [hfind]
  -- what is read in place of `c'` changes when that is entry `c`
  have hread : ∀ c' < n, misread s' mp c' =
      if c' < 1024 ∧ misreadIndex c' = c then v &&& fatMask else misread s mp c' := by
    intro c' hc'
    by_cases hsmall : c' < 1024
    · rw [misread, if_pos hsmall, hdisk]
      by_cases hhit : misreadIndex c' = c
      · rw [if_pos ⟨hsmall, hhit⟩, hhit, fatEntry_mark_same]
      · rw [if_neg fun hh => hhit hh.2, fatEntry_mark_other hhit, misread, if_pos hsmall]
    · rw [if_neg fun hh => hsmall hh.1, misread, if_neg hsmall, misread, if_neg hsmall]
      exact behindBuffer_congr h hs hmem (by omega) (by omega)
  have hself : c < 128 ↔ c < 1024 ∧ misreadIndex c = c := by
    simp only [misreadIndex]
    omega
  unfold LinkLaw LinksAgree
  rw [hnew c hc, hread c hc]
  by_cases hfirst : c < 128
  · rw [if_pos (hself.mp hfirst)]
    refine iff_of_true ⟨rfl, fun c' hc' hne => ?_⟩ (Or.inl hfirst)
    rw [hnew c' hc', hold c' hc', hread c' hc', if_neg]
    rintro ⟨_, hhit⟩
    simp only [misreadIndex] at hhit
    omega
  · rw [if_neg fun hh => hfirst (hself.mpr hh)]
    constructor
    · rintro ⟨hval, hrest⟩
      refine Or.inr ⟨hval, fun c' hc' hsmall hhit => ?_⟩
      have hne : c' ≠ c := by
        rintro rfl
        exact hfirst (hself.mpr ⟨hsmall, hhit⟩)
      have heq := hrest c' hc' hne
      rw [hnew c' hc', hold c' hc', hread c' hc', if_pos ⟨hsmall, hhit⟩, misread, if_pos hsmall,
        hhit] at heq
      exact heq.symm
    · rintro (hlt | ⟨hval, hrest⟩)
      · exact absurd hlt hfirst
      · refine ⟨hval, fun c' hc' _ => ?_⟩
        rw [hnew c' hc', hold c' hc', hread c' hc']
        split
        · rename_i hhit
          rw [misread, if_pos hhit.1, hhit.2]
          exact (hrest c' hc' hhit.1 hhit.2).symm
        · rfl

theorem markCluster_links_iff_first : ∃ s' last,
    fatFsMarkCluster (freshState fun _ => 0) smallMount 5 6 = (s', last) ∧
      (LinkLaw (freshState fun _ => 0) s' smallMount 1024 5 6 ↔
        LinksAgree (freshState fun _ => 0) smallMount 1024 5 6) :=
  markCluster_links_iff ((freshState_steady _).mono (by decide)) smallMount_mounted
    ⟨by decide, by decide⟩ (by decide) 6

end Links

end MeOS
