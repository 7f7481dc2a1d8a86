import MeOS.Lib.WordLoops
import MeOS.SyncFile
import MeOS.FatData

/-! # The page loops of `sync_file` and `fat_fs_sync`

Both go over their pages with a 32-bit counter and `pg <= end`. When `end` is
`0xFFFFFFFF`, which a caller may give and which is `count - 1` of an empty layout,
the counter wraps and the loop goes on from page 0. It ends then only at a page that
cannot be written. `sync_file` leaves a page it has written clean and does
not come back to it; `fat_fs_sync` writes every cached page again in every round.
-/

namespace MeOS

open Bytes WordLoops

/-! ## `fat_fs_sync` -/

/-- The page loop of `fat_fs_sync`, in front of page `pg`. -/
def fatSyncPages (mountPoint : MountPoint) (layout : List Nat) (fd pageEnd : Nat) :
    Nat → Nat → FatState → Outcome (FatState × ErrorT)
  | 0, _, _ => .running
  | fuel + 1, pg, s =>
    if pg ≤ pageEnd then
      let cache := pageCacheGetBuffer s.files fd pg
      if cache = 0 then
        fatSyncPages mountPoint layout fd pageEnd fuel (add32 pg 1) s
      else
        match fatFsWriteByPage s mountPoint layout pg cache with
        | (s, false) => .ret (s, .occur)
        | (s, true) => fatSyncPages mountPoint layout fd pageEnd fuel (add32 pg 1) s
    else .ret (s, .ok)

/-- The mount point a file is written through: for a file or a directory the node
its `tag` points to, for a mount point the node `self` itself. -/
def syncMountPoint (file : FatNode) (tag self : MountPoint) : Option MountPoint :=
  if file.attributes &&& 7 = vfsFile ∨ file.attributes &&& 7 = vfsDirectory then some tag
  else if file.attributes &&& 7 = vfsMountPt then some self
  else none

/-- The pages from the first to the last that are synced; the other way round they
stand for the whole file. -/
def syncRange (file : FatNode) (pageStart pageEnd : Nat) : Nat × Nat :=
  if pageStart > pageEnd then (0, sub32 file.data.layout.length 1) else (pageStart, pageEnd)

/-- `fat_fs_sync`. -/
def fatFsSync (fuel : Nat) (s : FatState) (file : FatNode) (tag self : MountPoint)
    (fd pageStart pageEnd : Nat) : Outcome (FatState × ErrorT) :=
  match syncMountPoint file tag self with
  | none => .ret (s.setLastError .badNodeStructure, .occur)
  | some mountPoint =>
    let (pageStart, pageEnd) := syncRange file pageStart pageEnd
    fatSyncPages mountPoint file.data.layout fd pageEnd fuel pageStart s

/-! ## Loops with fuel -/

/-- The loop `f` takes the turns of `body`, and returns `done` behind word `last`. -/
structure TakesTurns {σ ρ : Type} (f : Nat → Nat → σ → Outcome ρ) (body : Nat → σ → Except ρ σ)
    (last : Nat) (done : σ → ρ) : Prop where
  zero : ∀ i s, f 0 i s = .running
  beyond : ∀ fuel i s, last < i → f (fuel + 1) i s = .ret (done s)
  stop : ∀ fuel i s r, i ≤ last → body i s = .error r → f (fuel + 1) i s = .ret r
  next : ∀ fuel i s s', i ≤ last → body i s = .ok s' → f (fuel + 1) i s = f fuel (add32 i 1) s'

section Turns

variable {σ ρ : Type} {f : Nat → Nat → σ → Outcome ρ} {body : Nat → σ → Except ρ σ} {last i : Nat}
  {done : σ → ρ} {s : σ}

theorem TakesTurns.ends (h : TakesTurns f body last done) {fuel : Nat} {r : ρ}
    (hret : f fuel i s = .ret r) : Ends body 4294967296 last i s := by
  induction fuel generalizing i s with
  | zero =>
    rw [h.zero] at hret
    cases hret
  | succ fuel ih =>
    by_cases hle : i ≤ last
    · cases hbody : body i s with
      | error r' => exact .stop hle hbody
      | ok s' =>
        rw [h.next fuel i s s' hle hbody] at hret
        exact .next hle hbody (ih hret)
    · exact .beyond (by omega)

/-- The loop settles exactly when it ends. -/
theorem TakesTurns.settles_iff (h : TakesTurns f body last done) :
    (∃ r, Settles (fun fuel => f fuel i s) r) ↔ Ends body 4294967296 last i s := by
  constructor
  · rintro ⟨r, bound, hbound⟩
    exact h.ends (hbound bound (Nat.le_refl _))
  · intro hends
    induction hends with
    | @beyond i s hlt =>
      refine ⟨done s, Settles.succ ?_⟩
      simp only [h.beyond _ i s hlt]
      exact Settles.ret
    | @stop i s r hle hbody =>
      refine ⟨r, Settles.succ ?_⟩
      simp only [h.stop _ i s r hle hbody]
      exact Settles.ret
    | @next i s s' hle hbody _ ih =>
      obtain ⟨r, hr⟩ := ih
      refine ⟨r, Settles.succ ?_⟩
      simp only [h.next _ i s s' hle hbody]
      exact hr

/-- A loop below the last word settles; up to it, exactly when its body breaks it off. -/
theorem TakesTurns.settles (h : TakesTurns f body last done) (hi : i < 4294967296)
    (hlast : last < 4294967296) :
    (∃ r, Settles (fun fuel => f fuel i s) r) ↔
      (last = 4294967295 → Breaks body 4294967296 i s) := by
  rw [h.settles_iff]
  by_cases htop : last = 4294967295
  · rw [ends_top_iff (by omega) hi]
    exact ⟨fun hbreak _ => hbreak, fun hbreak => hbreak htop⟩
  · refine iff_of_true ?_ fun heq => absurd heq htop
    by_cases hle : i ≤ last + 1
    · exact .of_lt (by omega) s hle
    · exact .beyond (by omega)

end Turns

/-! ## `sync_file` -/

/-- `sync_file` hands page `p` to the driver: the page is cached and dirty. -/
def Flushed (s : FileState) (g p : Nat) : Prop :=
  pageCacheGetBuffer s g p ≠ 0 ∧ pageCacheIsPageDirty s g p = true

instance (s : FileState) (g p : Nat) : Decidable (Flushed s g p) :=
  inferInstanceAs (Decidable (_ ∧ _))

/-- The pages that `sync_file` hands to the driver in a round over all pages. -/
def flushedPages (s : FileState) (g : Nat) : Finset Nat :=
  (Finset.range 4294967296).filter fun p => Flushed s g p

/-- A turn of `syncPages`. -/
def syncPage (answers : Nat → Nat) (g node first pg : Nat) (x : List DeviceWrite × FileState) :
    Except Synced (List DeviceWrite × FileState) :=
  if Flushed x.2 g pg then
    let writes := x.1 ++ [syncWrite x.2 g node first pg]
    if answers x.1.length = pageCacheSize then
      .ok (writes, x.2.modifyPages g (setDirty pg false))
    else .error ⟨x.2, .error .refused, writes⟩
  else .ok x

section SyncFile

variable {s : FileState} {g node first last pg p fd : Nat} {answers : Nat → Nat}
  {writes : List DeviceWrite} {x : List DeviceWrite × FileState}

theorem mem_flushedPages : p ∈ flushedPages s g ↔ p < 4294967296 ∧ Flushed s g p := by
  rw [flushedPages, Finset.mem_filter, Finset.mem_range]

/-- A page that is marked clean is not flushed again. -/
theorem flushedPages_setDirty :
    flushedPages (s.modifyPages g (setDirty p false)) g = (flushedPages s g).erase p := by
  ext q
  rw [Finset.mem_erase, mem_flushedPages, mem_flushedPages, Flushed, Flushed, getBuffer_setDirty,
    isPageDirty_setDirty, Bool.and_eq_true, bne_iff_ne]
  tauto

/-- A dirty page is found, so it can be marked. -/
theorem makeDirty_of_dirty (h : pageCacheIsPageDirty s g p = true) (d : Bool) :
    pageCacheMakeDirty s g p d = (s.modifyPages g (setDirty p d), .ok ()) := by
  unfold pageCacheMakeDirty
  cases hinfo : pageCacheGetFinfo s g p with
  | error e => simp [pageCacheIsPageDirty, hinfo] at h
  | ok i => rfl

variable (answers g node first last) in
theorem syncPages_turns :
    TakesTurns (fun fuel pg x => syncPages answers g node first last fuel pg x.1 x.2)
      (syncPage answers g node first) last fun x => ⟨x.2, .ok (), x.1⟩ where
  zero _ _ := rfl
  beyond fuel pg x hlt := by
    have hend : ¬ pg ≤ last := by omega
    simp only [syncPages, if_neg hend]
  stop fuel pg x r hle hbody := by
    unfold syncPage at hbody
    by_cases hflushed : Flushed x.2 g pg
    · by_cases htaken : answers x.1.length = pageCacheSize
      · simp only [if_pos hflushed, if_pos htaken] at hbody
        cases hbody
      · simp only [if_pos hflushed, if_neg htaken, Except.error.injEq] at hbody
        simp only [syncPages, if_pos hle, if_neg hflushed.1, hflushed.2, Bool.true_eq_false,
          if_false, if_pos (show answers x.1.length ≠ pageCacheSize from htaken), ← hbody]
        rfl
    · simp only [if_neg hflushed] at hbody
      cases hbody
  next fuel pg x x' hle hbody := by
    unfold syncPage at hbody
    by_cases hflushed : Flushed x.2 g pg
    · by_cases htaken : answers x.1.length = pageCacheSize
      · simp only [if_pos hflushed, if_pos htaken, Except.ok.injEq] at hbody
        simp only [syncPages, if_pos hle, if_neg hflushed.1, hflushed.2, Bool.true_eq_false,
          if_false, if_neg (not_not.mpr htaken), makeDirty_of_dirty hflushed.2, ← hbody]
        rfl
      · simp only [if_pos hflushed, if_neg htaken] at hbody
        cases hbody
    · simp only [if_neg hflushed, Except.ok.injEq] at hbody
      subst hbody
      by_cases hcache : pageCacheGetBuffer x.2 g pg = 0
      · simp only [syncPages, if_pos hle, if_pos hcache]
      · have hclean : pageCacheIsPageDirty x.2 g pg = false := by
          simpa using fun hd => hflushed ⟨hcache, hd⟩
        exact syncPages_passed hle hclean

variable (node writes) in
/-- Without a bound, the loop breaks off exactly when the driver refuses one of the
pages: it hands over each of them once. -/
theorem syncPage_breaks_iff (hpg : pg < 4294967296) :
    Breaks (syncPage answers g node first) 4294967296 pg (writes, s) ↔
      ∃ k < (flushedPages s g).card, answers (writes.length + k) ≠ pageCacheSize := by
  obtain ⟨n, hn⟩ : ∃ n, (flushedPages s g).card = n := ⟨_, rfl⟩
  rw [hn]
  induction n generalizing pg writes s with
  | zero =>
    have hnone : ∀ p < 4294967296, ¬ Flushed s g p := fun p hp hflushed =>
      (Finset.card_eq_zero.mp hn ▸ Finset.notMem_empty p) (mem_flushedPages.mpr ⟨hp, hflushed⟩)
    refine iff_of_false (not_breaks (I := (· = (writes, s))) ?_ rfl hpg) (by simp)
    rintro p hp x rfl
    exact ⟨_, if_neg (hnone p hp), rfl⟩
  | succ n ih =>
    obtain ⟨q, hq⟩ := Finset.card_pos.mp (by omega : 0 < (flushedPages s g).card)
    obtain ⟨hlt, hflushed⟩ := mem_flushedPages.mp hq
    have hidle : ∀ w, ¬ Flushed s g w →
        syncPage answers g node first w (writes, s) = .ok (writes, s) := fun w hw => if_neg hw
    -- the next page that is handed over
    obtain ⟨p, hp, hpf, hiff⟩ := breaks_ahead hlt hflushed hpg hidle
    rw [hiff]
    by_cases htaken : answers writes.length = pageCacheSize
    · have hbody : syncPage answers g node first p (writes, s) =
          .ok (writes ++ [syncWrite s g node first p], s.modifyPages g (setDirty p false)) := by
        simp only [syncPage, if_pos hpf, if_pos htaken]
      have hcard : (flushedPages (s.modifyPages g (setDirty p false)) g).card = n := by
        rw [flushedPages_setDirty, Finset.card_erase_of_mem (mem_flushedPages.mpr ⟨hp, hpf⟩), hn,
          Nat.add_sub_cancel]
      rw [breaks_next hbody, ih _ (Nat.mod_lt _ (by decide)) hcard, List.length_append,
        List.length_singleton]
      constructor
      · rintro ⟨k, hk, hno⟩
        exact ⟨k + 1, by omega, by rwa [← Nat.add_assoc, Nat.add_right_comm]⟩
      · rintro ⟨k, hk, hno⟩
        cases k with
        | zero => exact absurd htaken hno
        | succ k => exact ⟨k, by omega, by rwa [Nat.add_assoc, Nat.add_comm 1]⟩
    · have hbody : syncPage answers g node first p (writes, s) =
          .error ⟨s, .error .refused, writes ++ [syncWrite s g node first p]⟩ := by
        simp only [syncPage, if_pos hpf, if_neg htaken]
      exact iff_of_true (.here hbody) ⟨0, by omega, htaken⟩

/-- The file that `sync_file` syncs: the entry behind a descriptor that passes its checks. -/
def SyncTarget (s : FileState) (lft : Vector Lfe) (fd : Nat) (localEntry : Lfe) (entry : Gfe) :
    Prop :=
  lftGet lft fd = some localEntry ∧ gftGet s localEntry.gfd = some entry ∧
    gfeIsInvalid entry = false ∧ chkBit localEntry.flags (vfsCapWrite ||| vfsCapCache) = true

/-- When `sync_file` ends: it refuses the descriptor, the range does not go to the
last page number, or the driver refuses one of the file's cached and dirty pages. -/
def SyncFileEnds (answers : Nat → Nat) (s : FileState) (lft : Vector Lfe) (fd endPage : Nat) :
    Prop :=
  ∀ localEntry entry, SyncTarget s lft fd localEntry entry → endPage = 4294967295 →
    ∃ k < (flushedPages s localEntry.gfd).card, answers k ≠ pageCacheSize

/-- A length in 32 bits has less than `2 ^ 32 - 1` pages. -/
theorem pages_lt {length : Nat} (h : length < 4294967296) :
    ceilDivision length pageCacheSize < 4294967295 := by
  simp only [ceilDivision, pageCacheSize, add32]
  split <;> omega

/-- A descriptor that does not pass is answered at once. -/
theorem syncFile_refused {lft : Vector Lfe} (h : ¬ ∃ le e, SyncTarget s lft fd le e) :
    ∃ r, Settles (fun fuel => syncFile fuel answers s lft fd first last) r := by
  cases hlft : lftGet lft fd with
  | none =>
    simp only [syncFile, hlft]
    exact ⟨_, Settles.ret⟩
  | some le =>
    cases hgft : gftGet s le.gfd with
    | none =>
      simp only [syncFile, hlft, hgft]
      exact ⟨_, Settles.ret⟩
    | some e =>
      by_cases hvalid : gfeIsInvalid e = true
      · simp only [syncFile, hlft, hgft, if_pos hvalid]
        exact ⟨_, Settles.ret⟩
      · have hflags : chkBit le.flags (vfsCapWrite ||| vfsCapCache) = false := by
          by_contra hset
          exact h ⟨le, e, hlft, hgft, by simpa using hvalid, by simpa using hset⟩
        simp only [syncFile, hlft, hgft, if_neg hvalid, if_pos hflags]
        exact ⟨_, Settles.ret⟩

/-- The loop over the pages of a descriptor that passes. -/
theorem syncPages_ends_iff (hpg : pg < 4294967296) (hlast : last < 4294967296) :
    (∃ r, Settles (fun fuel => syncPages answers g node first last fuel pg [] s) r) ↔
      (last = 4294967295 → ∃ k < (flushedPages s g).card, answers k ≠ pageCacheSize) := by
  rw [(syncPages_turns g node first last answers).settles (s := ([], s)) hpg hlast,
    syncPage_breaks_iff node [] hpg]
  simp only [List.length_nil, Nat.zero_add]

theorem syncFile_ends_iff {lft : Vector Lfe} (hlength : ∀ n, (s.nodes n).fileLength < 4294967296)
    (hfirst : first < 4294967296) (hlast : last < 4294967296) :
    (∃ r, Settles (fun fuel => syncFile fuel answers s lft fd first last) r) ↔
      SyncFileEnds answers s lft fd last := by
  by_cases htarget : ∃ le e, SyncTarget s lft fd le e
  · obtain ⟨le, e, ht⟩ := htarget
    have hends : SyncFileEnds answers s lft fd last ↔
        (last = 4294967295 → ∃ k < (flushedPages s le.gfd).card, answers k ≠ pageCacheSize) := by
      refine ⟨fun h => h le e ht, fun h le' e' ht' => ?_⟩
      rwa [Option.some.inj (ht'.1.symm.trans ht.1)]
    rw [hends]
    obtain ⟨hlft, hgft, hvalid, hflags⟩ := ht
    by_cases hwhole : last < first
    · -- the whole file: the last page is that of the length
      have hpages := pages_lt (hlength e.fileNode)
      have hne : ¬ last = 4294967295 := by omega
      simp only [syncFile, hlft, hgft, hvalid, hflags, if_pos hwhole, Bool.false_eq_true,
        Bool.true_eq_false, if_false]
      rw [syncPages_ends_iff (by decide) (by omega)]
      exact iff_of_true (fun heq => absurd heq (by omega)) fun heq => absurd heq hne
    · simp only [syncFile_range hlft hgft hvalid hflags (Nat.le_of_not_lt hwhole)]
      exact syncPages_ends_iff hfirst hlast
  · exact iff_of_true (syncFile_refused htarget) fun le e ht => absurd ⟨le, e, ht⟩ htarget

end SyncFile

/-! ## Writing cached pages to their clusters -/

/-- Page `p` can be written: it is in the layout, and the mount point is one. -/
def PageWritable (mp : MountPoint) (layout : List Nat) (p : Nat) : Prop :=
  p < layout.length ∧ mp.attributes &&& 7 = vfsMountPt ∧ mp.storageInfo ≠ 0

/-- A turn of `fatSyncPages`. -/
def fatSyncPage (mp : MountPoint) (layout : List Nat) (g pg : Nat) (s : FatState) :
    Except (FatState × ErrorT) FatState :=
  let cache := pageCacheGetBuffer s.files g pg
  if cache = 0 then .ok s
  else if (fatFsWriteByPage s mp layout pg cache).2 then
    .ok (fatFsWriteByPage s mp layout pg cache).1
  else .error ((fatFsWriteByPage s mp layout pg cache).1, .occur)

section FatSync

variable {s s' : FatState} {mp : MountPoint} {layout : List Nat} {g pg p address last : Nat}

/-- A page write goes through exactly if the page can be written and the device
takes the next transfer, and it leaves the page cache alone. -/
theorem writeByPage_iff : (fatFsWriteByPage s mp layout p address).2 = true ↔
    PageWritable mp layout p ∧ s.device 0 = true := by
  by_cases h : PageWritable mp layout p ∧ s.device 0 = true
  · obtain ⟨⟨hp, hattr, hinfo⟩, hdev⟩ := h
    rw [writeByPage_done (List.getElem?_eq_getElem hp) hattr hinfo hdev]
    exact iff_of_true rfl ⟨⟨hp, hattr, hinfo⟩, hdev⟩
  · have hfail : (fatFsWriteByPage s mp layout p address).2 = false :=
      (writeByPage_failed fun c hc hattr hinfo hdev =>
        h ⟨⟨(List.getElem?_eq_some_iff.mp hc).1, hattr, hinfo⟩, hdev⟩).1
    rw [hfail]
    exact iff_of_false Bool.false_ne_true h

theorem writeByPage_leaves (h : (fatFsWriteByPage s mp layout p address).2 = true) :
    (fatFsWriteByPage s mp layout p address).1.files = s.files ∧
      ∀ k, (fatFsWriteByPage s mp layout p address).1.device k = s.device (k + 1) := by
  obtain ⟨⟨hp, hattr, hinfo⟩, hdev⟩ := writeByPage_iff.mp h
  have hc := List.getElem?_eq_getElem hp
  constructor
  · rw [writeByPage_done hc hattr hinfo hdev, FatState.put_files]
  · intro k
    rw [writeByPage_done hc hattr hinfo hdev, FatState.put_device]

variable (mp layout g last) in
theorem fatSyncPages_turns :
    TakesTurns (fatSyncPages mp layout g last) (fatSyncPage mp layout g) last
      fun s => (s, .ok) where
  zero _ _ := rfl
  beyond fuel pg s hlt := by
    have hend : ¬ pg ≤ last := by omega
    simp only [fatSyncPages, if_neg hend]
  stop fuel pg s r hle hbody := by
    unfold fatSyncPage at hbody
    by_cases hcache : pageCacheGetBuffer s.files g pg = 0
    · simp only [if_pos hcache] at hbody
      cases hbody
    · cases hwrite : fatFsWriteByPage s mp layout pg (pageCacheGetBuffer s.files g pg) with
      | mk t done =>
        cases done with
        | true => simp [hcache, hwrite] at hbody
        | false =>
          simp only [if_neg hcache, hwrite, Bool.false_eq_true, if_false,
            Except.error.injEq] at hbody
          simp only [fatSyncPages, if_pos hle, if_neg hcache, hwrite, hbody]
  next fuel pg s s' hle hbody := by
    unfold fatSyncPage at hbody
    by_cases hcache : pageCacheGetBuffer s.files g pg = 0
    · simp only [if_pos hcache, Except.ok.injEq] at hbody
      subst hbody
      simp only [fatSyncPages, if_pos hle, if_pos hcache]
    · cases hwrite : fatFsWriteByPage s mp layout pg (pageCacheGetBuffer s.files g pg) with
      | mk t done =>
        cases done with
        | false => simp [hcache, hwrite] at hbody
        | true =>
          simp only [if_neg hcache, hwrite, if_true, Except.ok.injEq] at hbody
          simp only [fatSyncPages, if_pos hle, if_neg hcache, hwrite, hbody]

/-- What a turn that goes on has done. -/
theorem fatSyncPage_ok (h : fatSyncPage mp layout g pg s = .ok s') :
    pageCacheGetBuffer s.files g pg = 0 ∧ s' = s ∨
      PageWritable mp layout pg ∧ s.device 0 = true ∧ s'.files = s.files ∧
        ∀ k, s'.device k = s.device (k + 1) := by
  unfold fatSyncPage at h
  by_cases hcache : pageCacheGetBuffer s.files g pg = 0
  · simp only [if_pos hcache, Except.ok.injEq] at h
    exact Or.inl ⟨hcache, h.symm⟩
  · cases hdone : (fatFsWriteByPage s mp layout pg (pageCacheGetBuffer s.files g pg)).2 with
    | false => simp [hcache, hdone] at h
    | true =>
      simp only [if_neg hcache, hdone, if_true, Except.ok.injEq] at h
      subst h
      obtain ⟨hwritable, hdev⟩ := writeByPage_iff.mp hdone
      obtain ⟨hfiles, hdevice⟩ := writeByPage_leaves hdone
      exact Or.inr ⟨hwritable, hdev, hfiles, hdevice⟩

theorem fatSyncPage_files (h : fatSyncPage mp layout g pg s = .ok s') : s'.files = s.files := by
  rcases fatSyncPage_ok h with ⟨_, rfl⟩ | ⟨_, _, hfiles, _⟩
  · rfl
  · exact hfiles

/-- The turn at a cached page whose write fails. -/
theorem fatSyncPage_failed (hcache : pageCacheGetBuffer s.files g pg ≠ 0)
    (h : ¬ (PageWritable mp layout pg ∧ s.device 0 = true)) :
    ∃ r, fatSyncPage mp layout g pg s = .error r := by
  have hfail : (fatFsWriteByPage s mp layout pg (pageCacheGetBuffer s.files g pg)).2 = false := by
    rw [Bool.eq_false_iff]
    exact fun hdone => h (writeByPage_iff.mp hdone)
  exact ⟨((fatFsWriteByPage s mp layout pg (pageCacheGetBuffer s.files g pg)).1, .occur), by
    simp only [fatSyncPage, if_neg hcache, hfail, Bool.false_eq_true, if_false]⟩

/-- The turn at a page that is not cached, or whose write goes through. -/
theorem fatSyncPage_passes (h : pageCacheGetBuffer s.files g pg ≠ 0 →
    PageWritable mp layout pg ∧ s.device 0 = true) :
    ∃ s', fatSyncPage mp layout g pg s = .ok s' := by
  by_cases hcache : pageCacheGetBuffer s.files g pg = 0
  · exact ⟨s, if_pos hcache⟩
  · have hdone : (fatFsWriteByPage s mp layout pg (pageCacheGetBuffer s.files g pg)).2 = true :=
      writeByPage_iff.mpr (h hcache)
    exact ⟨(fatFsWriteByPage s mp layout pg (pageCacheGetBuffer s.files g pg)).1, by
      simp only [fatSyncPage, if_neg hcache, hdone, if_true]⟩

/-- A cached page that cannot be written is reached. -/
theorem fatSyncPage_breaks_page {q : Nat} (hpg : pg < 4294967296) (hq : q < 4294967296)
    (hcache : pageCacheGetBuffer s.files g q ≠ 0) (hbad : ¬ PageWritable mp layout q) :
    Breaks (fatSyncPage mp layout g) 4294967296 pg s := by
  refine breaks_at (I := fun t => t.files = s.files)
    (fun w t t' hfiles hbody => (fatSyncPage_files hbody).trans hfiles) rfl hpg hq ?_
  intro t hfiles
  exact fatSyncPage_failed (by rwa [hfiles]) fun hboth => hbad hboth.1

/-- With a page in the cache, transfers go on until one fails. -/
theorem fatSyncPage_breaks_device {q k : Nat} (hpg : pg < 4294967296) (hq : q < 4294967296)
    (hcache : pageCacheGetBuffer s.files g q ≠ 0) (hdev : s.device k = false) :
    Breaks (fatSyncPage mp layout g) 4294967296 pg s := by
  have hidle : ∀ w, ¬ pageCacheGetBuffer s.files g w ≠ 0 →
      fatSyncPage mp layout g w s = .ok s := fun w hw => if_pos (not_not.mp hw)
  -- each cached page takes one transfer
  induction k generalizing pg s with
  | zero =>
    obtain ⟨p, hp, hpc, hiff⟩ := breaks_ahead hq hcache hpg hidle
    obtain ⟨r, hr⟩ : ∃ r, fatSyncPage mp layout g p s = .error r :=
      fatSyncPage_failed hpc (by simp [hdev])
    exact hiff.mpr (.here hr)
  | succ k ih =>
    obtain ⟨p, hp, hpc, hiff⟩ := breaks_ahead hq hcache hpg hidle
    rw [hiff]
    cases hbody : fatSyncPage mp layout g p s with
    | error r => exact .here hbody
    | ok s' =>
      rcases fatSyncPage_ok hbody with ⟨hnone, _⟩ | ⟨_, _, hfiles, hdevice⟩
      · exact absurd hnone hpc
      · rw [breaks_next hbody]
        refine ih (Nat.mod_lt _ (by decide)) ?_ ?_ fun w hw => if_pos (not_not.mp hw)
        · rwa [hfiles]
        · rw [hdevice]
          exact hdev

/-- Some cached page cannot be written, or some transfer to come fails. -/
def SyncFails (s : FatState) (mp : MountPoint) (layout : List Nat) (g : Nat) : Prop :=
  ∃ p < 4294967296, pageCacheGetBuffer s.files g p ≠ 0 ∧
    (¬ PageWritable mp layout p ∨ ∃ k, s.device k = false)

/-- Without a bound, the loop breaks off exactly when a page cannot be written or the
device fails at some time, since every round writes all cached pages. -/
theorem fatSyncPage_breaks_iff (hpg : pg < 4294967296) :
    Breaks (fatSyncPage mp layout g) 4294967296 pg s ↔ SyncFails s mp layout g := by
  constructor
  · intro hbreak
    by_contra hno
    -- as long as nothing fails the cache stays, and the device goes on taking transfers
    refine not_breaks (I := fun t => t.files = s.files ∧
      ((∃ p < 4294967296, pageCacheGetBuffer s.files g p ≠ 0) → ∀ k, t.device k = true))
      ?_ ⟨rfl, ?_⟩ hpg hbreak
    · rintro p hp t ⟨hfiles, hdev⟩
      obtain ⟨t', ht'⟩ : ∃ t', fatSyncPage mp layout g p t = .ok t' := by
        refine fatSyncPage_passes fun hcache => ?_
        rw [hfiles] at hcache
        refine ⟨?_, hdev ⟨p, hp, hcache⟩ 0⟩
        by_contra hbad
        exact hno ⟨p, hp, hcache, Or.inl hbad⟩
      refine ⟨t', ht', (fatSyncPage_files ht').trans hfiles, fun hcached k => ?_⟩
      rcases fatSyncPage_ok ht' with ⟨_, rfl⟩ | ⟨_, _, _, hdevice⟩
      · exact hdev hcached k
      · rw [hdevice]
        exact hdev hcached (k + 1)
    · rintro ⟨p, hp, hcache⟩ k
      by_contra hdev
      exact hno ⟨p, hp, hcache, Or.inr ⟨k, by simpa using hdev⟩⟩
  · rintro ⟨q, hq, hcache, hbad | ⟨k, hdev⟩⟩
    · exact fatSyncPage_breaks_page hpg hq hcache hbad
    · exact fatSyncPage_breaks_device hpg hq hcache hdev

/-- When `fat_fs_sync` ends: the node is of no volume, the range does not go to the
last page number, which is also that of the whole of a file without clusters, or the
writing fails. -/
def FatSyncEnds (s : FatState) (file : FatNode) (tag self : MountPoint)
    (fd pageStart pageEnd : Nat) : Prop :=
  ∀ mp, syncMountPoint file tag self = some mp →
    pageEnd = 4294967295 ∨ pageEnd < pageStart ∧ file.data.layout = [] →
      SyncFails s mp file.data.layout fd

/-- The last page of the range is the last page number. -/
theorem syncRange_top {file : FatNode} {first : Nat} (hfirst : first < 4294967296)
    (hlast : last < 4294967296) (hlayout : file.data.layout.length < 4294967296) :
    (syncRange file first last).1 < 4294967296 ∧ (syncRange file first last).2 < 4294967296 ∧
      ((syncRange file first last).2 = 4294967295 ↔
        last = 4294967295 ∨ last < first ∧ file.data.layout = []) := by
  rw [← List.length_eq_zero_iff]
  by_cases hwhole : first > last
  · simp only [syncRange, if_pos hwhole, sub32]
    omega
  · simp only [syncRange, if_neg hwhole]
    omega

theorem fatFsSync_ends_iff {file : FatNode} {tag self : MountPoint} {first : Nat}
    (hfirst : first < 4294967296) (hlast : last < 4294967296)
    (hlayout : file.data.layout.length < 4294967296) :
    (∃ r, Settles (fun fuel => fatFsSync fuel s file tag self g first last) r) ↔
      FatSyncEnds s file tag self g first last := by
  unfold FatSyncEnds
  cases hmp : syncMountPoint file tag self with
  | none =>
    refine iff_of_true ⟨(s.setLastError .badNodeStructure, .occur), ?_⟩ fun mp h => ?_
    · simp only [fatFsSync, hmp]
      exact Settles.ret
    · cases h
  | some mp =>
    obtain ⟨hstart, hend, htop⟩ := syncRange_top hfirst hlast hlayout
    simp only [fatFsSync, hmp, Option.some.injEq, forall_eq']
    rw [(fatSyncPages_turns mp file.data.layout g _).settles hstart hend, htop,
      fatSyncPage_breaks_iff hstart]

end FatSync

/-! ## Both loops -/

/-- The file of `twoDirty`, with no page in the cache. -/
def uncachedFile : FileState := { twoDirty with gft := [⟨1, 1, []⟩] }

theorem twoDirty_lengths (n : Nat) : (twoDirty.nodes n).fileLength < 4294967296 :=
  show 8192 < 4294967296 by decide

/-- A file of a volume that has no clusters. -/
def emptyFile : FatNode := ⟨[65], 25, 14, 0, ⟨[], true, 2, 0⟩, []⟩

/-- The pages from 0 to the last page number, and the whole of a file without
clusters: neither loop ends. -/
theorem pageLoops_spin :
    (¬ ∃ r, Settles
      (fun fuel => syncFile fuel (fun _ => 4096) uncachedFile twoDirtyLft 0 0 4294967295) r) ∧
    ¬ ∃ r, Settles (fun fuel => fatFsSync fuel { freshState zeroFile with files := uncachedFile }
      emptyFile smallMount smallMount 0 1 0) r := by
  have huncached : ∀ p, pageCacheGetBuffer uncachedFile 0 p = 0 := fun _ => rfl
  have hlengths : ∀ n, (uncachedFile.nodes n).fileLength < 4294967296 := twoDirty_lengths
  constructor
  · rw [syncFile_ends_iff hlengths (by decide) (by decide)]
    intro hends
    obtain ⟨k, _, hno⟩ := hends ⟨12, 0⟩ ⟨1, 1, []⟩ ⟨rfl, rfl, rfl, by decide⟩ rfl
    exact hno rfl
  · rw [fatFsSync_ends_iff (by decide) (by decide) (by decide)]
    intro hends
    obtain ⟨p, _, hcache, _⟩ := hends smallMount rfl (Or.inr ⟨by decide, rfl⟩)
    exact hcache (huncached p)

/-- The page loops of `sync_file` and `fat_fs_sync` end exactly if their range does
not go to the last page number or a page on the way cannot be written. -/
theorem pageLoops_end_iff {s : FileState} {t : FatState} {file : FatNode} {first last : Nat}
    (answers : Nat → Nat) (lft : Vector Lfe) (fd g : Nat) (tag self : MountPoint)
    (hlength : ∀ n, (s.nodes n).fileLength < 4294967296)
    (hlayout : file.data.layout.length < 4294967296) (hfirst : first < 4294967296)
    (hlast : last < 4294967296) :
    ((∃ r, Settles (fun fuel => syncFile fuel answers s lft fd first last) r) ↔
      SyncFileEnds answers s lft fd last) ∧
    ((∃ r, Settles (fun fuel => fatFsSync fuel t file tag self g first last) r) ↔
      FatSyncEnds t file tag self g first last) :=
  ⟨syncFile_ends_iff hlength hfirst hlast, fatFsSync_ends_iff hfirst hlast hlayout⟩

/-- Pages 0 and 1 of a file that is cached. -/
theorem pageLoops_end_iff_twoPages :
    ((∃ r, Settles (fun fuel => syncFile fuel (fun _ => 4096) twoDirty twoDirtyLft 0 0 1) r) ↔
      SyncFileEnds (fun _ => 4096) twoDirty twoDirtyLft 0 1) ∧
    ((∃ r, Settles (fun fuel => fatFsSync fuel { freshState zeroFile with files := twoDirty }
        emptyFile smallMount smallMount 0 0 1) r) ↔
      FatSyncEnds { freshState zeroFile with files := twoDirty } emptyFile smallMount smallMount
        0 0 1) :=
  pageLoops_end_iff (fun _ => 4096) twoDirtyLft 0 0 smallMount smallMount twoDirty_lengths
    (by decide) (by decide) (by decide)

end MeOS
