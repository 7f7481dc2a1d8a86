import MeOS.FatLinks

/-! # Reserving a cluster

`fat_fs_reserve_first_cluster` scans blocks of 8 sectors, looks at the first 128
of the 1024 entries of each, and computes the cluster as if a block had 128.
`Scan` says where it stops. What it marks is the entry of the cluster it
returns in the first block only (`scan_entry`), so that is where reserving is
exact (`reserveFirst_exact_iff`). When nothing is free in the FAT the scan goes
on behind it.
-/

namespace MeOS

open Bytes

/-! ## The scan -/

/-- The place of word `i` of block `idx`. -/
def scanAddr (mp : MountPoint) (idx i : Nat) : Nat :=
  512 * add32 mp.data.fatLba (mul32 idx 8) + 4 * i

/-- The value the scan reads there. -/
def scanValue (d : Mem) (mp : MountPoint) (idx i : Nat) : Nat :=
  load32 d (scanAddr mp idx i) &&& fatMask

/-- The scan stops at word `i` of block `idx`. -/
structure Scan (d : Mem) (mp : MountPoint) (idx i : Nat) : Prop where
  block : idx < 536870912
  word : i < 128
  free : scanValue d mp idx i = 0
  before : ∀ i' < i, scanValue d mp idx i' ≠ 0
  full : ∀ idx' < idx, ∀ i' < 128, scanValue d mp idx' i' ≠ 0

/-- The cluster that is returned for word `i` of block `idx`. -/
def reservedCluster (idx i : Nat) : Nat := add32 (mul32 idx 128) i

section Scan

variable {d : Mem} {mp : MountPoint} {idx idx' i i' n x : Nat}

/-- Block numbers count modulo `2^29`. -/
theorem scanAddr_wrap : scanAddr mp (idx + 536870912) i = scanAddr mp idx i := by
  unfold scanAddr
  simp only [add32, mul32]
  omega

theorem scanAddr_mod : scanAddr mp (idx % 4294967296) i = scanAddr mp idx i := by
  unfold scanAddr
  simp only [add32, mul32]
  omega

/-- In a full enough run of blocks the scan stops before it comes around. -/
theorem scan_block_lt (hi : i < 128) (hfree : scanValue d mp idx i = 0)
    (hfull : ∀ idx' < idx, ∀ i' < 128, scanValue d mp idx' i' ≠ 0) : idx < 536870912 := by
  by_contra hge
  -- the same block was seen `2^29` blocks before
  have hseen := hfull (idx - 536870912) (by omega) i hi
  apply hseen
  unfold scanValue
  rw [← scanAddr_wrap, Nat.sub_add_cancel (by omega)]
  exact hfree

/-- The scan stops at one place. -/
theorem Scan.unique (h : Scan d mp idx i) (h' : Scan d mp idx' i') : idx' = idx ∧ i' = i := by
  rcases Nat.lt_trichotomy idx' idx with hlt | rfl | hgt
  · exact absurd h'.free (h.full idx' hlt i' h'.word)
  · refine ⟨rfl, ?_⟩
    rcases Nat.lt_trichotomy i' i with hlt | heq | hgt
    · exact absurd h'.free (h.before i' hlt)
    · exact heq
    · exact absurd h.free (h'.before i hgt)
  · exact absurd h.free (h'.full idx hgt i h.word)

/-- The word that is marked, when it lies in the FAT. -/
theorem scan_entry (hn : FatSize mp n) (hblock : idx < 536870912) (hi : i < 128) (hx : x < n)
    (hsame : scanAddr mp idx i = fatAddr mp x) : x = 1024 * idx + i := by
  have hfew := hn.few
  have htop := hn.top
  unfold scanAddr fatAddr at hsame
  simp only [add32, mul32] at hsame
  omega

/-- No entry of the FAT but the one at the word is touched there. -/
theorem scan_apart (hne : scanAddr mp idx i ≠ fatAddr mp x) :
    fatAddr mp x + 4 ≤ scanAddr mp idx i ∨ scanAddr mp idx i + 4 ≤ fatAddr mp x := by
  unfold scanAddr fatAddr at *
  omega

/-- What marking the word does to an entry of the FAT. -/
theorem fatEntry_scan (v : Nat) :
    fatEntry (store32 d (scanAddr mp idx i) (v &&& fatMask)) mp x =
      if scanAddr mp idx i = fatAddr mp x then v &&& fatMask else fatEntry d mp x := by
  split
  · rename_i hsame
    rw [hsame]
    exact fatEntry_mark_same
  · rename_i hne
    have hapart := scan_apart hne
    unfold fatEntry
    congr 1
    exact load32_congr fun y hlo hhi => store32_frame _ _ (by omega)

/-- The first block is the front of the FAT. -/
theorem scanAddr_zero (hn : FatSize mp n) : scanAddr mp 0 i = fatAddr mp i := by
  have htop := hn.top
  unfold scanAddr fatAddr
  simp only [add32, mul32]
  omega

theorem scanValue_zero (hn : FatSize mp n) : scanValue d mp 0 i = fatEntry d mp i := by
  unfold scanValue fatEntry
  rw [scanAddr_zero hn]

/-- The cluster returned comes no later than the entry marked, and is the same
in the first block only. -/
theorem reservedCluster_le (hn : FatSize mp n) (hi : i < 128) (hx : x < n)
    (hword : x = 1024 * idx + i) :
    reservedCluster idx i = 128 * idx + i ∧ reservedCluster idx i ≤ x ∧
      (reservedCluster idx i = x ↔ idx = 0) := by
  have hfew := hn.few
  unfold reservedCluster
  rw [mul32_eq (by omega), add32_eq (by omega)]
  omega

theorem reservedCluster_zero (hi : i < 128) : reservedCluster 0 i = i := by
  unfold reservedCluster
  simp only [add32, mul32]
  omega

end Scan

/-! ## The loop -/

section Reserve

variable {s t t' : FatState} {mp : MountPoint} {c m fuel next r : Nat}

/-- One turn of the loop: a free word is marked, or the block is full and the next one is
read. -/
theorem reserveLoop_turn (hmp : Mounted mp) (hinv : CacheInv s.files) (hu : Using s t c)
    (hcalm : NoFailure t) (next m : Nat) :
    (∃ i < 128, scanValue t.disk mp m i = 0 ∧ (∀ i' < i, scanValue t.disk mp m i' ≠ 0) ∧
      ∃ t', (∀ fuel, fatFsReserveLoop mp next (cellAddr s.files c) (fuel + 1) (m % 4294967296) t =
          .ret (t', reservedCluster (m % 4294967296) i)) ∧
        Scratch s t' ∧ t'.disk = store32 t.disk (scanAddr mp m i) (next &&& fatMask)) ∨
    ((∀ i < 128, scanValue t.disk mp m i ≠ 0) ∧
      ∃ t', (∀ fuel, fatFsReserveLoop mp next (cellAddr s.files c) (fuel + 1) (m % 4294967296) t =
          fatFsReserveLoop mp next (cellAddr s.files c) fuel ((m + 1) % 4294967296) t') ∧
        Using s t' c ∧ NoFailure t' ∧ t'.disk = t.disk) := by
  have htop := hu.top hinv
  have hdev : t.device 0 = true := hcalm.device 0
  have hdev' : t.device 1 = true := hcalm.device 1
  generalize hlba : add32 mp.data.fatLba (mul32 (m % 4294967296) 8) = lba
  have haddr : ∀ i, 512 * lba + 4 * i = scanAddr mp m i := by
    intro i
    rw [← hlba, ← scanAddr_mod]
    rfl
  have hword : ∀ i < 128, (fatFsReadFatValue (t.fetch lba (cellAddr s.files c)).mem
      (cellAddr s.files c) i == 0) = true ↔ scanValue t.disk mp m i = 0 := by
    intro i hi
    rw [readFatValue_fetch htop (by omega), beq_iff_eq, scanValue, haddr]
  cases hfind : (List.range 128).find? fun i =>
      fatFsReadFatValue (t.fetch lba (cellAddr s.files c)).mem (cellAddr s.files c) i == 0 with
  | some i =>
    -- a free word: it is marked, and the cluster computed
    obtain ⟨hhit, hmem, hbefore⟩ := List.find?_range_eq_some.mp hfind
    have hi : i < 128 := List.mem_range.mp hmem
    have hedit : Using s (t.editWord lba (cellAddr s.files c) i (next &&& fatMask)) c :=
      hu.editWord hinv (by omega) (next &&& fatMask)
    refine Or.inl ⟨i, hi, (hword i hi).mp hhit, ?_, _, fun fuel => ?_, hedit.release hinv, ?_⟩
    · intro i' hi' hzero'
      have hno := hbefore i' hi'
      rw [(hword i' (by omega)).mpr hzero'] at hno
      cases hno
    · conv_lhs => unfold fatFsReserveLoop
      simp only [readByLba_eq hmp, hdev, if_pos, writeByLba_eq hmp, FatState.setMem_device,
        FatState.fetch_device, hdev', hlba, hfind]
      rfl
    · rw [FatState.release_disk, editWord_disk htop (by omega), haddr]
  | none =>
    -- none: on to the next block
    refine Or.inr ⟨?_, t.fetch lba (cellAddr s.files c), fun fuel => ?_, hu.fetch hinv,
      hcalm.fetch, rfl⟩
    · intro i hi hzero
      have hno := List.find?_eq_none.mp hfind i (List.mem_range.mpr hi)
      exact hno ((hword i hi).mpr hzero)
    · have hnext : add32 (m % 4294967296) 1 = (m + 1) % 4294967296 := by
        unfold add32
        omega
      conv_lhs => unfold fatFsReserveLoop
      simp only [readByLba_eq hmp, hdev, if_pos, hlba, hfind, hnext]

/-- The loop from block `m` on, when the blocks in front are full. -/
theorem reserveLoop_cases (hmp : Mounted mp) (hinv : CacheInv s.files) (hu : Using s t c)
    (hcalm : NoFailure t) (hfull : ∀ idx < m, ∀ i < 128, scanValue t.disk mp idx i ≠ 0)
    (hrun : fatFsReserveLoop mp next (cellAddr s.files c) fuel (m % 4294967296) t = .ret (t', r)) :
    ∃ idx i, Scan t.disk mp idx i ∧ r = reservedCluster idx i ∧ Scratch s t' ∧
      t'.disk = store32 t.disk (scanAddr mp idx i) (next &&& fatMask) := by
  induction fuel generalizing t m with
  | zero => cases hrun
  | succ fuel ih =>
    rcases reserveLoop_turn hmp hinv hu hcalm next m with
      ⟨i, hi, hzero, hbefore, t₁, hret, hscratch, hdisk⟩ | ⟨hnone, t₁, hgo, hu₁, hcalm₁, hdisk⟩
    · have hblock := scan_block_lt hi hzero hfull
      have hm : m % 4294967296 = m := Nat.mod_eq_of_lt (by omega)
      rw [hret fuel, hm] at hrun
      injection hrun with hpair
      rcases Prod.mk.inj hpair with ⟨rfl, rfl⟩
      exact ⟨m, i, ⟨hblock, hi, hzero, hbefore, hfull⟩, rfl, hscratch, hdisk⟩
    · rw [hgo fuel] at hrun
      have hmore : ∀ idx < m + 1, ∀ i < 128, scanValue t₁.disk mp idx i ≠ 0 := by
        intro idx hidx
        rw [hdisk]
        rcases Nat.lt_succ_iff_lt_or_eq.mp hidx with hlt | rfl
        · exact hfull idx hlt
        · exact hnone
      have hrest := ih hu₁ hcalm₁ hmore hrun
      rw [hdisk] at hrest
      exact hrest

/-- The loop comes to the place where the scan stops. -/
theorem reserveLoop_returns {idx i : Nat} (next : Nat) (hmp : Mounted mp) (hinv : CacheInv s.files)
    (hu : Using s t c) (hcalm : NoFailure t) (hscan : Scan t.disk mp idx i) (hm : m ≤ idx) :
    ∃ a, Settles (fun fuel => fatFsReserveLoop mp next (cellAddr s.files c) fuel
      (m % 4294967296) t) a := by
  generalize hk : idx - m = k
  induction k generalizing t m with
  | zero =>
    obtain rfl : idx = m := by omega
    rcases reserveLoop_turn hmp hinv hu hcalm next idx with ⟨j, -, -, -, t₁, hret, -⟩ | ⟨hnone, -⟩
    · refine ⟨(t₁, reservedCluster (idx % 4294967296) j), .succ ?_⟩
      simp only [hret]
      exact .ret
    · exact absurd hscan.free (hnone i hscan.word)
  | succ k ih =>
    rcases reserveLoop_turn hmp hinv hu hcalm next m with ⟨j, hj, hzero, -⟩ |
      ⟨-, t₁, hgo, hu₁, hcalm₁, hdisk⟩
    · exact absurd hzero (hscan.full m (by omega) j hj)
    · rw [← hdisk] at hscan
      rcases ih hu₁ hcalm₁ hscan (m := m + 1) (by omega) (by omega) with ⟨a, ha⟩
      refine ⟨a, .succ ?_⟩
      simp only [hgo]
      exact ha

/-- `fat_fs_reserve_first_cluster` when nothing fails. -/
theorem reserveFirst_cases (h : Steady 1 s) (hmp : Mounted mp)
    (hrun : fatFsReserveFirstCluster fuel s mp next = .ret (t', r)) :
    ∃ idx i, Scan s.disk mp idx i ∧ r = reservedCluster idx i ∧ Scratch s t' ∧
      t'.disk = store32 s.disk (scanAddr mp idx i) (next &&& fatMask) := by
  rcases h.reserve with ⟨c, s₁, hres, husing, hsteady, ⟨hdisk, -, -⟩, -⟩
  rcases husing.addr h.inv with ⟨a, ha⟩
  rw [fatFsReserveFirstCluster, hres, ha] at hrun
  have hloop : fatFsReserveLoop mp next (cellAddr s.files c) fuel (0 % 4294967296) s₁ =
      .ret (t', r) := by
    rw [ha]
    exact hrun
  rw [← hdisk]
  apply reserveLoop_cases hmp h.inv husing hsteady.calm _ hloop
  intro idx hidx
  exact absurd hidx (Nat.not_lt_zero idx)

/-- It returns when there is a place where the scan stops. -/
theorem reserveFirst_returns {idx i : Nat} (h : Steady 1 s) (hmp : Mounted mp)
    (hscan : Scan s.disk mp idx i) (next : Nat) :
    ∃ s', Settles (fun fuel => fatFsReserveFirstCluster fuel s mp next)
        (s', reservedCluster idx i) ∧
      s'.disk = store32 s.disk (scanAddr mp idx i) (next &&& fatMask) := by
  rcases h.reserve with ⟨c, s₁, hres, husing, hsteady, ⟨hdisk, -, -⟩, -⟩
  rcases husing.addr h.inv with ⟨a, ha⟩
  have hscan₁ : Scan s₁.disk mp idx i := by rw [hdisk]; exact hscan
  rcases reserveLoop_returns next hmp h.inv husing hsteady.calm hscan₁ (Nat.zero_le idx) with
    ⟨⟨s', r⟩, hloop⟩
  have hrun : Settles (fun fuel => fatFsReserveFirstCluster fuel s mp next) (s', r) := by
    unfold fatFsReserveFirstCluster
    rw [hres, ha]
    rw [ha] at hloop
    exact hloop
  rcases hrun with ⟨bound, hbound⟩
  rcases reserveFirst_cases h hmp (hbound bound le_rfl) with ⟨idx', i', hscan', rfl, -, hdisk'⟩
  rcases hscan.unique hscan' with ⟨rfl, rfl⟩
  exact ⟨s', ⟨bound, hbound⟩, hdisk'⟩

end Reserve

/-! ## The law -/

/-- From `d` to `d'` a free entry of the FAT was marked with `next`, and it is that of the cluster
that is returned; or there was none, and 0 is returned. -/
structure ReserveLaw (d d' : Mem) (mp : MountPoint) (n next r : Nat) : Prop where
  taken : (∃ x < n, fatEntry d mp x = 0) → (2 ≤ r ∧ r < n) ∧ fatEntry d mp r = 0 ∧
    fatEntry d' mp r = next &&& fatMask ∧ ∀ x < n, x ≠ r → fatEntry d' mp x = fatEntry d mp x
  none : (∀ x < n, fatEntry d mp x ≠ 0) → r = 0 ∧ ∀ x < n, fatEntry d' mp x = fatEntry d mp x

/-- The scan stops in the first block, at an entry of a cluster. Otherwise the law can only hold
by chance: the mark is 0, so that nothing changes, and the entry whose number comes out is free;
or the FAT is full, and behind it the scan stops where the number wraps to 0. -/
def ReservesExactly (d : Mem) (mp : MountPoint) (n next : Nat) : Prop :=
  ∃ idx i, Scan d mp idx i ∧
    ((idx = 0 ∧ 2 ≤ i ∧ i < n) ∨
      (next &&& fatMask = 0 ∧ ∃ x, x = reservedCluster idx i ∧ 2 ≤ x ∧ x < n ∧
        fatEntry d mp x = 0) ∨
      ((∀ x < n, fatEntry d mp x ≠ 0) ∧ reservedCluster idx i = 0))

section Law

variable {s : FatState} {d : Mem} {mp : MountPoint} {n next idx i x : Nat}

/-- A word that is an entry of the FAT is free there. -/
theorem Scan.entry_free (hscan : Scan d mp idx i) (hsame : scanAddr mp idx i = fatAddr mp x) :
    fatEntry d mp x = 0 := by
  have hfree := hscan.free
  unfold scanValue at hfree
  rw [hsame] at hfree
  exact hfree

/-- The law for a scan that stops at word `i` of block `idx`. -/
theorem reserveLaw_iff (hn : FatSize mp n) (hscan : Scan d mp idx i) :
    ReserveLaw d (store32 d (scanAddr mp idx i) (next &&& fatMask)) mp n next
      (reservedCluster idx i) ↔ ReservesExactly d mp n next := by
  constructor
  · intro hlaw
    by_cases hfree : ∃ x < n, fatEntry d mp x = 0
    · rcases hlaw.taken hfree with ⟨⟨hlo, hhi⟩, hzero, hmarked, -⟩
      rw [fatEntry_scan] at hmarked
      by_cases hsame : scanAddr mp idx i = fatAddr mp (reservedCluster idx i)
      · -- the entry marked is the one of the cluster
        have hword := scan_entry hn hscan.block hscan.word hhi hsame
        have hfirst := (reservedCluster_le hn hscan.word hhi hword).2.2.mp rfl
        subst hfirst
        rw [reservedCluster_zero hscan.word] at hlo hhi
        exact ⟨0, i, hscan, Or.inl ⟨rfl, hlo, hhi⟩⟩
      · rw [if_neg hsame, hzero] at hmarked
        exact ⟨idx, i, hscan, Or.inr (Or.inl ⟨hmarked.symm, _, rfl, hlo, hhi, hzero⟩)⟩
    · have hfull : ∀ x < n, fatEntry d mp x ≠ 0 := fun x hx hzero => hfree ⟨x, hx, hzero⟩
      exact ⟨idx, i, hscan, Or.inr (Or.inr ⟨hfull, (hlaw.none hfull).1⟩)⟩
  · rintro ⟨idx', i', hscan', hcases⟩
    rcases hscan.unique hscan' with ⟨rfl, rfl⟩
    rcases hcases with ⟨rfl, hlo, hhi⟩ | ⟨hmark, x, rfl, hlo, hhi, hzero⟩ | ⟨hfull, hr⟩
    · have hzero : fatEntry d mp i' = 0 := hscan.entry_free (scanAddr_zero hn)
      rw [reservedCluster_zero hscan.word, scanAddr_zero hn]
      constructor
      · intro _
        refine ⟨⟨hlo, hhi⟩, hzero, fatEntry_mark_same, fun x _ hne => fatEntry_mark_other hne⟩
      · intro hfull
        exact absurd hzero (hfull i' hhi)
    · -- nothing is changed by a mark of 0
      have hsame : ∀ x, fatEntry (store32 d (scanAddr mp idx' i') (next &&& fatMask)) mp x =
          fatEntry d mp x := by
        intro x
        rw [fatEntry_scan]
        split
        · rename_i haddr
          rw [hmark, hscan.entry_free haddr]
        · rfl
      constructor
      · intro _
        refine ⟨⟨hlo, hhi⟩, hzero, ?_, fun x _ _ => hsame x⟩
        rw [hsame, hzero, hmark]
      · intro hfull
        exact absurd hzero (hfull _ hhi)
    · constructor
      · rintro ⟨x, hx, hzero⟩
        exact absurd hzero (hfull x hx)
      · intro _
        refine ⟨hr, fun x hx => ?_⟩
        rw [fatEntry_scan, if_neg]
        intro haddr
        exact hfull x hx (hscan.entry_free haddr)

/-- A disk on which only the first sector of the FAT is in use. -/
def usedSector : Mem := fun x => if 16384 ≤ x ∧ x < 16896 then 1 else 0

theorem usedSector_scan : Scan usedSector smallMount 1 0 := by
  refine ⟨by decide, by decide, by decide, fun i hi => absurd hi (Nat.not_lt_zero i), ?_⟩
  intro idx hidx i hi
  obtain rfl : idx = 0 := by omega
  have hbyte : usedSector (16384 + 4 * i) = 1 := by
    unfold usedSector
    rw [if_pos (by omega)]
  have haddr : scanAddr smallMount 0 i = 16384 + 4 * i := by
    unfold scanAddr
    simp only [add32, mul32, smallMount]
  intro hzero
  unfold scanValue at hzero
  rw [haddr, and_fatMask] at hzero
  have hlow : load32 usedSector (16384 + 4 * i) % 256 = 1 := by
    have hone : (1 : UInt8).toNat = 1 := rfl
    unfold load32
    rw [hbyte, hone]
    omega
  omega

/-- On that disk entry 1024 is marked, and cluster 128 returned. -/
theorem reserveFirst_marks_other : ∃ s',
    Settles (fun fuel => fatFsReserveFirstCluster fuel (freshState usedSector) smallMount fatEof)
      (s', 128) ∧
    (fatEntry usedSector smallMount 128 = 0 ∧ fatEntry s'.disk smallMount 128 = 0) ∧
    fatEntry s'.disk smallMount 1024 = fatEof ∧
    ¬ ReserveLaw usedSector s'.disk smallMount 2048 fatEof 128 := by
  have h := (freshState_steady usedSector).mono (k := 1) (by decide)
  have hzero : fatEntry usedSector smallMount 128 = 0 := by decide
  rcases reserveFirst_returns h smallMount_mounted usedSector_scan fatEof with ⟨s', hrun, hdisk⟩
  have hother : fatEntry s'.disk smallMount 128 = 0 := by
    rw [hdisk, fatEntry_scan, if_neg (by decide)]
    exact hzero
  refine ⟨s', hrun, ⟨hzero, hother⟩, ?_, fun hlaw => ?_⟩
  · rw [hdisk, fatEntry_scan, if_pos (by decide)]
    decide
  · rcases hlaw.taken ⟨128, by decide, hzero⟩ with ⟨-, -, hmarked, -⟩
    rw [hother] at hmarked
    exact absurd hmarked (by decide)

/-- Reserving is exact in the case of `ReservesExactly` only. -/
theorem reserveFirst_exact_iff (h : Steady 1 s) (hmp : Mounted mp) (hn : FatSize mp n)
    (next : Nat) :
    (∃ s' r, Settles (fun fuel => fatFsReserveFirstCluster fuel s mp next) (s', r) ∧
      ReserveLaw s.disk s'.disk mp n next r) ↔ ReservesExactly s.disk mp n next := by
  constructor
  · rintro ⟨s', r, ⟨bound, hbound⟩, hlaw⟩
    rcases reserveFirst_cases h hmp (hbound bound le_rfl) with ⟨idx, i, hscan, rfl, -, hdisk⟩
    rw [hdisk] at hlaw
    exact (reserveLaw_iff hn hscan).mp hlaw
  · intro hexact
    rcases hexact with ⟨idx, i, hscan, hcases⟩
    rcases reserveFirst_returns h hmp hscan next with ⟨s', hrun, hdisk⟩
    refine ⟨s', _, hrun, ?_⟩
    rw [hdisk]
    exact (reserveLaw_iff hn hscan).mpr ⟨idx, i, hscan, hcases⟩

/-- On an empty disk. -/
theorem reserveFirst_exact_iff_empty :
    (∃ s' r, Settles (fun fuel => fatFsReserveFirstCluster fuel (freshState fun _ => 0) smallMount
        fatEof) (s', r) ∧
      ReserveLaw (freshState fun _ => 0).disk s'.disk smallMount 2048 fatEof r) ↔
    ReservesExactly (freshState fun _ => 0).disk smallMount 2048 fatEof :=
  reserveFirst_exact_iff ((freshState_steady _).mono (by decide)) smallMount_mounted
    ⟨by decide, by decide⟩ fatEof

end Law

end MeOS
