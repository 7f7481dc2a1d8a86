import MeOS.PageFrames
import MeOS.PageMapping

/-! # Clearing a directory

`vmmngr_pdirectory_clear` clears and frees the table of every entry, present or
not, and gives up at the first one whose frame is null. So a directory is
cleared when all its entries name a frame, and what absent entries name is freed
with the tables.
-/

namespace MeOS

open Bitmap WordFields

/-- `vmmngr_ptable_clear`. -/
def vmmngrPtableClear (s : VmState) (table : BitVec 32) : VmState × ErrorT :=
  if table = 0#32 then (s, .occur)
  else
    let s := s.clear table.toNat 4096
    ({ s with phys := pmmngrFreeBlock s.phys table.toNat }, .ok)

/-- The first `n` rounds of the loop of `vmmngr_pdirectory_clear`; an error ends it. -/
def clearRounds (pdir : BitVec 32) : Nat → VmState → VmState × ErrorT
  | 0, s => (s, .ok)
  | i + 1, s =>
    match clearRounds pdir i s with
    | (s, .occur) => (s, .occur)
    | (s, .ok) => vmmngrPtableClear s (pdEntryGetFrame (s.memory (pdir.toNat + 4 * i)))

/-- `vmmngr_pdirectory_clear`. -/
def vmmngrPdirectoryClear (s : VmState) (pdir : BitVec 32) : VmState × ErrorT :=
  match clearRounds pdir 1024 s with
  | (s, .occur) => (s, .occur)
  | (s, .ok) =>
    let s := s.clear pdir.toNat 4096
    ({ s with phys := pmmngrFreeBlock s.phys pdir.toNat }, .ok)

/-- Entry `i` of a directory. -/
def entryOf (s : VmState) (dir : BitVec 32) (i : Nat) : BitVec 32 :=
  s.memory (dir.toNat + 4 * i)

/-- The frame that entry `i` names. -/
def namedFrame (s : VmState) (dir : BitVec 32) (i : Nat) : BitVec 32 :=
  pdEntryGetFrame (entryOf s dir i)

/-- The present entries of the directory name distinct frames in use, and none of them the
directory. -/
structure TablesUsed (s : VmState) (dir : BitVec 32) : Prop where
  aligned : dir &&& i86PteFrame = dir
  nonzero : ∀ i < 1024, pdEntryIsPresent (entryOf s dir i) = true → namedFrame s dir i ≠ 0#32
  notDir : ∀ i < 1024, pdEntryIsPresent (entryOf s dir i) = true → namedFrame s dir i ≠ dir
  apart : ∀ i < 1024, ∀ j < 1024, pdEntryIsPresent (entryOf s dir i) = true →
    pdEntryIsPresent (entryOf s dir j) = true → namedFrame s dir i = namedFrame s dir j → i = j
  used : ∀ i < 1024, pdEntryIsPresent (entryOf s dir i) = true → frameUsed s (namedFrame s dir i)

/-- The frames of the directory and of its tables are free, and the others are as before. -/
def Released (s : VmState) (dir : BitVec 32) (s' : VmState) : Prop :=
  ∀ f : BitVec 32, f &&& i86PteFrame = f → (frameUsed s' f ↔ frameUsed s f ∧ f ≠ dir ∧
    ∀ i < 1024, pdEntryIsPresent (entryOf s dir i) = true → namedFrame s dir i ≠ f)

/-- Every entry names a frame, only the last one may name the directory, and what an absent entry
names is free or to be freed. -/
structure ClearsAll (s : VmState) (dir : BitVec 32) : Prop where
  named : ∀ i < 1024, namedFrame s dir i ≠ 0#32
  notDir : ∀ i < 1023, namedFrame s dir i ≠ dir
  absent : ∀ i < 1024, pdEntryIsPresent (entryOf s dir i) = false →
    ¬ frameUsed s (namedFrame s dir i) ∨ namedFrame s dir i = dir ∨
      ∃ j < 1024, pdEntryIsPresent (entryOf s dir j) = true ∧
        namedFrame s dir j = namedFrame s dir i

/-! ## The loop -/

section Rounds

variable {s t : VmState} {dir f g : BitVec 32} {n i k : Nat}

theorem namedFrame_frame : namedFrame s dir i &&& i86PteFrame = namedFrame s dir i := frame_frame

/-- The frame of a table that is cleared becomes free, and the other frames stay as they are. -/
theorem used_freeBlock {s' : VmState} (hf : f &&& i86PteFrame = f) (hg : g &&& i86PteFrame = g)
    (hphys : s'.phys = pmmngrFreeBlock s.phys f.toNat) :
    frameUsed s' g ↔ frameUsed s g ∧ f ≠ g := by
  have hiff : g.toNat / pmmngrBlockSize = f.toNat / pmmngrBlockSize ↔ f = g :=
    ⟨fun h => (block_inj hg hf h).symm, fun h => by rw [h]⟩
  unfold frameUsed
  rw [hphys, mmapTest_freeBlock, Bool.and_eq_true, Bool.not_eq_true', decide_eq_false_iff_not,
    hiff, and_comm]

/-- The rounds that are over have freed what their entries named; the directory is as it was. -/
structure RoundsOver (s : VmState) (dir : BitVec 32) (n : Nat) (t : VmState) : Prop where
  entries : ∀ i < 1024, entryOf t dir i = entryOf s dir i
  used : ∀ g, g &&& i86PteFrame = g →
    (frameUsed t g ↔ frameUsed s g ∧ ∀ i < n, namedFrame s dir i ≠ g)

theorem RoundsOver.zero : RoundsOver s dir 0 s where
  entries _ _ := rfl
  used _ _ := ⟨fun h => ⟨h, fun i hi => absurd hi (Nat.not_lt_zero i)⟩, fun h => h.1⟩

/-- `vmmngr_ptable_clear` on a frame. -/
theorem ptableClear_eq (hne : f ≠ 0#32) : vmmngrPtableClear t f =
    ({ t.clear f.toNat 4096 with phys := pmmngrFreeBlock t.phys f.toNat }, .ok) := if_neg hne

/-- The frames in use after one more round. -/
theorem RoundsOver.used_next (h : RoundsOver s dir n t) (hg : g &&& i86PteFrame = g)
    {t' : VmState} (hphys : t'.phys = pmmngrFreeBlock t.phys (namedFrame s dir n).toNat) :
    frameUsed t' g ↔ frameUsed s g ∧ ∀ i < n + 1, namedFrame s dir i ≠ g := by
  rw [used_freeBlock namedFrame_frame hg hphys, h.used g hg, and_assoc]
  constructor
  · intro ⟨hused, hbefore, hnow⟩
    refine ⟨hused, fun i hi => ?_⟩
    rcases Nat.lt_succ_iff_lt_or_eq.mp hi with hlt | rfl
    · exact hbefore i hlt
    · exact hnow
  · intro ⟨hused, hall⟩
    exact ⟨hused, fun i hi => hall i (by omega), hall n (by omega)⟩

/-- A round that follows others, read off the directory as it was. -/
theorem clearRounds_next (h : RoundsOver s dir n t) (hn : n < 1024)
    (hret : clearRounds dir n s = (t, .ok)) :
    clearRounds dir (n + 1) s = vmmngrPtableClear t (namedFrame s dir n) := by
  have hentry := h.entries n hn
  unfold entryOf at hentry
  rw [clearRounds, hret]
  dsimp only
  rw [hentry]
  rfl

/-- While entries name frames other than the directory, the rounds go on. -/
theorem clearRounds_over (hdir : dir &&& i86PteFrame = dir) (hn : n ≤ 1024)
    (hall : ∀ i < n, namedFrame s dir i ≠ 0#32 ∧ namedFrame s dir i ≠ dir) :
    ∃ t, clearRounds dir n s = (t, .ok) ∧ RoundsOver s dir n t := by
  induction n with
  | zero => exact ⟨s, rfl, .zero⟩
  | succ n ih =>
    obtain ⟨t, hret, hover⟩ := ih (by omega) fun i hi => hall i (by omega)
    obtain ⟨hne, hother⟩ := hall n (by omega)
    rw [clearRounds_next hover (by omega) hret, ptableClear_eq hne]
    refine ⟨_, rfl, fun i hi => ?_, fun g hg => hover.used_next hg rfl⟩
    -- the cleared table is not the directory
    have hclear := clear_slot (s := t) namedFrame_frame hdir hi (f := namedFrame s dir n)
    rw [if_neg hother.symm] at hclear
    exact hclear.trans (hover.entries i hi)

/-- An error ends the loop. -/
theorem clearRounds_stays (hret : clearRounds dir n s = (t, .occur)) (hk : n ≤ k) :
    clearRounds dir k s = (t, .occur) := by
  induction k, hk using Nat.le_induction with
  | base => exact hret
  | succ k _ ih => rw [clearRounds, ih]

/-- The loop comes to its end when every entry names a frame and none but the last the
directory. -/
theorem clearRounds_ends (hdir : dir &&& i86PteFrame = dir)
    (hnamed : ∀ i < 1024, namedFrame s dir i ≠ 0#32)
    (hother : ∀ i < 1023, namedFrame s dir i ≠ dir) :
    ∃ t, clearRounds dir 1024 s = (t, .ok) ∧ ∀ g, g &&& i86PteFrame = g →
      (frameUsed t g ↔ frameUsed s g ∧ ∀ i < 1024, namedFrame s dir i ≠ g) := by
  obtain ⟨t, hret, hover⟩ := clearRounds_over (n := 1023) hdir (by decide)
    fun i hi => ⟨hnamed i (by omega), hother i hi⟩
  rw [clearRounds_next hover (by decide) hret, ptableClear_eq (hnamed 1023 (by decide))]
  exact ⟨_, rfl, fun g hg => hover.used_next hg rfl⟩

/-- The first entry that names nothing ends the loop, and so does the one behind the first that
names the directory, which is empty by then. -/
theorem clearRounds_fails (hdir : dir &&& i86PteFrame = dir)
    (hbad : ¬ ((∀ i < 1024, namedFrame s dir i ≠ 0#32) ∧ ∀ i < 1023, namedFrame s dir i ≠ dir)) :
    ∃ t, clearRounds dir 1024 s = (t, .occur) := by
  have hex : ∃ i, i < 1024 ∧ (namedFrame s dir i = 0#32 ∨ namedFrame s dir i = dir) := by
    by_contra hnone
    refine hbad ⟨fun i hi hzero => hnone ⟨i, hi, Or.inl hzero⟩, fun i hi hself => ?_⟩
    exact hnone ⟨i, by omega, Or.inr hself⟩
  obtain ⟨hi, hfirst⟩ := Nat.find_spec hex
  have hmin : ∀ j < Nat.find hex, namedFrame s dir j ≠ 0#32 ∧ namedFrame s dir j ≠ dir := by
    intro j hj
    have hnot := Nat.find_min hex hj
    exact ⟨fun hzero => hnot ⟨by omega, Or.inl hzero⟩, fun hself => hnot ⟨by omega, Or.inr hself⟩⟩
  generalize Nat.find hex = i at hi hfirst hmin
  obtain ⟨t, hret, hover⟩ := clearRounds_over hdir (Nat.le_of_lt hi) hmin
  have hnext := clearRounds_next hover hi hret
  by_cases hzero : namedFrame s dir i = 0#32
  · rw [hzero, vmmngrPtableClear, if_pos rfl] at hnext
    exact ⟨t, clearRounds_stays hnext hi⟩
  have hself : namedFrame s dir i = dir := hfirst.resolve_left hzero
  rw [ptableClear_eq hzero, hself] at hnext
  by_cases hlast : i = 1023
  · refine absurd ⟨fun j hj => ?_, fun j hj => (hmin j (by omega)).2⟩ hbad
    by_cases hji : j = i
    · rwa [hji]
    · exact (hmin j (by omega)).1
  · -- the directory is empty, so the next entry names nothing
    have hempty := clear_slot (s := t) hdir hdir (show i + 1 < 1024 by omega)
    rw [if_pos rfl] at hempty
    have hstop : clearRounds dir (i + 2) s =
        ({ t.clear dir.toNat 4096 with phys := pmmngrFreeBlock t.phys dir.toNat }, .occur) := by
      rw [clearRounds, hnext]
      dsimp only
      rw [hempty]
      rfl
    exact ⟨_, clearRounds_stays hstop (by omega)⟩

end Rounds

/-! ## The directory -/

section Clear

variable {s : VmState} {dir : BitVec 32}

/-- A directory is cleared, and its frame and those of its tables are freed, exactly when all of
its entries name a frame and what the absent ones name needs no more care. -/
theorem pdirectoryClear_iff (h : TablesUsed s dir) :
    (∃ s', vmmngrPdirectoryClear s dir = (s', .ok) ∧ Released s dir s') ↔ ClearsAll s dir := by
  unfold vmmngrPdirectoryClear
  by_cases hends : (∀ i < 1024, namedFrame s dir i ≠ 0#32) ∧ ∀ i < 1023, namedFrame s dir i ≠ dir
  swap
  · obtain ⟨t, hret⟩ := clearRounds_fails h.aligned hends
    rw [hret]
    refine iff_of_false ?_ fun hall => hends ⟨hall.named, hall.notDir⟩
    rintro ⟨s', hno, _⟩
    cases hno
  obtain ⟨hnamed, hother⟩ := hends
  obtain ⟨t, hret, hused⟩ := clearRounds_ends h.aligned hnamed hother
  rw [hret]
  dsimp only
  -- what is in use afterwards
  have hafter : ∀ s' : VmState, s'.phys = pmmngrFreeBlock t.phys dir.toNat →
      ∀ g, g &&& i86PteFrame = g →
        (frameUsed s' g ↔ (frameUsed s g ∧ ∀ i < 1024, namedFrame s dir i ≠ g) ∧ dir ≠ g) := by
    intro s' hphys g hg
    rw [used_freeBlock h.aligned hg hphys, hused g hg]
  constructor
  · rintro ⟨s', hs', hreleased⟩
    cases hs'
    refine ⟨hnamed, hother, fun i hi habsent => ?_⟩
    by_contra hno
    obtain ⟨hin, hno'⟩ := not_or.mp hno
    obtain ⟨hndir, hnone⟩ := not_or.mp hno'
    -- the frame of the absent entry has been freed with the others
    have hkept := (hreleased _ namedFrame_frame).mpr
      ⟨not_not.mp hin, hndir, fun j hj hp heq => hnone ⟨j, hj, hp, heq⟩⟩
    exact ((hafter _ rfl _ namedFrame_frame).mp hkept).1.2 i hi rfl
  · intro hall
    refine ⟨_, rfl, fun g hg => ?_⟩
    rw [hafter _ rfl g hg]
    constructor
    · intro ⟨⟨hin, hnone⟩, hndir⟩
      exact ⟨hin, hndir.symm, fun i hi _ => hnone i hi⟩
    · intro ⟨hin, hndir, htables⟩
      refine ⟨⟨hin, fun i hi heq => ?_⟩, hndir.symm⟩
      cases hp : pdEntryIsPresent (entryOf s dir i) with
      | true => exact htables i hi hp heq
      | false =>
        rcases hall.absent i hi hp with hfree | hself | ⟨j, hj, hpj, hsame⟩
        · exact hfree (heq ▸ hin)
        · exact hndir (heq ▸ hself)
        · exact htables j hj hpj (hsame.trans heq)

/-- A directory at 0x1000 whose entries name the 1024 frames behind it, all in use. -/
def fullDirectory : VmState where
  phys := ⟨8192, 2048, 2048, fun _ => 0xFFFFFFFF#32⟩
  memory p := BitVec.ofNat 32 (((p - 0x1000) / 4 + 2) * pmmngrBlockSize) ||| 3#32
  currentDirectory := 0x1000#32

theorem fullDirectory_entry (i : Nat) : entryOf fullDirectory 0x1000#32 i =
    BitVec.ofNat 32 ((i + 2) * pmmngrBlockSize) ||| 3#32 := by
  have hdir : (0x1000#32).toNat = 0x1000 := by decide
  unfold entryOf fullDirectory
  dsimp only
  rw [hdir, show (0x1000 + 4 * i - 0x1000) / 4 = i by omega]

theorem fullDirectory_named {i : Nat} (hi : i < 1024) :
    namedFrame fullDirectory 0x1000#32 i = BitVec.ofNat 32 ((i + 2) * pmmngrBlockSize) := by
  unfold namedFrame pdEntryGetFrame
  rw [fullDirectory_entry, get_or (by decide)]
  exact block_frame (by omega)

theorem fullDirectory_toNat {i : Nat} (hi : i < 1024) :
    (namedFrame fullDirectory 0x1000#32 i).toNat = (i + 2) * 4096 := by
  rw [fullDirectory_named hi]
  exact block_toNat (by omega)

theorem fullDirectory_frameUsed (f : BitVec 32) : frameUsed fullDirectory f := by
  have hlt : f.toNat / pmmngrBlockSize % 32 < 32 := Nat.mod_lt _ (by decide)
  have hones : (0xFFFFFFFF#32 : BitVec 32) = BitVec.allOnes 32 := by decide
  unfold frameUsed
  rw [mmapTest_eq]
  unfold bit fullDirectory
  dsimp only
  rw [hones, BitVec.getLsbD_allOnes, decide_eq_true hlt]

theorem fullDirectory_used : TablesUsed fullDirectory 0x1000#32 where
  aligned := by decide
  nonzero i hi _ hzero := by
    have hnat := fullDirectory_toNat hi
    rw [hzero, show (0#32).toNat = 0 from rfl] at hnat
    omega
  notDir i hi _ hself := by
    have hnat := fullDirectory_toNat hi
    rw [hself, show (0x1000#32).toNat = 4096 from rfl] at hnat
    omega
  apart i hi j hj _ _ hsame := by
    have hnat := fullDirectory_toNat hi
    rw [hsame, fullDirectory_toNat hj] at hnat
    omega
  used i _ _ := fullDirectory_frameUsed _

/-- A directory with 1024 tables is cleared. -/
theorem pdirectoryClear_iff_full : ∃ s', vmmngrPdirectoryClear fullDirectory 0x1000#32 = (s', .ok) ∧
    Released fullDirectory 0x1000#32 s' := by
  refine (pdirectoryClear_iff fullDirectory_used).mpr ⟨fun i hi hzero => ?_, fun i hi hself => ?_,
    fun i hi habsent => ?_⟩
  · have hnat := fullDirectory_toNat hi
    rw [hzero, show (0#32).toNat = 0 from rfl] at hnat
    omega
  · have hnat := fullDirectory_toNat (show i < 1024 by omega)
    rw [hself, show (0x1000#32).toNat = 4096 from rfl] at hnat
    omega
  · have hp : pdEntryIsPresent (entryOf fullDirectory 0x1000#32 i) = true := by
      rw [fullDirectory_entry]
      unfold pdEntryIsPresent
      rw [or_and_of_le (by decide)]
      decide
    rw [hp] at habsent
    cases habsent

/-- A directory at 0x1000 with one table. -/
theorem tableSpace_used : TablesUsed tableSpace 0x1000#32 where
  aligned := tableSpace_ok.aligned
  nonzero := tableSpace_ok.nonzero
  notDir := tableSpace_ok.notDir
  apart := tableSpace_ok.apart
  used i _ hp := by
    rw [tableSpace_present hp]
    unfold frameUsed
    decide +kernel

/-- The table is freed, entry 1 names no frame, and the directory stays. -/
theorem pdirectoryClear_stops : TablesUsed tableSpace 0x1000#32 ∧
    ∃ s', vmmngrPdirectoryClear tableSpace 0x1000#32 = (s', .occur) ∧
      ¬ frameUsed s' 0x2000#32 ∧ frameUsed s' 0x1000#32 := by
  obtain ⟨t, r, hret⟩ : ∃ t r, clearRounds 0x1000#32 2 tableSpace = (t, r) := ⟨_, _, rfl⟩
  have hstop : (clearRounds 0x1000#32 2 tableSpace).2 = .occur := by decide +kernel
  have htable : mmapTest (clearRounds 0x1000#32 2 tableSpace).1.phys 2 = false := by
    decide +kernel
  have hdir : mmapTest (clearRounds 0x1000#32 2 tableSpace).1.phys 1 = true := by decide +kernel
  rw [hret] at hstop htable hdir
  dsimp only at hstop htable hdir
  subst hstop
  have hclear : vmmngrPdirectoryClear tableSpace 0x1000#32 = (t, .occur) := by
    have hends : clearRounds 0x1000#32 1024 tableSpace = (t, .occur) :=
      clearRounds_stays hret (by omega)
    unfold vmmngrPdirectoryClear
    rw [hends]
  refine ⟨tableSpace_used, t, hclear, ?_, ?_⟩
  · unfold frameUsed
    rw [show (0x2000#32).toNat / pmmngrBlockSize = 2 by decide, htable]
    decide
  · unfold frameUsed
    rw [show (0x1000#32).toNat / pmmngrBlockSize = 1 by decide, hdir]

end Clear

end MeOS
