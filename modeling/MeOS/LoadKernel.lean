import MeOS.SimpleFs

/-! # `ldr_main`: loading the kernel

The loader searches the boot volume for the kernel and reads it 4096 bytes at a time. The test for a
kernel that is not there looks for the values of `fsysSimpleFind` with length and start exchanged.

The requests to the disk are recorded, those before a `PANIC` too. What the loader does before the
search and after the loop is left out.
-/

namespace MeOS.LoadKernel

open Bytes SimpleFs

/-! ## The functions -/

/-- `KERNEL_BASE`. -/
abbrev kernelBase : Nat := 1048576

/-- The name `MeOs.exe`. -/
def kernelName : List UInt8 := [77, 101, 79, 115, 46, 101, 120, 101]

/-- A request for sectors, and where they go. -/
structure SectorRead where
  start : Nat
  count : Nat
  buffer : Nat
deriving Repr, DecidableEq

/-- How a part of the loader ends, its requests for the kernel, and the memory behind it. -/
structure Loading where
  outcome : Outcome Unit
  reads : List SectorRead
  memory : Mem

/-- One part after the other. -/
def Loading.andThen (x : Loading) (next : Mem → Loading) : Loading :=
  match x.outcome with
  | .ret _ => { next x.memory with reads := x.reads ++ (next x.memory).reads }
  | _ => x

/-- `fsysSimpleRead`. -/
def fsysSimpleRead (ahciRead : Nat → Nat → Nat → Option Mem) (m : Mem) (start size buffer : Nat) :
    Loading :=
  let count := ceilDivision size 512
  match ahciRead 1 start count with
  | none => ⟨.panic, [⟨start, count, buffer⟩], m⟩
  | some data => ⟨.ret (), [⟨start, count, buffer⟩], blit m buffer data 0 (512 * count)⟩

/-- The load loop, from a position on. -/
def loadLoop (ahciRead : Nat → Nat → Nat → Option Mem) (start length : Nat) :
    Nat → Nat → Mem → Loading
  | 0, _, m => ⟨.running, [], m⟩
  | fuel + 1, position, m =>
    if position ≤ length then
      (fsysSimpleRead ahciRead m (add32 start (position / 512)) 4096
        (add32 kernelBase position)).andThen
          (loadLoop ahciRead start length fuel (add32 position 4096))
    else ⟨.ret (), [], m⟩

/-- `ldr_main`, from the search to the end of the loop. -/
def ldrMain (ahciRead : Nat → Nat → Nat → Option Mem) (m : Mem) (dirName buf fuel : Nat) :
    Loading :=
  match fsysSimpleFind (fun port k => ahciRead port k 1) m dirName 1 buf fuel with
  | .ret (length, start) =>
    if start = 4294967295 ∧ length = 0 then ⟨.panic, [], m⟩
    else loadLoop ahciRead start length fuel 0 m
  | .panic => ⟨.panic, [], m⟩
  | .undefined => ⟨.undefined, [], m⟩
  | .running => ⟨.running, [], m⟩

/-! ## The specification -/

/-- The entry of the kernel that the search comes to: the last one of the first index sector. -/
def KernelEntry (ahciRead : Nat → Nat → Nat → Option Mem) (length start : Nat) : Prop :=
  ∃ header sector, ahciRead 1 0 1 = some header ∧
    headerVolSize header ≠ headerFirstIndex header ∧
    ahciRead 1 (headerFirstIndex header) 1 = some sector ∧
    ∃ slot < 8, HasName sector kernelName slot ∧
      (∀ other < 8, slot < other → ¬ HasName sector kernelName other) ∧
      (length, start) = entryValue sector slot

/-- The requests that cover the kernel. -/
def coverReads (length start : Nat) : List SectorRead :=
  (List.range ((length + 4095) / 4096)).map fun k => ⟨start + 8 * k, 8, kernelBase + 4096 * k⟩

/-- A run of the loader ends; it requests the kernel's sectors only if there is a kernel, no others,
and all of them if it does not stop; it writes nothing in front of the kernel's place or behind the
last block of 4096 bytes. -/
structure LoadsKernel (ahciRead : Nat → Nat → Nat → Option Mem) (m : Mem) (run : Loading) :
    Prop where
  ends : run.outcome = .ret () ∨ run.outcome = .panic
  found : run.reads ≠ [] → ∃ length start, KernelEntry ahciRead length start
  covers : ∀ length start, KernelEntry ahciRead length start →
    run.reads <+: coverReads length start ∧
      (run.outcome = .ret () → run.reads = coverReads length start)
  inside : ∀ length start, KernelEntry ahciRead length start →
    (∀ r ∈ run.reads, kernelBase ≤ r.buffer ∧
      r.buffer + 512 * r.count ≤ kernelBase + length + 4096) ∧
    ∀ x, x < kernelBase ∨ kernelBase + length + 4096 ≤ x → run.memory x = m x

/-- Given time, the loader loads the kernel or stops. -/
def Boots (ahciRead : Nat → Nat → Nat → Option Mem) (m : Mem) (dirName buf : Nat) : Prop :=
  ∃ bound, ∀ fuel, bound ≤ fuel → LoadsKernel ahciRead m (ldrMain ahciRead m dirName buf fuel)

/-- The header or the first index sector cannot be read. -/
def Unreadable (ahciRead : Nat → Nat → Nat → Option Mem) : Prop :=
  ahciRead 1 0 1 = none ∨ ∃ header, ahciRead 1 0 1 = some header ∧
    headerVolSize header ≠ headerFirstIndex header ∧
    ahciRead 1 (headerFirstIndex header) 1 = none

/-- The loop comes to an end within the kernel: at the block that its last byte is in, or at one
that cannot be read. -/
def EndsInside (ahciRead : Nat → Nat → Nat → Option Mem) (length start : Nat) : Prop :=
  ∃ k, 4096 * k < length ∧ start + 8 * k < 4294967296 ∧
    (length < 4096 * (k + 1) ∨ ahciRead 1 (start + 8 * k) 8 = none)

/-- The loader stops in front of the loop, or the loop ends inside the kernel. -/
def StopsInside (ahciRead : Nat → Nat → Nat → Option Mem) : Prop :=
  Unreadable ahciRead ∨ ∃ length start, KernelEntry ahciRead length start ∧
    (start = 4294967295 ∧ length = 0 ∨ EndsInside ahciRead length start)

/-! ## The loop -/

section

variable {ahciRead : Nat → Nat → Nat → Option Mem} {m : Mem} {run : Loading}
variable {length start dirName buf fuel k last position : Nat}

/-- The request of the `k`-th turn. -/
def turnRead (start k : Nat) : SectorRead := ⟨add32 start (8 * k), 8, kernelBase + 4096 * k⟩

/-- It stays in front of the end of the last block. -/
theorem turnRead_inside (hk : 4096 * k ≤ length) :
    kernelBase ≤ (turnRead start k).buffer ∧
      (turnRead start k).buffer + 512 * (turnRead start k).count ≤
        kernelBase + length + 4096 := by
  simp only [turnRead, kernelBase]
  omega

/-- What the turns `k` to `last` of the loop have done, and why it is over. -/
structure Turns (ahciRead : Nat → Nat → Nat → Option Mem) (m : Mem) (length start k last : Nat)
    (run : Loading) : Prop where
  bounds : k ≤ last ∧ 4096 * last ≤ length
  reads : run.reads = (List.range' k (last + 1 - k)).map (turnRead start)
  earlier : ∀ j, k ≤ j → j < last → ahciRead 1 (add32 start (8 * j)) 8 ≠ none
  stops : run.outcome = .panic ∧ ahciRead 1 (add32 start (8 * last)) 8 = none ∨
    run.outcome = .ret () ∧ length < 4096 * (last + 1)
  memory : ∀ x, x < kernelBase ∨ kernelBase + 4096 * (last + 1) ≤ x → run.memory x = m x

/-- One turn. -/
theorem loadLoop_turn (hk : 4096 * k ≤ length) (hlength : length < 33554432) :
    loadLoop ahciRead start length (fuel + 1) (4096 * k) m =
      (match ahciRead 1 (add32 start (8 * k)) 8 with
        | none => ⟨.panic, [turnRead start k], m⟩
        | some data => ⟨.ret (), [turnRead start k], blit m (kernelBase + 4096 * k) data 0 4096⟩ :
        Loading).andThen (loadLoop ahciRead start length fuel (4096 * (k + 1))) := by
  have hsector : 4096 * k / 512 = 8 * k := by omega
  have hbuffer : add32 kernelBase (4096 * k) = kernelBase + 4096 * k := by
    have hbase : kernelBase = 1048576 := rfl
    exact add32_eq (by omega)
  have hnext : add32 (4096 * k) 4096 = 4096 * (k + 1) := add32_eq (by omega)
  simp only [loadLoop, if_pos hk, fsysSimpleRead, hsector, hbuffer, hnext, turnRead,
    show ceilDivision 4096 512 = 8 from rfl]

/-- The last turn, at a block that cannot be read. -/
theorem turns_fail (hk : 4096 * k ≤ length)
    (hread : ahciRead 1 (add32 start (8 * k)) 8 = none) :
    Turns ahciRead m length start k k ⟨.panic, [turnRead start k], m⟩ where
  bounds := ⟨Nat.le_refl k, hk⟩
  reads := by
    rw [Nat.add_sub_cancel_left]
    rfl
  earlier := fun j hj hlt => absurd hlt (Nat.not_lt.mpr hj)
  stops := .inl ⟨rfl, hread⟩
  memory := fun _ _ => rfl

/-- The last turn, at the end of the kernel. -/
theorem turns_done {data : Mem} (hk : 4096 * k ≤ length) (hend : length < 4096 * (k + 1)) :
    Turns ahciRead m length start k k
      ⟨.ret (), [turnRead start k], blit m (kernelBase + 4096 * k) data 0 4096⟩ where
  bounds := ⟨Nat.le_refl k, hk⟩
  reads := by
    rw [Nat.add_sub_cancel_left]
    rfl
  earlier := fun j hj hlt => absurd hlt (Nat.not_lt.mpr hj)
  stops := .inr ⟨rfl, hend⟩
  memory := fun x hx => blit_frame _ _ _ (by omega)

/-- A turn in front of others. -/
theorem Turns.cons {data : Mem} (hread : ahciRead 1 (add32 start (8 * k)) 8 = some data)
    (h : Turns ahciRead (blit m (kernelBase + 4096 * k) data 0 4096) length start (k + 1) last
      run) :
    Turns ahciRead m length start k last { run with reads := turnRead start k :: run.reads } where
  bounds := ⟨by have := h.bounds.1; omega, h.bounds.2⟩
  reads := by
    have hcount : last + 1 - k = last + 1 - (k + 1) + 1 := by
      have := h.bounds.1
      omega
    rw [hcount, List.range'_succ, List.map_cons, ← h.reads]
  earlier := by
    intro j hj hlt
    rcases Nat.eq_or_lt_of_le hj with rfl | hj
    · rw [hread]
      nofun
    · exact h.earlier j hj hlt
  stops := h.stops
  memory := by
    intro x hx
    have hlast := h.bounds.1
    have hrest : run.memory x = blit m (kernelBase + 4096 * k) data 0 4096 x :=
      h.memory x hx
    exact hrest.trans (blit_frame _ _ _ (by omega))

/-- The loop ends, at the first block that cannot be read or behind the end of the kernel. -/
theorem loadLoop_turns (ahciRead : Nat → Nat → Nat → Option Mem) (m : Mem) (start : Nat)
    (hlength : length < 33554432) (n : Nat) (hk : 4096 * k ≤ length)
    (hn : length / 4096 = k + n) (hfuel : n + 2 ≤ fuel) :
    ∃ last, Turns ahciRead m length start k last
      (loadLoop ahciRead start length fuel (4096 * k) m) := by
  induction n generalizing k m fuel with
  | zero =>
    obtain ⟨fuel, rfl⟩ : ∃ n, fuel = n + 2 := ⟨fuel - 2, by omega⟩
    rw [loadLoop_turn hk hlength]
    refine ⟨k, ?_⟩
    cases hread : ahciRead 1 (add32 start (8 * k)) 8 with
    | none => exact turns_fail hk hread
    | some data =>
      have hover : ¬ 4096 * (k + 1) ≤ length := by omega
      simp only [Loading.andThen, loadLoop, if_neg hover, List.append_nil]
      exact turns_done hk (by omega)
  | succ n ih =>
    obtain ⟨fuel, rfl⟩ : ∃ n, fuel = n + 1 := ⟨fuel - 1, by omega⟩
    rw [loadLoop_turn hk hlength]
    cases hread : ahciRead 1 (add32 start (8 * k)) 8 with
    | none => exact ⟨k, turns_fail hk hread⟩
    | some data =>
      have hrest : n + 2 ≤ fuel := by omega
      obtain ⟨last, hlast⟩ := ih (blit m (kernelBase + 4096 * k) data 0 4096) (k := k + 1)
        (by omega) (by omega) hrest
      exact ⟨last, hlast.cons hread⟩

/-! ## The search -/

/-- The kernel has one entry. -/
theorem KernelEntry.unique {length' start' : Nat} (h : KernelEntry ahciRead length start)
    (h' : KernelEntry ahciRead length' start') : length' = length ∧ start' = start := by
  obtain ⟨header, sector, hheader, _, hread, slot, hslot, hname, hlast, heq⟩ := h
  obtain ⟨header', sector', hheader', _, hread', slot', hslot', hname', hlast', heq'⟩ := h'
  obtain rfl : header = header' := Option.some.inj (hheader.symm.trans hheader')
  obtain rfl : sector = sector' := Option.some.inj (hread.symm.trans hread')
  obtain rfl : slot = slot' := by
    rcases Nat.lt_trichotomy slot slot' with hlt | hsame | hlt
    · exact absurd hname' (hlast slot' hslot' hlt)
    · exact hsame
    · exact absurd hname (hlast' slot hslot hlt)
  exact Prod.mk.inj (heq'.trans heq.symm)

/-- The size of a file is a 16-bit number of sectors. -/
theorem KernelEntry.length_lt (h : KernelEntry ahciRead length start) : length < 33554432 := by
  obtain ⟨_, sector, _, _, _, slot, _, _, _, heq⟩ := h
  have hlength : length = load16 sector (64 * slot + 4) * 512 := congrArg Prod.fst heq
  have hsize := load16_lt sector (64 * slot + 4)
  omega

/-- A volume that cannot be read stops the search. -/
theorem find_panic (h : Unreadable ahciRead) :
    fsysSimpleFind (fun port k => ahciRead port k 1) m dirName 1 buf fuel = .panic := by
  rcases h with hnone | ⟨header, hheader, hvolume, hnone⟩
  · simp only [fsysSimpleFind, hnone]
  · exact fsysSimpleFind_panic hheader hvolume hnone

/-- The search finds the kernel's entry, or leaves the values for not found. -/
theorem find_settles (hread : ¬ Unreadable ahciRead) (hname : StrAt m dirName kernelName)
    (hlocal : dirName + kernelName.length < buf ∨ buf + 512 ≤ dirName) :
    ∃ value, Settles (fsysSimpleFind (fun port k => ahciRead port k 1) m dirName 1 buf) value ∧
      (KernelEntry ahciRead value.1 value.2 ∨
        value = SimpleFs.notFound ∧ ¬ ∃ length start, KernelEntry ahciRead length start) := by
  have hheader : ahciRead 1 0 1 ≠ none := fun h => hread (.inl h)
  obtain ⟨header, hheader⟩ := Option.ne_none_iff_exists'.mp hheader
  by_cases hvolume : headerVolSize header = headerFirstIndex header
  · refine ⟨SimpleFs.notFound, ⟨0, fun _ _ => fsysSimpleFind_empty hheader hvolume⟩, .inr ⟨rfl, ?_⟩⟩
    rintro ⟨length, start, header', _, hheader', hne, _⟩
    obtain rfl : header = header' := Option.some.inj (hheader.symm.trans hheader')
    exact hne hvolume
  · have hsector : ahciRead 1 (headerFirstIndex header) 1 ≠ none :=
      fun h => hread (.inr ⟨header, hheader, hvolume, h⟩)
    obtain ⟨sector, hsector⟩ := Option.ne_none_iff_exists'.mp hsector
    obtain ⟨found, hfound, hnone, hsome⟩ :=
      searchEntries_settles buf 8 (name_kept sector hname hlocal)
    have hfield : ∀ slot < 8, StrAt (blit m buf sector 0 512) (buf + 64 * slot + 20) kernelName ↔
        HasName sector kernelName slot := fun slot hslot =>
      (buffer_name hslot (by decide)).trans ⟨fun h => ⟨by decide, h⟩, fun h => h.2⟩
    refine ⟨_, fsysSimpleFind_of_entries hheader hvolume hsector hfound, ?_⟩
    cases found with
    | none =>
      refine .inr ⟨rfl, ?_⟩
      rintro ⟨length, start, header', sector', hheader', _, hsector', slot, hslot, hslotName, _⟩
      obtain rfl : header = header' := Option.some.inj (hheader.symm.trans hheader')
      obtain rfl : sector = sector' := Option.some.inj (hsector.symm.trans hsector')
      exact hnone rfl slot hslot ((hfield slot hslot).mpr hslotName)
    | some value =>
      obtain ⟨slot, hslot, hstr, hlater, rfl⟩ := hsome value rfl
      refine .inl ⟨header, sector, hheader, hvolume, hsector, slot, hslot,
        (hfield slot hslot).mp hstr, fun other hother hlt h => ?_, buffer_entry hslot⟩
      exact hlater other hother hlt ((hfield other hother).mpr h)

/-! ## The loader -/

/-- What the loader does with the values of the search. -/
theorem ldrMain_of_find {value : Nat × Nat}
    (h : fsysSimpleFind (fun port k => ahciRead port k 1) m dirName 1 buf fuel = .ret value) :
    ldrMain ahciRead m dirName buf fuel =
      if value.2 = 4294967295 ∧ value.1 = 0 then ⟨.panic, [], m⟩
      else loadLoop ahciRead value.2 value.1 fuel 0 m := by
  simp only [ldrMain, h]

/-- A loader that stops in front of the loop has done nothing. -/
theorem loadsKernel_stopped : LoadsKernel ahciRead m ⟨.panic, [], m⟩ where
  ends := .inr rfl
  found := fun h => absurd rfl h
  covers := fun _ _ _ => ⟨List.nil_prefix, nofun⟩
  inside := fun _ _ _ => ⟨nofun, fun _ _ => rfl⟩

/-- Without a kernel the loop is entered. -/
theorem loadLoop_enters (length : Nat) :
    (loadLoop ahciRead start length (fuel + 1) 0 m).reads ≠ [] := by
  simp only [loadLoop, if_pos (Nat.zero_le length), fsysSimpleRead]
  cases ahciRead 1 (add32 start (0 / 512)) (ceilDivision 4096 512) <;>
    simp [Loading.andThen]

/-- Without a kernel the loop has no end, unless the disk fails. -/
theorem loadLoop_endless (hreads : ∀ sector count, ahciRead 1 sector count ≠ none)
    (hposition : position ≤ 4294967295) :
    (loadLoop ahciRead start 4294967295 fuel position m).outcome = .running := by
  induction fuel generalizing position m with
  | zero => rfl
  | succ fuel ih =>
    have hnext : add32 position 4096 ≤ 4294967295 := Nat.le_of_lt_succ (add32_lt _ _)
    obtain ⟨data, hdata⟩ := Option.ne_none_iff_exists'.mp
      (hreads (add32 start (position / 512)) (ceilDivision 4096 512))
    simp only [loadLoop, if_pos hposition, fsysSimpleRead, hdata, Loading.andThen]
    exact ih hnext

/-- Without a kernel the loader does not stop in front of the loop. -/
theorem not_boots_of_missing (hread : ¬ Unreadable ahciRead)
    (hname : StrAt m dirName kernelName)
    (hlocal : dirName + kernelName.length < buf ∨ buf + 512 ≤ dirName)
    (hmissing : ¬ ∃ length start, KernelEntry ahciRead length start) :
    ¬ Boots ahciRead m dirName buf := by
  obtain ⟨value, ⟨bound, hbound⟩, hentry | ⟨rfl, _⟩⟩ := find_settles hread hname hlocal
  · exact absurd ⟨_, _, hentry⟩ hmissing
  · rintro ⟨bound', h⟩
    have hrun := h (bound + bound' + 1) (by omega)
    rw [ldrMain_of_find (hbound _ (by omega)), if_neg (by decide)] at hrun
    exact hmissing (hrun.found (loadLoop_enters _))

/-- The requests of the turns are among those that cover the kernel exactly if the last one is. -/
theorem turns_prefix_iff :
    (List.range' 0 (last + 1)).map (turnRead start) <+: coverReads length start ↔
      4096 * last < length ∧ start + 8 * last < 4294967296 := by
  have hturns : ((List.range' 0 (last + 1)).map (turnRead start)).length = last + 1 := by
    simp
  have hcover : (coverReads length start).length = (length + 4095) / 4096 := by
    simp [coverReads]
  constructor
  · intro h
    have hle := h.length_le
    rw [hturns, hcover] at hle
    have hlast := h.getElem (i := last) (by omega)
    have hsector : add32 start (8 * last) = start + 8 * last := by
      simpa [coverReads, turnRead] using congrArg SectorRead.start hlast
    have hlt := add32_lt start (8 * last)
    exact ⟨by omega, by omega⟩
  · rintro ⟨hlast, hsector⟩
    rw [List.prefix_iff_eq_take]
    refine List.ext_getElem (by rw [List.length_take, hturns, hcover]; omega) ?_
    intro i hi _
    have hstart : add32 start (8 * i) = start + 8 * i := add32_eq (by omega)
    simp [coverReads, turnRead, hstart]

/-- The turns load the kernel exactly if they end inside it. -/
theorem Turns.loadsKernel_iff (hentry : KernelEntry ahciRead length start)
    (h : Turns ahciRead m length start 0 last run) :
    LoadsKernel ahciRead m run ↔ 4096 * last < length ∧ start + 8 * last < 4294967296 := by
  have hreads : run.reads = (List.range' 0 (last + 1)).map (turnRead start) := h.reads
  constructor
  · intro hloads
    have hpre := (hloads.covers length start hentry).1
    rw [hreads] at hpre
    exact turns_prefix_iff.mp hpre
  · intro hlast
    have hpre : run.reads <+: coverReads length start := by
      rw [hreads]
      exact turns_prefix_iff.mpr hlast
    refine ⟨?_, fun _ => ⟨_, _, hentry⟩, ?_, ?_⟩
    · exact h.stops.elim (fun h => .inr h.1) (fun h => .inl h.1)
    · intro length' start' hentry'
      obtain ⟨rfl, rfl⟩ := hentry.unique hentry'
      refine ⟨hpre, fun hret => hpre.eq_of_length ?_⟩
      rcases h.stops with ⟨hpanic, _⟩ | ⟨_, hend⟩
      · rw [hpanic] at hret
        cases hret
      · rw [hreads]
        simp only [coverReads, List.length_map, List.length_range', List.length_range]
        omega
    · intro length' start' hentry'
      obtain ⟨rfl, rfl⟩ := hentry.unique hentry'
      have hend : kernelBase + 4096 * (last + 1) ≤ kernelBase + length' + 4096 := by
        have hlast := h.bounds.2
        omega
      refine ⟨fun r hr => ?_, fun x hx => h.memory x (hx.imp_right hend.trans)⟩
      rw [hreads] at hr
      obtain ⟨k, hk, rfl⟩ := List.mem_map.mp hr
      have hle := (List.mem_range'_1.mp hk).2
      exact turnRead_inside (by omega)

/-- The last turn of the loop is inside the kernel exactly if the loop can end there. -/
theorem Turns.inside_iff (h : Turns ahciRead m length start 0 last run) :
    4096 * last < length ∧ start + 8 * last < 4294967296 ↔ EndsInside ahciRead length start := by
  constructor
  · rintro ⟨hlast, hsector⟩
    refine ⟨last, hlast, hsector, ?_⟩
    rcases h.stops with ⟨_, hnone⟩ | ⟨_, hend⟩
    · rw [add32_eq hsector] at hnone
      exact .inr hnone
    · exact .inl hend
  · rintro ⟨k, hk, hsector, hend⟩
    -- the loop does not get beyond a turn at which it ends
    have hle : last ≤ k := by
      by_contra hlt
      rcases hend with hend | hnone
      · have hbound := h.bounds.2
        omega
      · have hread := h.earlier k (Nat.zero_le k) (by omega)
        rw [add32_eq hsector] at hread
        exact hread hnone
    exact ⟨by omega, by omega⟩

/-- The loader with a kernel on the volume. -/
theorem boots_iff_of_entry (hread : ¬ Unreadable ahciRead)
    (hname : StrAt m dirName kernelName)
    (hlocal : dirName + kernelName.length < buf ∨ buf + 512 ≤ dirName)
    (hentry : KernelEntry ahciRead length start) :
    Boots ahciRead m dirName buf ↔
      start = 4294967295 ∧ length = 0 ∨ EndsInside ahciRead length start := by
  obtain ⟨value, ⟨bound, hbound⟩, hfound | ⟨_, hmissing⟩⟩ := find_settles hread hname hlocal
  · obtain ⟨hlength, hstart⟩ := hentry.unique hfound
    have hmain : ∀ fuel, bound ≤ fuel → ldrMain ahciRead m dirName buf fuel =
        if start = 4294967295 ∧ length = 0 then ⟨.panic, [], m⟩
        else loadLoop ahciRead start length fuel 0 m := by
      intro fuel hfuel
      rw [ldrMain_of_find (hbound fuel hfuel), hlength, hstart]
    by_cases hempty : start = 4294967295 ∧ length = 0
    · refine iff_of_true ⟨bound, fun fuel hfuel => ?_⟩ (.inl hempty)
      rw [hmain fuel hfuel, if_pos hempty]
      exact loadsKernel_stopped
    · have hloop : ∀ fuel, bound + length / 4096 + 2 ≤ fuel →
          (LoadsKernel ahciRead m (ldrMain ahciRead m dirName buf fuel) ↔
            EndsInside ahciRead length start) := by
        intro fuel hfuel
        have hrest : length / 4096 + 2 ≤ fuel := by omega
        obtain ⟨last, hturns⟩ := loadLoop_turns ahciRead m start (k := 0) hentry.length_lt
          (length / 4096) (Nat.zero_le _) (Nat.zero_add _).symm hrest
        rw [hmain fuel (by omega), if_neg hempty]
        exact (hturns.loadsKernel_iff hentry).trans hturns.inside_iff
      rw [or_iff_right hempty]
      constructor
      · rintro ⟨bound', h⟩
        exact (hloop (bound + length / 4096 + 2 + bound') (by omega)).mp (h _ (by omega))
      · exact fun h => ⟨_, fun fuel hfuel => (hloop fuel hfuel).mpr h⟩
  · exact absurd ⟨_, _, hentry⟩ hmissing

/-- The loader loads the kernel or stops exactly if it stops in front of the loop, or the loop ends
inside a kernel that there is. -/
theorem boots_iff (ahciRead : Nat → Nat → Nat → Option Mem) (m : Mem) (dirName buf : Nat)
    (hname : StrAt m dirName kernelName)
    (hlocal : dirName + kernelName.length < buf ∨ buf + 512 ≤ dirName) :
    Boots ahciRead m dirName buf ↔ StopsInside ahciRead := by
  by_cases hread : Unreadable ahciRead
  · refine iff_of_true ⟨0, fun fuel _ => ?_⟩ (.inl hread)
    simp only [ldrMain, find_panic hread]
    exact loadsKernel_stopped
  · by_cases hkernel : ∃ length start, KernelEntry ahciRead length start
    · obtain ⟨length, start, hentry⟩ := hkernel
      rw [boots_iff_of_entry hread hname hlocal hentry]
      constructor
      · exact fun h => .inr ⟨length, start, hentry, h⟩
      · rintro (h | ⟨length', start', hentry', h⟩)
        · exact absurd h hread
        · obtain ⟨rfl, rfl⟩ := hentry.unique hentry'
          exact h
    · refine iff_of_false (not_boots_of_missing hread hname hlocal hkernel) ?_
      rintro (h | ⟨length, start, hentry, _⟩)
      · exact hread h
      · exact hkernel ⟨length, start, hentry⟩

/-- A volume with the index in sector 1 and no files. -/
def noKernel (_port k _count : Nat) : Option Mem :=
  if k = 0 then some (store32 (store32 (fun _ => 0) 2 2) 6 1) else some fun _ => 0

/-- The memory of the loader with the kernel's name at 0. -/
def loaderMemory : Mem := fun x => kernelName.getD x 0

theorem boots_iff_noKernel :
    Boots noKernel loaderMemory 0 4096 ↔ StopsInside noKernel :=
  boots_iff noKernel loaderMemory 0 4096 (by decide) (by decide)

/-- Without a kernel on the volume the loader does not stop. -/
theorem boots_fails : ¬ Boots noKernel loaderMemory 0 4096 := by
  have hsome : ∀ k, noKernel 1 k 1 ≠ none := by
    intro k
    simp only [noKernel]
    split <;> nofun
  refine not_boots_of_missing ?_ (by decide) (by decide) ?_
  · rintro (h | ⟨header, _, _, h⟩)
    · exact hsome 0 h
    · exact hsome _ h
  · rintro ⟨length, start, header, sector, hheader, _, hsector, slot, hslot, hslotName, _⟩
    obtain rfl := Option.some.inj hheader
    have hempty : ∀ slot < 8, ¬ HasName (fun _ => 0) kernelName slot := by decide
    obtain rfl : (fun _ => 0) = sector := Option.some.inj hsector
    exact hempty slot hslot hslotName

end

end MeOS.LoadKernel
