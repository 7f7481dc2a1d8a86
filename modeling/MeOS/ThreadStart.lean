import MeOS.Scheduler
import MeOS.Lib.WordStack

/-! # `process.cpp`: the stack a new thread starts on

`thread_create` builds the stack of a thread from the top down: the error variable, the
arguments, a return address, and over them the `trap_frame` that is popped when the
thread first runs. The arguments are pushed in the order in which they are passed, so
the last one ends up next to the return address, where a callee looks for its first
parameter.
-/

namespace MeOS.ThreadStart

open Bytes WordStack

/-! ## `thread_create` -/

/-- The fields of a `thread_control_block` that `thread_create` sets; the exception queue is
left out. -/
structure Tcb extends MeOS.Tcb where
  esp : Nat
  ss : Nat
  parent : Nat
  id : Nat
  stackTop : Nat
  threadAttribute : Nat
  threadLock : Nat
  exceptionLock : Nat
deriving Repr, DecidableEq

/-- `THREAD_KERNEL`. -/
abbrev threadKernel : Nat := 1

/-- `THREAD_LOCK_NONE`. -/
abbrev threadLockNone : Nat := 0

/-- `sizeof(trap_frame)`. -/
abbrev sizeofTrapFrame : Nat := 60

/-- `thread_add_parameter`. -/
def threadAddParameter (m : Mem) (t : Tcb) (param : Nat) : Mem × Tcb :=
  let t := { t with esp := sub32 t.esp 4 }
  (store32 m t.esp param, t)

/-- The loop of `thread_create` over the arguments. -/
def addParameters (m : Mem) (t : Tcb) (params : List Nat) : Mem × Tcb :=
  params.foldl (fun s arg => threadAddParameter s.1 s.2 arg) (m, t)

/-- `thread_setup_execution_stack`. The fields of a `trap_frame` are, from its start: `gs`, `fs`,
`es`, `ds`, `eax`, `ebx`, `ecx`, `edx`, `esi`, `edi`, `esp`, `ebp`, `eip`, `cs`, `flags`. -/
def threadSetupExecutionStack (m : Mem) (t : Tcb) (entry : Nat) : Mem × Tcb :=
  let t := { t with esp := sub32 t.esp sizeofTrapFrame }
  let f := t.esp
  let m := store32 m (add32 f 56) 0x202
  let m := store32 m (add32 f 52) 0x8
  let m := store32 m (add32 f 12) 0x10
  let m := store32 m (add32 f 16) 0
  let m := store32 m (add32 f 44) 0
  let m := store32 m (add32 f 20) 0
  let m := store32 m (add32 f 24) 0
  let m := store32 m (add32 f 36) 0
  let m := store32 m (add32 f 28) 0
  let m := store32 m (add32 f 48) entry
  let m := store32 m (add32 f 8) 0x10
  let m := store32 m (add32 f 32) 0
  let m := store32 m (add32 f 40) 0
  let m := store32 m (add32 f 4) 0x10
  let m := store32 m (add32 f 0) 0x10
  (m, t)

/-- `thread_create`: `raw` is what the new record holds before it is filled in, `m` the memory as
the parent's address space shows it. -/
def threadCreate (m : Mem) (raw : Tcb) (lastID parent entry stackTop _stackSize priority : Nat)
    (params : List Nat) : Outcome (Mem × Tcb) :=
  if stackTop % 4096 ≠ 0 then .panic
  else
    let t := { raw with
      id := add32 lastID 1, parent := parent, stackTop := stackTop, state := .ready,
      basePriority := wrapInt32 priority, plusPriority := 0, threadAttribute := threadKernel,
      threadLock := threadLockNone, ss := 0x10, esp := stackTop, exceptionLock := 0 }
    -- the error variable
    let (m, t) := threadAddParameter m t 0
    let (m, t) := addParameters m t params
    -- the return address
    let (m, t) := threadAddParameter m t 0
    .ret (threadSetupExecutionStack m t entry)

/-- `thread_get_error`. -/
def threadGetError (t : Tcb) : Nat := sub32 t.stackTop 4

/-! ## The first time it runs -/

/-- The registers that a context switch restores. -/
structure Cpu where
  gs : Nat
  fs : Nat
  es : Nat
  ds : Nat
  edi : Nat
  esi : Nat
  ebp : Nat
  esp : Nat
  ebx : Nat
  edx : Nat
  ecx : Nat
  eax : Nat
  eip : Nat
  cs : Nat
  eflags : Nat
deriving Repr, DecidableEq

/-- `pop gs`, `pop fs`, `pop es`, `pop ds` and `popad`, which skips the `esp` it finds. -/
def Cpu.popContext (c : Cpu) (m : Mem) : Cpu :=
  { c with
    gs := load32 m c.esp % 65536
    fs := load32 m (add32 c.esp 4) % 65536
    es := load32 m (add32 c.esp 8) % 65536
    ds := load32 m (add32 c.esp 12) % 65536
    edi := load32 m (add32 c.esp 16)
    esi := load32 m (add32 c.esp 20)
    ebp := load32 m (add32 c.esp 24)
    ebx := load32 m (add32 c.esp 32)
    edx := load32 m (add32 c.esp 36)
    ecx := load32 m (add32 c.esp 40)
    eax := load32 m (add32 c.esp 44)
    esp := add32 c.esp 48 }

/-- `iretd`, to code of the same ring. -/
def Cpu.iretd (c : Cpu) (m : Mem) : Cpu :=
  { c with
    eip := load32 m c.esp
    cs := load32 m (add32 c.esp 4) % 65536
    eflags := load32 m (add32 c.esp 8)
    esp := add32 c.esp 12 }

/-- The end of `thread_execute`, from `mov esp, t.esp` on. -/
def threadExecute (m : Mem) (c : Cpu) (t : Tcb) : Mem × Cpu :=
  let c := { c with esp := t.esp }
  (m, (c.popContext m).iretd m)

/-- The end of `scheduler_interrupt`, from `mov esp, [eax]` on: between `popad` and `iretd` the
interrupt is acknowledged, with `eax` saved below the stack. -/
def schedulerInterrupt (m : Mem) (c : Cpu) (t : Tcb) : Mem × Cpu :=
  let c := ({ c with esp := t.esp }).popContext m
  let m := store32 m (sub32 c.esp 4) c.eax
  let c := { c with eax := load32 m (sub32 c.esp 4) }
  (m, c.iretd m)

/-! ## What a callee finds -/

/-- Where a callee looks for parameter `i` when it starts: above its return address. -/
def parameterAddr (c : Cpu) (i : Nat) : Nat := add32 c.esp (4 + 4 * i)

/-- The thread starts at its entry point, with interrupts enabled, as if it had been called with
the arguments; its error variable is zero and above its parameters. -/
structure FindsArguments (entry : Nat) (args : List Nat) (t : Tcb) (m : Mem) (c : Cpu) :
    Prop where
  entry : c.eip = entry
  interrupts : c.eflags.testBit 9 = true
  parameters : ∀ i a, args[i]? = some a → load32 m (parameterAddr c i) = a
  returnAddress : load32 m c.esp = 0
  error : load32 m (threadGetError t) = 0
  above : ∀ i, i < args.length → parameterAddr c i + 4 ≤ threadGetError t

/-- The end of the stack, exclusive. -/
def stackEnd (stackTop : Nat) : Nat := if stackTop = 0 then 4294967296 else stackTop

/-! ## The stack that is built -/

/-- The words of the `trap_frame`. -/
def trapFrame (entry : Nat) : List Nat :=
  [0x10, 0x10, 0x10, 0x10, 0, 0, 0, 0, 0, 0, 0, 0, entry, 0x8, 0x202]

section Built

variable {m m' : Mem} {t t' : Tcb} {entry : Nat} {ws args : List Nat}

/-- The words `ws` are on the stack of the thread. -/
structure OnStack (m : Mem) (t : Tcb) (ws : List Nat) : Prop where
  aligned : Aligned 4294967296 t.esp
  words : Stacked 4294967296 m t.esp ws

/-- The thread has gone down by `n` words, to `t'`. -/
structure WentDown (t t' : Tcb) (n : Nat) : Prop where
  stackTop : t'.stackTop = t.stackTop
  esp : slot 4294967296 t'.esp n = t.esp

theorem sub32_four {a : Nat} : sub32 a 4 = below 4294967296 a := by
  simp only [sub32, below, Nat.reduceMod, Nat.reduceSub]

theorem WentDown.refl (h : t.esp < 4294967296) : WentDown t t 0 := ⟨rfl, slot_zero h⟩

theorem WentDown.trans {t'' : Tcb} {n k : Nat} (h : WentDown t t' n) (h' : WentDown t' t'' k) :
    WentDown t t'' (k + n) where
  stackTop := h'.stackTop.trans h.stackTop
  esp := by
    rw [← slot_slot, h'.esp, h.esp]

theorem OnStack.addParameter (param : Nat) (h : OnStack m t ws)
    (hfit : 4 * (ws.length + 1) ≤ 4294967296) (hparam : param < 4294967296) :
    OnStack (threadAddParameter m t param).1 (threadAddParameter m t param).2 (param :: ws) ∧
      WentDown t (threadAddParameter m t param).2 1 := by
  simp only [threadAddParameter, sub32_four]
  refine ⟨⟨h.aligned.below, h.words.push h.aligned hfit hparam⟩, rfl, ?_⟩
  have hbelow : slot 4294967296 (below 4294967296 t.esp) (0 + 1) = slot 4294967296 t.esp 0 :=
    slot_below (by omega)
  rw [slot_zero h.aligned.lt] at hbelow
  exact hbelow

theorem addParameters_cons {a : Nat} : addParameters m t (a :: args) =
    addParameters (threadAddParameter m t a).1 (threadAddParameter m t a).2 args := by
  rw [addParameters, List.foldl_cons, addParameters]

/-- The arguments lie in the order opposite to the one in which they were passed. -/
theorem OnStack.addParameters (h : OnStack m t ws)
    (hfit : 4 * (ws.length + args.length) ≤ 4294967296) (hargs : ∀ a ∈ args, a < 4294967296) :
    OnStack (addParameters m t args).1 (addParameters m t args).2 (args.reverse ++ ws) ∧
      WentDown t (addParameters m t args).2 args.length := by
  induction args generalizing m t ws with
  | nil =>
    exact ⟨h, .refl h.aligned.lt⟩
  | cons a args ih =>
    rw [List.length_cons] at hfit
    obtain ⟨hone, hdown⟩ := h.addParameter a (by omega) (hargs a List.mem_cons_self)
    obtain ⟨hrest, hmore⟩ := ih hone (by simp only [List.length_cons]; omega) fun b hb =>
      hargs b (List.mem_cons_of_mem a hb)
    rw [addParameters_cons, List.reverse_cons, List.append_assoc, List.length_cons]
    exact ⟨hrest, hdown.trans hmore⟩

/-- The stores of `thread_setup_execution_stack` put the `trap_frame` in the place of fifteen
words. -/
theorem stacked_trapFrame {f : Nat} {w : Nat → Nat}
    (h : Stacked 4294967296 m f ((List.range 15).map w ++ ws)) (ha : Aligned 4294967296 f)
    (hfit : 4 * (ws.length + 15) ≤ 4294967296) (hentry : entry < 4294967296)
    (ht : sub32 t.esp sizeofTrapFrame = f) :
    Stacked 4294967296 (threadSetupExecutionStack m t entry).1 f (trapFrame entry ++ ws) := by
  have hstore {m : Mem} {xs : List Nat} (i k v : Nat) (hi : i < 15) (hk : 4 * i = k)
      (hv : v < 4294967296) (hx : Stacked 4294967296 m f xs ∧ xs.length = ws.length + 15) :
      Stacked 4294967296 (store32 m (add32 f k) v) f (xs.set i v) ∧
        (xs.set i v).length = ws.length + 15 := by
    subst hk
    exact ⟨hx.1.store ha (by omega) (by omega) hv, by rw [List.length_set, hx.2]⟩
  have hlength : ((List.range 15).map w ++ ws).length = ws.length + 15 := by
    rw [List.length_append, List.length_map, List.length_range, Nat.add_comm]
  have h := hstore 14 56 0x202 (by decide) rfl (by decide) ⟨h, hlength⟩
  have h := hstore 13 52 0x8 (by decide) rfl (by decide) h
  have h := hstore 3 12 0x10 (by decide) rfl (by decide) h
  have h := hstore 4 16 0 (by decide) rfl (by decide) h
  have h := hstore 11 44 0 (by decide) rfl (by decide) h
  have h := hstore 5 20 0 (by decide) rfl (by decide) h
  have h := hstore 6 24 0 (by decide) rfl (by decide) h
  have h := hstore 9 36 0 (by decide) rfl (by decide) h
  have h := hstore 7 28 0 (by decide) rfl (by decide) h
  have h := hstore 12 48 entry (by decide) rfl hentry h
  have h := hstore 2 8 0x10 (by decide) rfl (by decide) h
  have h := hstore 8 32 0 (by decide) rfl (by decide) h
  have h := hstore 10 40 0 (by decide) rfl (by decide) h
  have h := hstore 1 4 0x10 (by decide) rfl (by decide) h
  have h := hstore 0 0 0x10 (by decide) rfl (by decide) h
  simp only [List.range, List.range.loop, List.map_cons, List.map_nil, List.cons_append,
    List.nil_append, List.set_cons_succ, List.set_cons_zero] at h
  simp only [threadSetupExecutionStack, ht]
  exact h.1

/-- The `trap_frame` lies over what was on the stack. -/
theorem OnStack.setupExecutionStack (h : OnStack m t ws)
    (hfit : 4 * (ws.length + 15) ≤ 4294967296) (hentry : entry < 4294967296) :
    OnStack (threadSetupExecutionStack m t entry).1 (threadSetupExecutionStack m t entry).2
        (trapFrame entry ++ ws) ∧
      WentDown t (threadSetupExecutionStack m t entry).2 15 := by
  obtain ⟨f, hf⟩ : ∃ f, sub32 t.esp sizeofTrapFrame = f := ⟨_, rfl⟩
  have hlt := h.aligned.lt
  have hquad := h.aligned.quad
  have hf' : f = (t.esp + 4294967236) % 4294967296 := by
    rw [← hf]
    simp only [sub32, sizeofTrapFrame, Nat.reduceMod, Nat.reduceSub]
  have haligned : Aligned 4294967296 f := by
    refine ⟨by decide, ?_, ?_⟩ <;> omega
  have hesp : slot 4294967296 f 15 = t.esp := by
    simp only [slot]
    omega
  -- the frame's words, whatever they hold, and the stack above them
  have hold : Stacked 4294967296 m f
      (((List.range 15).map fun i => load32 m (slot 4294967296 f i)) ++ ws) := by
    refine (stacked_loaded m f 15).append ?_
    rw [List.length_map, List.length_range, hesp]
    exact h.words
  have hframe := stacked_trapFrame hold haligned hfit hentry hf
  have hto : (threadSetupExecutionStack m t entry).2 = { t with esp := f } := by
    rw [← hf]
    rfl
  rw [hto]
  exact ⟨⟨haligned, hframe⟩, rfl, hesp⟩

/-- The stack of a new thread. -/
theorem threadCreate_stack (m : Mem) (raw : Tcb) (lastID parent stackSize priority : Nat)
    {stackTop : Nat} (htop : stackTop < 4294967296) (hpage : stackTop % 4096 = 0)
    (hentry : entry < 4294967296) (hargs : ∀ a ∈ args, a < 4294967296)
    (hroom : 4 * (args.length + 17) ≤ 4294967296) :
    ∃ m' t, threadCreate m raw lastID parent entry stackTop stackSize priority args =
        .ret (m', t) ∧
      OnStack m' t (trapFrame entry ++ 0 :: (args.reverse ++ [0])) ∧
      t.stackTop = stackTop ∧ slot 4294967296 t.esp (15 + (1 + (args.length + 1))) = stackTop := by
  obtain ⟨t₀, ht₀⟩ : ∃ t₀ : Tcb, t₀ = { raw with
      id := add32 lastID 1, parent := parent, stackTop := stackTop, state := .ready,
      basePriority := wrapInt32 priority, plusPriority := 0, threadAttribute := threadKernel,
      threadLock := threadLockNone, ss := 0x10, esp := stackTop, exceptionLock := 0 } := ⟨_, rfl⟩
  have hesp : t₀.esp = stackTop := by rw [ht₀]
  have htop₀ : t₀.stackTop = stackTop := by rw [ht₀]
  have hempty : OnStack m t₀ [] := by
    refine ⟨⟨by decide, by rwa [hesp], by rw [hesp]; omega⟩, ?_⟩
    intro i w hw
    cases hw
  obtain ⟨herror, hdown₁⟩ := hempty.addParameter 0 (by simp) (by decide)
  obtain ⟨hparams, hdown₂⟩ := herror.addParameters (by simp; omega) hargs
  obtain ⟨hreturn, hdown₃⟩ := hparams.addParameter 0 (by simp; omega) (by decide)
  obtain ⟨hframe, hdown₄⟩ := hreturn.setupExecutionStack (by simp; omega) hentry
  have hdown := ((hdown₁.trans hdown₂).trans hdown₃).trans hdown₄
  refine ⟨_, _, ?_, hframe, hdown.stackTop.trans htop₀, hdown.esp.trans hesp⟩
  rw [threadCreate, if_neg (by omega), ← ht₀]

end Built

/-! ## What the thread finds -/

section Found

variable {m m' : Mem} {t : Tcb} {c c' : Cpu} {entry stackTop i : Nat} {ws args : List Nat}

/-- What both ways to restore a thread's stack do: the `trap_frame` is popped, the memory stays. -/
structure Restored (m : Mem) (t : Tcb) (m' : Mem) (c' : Cpu) : Prop where
  mem : m' = m
  eip : c'.eip = load32 m (slot 4294967296 t.esp 12)
  eflags : c'.eflags = load32 m (slot 4294967296 t.esp 14)
  esp : c'.esp = slot 4294967296 t.esp 15

theorem slot_eq_add32 {a k : Nat} (h : 4 * i = k) : slot 4294967296 a i = add32 a k := by
  rw [slot, add32, h]

theorem add32_add32 (a b d : Nat) : add32 (add32 a b) d = add32 a (b + d) := by
  simp only [add32, Nat.mod_add_mod, Nat.add_assoc]

theorem threadExecute_restored (m : Mem) (c : Cpu) (t : Tcb) :
    Restored m t (threadExecute m c t).1 (threadExecute m c t).2 where
  mem := rfl
  eip := by
    rw [slot_eq_add32 rfl]
    rfl
  eflags := by
    rw [slot_eq_add32 rfl, ← add32_add32 t.esp 48 8]
    rfl
  esp := by
    rw [slot_eq_add32 rfl, ← add32_add32 t.esp 48 12]
    rfl

/-- `eax` is saved in the word that it was popped from. -/
theorem store32_popped {a : Nat} :
    store32 m (sub32 (add32 a 48) 4) (load32 m (add32 a 44)) = m := by
  have hword : sub32 (add32 a 48) 4 = add32 a 44 := by
    simp only [sub32, add32, Nat.reduceMod, Nat.reduceSub]
    omega
  rw [hword]
  funext x
  rw [store32_load32]
  by_cases hx : add32 a 44 ≤ x ∧ x < add32 a 44 + 4
  · rw [if_pos hx, Nat.add_sub_of_le hx.1]
  · rw [if_neg hx]

theorem schedulerInterrupt_restored (m : Mem) (c : Cpu) (t : Tcb) :
    Restored m t (schedulerInterrupt m c t).1 (schedulerInterrupt m c t).2 := by
  simp only [schedulerInterrupt, Cpu.popContext, Cpu.iretd, store32_popped]
  refine ⟨rfl, ?_, ?_, ?_⟩
  · rw [slot_eq_add32 rfl]
  · show load32 m (add32 (add32 t.esp 48) 8) = _
    rw [slot_eq_add32 rfl, add32_add32]
  · rw [slot_eq_add32 rfl, add32_add32]

/-- The parameters are below the error variable unless the stack goes round. -/
theorem above_iff {e n : Nat} (htop : stackTop < 4294967296) (hpage : stackTop % 4096 = 0)
    (hroom : 4 * (n + 17) ≤ 4294967296)
    (hesp : slot 4294967296 e (15 + (1 + (n + 1))) = stackTop) :
    (∀ i, i < n → slot 4294967296 e (16 + i) + 4 ≤ sub32 stackTop 4) ↔
      4 * (n + 1) ≤ stackEnd stackTop := by
  have hend : stackEnd stackTop = sub32 stackTop 4 + 4 := by
    simp only [stackEnd, sub32]
    split <;> omega
  have hsub : sub32 stackTop 4 = (stackTop + 4294967292) % 4294967296 := by
    simp only [sub32, Nat.reduceMod, Nat.reduceSub]
  simp only [slot] at hesp ⊢
  rw [hend]
  constructor
  · intro h
    by_cases hn : n = 0
    · omega
    · have hfirst := h 0 (by omega)
      omega
  · intro h i hi
    omega

/-- The callee's parameters are the words behind the `trap_frame` and the return address. -/
theorem Restored.parameterAddr_eq (h : Restored m t m' c') (i : Nat) :
    parameterAddr c' i = slot 4294967296 t.esp (16 + i) := by
  have hone : slot 4294967296 c'.esp (1 + i) = parameterAddr c' i := slot_eq_add32 (by omega)
  rw [← hone, h.esp, slot_slot, ← Nat.add_assoc]

/-- They hold the arguments from the last one on. -/
theorem OnStack.parameter {a : Nat}
    (hstack : OnStack m t (trapFrame entry ++ 0 :: (args.reverse ++ [0])))
    (ha : args.reverse[i]? = some a) : load32 m (slot 4294967296 t.esp (16 + i)) = a := by
  refine hstack.words _ _ ?_
  have hi : i < args.reverse.length := (List.getElem?_eq_some_iff.mp ha).1
  have hindex : 16 + i - (trapFrame entry).length = i + 1 := by
    simp [trapFrame]
    omega
  rw [List.getElem?_append_right (by simp [trapFrame]; omega), hindex, List.getElem?_cons_succ,
    List.getElem?_append_left hi, ha]

/-- The error variable is the first word that has been pushed. -/
theorem OnStack.error (hstack : OnStack m t (trapFrame entry ++ 0 :: (args.reverse ++ [0])))
    (hesp : slot 4294967296 t.esp (15 + (1 + (args.length + 1))) = t.stackTop) :
    load32 m (threadGetError t) = 0 := by
  have hlast : threadGetError t = slot 4294967296 t.esp (16 + args.length) := by
    rw [threadGetError, sub32_four, ← hesp, show 15 + (1 + (args.length + 1)) =
      16 + args.length + 1 by omega, below_slot (by decide)]
  have hindex : 16 + args.length - (trapFrame entry).length = args.reverse.length + 1 := by
    simp [trapFrame]
    omega
  rw [hlast]
  refine hstack.words _ _ ?_
  rw [List.getElem?_append_right (by simp [trapFrame]; omega), hindex, List.getElem?_cons_succ,
    List.getElem?_append_right (Nat.le_refl _), Nat.sub_self]
  rfl

/-- A callee finds each argument in its place only when the last one is the first, and so on. -/
theorem FindsArguments.reverse_eq (h : Restored m t m' c')
    (hstack : OnStack m t (trapFrame entry ++ 0 :: (args.reverse ++ [0])))
    (hfinds : FindsArguments entry args t m' c') : args.reverse = args := by
  apply List.ext_getElem?
  intro i
  by_cases hi : i < args.length
  · have hsome := List.getElem?_eq_getElem hi
    have hrev := List.getElem?_eq_getElem (l := args.reverse) (i := i) (by simpa using hi)
    have hpassed := hfinds.parameters i _ hsome
    rw [h.mem, h.parameterAddr_eq, hstack.parameter hrev] at hpassed
    rw [hsome, hrev, hpassed]
  · rw [List.getElem?_eq_none (by simpa using hi), List.getElem?_eq_none (by omega)]

/-- A thread that is restored finds its arguments when they are the same in both orders, and the
stack does not go round. -/
theorem Restored.finds_iff (h : Restored m t m' c')
    (hstack : OnStack m t (trapFrame entry ++ 0 :: (args.reverse ++ [0])))
    (htop : t.stackTop < 4294967296) (hpage : t.stackTop % 4096 = 0)
    (hroom : 4 * (args.length + 17) ≤ 4294967296)
    (hesp : slot 4294967296 t.esp (15 + (1 + (args.length + 1))) = t.stackTop) :
    FindsArguments entry args t m' c' ↔
      args.reverse = args ∧ 4 * (args.length + 1) ≤ stackEnd t.stackTop := by
  have habove := above_iff htop hpage hroom hesp
  constructor
  · intro hfinds
    refine ⟨hfinds.reverse_eq h hstack, habove.mp fun i hi => ?_⟩
    rw [← h.parameterAddr_eq]
    exact hfinds.above i hi
  · rintro ⟨hrev, hround⟩
    refine ⟨?_, ?_, ?_, ?_, ?_, ?_⟩
    · rw [h.eip]
      exact hstack.words 12 entry rfl
    · rw [h.eflags, hstack.words 14 0x202 rfl]
      decide
    · intro i a ha
      rw [h.mem, h.parameterAddr_eq]
      exact hstack.parameter (by rw [hrev, ha])
    · rw [h.mem, h.esp]
      exact hstack.words 15 0 rfl
    · rw [h.mem]
      exact hstack.error hesp
    · intro i hi
      rw [h.parameterAddr_eq]
      exact habove.mpr hround i hi

end Found

/-! ## Start with any arguments -/

/-- What `thread_create` leaves is a thread that finds its arguments, whichever way it is started
and whatever the registers hold. -/
def StartsWithArguments (m : Mem) (raw : Tcb)
    (lastID parent entry stackTop stackSize priority : Nat) (args : List Nat) : Prop :=
  ∃ m' t, threadCreate m raw lastID parent entry stackTop stackSize priority args = .ret (m', t) ∧
    ∀ c, FindsArguments entry args t (threadExecute m' c t).1 (threadExecute m' c t).2 ∧
      FindsArguments entry args t (schedulerInterrupt m' c t).1 (schedulerInterrupt m' c t).2

/-- A new thread finds its arguments if and only if they read the same in both orders and do not
go round the address 0. -/
theorem startsWithArguments_iff {m : Mem} {raw : Tcb}
    {lastID parent entry stackTop stackSize priority : Nat} {args : List Nat}
    (htop : stackTop < 4294967296) (hpage : stackTop % 4096 = 0) (hentry : entry < 4294967296)
    (hargs : ∀ a ∈ args, a < 4294967296) (hroom : 4 * (args.length + 17) ≤ 4294967296) :
    StartsWithArguments m raw lastID parent entry stackTop stackSize priority args ↔
      args.reverse = args ∧ 4 * (args.length + 1) ≤ stackEnd stackTop := by
  obtain ⟨m', t, hcreate, hstack, hstackTop, hesp⟩ :=
    threadCreate_stack m raw lastID parent stackSize priority htop hpage hentry hargs hroom
  have hiff : ∀ {m'' : Mem} {c' : Cpu}, Restored m' t m'' c' →
      (FindsArguments entry args t m'' c' ↔
        args.reverse = args ∧ 4 * (args.length + 1) ≤ stackEnd stackTop) := by
    intro m'' c' h
    rw [← hstackTop]
    exact h.finds_iff hstack (by rwa [hstackTop]) (by rwa [hstackTop]) hroom
      (by rwa [hstackTop])
  constructor
  · rintro ⟨m₁, t₁, hcreate', hfinds⟩
    rw [hcreate] at hcreate'
    obtain ⟨rfl, rfl⟩ : m' = m₁ ∧ t = t₁ := by simpa using hcreate'
    exact (hiff (threadExecute_restored m' ⟨0, 0, 0, 0, 0, 0, 0, 0, 0, 0, 0, 0, 0, 0, 0⟩ t)).mp
      (hfinds _).1
  · intro h
    refine ⟨m', t, hcreate, fun c => ⟨?_, ?_⟩⟩
    · exact (hiff (threadExecute_restored m' c t)).mpr h
    · exact (hiff (schedulerInterrupt_restored m' c t)).mpr h

/-- A record as `queue_insert` copies it, with its fields at zero. -/
def emptyTcb : Tcb :=
  { id := 0, state := .ready, basePriority := 0, plusPriority := 0, sleepTime := 0, esp := 0,
    ss := 0, parent := 0, stackTop := 0, threadAttribute := 0, threadLock := 0,
    exceptionLock := 0 }

/-- `kernel_setup_process` is started with one argument. -/
theorem startsWithArguments_iff_one :
    StartsWithArguments (fun _ => 0) emptyTcb 0 0 0x100000 0x8000 4096 3 [42] ↔
      [42].reverse = [42] ∧ 4 * ([42].length + 1) ≤ stackEnd 0x8000 :=
  startsWithArguments_iff (by decide) (by decide) (by decide) (by decide) (by decide)

/-- With the arguments 1 and 2 the callee's first parameter is 2. -/
theorem threadCreate_swaps :
    ¬ ∀ args : List Nat,
      StartsWithArguments (fun _ => 0) emptyTcb 0 0 0x100000 0x8000 4096 3 args := by
  intro hall
  obtain ⟨m', t, hcreate, hfinds⟩ := hall [1, 2]
  obtain ⟨c, hc⟩ : ∃ c : Cpu, c = ⟨0, 0, 0, 0, 0, 0, 0, 0, 0, 0, 0, 0, 0, 0, 0⟩ := ⟨_, rfl⟩
  obtain ⟨⟨m₁, t₁⟩, hcreate', hfirst⟩ := Outcome.exists_of_test
    (x := threadCreate (fun _ => 0) emptyTcb 0 0 0x100000 0x8000 4096 3 [1, 2])
    (p := fun r => load32 (threadExecute r.1 c r.2).1
      (parameterAddr (threadExecute r.1 c r.2).2 0) == 2) (by rw [hc]; decide +kernel)
  rw [hcreate] at hcreate'
  obtain ⟨rfl, rfl⟩ : m' = m₁ ∧ t = t₁ := by simpa using hcreate'
  have hpassed := (hfinds c).1.parameters 0 1 rfl
  rw [eq_of_beq hfirst] at hpassed
  exact absurd hpassed (by decide)

end MeOS.ThreadStart
