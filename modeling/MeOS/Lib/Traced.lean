import MeOS.Lib.Bytes

/-! # Programs on byte memory and what they access

A traced program runs on a memory and lists its accesses, reads and writes alike,
in order. It is held to a range when every access lies inside.
-/

namespace Traced

open Bytes

/-- The bytes that one read or write touches. -/
structure Access where
  address : Nat
  size : Nat
deriving Repr, DecidableEq

/-- The access lies in `[lo, hi)`. -/
def Access.Within (a : Access) (lo hi : Nat) : Prop := lo ≤ a.address ∧ a.address + a.size ≤ hi

instance (a : Access) (lo hi : Nat) : Decidable (a.Within lo hi) :=
  inferInstanceAs (Decidable (_ ∧ _))

/-- What a program leaves: its value, the memory and its accesses. -/
structure Result (α : Type) where
  value : α
  mem : Mem
  trace : List Access

/-- A program. -/
def Prog (α : Type) : Type := Mem → Result α

namespace Prog

variable {α β : Type}

/-- Run `x` on a memory. -/
def run (x : Prog α) (m : Mem) : Result α := x m

instance : Monad Prog where
  pure a := fun m => ⟨a, m, []⟩
  bind x f := fun m =>
    let r := x m
    let r' := f r.value r.mem
    ⟨r'.value, r'.mem, r.trace ++ r'.trace⟩

/-- The same program, with what `f` takes of its value. -/
def map (f : α → β) (x : Prog α) : Prog β := fun m => ⟨f (x m).value, (x m).mem, (x m).trace⟩

end Prog

/-! ## Reads and writes -/

/-- Read one byte. -/
def read8 (a : Nat) : Prog UInt8 := fun m => ⟨m a, m, [⟨a, 1⟩]⟩

/-- Read two bytes. -/
def read16 (a : Nat) : Prog Nat := fun m => ⟨load16 m a, m, [⟨a, 2⟩]⟩

/-- Read four bytes. -/
def read32 (a : Nat) : Prog Nat := fun m => ⟨load32 m a, m, [⟨a, 4⟩]⟩

/-- Read `n` bytes. -/
def readBytes (a n : Nat) : Prog (List UInt8) := fun m =>
  ⟨(List.range n).map fun i => m (a + i), m, [⟨a, n⟩]⟩

/-- Write one byte. -/
def write8 (a : Nat) (v : UInt8) : Prog Unit := fun m => ⟨(), store8 m a v, [⟨a, 1⟩]⟩

/-- Write two bytes. -/
def write16 (a v : Nat) : Prog Unit := fun m => ⟨(), store16 m a v, [⟨a, 2⟩]⟩

/-- Write `n` bytes. -/
def writeBytes (a n : Nat) (src : Mem) : Prog Unit := fun m => ⟨(), blit m a src 0 n, [⟨a, n⟩]⟩

/-- Copy `n` bytes: they are read, then written. -/
def copyBytes (dst src n : Nat) : Prog Unit := fun m =>
  ⟨(), blit m dst m src n, [⟨src, n⟩, ⟨dst, n⟩]⟩

/-- Every access lies in `[lo, hi)`. -/
def StaysIn {α : Type} (lo hi : Nat) (x : Prog α) (m : Mem) : Prop :=
  ∀ a ∈ (x.run m).trace, a.Within lo hi

/-! ## Rules -/

section Rules

variable {α β : Type} {lo hi : Nat} {m : Mem}

@[simp] theorem run_pure (a : α) : (pure a : Prog α).run m = ⟨a, m, []⟩ := rfl

@[simp] theorem value_bind (x : Prog α) (f : α → Prog β) :
    ((x >>= f).run m).value = ((f (x.run m).value).run (x.run m).mem).value := rfl

@[simp] theorem mem_bind (x : Prog α) (f : α → Prog β) :
    ((x >>= f).run m).mem = ((f (x.run m).value).run (x.run m).mem).mem := rfl

theorem trace_bind (x : Prog α) (f : α → Prog β) :
    ((x >>= f).run m).trace =
      (x.run m).trace ++ ((f (x.run m).value).run (x.run m).mem).trace := rfl

@[simp] theorem staysIn_pure (a : α) : StaysIn lo hi (pure a : Prog α) m :=
  fun _ h => absurd h List.not_mem_nil

/-- A sequence stays inside exactly when both parts do. -/
@[simp] theorem staysIn_bind (x : Prog α) (f : α → Prog β) :
    StaysIn lo hi (x >>= f) m ↔
      StaysIn lo hi x m ∧ StaysIn lo hi (f (x.run m).value) (x.run m).mem := by
  unfold StaysIn
  rw [trace_bind]
  constructor
  · intro h
    exact ⟨fun a ha => h a (List.mem_append_left _ ha),
      fun a ha => h a (List.mem_append_right _ ha)⟩
  · intro h a ha
    rcases List.mem_append.mp ha with ha | ha
    · exact h.1 a ha
    · exact h.2 a ha

/-- The branch that is taken counts. -/
theorem staysIn_ite {c : Prop} {_ : Decidable c} {x y : Prog α} :
    StaysIn lo hi (if c then x else y) m ↔
      (c → StaysIn lo hi x m) ∧ (¬ c → StaysIn lo hi y m) := by
  by_cases hc : c
  · simp [hc]
  · simp [hc]

/-- A program with one access. -/
theorem staysIn_single {x : Prog α} {a : Access} (h : (x.run m).trace = [a]) :
    StaysIn lo hi x m ↔ a.Within lo hi := by
  unfold StaysIn
  rw [h]
  exact List.forall_mem_singleton

@[simp] theorem run_read8 (a : Nat) : (read8 a).run m = ⟨m a, m, [⟨a, 1⟩]⟩ := rfl

@[simp] theorem run_read16 (a : Nat) : (read16 a).run m = ⟨load16 m a, m, [⟨a, 2⟩]⟩ := rfl

@[simp] theorem run_read32 (a : Nat) : (read32 a).run m = ⟨load32 m a, m, [⟨a, 4⟩]⟩ := rfl

@[simp] theorem run_write8 (a : Nat) (v : UInt8) :
    (write8 a v).run m = ⟨(), store8 m a v, [⟨a, 1⟩]⟩ := rfl

@[simp] theorem run_write16 (a v : Nat) : (write16 a v).run m = ⟨(), store16 m a v, [⟨a, 2⟩]⟩ := rfl

@[simp] theorem run_writeBytes (a n : Nat) (src : Mem) :
    (writeBytes a n src).run m = ⟨(), blit m a src 0 n, [⟨a, n⟩]⟩ := rfl

@[simp] theorem run_readBytes (a n : Nat) :
    (readBytes a n).run m = ⟨(List.range n).map fun i => m (a + i), m, [⟨a, n⟩]⟩ := rfl

@[simp] theorem run_copyBytes (dst src n : Nat) :
    (copyBytes dst src n).run m = ⟨(), blit m dst m src n, [⟨src, n⟩, ⟨dst, n⟩]⟩ := rfl

@[simp] theorem staysIn_read8 (a : Nat) :
    StaysIn lo hi (read8 a) m ↔ (⟨a, 1⟩ : Access).Within lo hi := staysIn_single rfl

@[simp] theorem staysIn_read16 (a : Nat) :
    StaysIn lo hi (read16 a) m ↔ (⟨a, 2⟩ : Access).Within lo hi := staysIn_single rfl

@[simp] theorem staysIn_read32 (a : Nat) :
    StaysIn lo hi (read32 a) m ↔ (⟨a, 4⟩ : Access).Within lo hi := staysIn_single rfl

@[simp] theorem staysIn_readBytes (a n : Nat) :
    StaysIn lo hi (readBytes a n) m ↔ (⟨a, n⟩ : Access).Within lo hi := staysIn_single rfl

@[simp] theorem staysIn_write8 (a : Nat) (v : UInt8) :
    StaysIn lo hi (write8 a v) m ↔ (⟨a, 1⟩ : Access).Within lo hi := staysIn_single rfl

@[simp] theorem staysIn_write16 (a v : Nat) :
    StaysIn lo hi (write16 a v) m ↔ (⟨a, 2⟩ : Access).Within lo hi := staysIn_single rfl

@[simp] theorem staysIn_writeBytes (a n : Nat) (src : Mem) :
    StaysIn lo hi (writeBytes a n src) m ↔ (⟨a, n⟩ : Access).Within lo hi := staysIn_single rfl

@[simp] theorem staysIn_copyBytes (dst src n : Nat) :
    StaysIn lo hi (copyBytes dst src n) m ↔
      (⟨src, n⟩ : Access).Within lo hi ∧ (⟨dst, n⟩ : Access).Within lo hi := by
  unfold StaysIn
  rw [run_copyBytes]
  constructor
  · intro h
    exact ⟨h _ List.mem_cons_self, h _ (List.mem_cons_of_mem _ List.mem_cons_self)⟩
  · intro h a ha
    rcases List.mem_cons.mp ha with rfl | ha
    · exact h.1
    · rw [List.mem_singleton.mp ha]
      exact h.2

end Rules

/-! ## Programs that differ in their value -/

section Map

variable {α β γ : Type}

@[simp] theorem map_pure (f : α → β) (a : α) : Prog.map f (pure a) = pure (f a) := rfl

/-- The value of a sequence is that of its second part. -/
theorem map_bind (f : β → γ) (x : Prog α) (g : α → Prog β) :
    Prog.map f (x >>= g) = x >>= fun a => Prog.map f (g a) := rfl

/-- A sequence whose second part only looks at what `f` takes. -/
theorem bind_map (f : α → β) (x : Prog α) (g : β → Prog γ) :
    Prog.map f x >>= g = x >>= fun a => g (f a) := rfl

theorem map_ite (f : α → β) {c : Prop} {_ : Decidable c} {x y : Prog α} :
    Prog.map f (if c then x else y) = if c then Prog.map f x else Prog.map f y :=
  apply_ite (Prog.map f) c x y

end Map

/-! ## Programs that write nothing -/

/-- The memory is the same after every run. -/
def ReadOnly {α : Type} (x : Prog α) : Prop := ∀ m, (x.run m).mem = m

namespace ReadOnly

variable {α β : Type}

theorem pure (a : α) : ReadOnly (Pure.pure a : Prog α) := fun _ => rfl

theorem read8 (a : Nat) : ReadOnly (Traced.read8 a) := fun _ => rfl

theorem read16 (a : Nat) : ReadOnly (Traced.read16 a) := fun _ => rfl

theorem read32 (a : Nat) : ReadOnly (Traced.read32 a) := fun _ => rfl

theorem bind {x : Prog α} {f : α → Prog β} (hx : ReadOnly x) (hf : ∀ a, ReadOnly (f a)) :
    ReadOnly (x >>= f) := by
  intro m
  rw [mem_bind, hf, hx]

theorem ite {c : Prop} {_ : Decidable c} {x y : Prog α} (hx : ReadOnly x) (hy : ReadOnly y) :
    ReadOnly (if c then x else y) := by
  by_cases hc : c
  · rwa [if_pos hc]
  · rwa [if_neg hc]

end ReadOnly

/-! ## Programs that write in a range -/

/-- No run changes a byte outside of `[lo, hi)`. -/
def Keeps {α : Type} (lo hi : Nat) (x : Prog α) : Prop :=
  ∀ m a, a < lo ∨ hi ≤ a → (x.run m).mem a = m a

namespace Keeps

variable {α β : Type} {lo hi : Nat}

theorem pure (a : α) : Keeps lo hi (Pure.pure a : Prog α) := fun _ _ _ => rfl

theorem bind {x : Prog α} {f : α → Prog β} (hx : Keeps lo hi x) (hf : ∀ a, Keeps lo hi (f a)) :
    Keeps lo hi (x >>= f) := by
  intro m a ha
  rw [mem_bind, hf _ _ a ha, hx m a ha]

theorem write16 {a : Nat} (v : Nat) (h : lo ≤ a ∧ a + 2 ≤ hi) :
    Keeps lo hi (Traced.write16 a v) := by
  intro m b hb
  rw [run_write16]
  exact store16_frame _ _ (by omega)

theorem writeBytes {a n : Nat} (src : Mem) (h : lo ≤ a ∧ a + n ≤ hi) :
    Keeps lo hi (Traced.writeBytes a n src) := by
  intro m b hb
  rw [run_writeBytes]
  exact blit_frame _ _ _ (by omega)

end Keeps

end Traced
