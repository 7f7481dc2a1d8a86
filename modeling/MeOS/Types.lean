import MeOS.Lib.Bytes

/-! # Basic types

Machine words of the 32-bit kernel are natural numbers below `2 ^ 32`; the
arithmetic of the source wraps, so sums, differences and products that may
leave the range go through `add32`, `sub32` and `mul32`.
-/

namespace MeOS

/-! ## Words -/

/-- `uint32` addition. -/
def add32 (a b : Nat) : Nat := (a + b) % 4294967296

/-- `uint32` subtraction. -/
def sub32 (a b : Nat) : Nat := (a + (4294967296 - b % 4294967296)) % 4294967296

/-- `uint32` multiplication. -/
def mul32 (a b : Nat) : Nat := a * b % 4294967296

theorem add32_lt (a b : Nat) : add32 a b < 4294967296 := Nat.mod_lt _ (by decide)

theorem mul32_lt (a b : Nat) : mul32 a b < 4294967296 := Nat.mod_lt _ (by decide)

/-- No wrap: the sum is the sum. -/
theorem add32_eq {a b : Nat} (h : a + b < 4294967296) : add32 a b = a + b :=
  Nat.mod_eq_of_lt h

/-- No borrow: the difference is the difference. -/
theorem sub32_eq {a b : Nat} (ha : a < 4294967296) (h : b ≤ a) : sub32 a b = a - b := by
  simp only [sub32]
  omega

theorem mul32_eq {a b : Nat} (h : a * b < 4294967296) : mul32 a b = a * b :=
  Nat.mod_eq_of_lt h

/-! ## Results -/

/-- `(uint32)-1`: `INVALID_FD`, and the answer of a search that found nothing. -/
abbrev invalidFd : Nat := 4294967295

/-- `CHK_BIT`. -/
def chkBit (x bit : Nat) : Bool := x &&& bit == bit

/-- `error_t`, as far as callers look at it. -/
inductive ErrorT where
  | ok
  | occur
deriving Repr, DecidableEq

/-- How a kernel function ends: it returns, it calls `PANIC` (which stops the
machine), or it steps outside what the source defines (an access outside the
object a pointer points to). `running` is a loop that has not ended within its
fuel. -/
inductive Outcome (α : Type) where
  | ret (a : α)
  | panic
  | undefined
  | running
deriving Repr, DecidableEq

namespace Outcome

variable {α β : Type}

/-- Run `f` on the value of a returning computation. -/
def bind (x : Outcome α) (f : α → Outcome β) : Outcome β :=
  match x with
  | ret a => f a
  | panic => panic
  | undefined => undefined
  | running => running

instance : Monad Outcome where
  pure := ret
  bind := bind

@[simp] theorem pure_eq (a : α) : (pure a : Outcome α) = ret a := rfl

@[simp] theorem ret_bind (a : α) (f : α → Outcome β) : (ret a >>= f) = f a := rfl

@[simp] theorem panic_bind (f : α → Outcome β) : ((panic : Outcome α) >>= f) = panic := rfl

@[simp] theorem undefined_bind (f : α → Outcome β) :
    ((undefined : Outcome α) >>= f) = undefined := rfl

@[simp] theorem running_bind (f : α → Outcome β) : ((running : Outcome α) >>= f) = running := rfl

/-- A sequence returns exactly when both parts do. -/
theorem bind_eq_ret {x : Outcome α} {f : α → Outcome β} {b : β} :
    (x >>= f) = ret b ↔ ∃ a, x = ret a ∧ f a = ret b := by
  cases x with
  | ret a => simp
  | panic => simp
  | undefined => simp
  | running => simp

/-- It returns a value that passes the test. -/
def test (x : Outcome α) (p : α → Bool) : Bool :=
  match x with
  | ret a => p a
  | _ => false

theorem exists_of_test {x : Outcome α} {p : α → Bool} (h : x.test p = true) :
    ∃ a, x = ret a ∧ p a = true := by
  cases x with
  | ret a => exact ⟨a, rfl, h⟩
  | panic => cases h
  | undefined => cases h
  | running => cases h

end Outcome

/-! ## Loops with a bound -/

/-- With enough fuel the loop returns, and always the same. -/
def Settles {α : Type} (f : Nat → Outcome α) (a : α) : Prop :=
  ∃ bound, ∀ fuel, bound ≤ fuel → f fuel = .ret a

section Settles

variable {α β : Type} {f : Nat → Outcome α} {a : α} {b : β}

theorem Settles.ret : Settles (fun _ => .ret a) a := ⟨0, fun _ _ => rfl⟩

/-- One turn of a loop. -/
theorem Settles.succ (h : Settles (fun fuel => f (fuel + 1)) a) : Settles f a := by
  rcases h with ⟨bound, hbound⟩
  refine ⟨bound + 1, fun fuel hfuel => ?_⟩
  obtain ⟨n, rfl⟩ : ∃ n, fuel = n + 1 := ⟨fuel - 1, by omega⟩
  exact hbound n (by omega)

/-- What a loop settles at is not changed by a turn more. -/
theorem Settles.shift (h : Settles f a) : Settles (fun fuel => f (fuel + 1)) a := by
  rcases h with ⟨bound, hbound⟩
  exact ⟨bound, fun fuel hfuel => hbound (fuel + 1) (by omega)⟩

/-- A sequence. -/
theorem Settles.bind {g : α → Nat → Outcome β} (hf : Settles f a) (hg : Settles (g a) b) :
    Settles (fun fuel => f fuel >>= fun x => g x fuel) b := by
  rcases hf with ⟨n, hn⟩
  rcases hg with ⟨k, hk⟩
  refine ⟨max n k, fun fuel hfuel => ?_⟩
  show (f fuel >>= fun x => g x fuel) = .ret b
  rw [hn fuel (by omega), Outcome.ret_bind]
  exact hk fuel (by omega)

/-- The branch that is taken. -/
theorem Settles.pos {g : Nat → Outcome α} {c : Prop} {_ : Decidable c} (hc : c)
    (h : Settles f a) : Settles (fun fuel => if c then f fuel else g fuel) a := by
  simp only [if_pos hc]
  exact h

/-- The branch that is taken. -/
theorem Settles.neg {g : Nat → Outcome α} {c : Prop} {_ : Decidable c} (hc : ¬ c)
    (h : Settles f a) : Settles (fun fuel => if c then g fuel else f fuel) a := by
  simp only [if_neg hc]
  exact h

/-- What a loop settles at is unique. -/
theorem Settles.unique {a' : α} (h : Settles f a) (h' : Settles f a') : a = a' := by
  rcases h with ⟨n, hn⟩
  rcases h' with ⟨k, hk⟩
  have heq := (hn (max n k) (by omega)).symm.trans (hk (max n k) (by omega))
  injection heq

end Settles

/-! ## Arithmetic -/

/-- `ceil_division`: the quotient rounded up. -/
def ceilDivision (value divisor : Nat) : Nat :=
  if value % divisor ≠ 0 then add32 (value / divisor) 1 else value / divisor

/-- The `min` macro of the source. -/
def minimum (a b : Nat) : Nat := if a < b then a else b

theorem minimum_eq (a b : Nat) : minimum a b = min a b := by
  unfold minimum
  split <;> omega

end MeOS
