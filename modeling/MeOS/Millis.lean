import MeOS.Types

/-! # `timer.cpp`: milliseconds and timers

`millis` multiplies the tick counter by 1000 before it divides by the frequency, so its value
falls back each time the product wraps. A `Timer` subtracts two such values: the 32-bit
difference makes up for the wrap of the counter itself, which is that of a frequency of 1.
-/

namespace MeOS.Millis

/-- `millis`, with `frequency` and the counter `ticks`. -/
def millis (frequency ticks : Nat) : Outcome Nat :=
  if frequency = 0 then .panic else .ret (mul32 1000 ticks / frequency)

/-- `Timer`. -/
structure Timer where
  start : Nat
deriving Repr, DecidableEq

/-- `Timer::Timer`, with the counter at the call of `millis`. -/
def timerInit (frequency ticks : Nat) : Outcome Timer := do
  let start ← millis frequency ticks
  .ret ⟨start⟩

/-- `Timer::GetElapsedMillis`. -/
def getElapsedMillis (frequency ticks : Nat) (timer : Timer) : Outcome Nat := do
  let now ← millis frequency ticks
  .ret (sub32 now timer.start)

/-- `Timer::Restart`, with the counter at its two calls of `millis`. -/
def restart (frequency ticksElapsed ticks : Nat) (timer : Timer) : Outcome (Nat × Timer) := do
  let temp ← getElapsedMillis frequency ticksElapsed timer
  let start ← millis frequency ticks
  .ret (temp, ⟨start⟩)

section

variable {f t t' t₀ t₁ a b e : Nat} {timer : Timer}

/-- The timer was started, or restarted, when the counter was `t₀`. -/
def StartedAt (f t₀ : Nat) (timer : Timer) : Prop :=
  timerInit f t₀ = .ret timer ∨ ∃ old t e, restart f t t₀ old = .ret (e, timer)

/-- `e` is within 1 of `1000 * (t - t₀) / f`. -/
def WithinOne (f t₀ t e : Nat) : Prop :=
  e * f ≤ 1000 * (t - t₀) + f ∧ 1000 * (t - t₀) ≤ e * f + f

/-- At every tick up to `t₁` the timer reports the time since `t₀` to within 1, and never less than
it has reported before. -/
def RightUpTo (f t₀ t₁ : Nat) : Prop :=
  ∀ timer, StartedAt f t₀ timer → ∀ t, t₀ ≤ t → t ≤ t₁ →
    ∃ e, getElapsedMillis f t timer = .ret e ∧ WithinOne f t₀ t e ∧
      ∀ t', t ≤ t' → t' ≤ t₁ → ∀ e', getElapsedMillis f t' timer = .ret e' → e ≤ e'

/-- The product of the counter has wrapped as often at `t₁` as at `t₀`. -/
def NoWrap (t₀ t₁ : Nat) : Prop := 1000 * t₀ / 4294967296 = 1000 * t₁ / 4294967296

instance (t₀ t₁ : Nat) : Decidable (NoWrap t₀ t₁) := inferInstanceAs (Decidable (_ = _))

theorem millis_eq (hf : 0 < f) : millis f t = .ret (1000 * t % 4294967296 / f) :=
  if_neg (Nat.ne_of_gt hf)

/-- A timer that is started or restarted holds the milliseconds of that moment. -/
theorem startedAt_iff (hf : 0 < f) :
    StartedAt f t₀ timer ↔ timer = ⟨1000 * t₀ % 4294967296 / f⟩ := by
  have hinit : timerInit f t₀ = .ret ⟨1000 * t₀ % 4294967296 / f⟩ := by
    rw [timerInit, millis_eq hf]
    rfl
  constructor
  · rintro (h | ⟨old, t, e, h⟩)
    · rw [hinit] at h
      injection h with h
      exact h.symm
    · rw [restart, getElapsedMillis, millis_eq hf, millis_eq hf] at h
      injection h with h
      exact (congrArg Prod.snd h).symm
  · rintro rfl
    exact .inl hinit

/-- What the timer reports. -/
def reading (f t₀ t : Nat) : Nat :=
  sub32 (1000 * t % 4294967296 / f) (1000 * t₀ % 4294967296 / f)

theorem getElapsedMillis_eq (hf : 0 < f) :
    getElapsedMillis f t ⟨1000 * t₀ % 4294967296 / f⟩ = .ret (reading f t₀ t) := by
  rw [getElapsedMillis, millis_eq hf]
  rfl

/-- The property in terms of what is reported. -/
theorem rightUpTo_iff (hf : 0 < f) :
    RightUpTo f t₀ t₁ ↔ ∀ t, t₀ ≤ t → t ≤ t₁ →
      WithinOne f t₀ t (reading f t₀ t) ∧
        ∀ t', t ≤ t' → t' ≤ t₁ → reading f t₀ t ≤ reading f t₀ t' := by
  unfold RightUpTo
  simp only [startedAt_iff hf, forall_eq, getElapsedMillis_eq hf, Outcome.ret.injEq,
    exists_eq_left', forall_eq']

/-- A difference of quotients is within 1 of the quotient of the difference. -/
theorem div_sub_div (hf : 0 < f) (hab : b ≤ a) :
    (a / f - b / f) * f ≤ a - b + f ∧ a - b ≤ (a / f - b / f) * f + f := by
  have ha := Nat.div_mul_le_self a f
  have ha' := Nat.lt_div_mul_add hf (a := a)
  have hb := Nat.div_mul_le_self b f
  have hb' := Nat.lt_div_mul_add hf (a := b)
  have hle : b / f * f ≤ a / f * f := Nat.mul_le_mul_right f (Nat.div_le_div_right hab)
  rw [Nat.sub_mul]
  omega

/-- The milliseconds of a 32-bit product are 32 bits. -/
theorem div_lt (a f : Nat) : a % 4294967296 / f < 4294967296 :=
  Nat.lt_of_le_of_lt (Nat.div_le_self _ _) (Nat.mod_lt _ (by decide))

/-- Between two products that have wrapped equally often the difference is kept. -/
theorem mod_sub_mod (h : 1000 * t / 4294967296 = 1000 * t' / 4294967296) (hle : t ≤ t') :
    1000 * t % 4294967296 ≤ 1000 * t' % 4294967296 ∧
      1000 * t' % 4294967296 - 1000 * t % 4294967296 = 1000 * (t' - t) := by
  omega

/-- Without a wrap a reading is a difference of quotients. -/
theorem reading_noWrap (h : NoWrap t₀ t) (hle : t₀ ≤ t) :
    reading f t₀ t = 1000 * t % 4294967296 / f - 1000 * t₀ % 4294967296 / f :=
  sub32_eq (div_lt _ f) (Nat.div_le_div_right (mod_sub_mod h hle).1)

/-- At a frequency of 1 a reading is exact. -/
theorem reading_one (hle : t₀ ≤ t) (hfits : 1000 * (t - t₀) < 4294967296) :
    reading 1 t₀ t = 1000 * (t - t₀) := by
  unfold reading sub32
  rw [Nat.div_one, Nat.div_one]
  omega

/-- The first multiple of 1000 from `m` on. -/
theorem exists_thousand (m : Nat) : ∃ t, m ≤ 1000 * t ∧ 1000 * t < m + 1000 :=
  ⟨(m + 999) / 1000, by omega, by omega⟩

/-- A wrap in between has a tick right behind it. -/
theorem exists_wrap_tick (hle : t₀ ≤ t₁) (h : ¬ NoWrap t₀ t₁) :
    ∃ t, t₀ ≤ t ∧ t ≤ t₁ ∧ 1000 * t / 4294967296 = 1000 * t₀ / 4294967296 + 1 ∧
      1000 * t % 4294967296 < 1000 := by
  unfold NoWrap at h
  obtain ⟨t, hlo, hhi⟩ := exists_thousand ((1000 * t₀ / 4294967296 + 1) * 4294967296)
  have hafter : 1000 * t₀ < 1000 * t := by
    omega
  have hbefore : (1000 * t₀ / 4294967296 + 1) * 4294967296 ≤ 1000 * t₁ := by
    omega
  have hnext : 1000 * t / 4294967296 = 1000 * t₀ / 4294967296 + 1 := by
    omega
  exact ⟨t, by omega, by omega, hnext, by omega⟩

/-- A 32-bit difference that goes back. -/
theorem sub32_back (hb : b < 4294967296) (hab : a < b) :
    sub32 a b = a + 4294967296 - b := by
  unfold sub32
  omega

/-- Right behind a wrap the reading of a timer started before it is wrong, at frequencies from 2
on. -/
theorem not_withinOne_wrap (hf : 2 ≤ f) (hf' : f ≤ 1000) (hle : t₀ ≤ t)
    (hwrap : 1000 * t / 4294967296 = 1000 * t₀ / 4294967296 + 1)
    (hsmall : 1000 * t % 4294967296 < 1000) : ¬ WithinOne f t₀ t (reading f t₀ t) := by
  rintro ⟨hupper, hlower⟩
  have htrue : 1000 * (t - t₀) = 1000 * t % 4294967296 + 4294967296 - 1000 * t₀ % 4294967296 := by
    omega
  have hmod : 1000 * t₀ % 4294967296 < 4294967296 := Nat.mod_lt _ (by decide)
  have hlt := div_lt (1000 * t) f
  have hlt₀ := div_lt (1000 * t₀) f
  unfold reading at hupper hlower
  rw [htrue] at hupper hlower
  clear htrue hwrap hle
  generalize 1000 * t % 4294967296 = a at *
  generalize 1000 * t₀ % 4294967296 = b at *
  have ha := Nat.div_mul_le_self a f
  have hb := Nat.div_mul_le_self b f
  have hb' := Nat.lt_div_mul_add (show 0 < f by omega) (a := b)
  by_cases hback : b / f ≤ a / f
  · -- the product falls from near zero to near zero: nothing seems to have elapsed
    have hmul : b / f * f ≤ a / f * f := Nat.mul_le_mul_right f hback
    rw [sub32_eq hlt hback, Nat.sub_mul] at hlower
    omega
  · -- the difference wraps at `2 ^ 32` and not at `2 ^ 32 / f`
    have hmul : 2 * 4294967296 ≤ 4294967296 * f := by
      omega
    have hroom : b / f * f ≤ 4294967296 * f := Nat.mul_le_mul_right f (Nat.le_of_lt hlt₀)
    rw [sub32_back hlt₀ (Nat.lt_of_not_le hback), Nat.sub_mul, Nat.add_mul] at hupper
    omega

/-- At a frequency of 1 a timer is right. -/
theorem rightUpTo_one (hfits : 1000 * (t₁ - t₀) < 4294967296) : RightUpTo 1 t₀ t₁ := by
  rw [rightUpTo_iff Nat.one_pos]
  intro t h₀ h₁
  have hreading : ∀ t, t₀ ≤ t → t ≤ t₁ → reading 1 t₀ t = 1000 * (t - t₀) :=
    fun t h₀ h₁ => reading_one h₀ (by omega)
  rw [hreading t h₀ h₁]
  refine ⟨⟨by omega, by omega⟩, fun t' h h' => ?_⟩
  rw [hreading t' (by omega) h']
  omega

/-- Without a wrap a timer is right. -/
theorem rightUpTo_noWrap (hf : 0 < f) (hwrap : NoWrap t₀ t₁) : RightUpTo f t₀ t₁ := by
  rw [rightUpTo_iff hf]
  intro t h₀ h₁
  have hbetween : ∀ t, t₀ ≤ t → t ≤ t₁ → NoWrap t₀ t := by
    intro t h₀ h₁
    unfold NoWrap at hwrap ⊢
    omega
  have hnow := hbetween t h₀ h₁
  obtain ⟨hmono, hdiff⟩ := mod_sub_mod hnow h₀
  rw [reading_noWrap hnow h₀]
  refine ⟨?_, fun t' h h' => ?_⟩
  · have hwithin := div_sub_div hf hmono
    rwa [hdiff] at hwithin
  · have hlater := hbetween t' (by omega) h'
    rw [reading_noWrap hlater (by omega)]
    exact Nat.sub_le_sub_right
      (Nat.div_le_div_right (mod_sub_mod (hnow.symm.trans hlater) h).1) _

/-- A timer is right up to `t₁` exactly when the frequency is 1 or the product of the counter does
not wrap between `t₀` and `t₁`. -/
theorem timer_right_iff (f t₀ t₁ : Nat) (hf : 1 ≤ f ∧ f ≤ 1000) (hle : t₀ ≤ t₁)
    (hfits : 1000 * (t₁ - t₀) < f * 4294967296) :
    RightUpTo f t₀ t₁ ↔ f = 1 ∨ NoWrap t₀ t₁ := by
  constructor
  · intro hright
    by_contra hnot
    rcases not_or.mp hnot with ⟨hone, hwrap⟩
    obtain ⟨t, h₀, h₁, hnext, hsmall⟩ := exists_wrap_tick hle hwrap
    have hwithin := ((rightUpTo_iff hf.1).mp hright t h₀ h₁).1
    exact not_withinOne_wrap (by omega) hf.2 h₀ hnext hsmall hwithin
  · rintro (rfl | hwrap)
    · exact rightUpTo_one (by omega)
    · exact rightUpTo_noWrap hf.1 hwrap

theorem timer_right_iff_early : RightUpTo 100 0 4000000 ↔ 100 = 1 ∨ NoWrap 0 4000000 :=
  timer_right_iff 100 0 4000000 (by decide) (by decide) (by decide)

/-- At 100 ticks a second, a timer that is started 12 hours after boot is wrong two ticks later. -/
theorem timer_wrong : ¬ RightUpTo 100 4294967 4294968 := by
  intro hright
  have hwithin := ((rightUpTo_iff (by decide)).mp hright 4294968 (by decide) (by decide)).1
  revert hwithin
  unfold WithinOne reading sub32
  decide

end

end MeOS.Millis
