import Mathlib.Algebra.Group.Nat.Even
import Mathlib.Data.Nat.Log

/-!
# Rounding to a unit that grows with the number

`nearestEven unit n` is the multiple of `unit` nearest to `n`, and of two that are equally near the
even one.  A number with so many digits in a base keeps its first ones by being rounded to a unit that
depends on its size; `floating_mono` says that this respects the order.
-/

namespace AgentHub.Rounding

/-- The multiple of the unit nearest to a number, ties to even. -/
def nearestEven (unit n : Nat) : Nat :=
  let q := n / unit
  let r := n % unit
  (if unit < 2 * r ∨ (unit = 2 * r ∧ q % 2 = 1) then q + 1 else q) * unit

/-- The unit of a number that keeps `digits + 1` digits of the base. -/
def unitOf (base digits n : Nat) : Nat := base ^ (Nat.log base n - digits)

/-- A number with its first `digits + 1` digits. -/
def floating (base digits n : Nat) : Nat := nearestEven (unitOf base digits n) n

variable {unit base digits m n : Nat}

theorem nearestEven_cases (unit n : Nat) :
    nearestEven unit n = n / unit * unit ∨ nearestEven unit n = (n / unit + 1) * unit := by
  unfold nearestEven
  dsimp only
  split
  · exact .inr rfl
  · exact .inl rfl

/-- A multiple of the unit that is below the number is below what it is rounded to. -/
theorem le_nearestEven (hdvd : unit ∣ m) (h : m ≤ n) : m ≤ nearestEven unit n := by
  have hquot : m ≤ n / unit * unit := by
    obtain ⟨k, rfl⟩ := hdvd
    rcases Nat.eq_zero_or_pos unit with rfl | hpos
    · simp
    · rw [Nat.mul_comm]
      exact Nat.mul_le_mul_right _ ((Nat.le_div_iff_mul_le hpos).2 (by rwa [Nat.mul_comm]))
  rcases nearestEven_cases unit n with heq | heq
  · rwa [heq]
  · rw [heq]
    exact hquot.trans (Nat.mul_le_mul_right _ (Nat.le_succ _))

/-- A multiple of the unit that is not below the number is not below what it is rounded to. -/
theorem nearestEven_le (hdvd : unit ∣ m) (h : n ≤ m) : nearestEven unit n ≤ m := by
  obtain ⟨k, rfl⟩ := hdvd
  rcases Nat.eq_zero_or_pos unit with rfl | hpos
  · simp [nearestEven]
  have hsplit := Nat.div_add_mod n unit
  have hquot : n / unit ≤ k := by
    have hle : n / unit ≤ unit * k / unit := Nat.div_le_div_right h
    rwa [Nat.mul_div_cancel_left _ hpos] at hle
  unfold nearestEven
  dsimp only
  rw [Nat.mul_comm unit k]
  split
  · -- it is rounded up, so something is left over the quotient and this is below `k`
    rename_i hup
    refine Nat.mul_le_mul_right _ (Nat.lt_of_le_of_ne hquot ?_)
    rintro rfl
    have hrest : n % unit = 0 := by omega
    omega
  · exact Nat.mul_le_mul_right _ hquot

theorem nearestEven_mono (unit : Nat) (h : m ≤ n) : nearestEven unit m ≤ nearestEven unit n := by
  rcases Nat.eq_zero_or_pos unit with rfl | hpos
  · simp [nearestEven]
  have hquot : m / unit ≤ n / unit := Nat.div_le_div_right h
  -- the quotients agree, and the remainders decide
  rcases Nat.eq_or_lt_of_le hquot with heq | hlt
  · have hm := Nat.div_add_mod m unit
    have hn := Nat.div_add_mod n unit
    rw [heq] at hm
    have hrest : m % unit ≤ n % unit := by omega
    unfold nearestEven
    dsimp only
    rw [heq]
    refine Nat.mul_le_mul_right _ ?_
    split
    · rw [if_pos (by omega)]
    · split
      · exact Nat.le_succ _
      · exact le_rfl
  · -- a multiple of the unit lies between the two
    have hmultiple : unit ∣ n / unit * unit := Nat.dvd_mul_left _ _
    have hbelow : m ≤ n / unit * unit := by
      have hm := Nat.lt_div_mul_add hpos (a := m)
      have hstep : (m / unit + 1) * unit ≤ n / unit * unit := Nat.mul_le_mul_right _ hlt
      rw [Nat.succ_mul] at hstep
      omega
    exact (nearestEven_le hmultiple hbelow).trans (le_nearestEven hmultiple (Nat.div_mul_le_self _ _))

theorem nearestEven_one (n : Nat) : nearestEven 1 n = n := by
  simp [nearestEven, Nat.mod_one]

/-- **The order of numbers that are rounded.**  Two numbers of one size have the same unit, and two of
different sizes have a power of the base between them, which is a multiple of both units. -/
theorem floating_mono (base digits : Nat) (h : m ≤ n) :
    floating base digits m ≤ floating base digits n := by
  rcases Nat.eq_or_lt_of_le (Nat.log_mono_right (b := base) h) with heq | hlt
  · unfold floating unitOf
    rw [heq]
    exact nearestEven_mono _ h
  · have hn : n ≠ 0 := by
      rintro rfl
      simp at hlt
    have hbase : 1 < base := by
      have hpos : 0 < Nat.log base n := Nat.zero_lt_of_lt hlt
      exact (Nat.log_pos_iff.1 hpos).2
    have hdvd : ∀ k, k ≤ n → unitOf base digits k ∣ base ^ Nat.log base n := by
      intro k hk
      refine Nat.pow_dvd_pow base ((Nat.sub_le _ _).trans ?_)
      exact Nat.log_mono_right hk
    have hbelow : m ≤ base ^ Nat.log base n := (Nat.lt_pow_of_log_lt hbase hlt).le
    have habove : base ^ Nat.log base n ≤ n := Nat.pow_log_le_self base hn
    exact (nearestEven_le (hdvd m h) hbelow).trans (le_nearestEven (hdvd n le_rfl) habove)

/-- A number with no more digits than are kept stays as it is. -/
theorem floating_of_lt (h : n < base ^ (digits + 1)) : floating base digits n = n := by
  have hunit : unitOf base digits n = 1 := by
    have hlog : Nat.log base n - digits = 0 := by
      have hlt : Nat.log base n < digits + 1 := Nat.log_lt_of_lt_pow' (Nat.succ_ne_zero _) h
      omega
    rw [unitOf, hlog, Nat.pow_zero]
  rw [floating, hunit, nearestEven_one]

end AgentHub.Rounding
