import FileSignatures.Floating.Single
import FileSignatures.Proofs.Decimal.Shortest

/-!
# Reading numbers of single precision back

A decimal is read as the number of single precision that is nearest to it, and between two
that are as near as the one with an even mantissa. So what is read as a certain number is
an interval around it, which reaches halfway to its neighbours (`readsAs_iff`).

The neighbour above is one mantissa further. So is the neighbour below, except below a
power of two: there the numbers lie twice as close. All other numbers are further away,
because those with a greater exponent lie on a coarser grid, and those with a smaller one
end before (`ge_above`, `le_below`).

The greatest exponent plays no part in this. Numbers beyond the greatest one are read as
infinity, just as if there were one more number to be nearest to.

## Main definitions

* `IsSingle`: The numbers of single precision, however great.
* `ReadsAs`: What is read as a number.
* `IsHeld`: The mantissa and the exponent by which a positive number is held.
* `stepBelow`: The distance to the neighbour below.

## Theorems

* `nearer_above_iff`, `nearer_below_iff`: The middle decides between two numbers.
* `ge_above`, `le_below`: The neighbours of a number.
* `readsAs_iff`: What is read as a number is an interval.
* `inside_roundingInterval_iff`: It is the interval in which decimals are sought.
* `exists_isShortest_of_isHeld`: So the shortest of these decimals is found.
-/

namespace FileSignatures

/-- A number that has a mantissa of 24 bits, and no bit below the smallest one. -/
def IsSingle (q : ℚ) : Prop :=
  ∃ (mantissa : Nat) (exponent : Int), mantissa < 2 ^ 24 ∧ -149 ≤ exponent
    ∧ q = mantissa * 2 ^ exponent

/-- What is read as `mantissa * 2 ^ exponent`: no other number is nearer, and if another one
    is as near, this one has an even mantissa. -/
def ReadsAs (mantissa : Nat) (exponent : Int) (q : ℚ) : Prop :=
  ∀ other, IsSingle other → other ≠ mantissa * 2 ^ exponent →
    |q - mantissa * 2 ^ exponent| < |q - other|
      ∨ |q - mantissa * 2 ^ exponent| = |q - other| ∧ mantissa % 2 = 0

/-- The mantissa and the exponent by which a positive number is held: a full mantissa, but
    for the smallest exponent. -/
structure IsHeld (mantissa : Nat) (exponent : Int) : Prop where
  pos : 0 < mantissa
  lt : mantissa < 2 ^ 24
  least : -149 ≤ exponent
  greatest : exponent ≤ 104
  full : 2 ^ 23 ≤ mantissa ∨ exponent = -149

/-- The distance to the neighbour below. -/
def stepBelow (mantissa : Nat) (exponent : Int) : ℚ :=
  if mantissa = 2 ^ 23 ∧ -149 < exponent then 2 ^ (exponent - 1) else 2 ^ exponent

theorem two_zpow_pos (exponent : Int) : (0 : ℚ) < 2 ^ exponent :=
  zpow_pos (by norm_num) exponent

theorem two_zpow_pred (exponent : Int) : (2 : ℚ) ^ exponent = 2 * 2 ^ (exponent - 1) := by
  rw [← zpow_one_add₀ (by norm_num)]
  congr 1
  omega

/-- Squares show which of two distances is smaller. -/
theorem distances (q number other : ℚ) :
    (|q - number| < |q - other| ↔ 0 < (other - number) * (number + other - 2 * q))
      ∧ (|q - number| = |q - other| ↔ (other - number) * (number + other - 2 * q) = 0) := by
  have hsquares : (q - other) ^ 2 - (q - number) ^ 2
      = (other - number) * (number + other - 2 * q) := by ring
  rw [← hsquares, ← sq_lt_sq, ← sq_eq_sq_iff_abs_eq_abs, sub_pos, sub_eq_zero]
  exact ⟨Iff.rfl, eq_comm⟩

/-- What is nearer to the lower one of two numbers lies below their middle. -/
theorem nearer_above_iff (q number above : ℚ) (h : number < above) :
    (|q - number| < |q - above| ↔ 2 * q < number + above)
      ∧ (|q - number| = |q - above| ↔ 2 * q = number + above) := by
  rw [(distances q number above).1, (distances q number above).2,
    mul_pos_iff_of_pos_left (sub_pos.2 h), mul_eq_zero_iff_left (sub_pos.2 h).ne', sub_pos,
    sub_eq_zero]
  exact ⟨Iff.rfl, eq_comm⟩

/-- What is nearer to the upper one of two numbers lies above their middle. -/
theorem nearer_below_iff (q number below : ℚ) (h : below < number) :
    (|q - number| < |q - below| ↔ number + below < 2 * q)
      ∧ (|q - number| = |q - below| ↔ 2 * q = number + below) := by
  have hflip : (below - number) * (number + below - 2 * q)
      = (number - below) * (2 * q - (number + below)) := by ring
  rw [(distances q number below).1, (distances q number below).2, hflip,
    mul_pos_iff_of_pos_left (sub_pos.2 h), mul_eq_zero_iff_left (sub_pos.2 h).ne', sub_pos,
    sub_eq_zero]
  exact ⟨Iff.rfl, Iff.rfl⟩

theorem stepBelow_pos (mantissa : Nat) (exponent : Int) : 0 < stepBelow mantissa exponent := by
  unfold stepBelow
  split
  · exact two_zpow_pos _
  · exact two_zpow_pos _

/-- A number with an exponent that is not smaller lies on the same grid. -/
theorem exists_multiple (other : Nat) (exponent place : Int) (hle : exponent ≤ place) :
    ∃ multiple : Nat, (other : ℚ) * 2 ^ place = multiple * 2 ^ exponent := by
  obtain ⟨more, rfl⟩ := Int.le.dest hle
  refine ⟨other * 2 ^ more, ?_⟩
  rw [zpow_add₀ (by norm_num), zpow_natCast]
  push_cast
  ring

/-- A number with a smaller exponent ends before the next power of two. -/
theorem le_of_smaller (other : Nat) (exponent place : Int) (hother : other < 2 ^ 24)
    (hlt : place < exponent) : (other : ℚ) * 2 ^ place ≤ (2 ^ 24 - 1) * 2 ^ (exponent - 1) := by
  have hmantissa : (other : ℚ) ≤ 2 ^ 24 - 1 := by
    have hcast : ((other + 1 : Nat) : ℚ) ≤ (2 ^ 24 : Nat) := Nat.cast_le.2 hother
    push_cast at hcast
    linarith
  exact mul_le_mul hmantissa (zpow_le_zpow_right₀ (by norm_num) (by omega))
    (two_zpow_pos place).le (by norm_num)

/-- What the interval is scaled by, above and below its line. -/
theorem scale_div_unit (exponent : Int) :
    ((1 <<< (exponent - 2).toNat : Nat) : ℚ) / ((1 <<< (2 - exponent).toNat : Nat) : ℚ)
      = 2 ^ (exponent - 2) := by
  rw [Nat.one_shiftLeft, Nat.one_shiftLeft, Nat.cast_pow, Nat.cast_pow, Nat.cast_ofNat,
    ← zpow_natCast, ← zpow_natCast, ← zpow_sub₀ (by norm_num)]
  congr 1
  omega

/-- Below which numbers the neighbour is only half as far. -/
theorem nearBelow_iff (mantissa : Nat) (exponent : Int) :
    (decide (mantissa = 1 <<< FloatFormat.single.fractionBits)
        && decide (FloatFormat.single.leastExponent < exponent)) = true
      ↔ mantissa = 2 ^ 23 ∧ -149 < exponent := by
  rw [Bool.and_eq_true, decide_eq_true_eq, decide_eq_true_eq]
  exact Iff.rfl

section Neighbours

variable (mantissa : Nat) (exponent : Int) (h : IsHeld mantissa exponent)
include h

theorem isSingle_above : IsSingle (mantissa * 2 ^ exponent + 2 ^ exponent) := by
  have hmantissa := h.lt
  by_cases hlast : mantissa + 1 < 2 ^ 24
  · refine ⟨mantissa + 1, exponent, hlast, h.least, ?_⟩
    push_cast
    ring
  · -- The neighbour above the greatest mantissa is a power of two.
    have hmantissa : mantissa = 2 ^ 24 - 1 := by omega
    refine ⟨2 ^ 23, exponent + 1, by norm_num, h.least.trans (by omega), ?_⟩
    rw [hmantissa, zpow_add_one₀ (by norm_num)]
    norm_num
    ring

theorem isSingle_below : IsSingle (mantissa * 2 ^ exponent - stepBelow mantissa exponent) := by
  have hmantissa := h.pos
  have hlt := h.lt
  unfold stepBelow
  -- Below a power of two the unit is half as large.
  split
  · rename_i hpower
    refine ⟨2 ^ 24 - 1, exponent - 1, by norm_num, by omega, ?_⟩
    rw [hpower.1, two_zpow_pred exponent]
    norm_num
    ring
  · refine ⟨mantissa - 1, exponent, by omega, h.least, ?_⟩
    push_cast [hmantissa]
    ring

/-- All greater numbers are at least one mantissa away. -/
theorem ge_above (other : ℚ) (hother : IsSingle other) (hlt : mantissa * 2 ^ exponent < other) :
    mantissa * 2 ^ exponent + 2 ^ exponent ≤ other := by
  obtain ⟨number, place, hnumber, hleast, rfl⟩ := hother
  rcases lt_or_ge place exponent with hsmaller | hle
  · -- With a smaller exponent it would not be greater.
    have hmost := le_of_smaller number exponent place hnumber hsmaller
    have hfull : (2 ^ 23 : ℚ) ≤ mantissa := by
      rcases h.full with hfull | hleast'
      · exact_mod_cast hfull
      · omega
    have hpower := two_zpow_pred exponent
    have hpos := two_zpow_pos (exponent - 1)
    have hbound : (2 ^ 23 : ℚ) * 2 ^ exponent ≤ mantissa * 2 ^ exponent :=
      mul_le_mul_of_nonneg_right hfull (two_zpow_pos exponent).le
    rw [hpower] at hbound hlt
    exact absurd hlt (by linarith)
  · obtain ⟨multiple, hmultiple⟩ := exists_multiple number exponent place hle
    rw [hmultiple] at hlt ⊢
    have hmore : mantissa < multiple :=
      Nat.cast_lt.1 (lt_of_mul_lt_mul_right hlt (two_zpow_pos exponent).le)
    have hcast : ((mantissa + 1 : Nat) : ℚ) ≤ multiple := Nat.cast_le.2 hmore
    push_cast at hcast
    linarith [mul_le_mul_of_nonneg_right hcast (two_zpow_pos exponent).le]

/-- All smaller numbers are at least as far away as the neighbour below. -/
theorem le_below (other : ℚ) (hother : IsSingle other) (hlt : other < mantissa * 2 ^ exponent) :
    other ≤ mantissa * 2 ^ exponent - stepBelow mantissa exponent := by
  obtain ⟨number, place, hnumber, hleast, rfl⟩ := hother
  have hpower := two_zpow_pred exponent
  have hpos := two_zpow_pos (exponent - 1)
  -- A smaller unit means a number below all full mantissas of this one.
  rcases lt_or_ge place exponent with hsmaller | hle
  · have hmost := le_of_smaller number exponent place hnumber hsmaller
    have hfull : 2 ^ 23 ≤ mantissa := by
      rcases h.full with hfull | hleast'
      · exact hfull
      · omega
    unfold stepBelow
    split
    · rename_i hboundary
      rw [hboundary.1, hpower]
      push_cast
      linarith
    · rename_i hboundary
      have hmore : 2 ^ 23 + 1 ≤ mantissa := by
        rcases Nat.eq_or_lt_of_le hfull with heq | hlt'
        · exact absurd ⟨heq.symm, by omega⟩ hboundary
        · exact hlt'
      have hcast : ((2 ^ 23 + 1 : Nat) : ℚ) ≤ mantissa := Nat.cast_le.2 hmore
      push_cast at hcast
      have hbound := mul_le_mul_of_nonneg_right hcast (two_zpow_pos exponent).le
      rw [hpower] at hbound ⊢
      linarith
  · -- With the same or a larger unit it is a multiple of this one, so it is a whole unit away.
    obtain ⟨multiple, hmultiple⟩ := exists_multiple number exponent place hle
    rw [hmultiple] at hlt ⊢
    have hless : multiple < mantissa :=
      Nat.cast_lt.1 (lt_of_mul_lt_mul_right hlt (two_zpow_pos exponent).le)
    have hcast : ((multiple + 1 : Nat) : ℚ) ≤ mantissa := Nat.cast_le.2 hless
    push_cast at hcast
    have hbound := mul_le_mul_of_nonneg_right hcast (two_zpow_pos exponent).le
    have hstep : stepBelow mantissa exponent ≤ 2 ^ exponent := by
      unfold stepBelow
      split
      · linarith
      · exact le_rfl
    linarith

/-- What is read as a number reaches halfway to its neighbours. The middles belong to it if
    its mantissa is even. -/
theorem readsAs_iff (q : ℚ) :
    ReadsAs mantissa exponent q ↔
      if mantissa % 2 = 0 then
        mantissa * 2 ^ exponent - stepBelow mantissa exponent / 2 ≤ q
          ∧ q ≤ mantissa * 2 ^ exponent + 2 ^ exponent / 2
      else mantissa * 2 ^ exponent - stepBelow mantissa exponent / 2 < q
        ∧ q < mantissa * 2 ^ exponent + 2 ^ exponent / 2 := by
  have hstep := stepBelow_pos mantissa exponent
  have hpower := two_zpow_pos exponent
  constructor
  · -- The two neighbours are numbers themselves, so being nearer than they are gives the bounds.
    intro hreads
    have habove := hreads _ (isSingle_above mantissa exponent h) (by linarith)
    have hbelow := hreads _ (isSingle_below mantissa exponent h) (by linarith)
    rw [(nearer_above_iff q _ _ (by linarith)).1, (nearer_above_iff q _ _ (by linarith)).2]
      at habove
    rw [(nearer_below_iff q _ _ (by linarith)).1, (nearer_below_iff q _ _ (by linarith)).2]
      at hbelow
    split
    · constructor
      · rcases hbelow with hlt | ⟨heq, -⟩ <;> linarith
      · rcases habove with hlt | ⟨heq, -⟩ <;> linarith
    · rename_i hodd
      constructor
      · rcases hbelow with hlt | ⟨-, heven⟩
        · linarith
        · exact absurd heven hodd
      · rcases habove with hlt | ⟨-, heven⟩
        · linarith
        · exact absurd heven hodd
  · -- All others are at least as far away as the neighbour on their side.
    intro hbetween other hother hne
    rcases lt_or_gt_of_ne hne with hlt | hgt
    · have hfar := le_below mantissa exponent h other hother hlt
      rw [(nearer_below_iff q _ _ hlt).1, (nearer_below_iff q _ _ hlt).2]
      split at hbetween
      · rename_i heven
        rcases lt_or_eq_of_le (show mantissa * 2 ^ exponent + other ≤ 2 * q by linarith)
          with hlt' | heq
        · exact Or.inl hlt'
        · exact Or.inr ⟨heq.symm, heven⟩
      · exact Or.inl (by linarith)
    · have hfar := ge_above mantissa exponent h other hother hgt
      rw [(nearer_above_iff q _ _ hgt).1, (nearer_above_iff q _ _ hgt).2]
      split at hbetween
      · rename_i heven
        rcases lt_or_eq_of_le (show 2 * q ≤ mantissa * 2 ^ exponent + other by linarith)
          with hlt' | heq
        · exact Or.inl hlt'
        · exact Or.inr ⟨heq, heven⟩
      · exact Or.inl (by linarith)

/-- The bounds of the interval in which decimals are sought for a number. -/
theorem roundingInterval_bounds :
    (SingleLayout.roundingInterval mantissa exponent).number = mantissa * 2 ^ exponent
      ∧ ((SingleLayout.roundingInterval mantissa exponent).low : ℚ)
          / (SingleLayout.roundingInterval mantissa exponent).unit
        = mantissa * 2 ^ exponent - stepBelow mantissa exponent / 2
      ∧ ((SingleLayout.roundingInterval mantissa exponent).high : ℚ)
          / (SingleLayout.roundingInterval mantissa exponent).unit
        = mantissa * 2 ^ exponent + 2 ^ exponent / 2 := by
  have hpos := h.pos
  -- Everything is counted in quarters of the last place.
  have hscale := scale_div_unit exponent
  have hhalf := two_zpow_pred exponent
  have hquarter := two_zpow_pred (exponent - 1)
  have hpred : exponent - 1 - 1 = exponent - 2 := by omega
  rw [hpred] at hquarter
  unfold RealInterval.number SingleLayout.roundingInterval stepBelow
  simp only [nearBelow_iff mantissa exponent]
  refine ⟨?_, ?_, ?_⟩
  · push_cast
    rw [mul_div_assoc, hscale, hhalf, hquarter]
    ring
  · split
    · rw [Nat.cast_mul, Nat.cast_sub (by omega), mul_div_assoc, hscale, hhalf, hquarter]
      push_cast
      ring
    · rw [Nat.cast_mul, Nat.cast_sub (by omega), mul_div_assoc, hscale, hhalf, hquarter]
      push_cast
      ring
  · push_cast
    rw [mul_div_assoc, hscale, hhalf, hquarter]
    ring

theorem proper_roundingInterval : (SingleLayout.roundingInterval mantissa exponent).Proper := by
  have hpos := h.pos
  have hunit : 0 < 1 <<< (2 - exponent).toNat := by
    rw [Nat.one_shiftLeft]
    exact Nat.two_pow_pos _
  have hscale : 0 < 1 <<< (exponent - 2).toNat := by
    rw [Nat.one_shiftLeft]
    exact Nat.two_pow_pos _
  refine ⟨hunit, Nat.mul_pos ?_ hscale, Nat.mul_lt_mul_of_pos_right ?_ hscale,
    Nat.mul_lt_mul_of_pos_right (by omega) hscale⟩
  · split <;> omega
  · split <;> omega

/-- What lies in the interval of a number is what is read as that number. -/
theorem inside_roundingInterval_iff (q : ℚ) :
    (SingleLayout.roundingInterval mantissa exponent).Inside q ↔ ReadsAs mantissa exponent q := by
  obtain ⟨-, hlow, hhigh⟩ := roundingInterval_bounds mantissa exponent h
  rw [readsAs_iff mantissa exponent h, RealInterval.Inside, hlow, hhigh]
  simp only [SingleLayout.roundingInterval, decide_eq_true_eq]

/-- The shortest decimal that is read as a number is found. Ten digits are more than enough,
    and the powers of ten that are tried for the first digit reach far enough. -/
theorem exists_isShortest_of_isHeld :
    ∃ (n : Nat) (scale : Int),
      IsShortest (ReadsAs mantissa exponent) (mantissa * 2 ^ exponent) n scale
        ∧ (SingleLayout.roundingInterval mantissa exponent).shortest 46 10
          = ⟨Nat.toDigits 10 n, scale + (digitCount n - 1 : Nat)⟩ := by
  obtain ⟨hnumber, -, hhigh⟩ := roundingInterval_bounds mantissa exponent h
  have hpower := two_zpow_pos exponent
  have hleast : (1 : ℚ) ≤ mantissa := Nat.one_le_cast.2 h.pos
  have hgreatest : (mantissa : ℚ) < 2 ^ 24 := by
    have hcast : (mantissa : ℚ) < (2 ^ 24 : Nat) := Nat.cast_lt.2 h.lt
    push_cast at hcast
    exact hcast
  have haccepts : (SingleLayout.roundingInterval mantissa exponent).Inside
      = ReadsAs mantissa exponent :=
    funext fun q => propext (inside_roundingInterval_iff mantissa exponent h q)
  -- A held number lies between the least one of single precision and 2^128.
  have hbottom : (10 : ℚ) ^ (-(46 : Nat) : Int) ≤ mantissa * 2 ^ exponent :=
    calc (10 : ℚ) ^ (-(46 : Nat) : Int) ≤ 2 ^ (-149 : Int) := by norm_num
      _ ≤ 2 ^ exponent := zpow_le_zpow_right₀ (by norm_num) h.least
      _ ≤ mantissa * 2 ^ exponent := le_mul_of_one_le_left hpower.le hleast
  have htop : mantissa * (2 : ℚ) ^ exponent < 10 ^ ((46 : Nat) + 1 : Int) :=
    calc mantissa * (2 : ℚ) ^ exponent < 2 ^ 24 * 2 ^ exponent :=
          mul_lt_mul_of_pos_right hgreatest hpower
      _ ≤ 2 ^ 24 * 2 ^ (104 : Int) := mul_le_mul_of_nonneg_left
          (zpow_le_zpow_right₀ (by norm_num) h.greatest) (by norm_num)
      _ < 10 ^ ((46 : Nat) + 1 : Int) := by norm_num
  -- A mantissa has eight digits at most, so ten digits are finer than half a unit.
  have hfine : mantissa * (2 : ℚ) ^ exponent * 10 ^ (1 - (10 : Nat) : Int)
      < mantissa * 2 ^ exponent + 2 ^ exponent / 2 - mantissa * 2 ^ exponent :=
    calc mantissa * (2 : ℚ) ^ exponent * 10 ^ (1 - (10 : Nat) : Int)
        < 2 ^ 24 * 2 ^ exponent * 10 ^ (1 - (10 : Nat) : Int) :=
          mul_lt_mul_of_pos_right (mul_lt_mul_of_pos_right hgreatest hpower) (ten_zpow_pos _)
      _ ≤ 2 ^ exponent / 2 := by
          norm_num
          linarith
      _ = mantissa * 2 ^ exponent + 2 ^ exponent / 2 - mantissa * 2 ^ exponent := by ring
  have hfound := RealInterval.exists_isShortest _ (proper_roundingInterval mantissa exponent h)
    46 10 (by omega)
  rw [haccepts, hnumber, hhigh] at hfound
  exact hfound hbottom htop hfine

end Neighbours

end FileSignatures
