import FileSignatures.Proofs.Decimal.Intervals

/-!
# The shortest decimal

Of the decimals in an interval one is to be found that has the fewest digits, and of those
the one to be preferred. There are many scales it could have, but only one has to be tried
for each count of digits: the one at which the first digit stands where that of the number
does. A decimal with its first digit further up is behind a power of ten above the number,
one with its first digit further down is behind a power of ten below it, and both powers
are points of the grid (`exists_on_grid`).

So the first grid on which a point is found decides (`isShortest_of_first`). Zeros at its
end do not count as digits, and are moved into the scale (`exists_ofScaled`).

## Main definitions

* `digitCount`: How many digits a number has.
* `IsShortest`: A decimal is the one to be found.
* `RealInterval.LeadsAt`: Where the first digit of a number stands.

## Theorems

* `IsShortest.unique`: There is only one shortest decimal.
* `leadsAt_leadingExponent`: The search starts at the first digit.
* `exists_on_grid`: A decimal with few digits is no better than some point of a grid.
* `isShortest_of_first`: The first grid that has a point decides.
* `exists_ofScaled`: Zeros at the end are dropped.
* `exists_isShortest`: What the search finds is the shortest decimal.
-/

namespace FileSignatures

/-- How many digits a number has. -/
def digitCount (n : Nat) : Nat :=
  (Nat.toDigits 10 n).length

theorem digitCount_pos (n : Nat) : 0 < digitCount n :=
  Nat.length_toDigits_pos

theorem digitCount_le_iff (n count : Nat) (hcount : 0 < count) :
    digitCount n ≤ count ↔ n < 10 ^ count :=
  Nat.length_toDigits_le_iff (by omega) hcount

theorem lt_pow_digitCount (n : Nat) : n < 10 ^ digitCount n :=
  (digitCount_le_iff n _ (digitCount_pos n)).1 le_rfl

theorem pow_digitCount_le (n : Nat) (hpos : 0 < n) : 10 ^ (digitCount n - 1) ≤ n := by
  rcases Nat.eq_or_lt_of_le (digitCount_pos n) with hone | hmore
  · rw [← hone]
    exact hpos
  · rw [← not_lt, ← digitCount_le_iff n _ (by omega)]
    omega

/-- The shortest decimal `n * 10 ^ scale` of those that are accepted: it has no zero at the
    end, none has fewer digits, and it is preferred to the others with as many. -/
structure IsShortest (Accepts : ℚ → Prop) (number : ℚ) (n : Nat) (scale : Int) : Prop where
  ends : n % 10 ≠ 0
  accepted : Accepts (n * 10 ^ scale)
  fewest : ∀ (other : Nat) (place : Int), Accepts (other * 10 ^ place) →
    digitCount n ≤ digitCount other
  nearest : ∀ (other : Nat) (place : Int), Accepts (other * 10 ^ place) →
    digitCount other = digitCount n → Nearer number (n * 10 ^ scale) (other * 10 ^ place)

/-- A scale may be made finer. -/
theorem shifted (n : Nat) (scale finer : Int) (h : finer ≤ scale) :
    ((n * 10 ^ (scale - finer).toNat : Nat) : ℚ) * 10 ^ finer = n * 10 ^ scale := by
  have hten : (10 : ℚ) ≠ 0 := by norm_num
  have hscale : (((scale - finer).toNat : Nat) : Int) + finer = scale := by omega
  push_cast
  rw [mul_assoc, ← zpow_natCast, ← zpow_add₀ hten, hscale]

namespace IsShortest

variable (Accepts : ℚ → Prop) (number : ℚ)

/-- Two decimals of one value with no zero at the end have the same scale. -/
theorem scale_le_of_eq (n other : Nat) (scale place : Int) (hends : n % 10 ≠ 0)
    (h : (n : ℚ) * 10 ^ scale = other * 10 ^ place) : place ≤ scale := by
  by_contra hlt
  rw [← shifted other place scale (by omega)] at h
  have hsame : n = other * 10 ^ (place - scale).toNat :=
    Nat.cast_injective (mul_right_cancel₀ (ten_zpow_pos scale).ne' h)
  have hsucc : (place - scale).toNat = (place - scale - 1).toNat + 1 := by omega
  rw [hsucc, Nat.pow_succ, ← Nat.mul_assoc] at hsame
  exact hends (hsame ▸ Nat.mul_mod_left _ 10)

theorem unique (n other : Nat) (scale place : Int) (h : IsShortest Accepts number n scale)
    (hother : IsShortest Accepts number other place) : n = other ∧ scale = place := by
  have hcount : digitCount other = digitCount n :=
    le_antisymm (hother.fewest n scale h.accepted) (h.fewest other place hother.accepted)
  -- Each is preferred to the other one, so they are the same number.
  have hvalue : (n : ℚ) * 10 ^ scale = other * 10 ^ place :=
    (h.nearest other place hother.accepted hcount).antisymm
      (hother.nearest n scale h.accepted hcount.symm)
  have hscale : scale = place := le_antisymm
    (scale_le_of_eq other n place scale hother.ends hvalue.symm)
    (scale_le_of_eq n other scale place h.ends hvalue)
  refine ⟨?_, hscale⟩
  rw [hscale] at hvalue
  exact Nat.cast_injective (mul_right_cancel₀ (ten_zpow_pos place).ne' hvalue)

end IsShortest

namespace Decimal

theorem ofScaled_mul_ten (n : Nat) (scale : Int) (hpos : 0 < n) :
    ofScaled (10 * n) scale = ofScaled n (scale + 1) := by
  have hdigits : Nat.toDigits 10 (10 * n) = Nat.toDigits 10 n ++ ['0'] :=
    (Nat.toDigits_append_toDigits (d := 0) (by omega) hpos (by omega)).symm
  have hcount : 0 < (Nat.toDigits 10 n).length := Nat.length_toDigits_pos
  unfold ofScaled
  simp only [hdigits, List.reverse_append, List.reverse_singleton, List.singleton_append,
    List.length_append, List.length_singleton, mk.injEq]
  refine ⟨by rw [List.dropWhile_cons_of_pos (by decide)], ?_⟩
  omega

/-- Nothing is dropped behind another digit. -/
theorem ofScaled_of_ends (n : Nat) (scale : Int) (h : n % 10 ≠ 0) :
    ofScaled n scale = ⟨Nat.toDigits 10 n, scale + (digitCount n - 1 : Nat)⟩ := by
  -- Read from behind, the first digit is the last one of the number, which is not zero.
  have hlast : ∃ rest, (Nat.toDigits 10 n).reverse = Nat.digitChar (n % 10) :: rest := by
    rcases Nat.lt_or_ge n 10 with hsmall | hlarge
    · rw [Nat.toDigits_of_lt_base hsmall, Nat.mod_eq_of_lt hsmall]
      exact ⟨[], rfl⟩
    · rw [Nat.toDigits_of_base_le (by omega) hlarge, List.reverse_append]
      exact ⟨_, rfl⟩
  obtain ⟨rest, hrest⟩ := hlast
  have hdigit : ∀ d : Nat, d < 10 → d ≠ 0 → decide (Nat.digitChar d = '0') = false := by
    decide
  unfold ofScaled
  simp only [hrest, mk.injEq]
  refine ⟨?_, rfl⟩
  rw [List.dropWhile_cons_of_neg, ← hrest, List.reverse_reverse]
  exact ne_true_of_eq_false (hdigit (n % 10) (Nat.mod_lt n (by omega)) h)

/-- Zeros at the end are dropped, by induction on the number. -/
theorem exists_ofScaled (n : Nat) (scale : Int) (hpos : 0 < n) :
    ∃ (short : Nat) (place : Int), short % 10 ≠ 0 ∧ short ≤ n
      ∧ (short : ℚ) * 10 ^ place = n * 10 ^ scale
      ∧ ofScaled n scale = ⟨Nat.toDigits 10 short, place + (digitCount short - 1 : Nat)⟩ := by
  induction n using Nat.strong_induction_on generalizing scale with
  | _ n ih =>
      by_cases hends : n % 10 = 0
      · obtain ⟨m, rfl⟩ := Nat.dvd_of_mod_eq_zero hends
        have hm : 0 < m := by omega
        obtain ⟨short, place, hshort, hle, hvalue, hscaled⟩ := ih m (by omega) (scale + 1) hm
        refine ⟨short, place, hshort, by omega, ?_, ?_⟩
        · rw [hvalue, zpow_add_one₀ (by norm_num)]
          push_cast
          ring
        · rw [ofScaled_mul_ten m scale hm, hscaled]
      · exact ⟨n, scale, hends, le_rfl, rfl, ofScaled_of_ends n scale hends⟩

end Decimal

namespace RealInterval

/-- The first digit of the number stands at a power of ten. -/
def LeadsAt (interval : RealInterval) (leading : Int) : Prop :=
  10 ^ leading ≤ interval.number ∧ interval.number < 10 ^ (leading + 1)

section Searching

variable (interval : RealInterval) (h : interval.Proper)
include h

/-- The search for the first digit finds it between two bounds, by induction on their
    distance. -/
theorem leadsAt_leadingExponent (steps : Nat) (least : Int)
    (hleast : 10 ^ least ≤ interval.number)
    (hgreatest : interval.number < 10 ^ (least + steps + 1)) :
    interval.LeadsAt (interval.leadingExponent steps least) := by
  induction steps with
  | zero =>
      rw [Nat.cast_zero, add_zero] at hgreatest
      exact ⟨hleast, hgreatest⟩
  | succ steps ih =>
      -- Up to the number this grid has zero alone exactly if the power of ten is greater.
      have hpoint : interval.floorAt (least + (steps + 1 : Nat)) = 0
          ↔ interval.number < 10 ^ (least + (steps + 1 : Nat)) := by
        rw [← not_le, ← Nat.lt_one_iff, ← not_le, le_floorAt_iff interval h, Nat.cast_one,
          one_mul]
      rw [leadingExponent]
      by_cases hzero : interval.floorAt (least + (steps + 1 : Nat)) = 0
      · rw [if_pos hzero]
        refine ih ?_
        rw [hpoint] at hzero
        push_cast at hzero
        rwa [← add_assoc] at hzero
      · rw [if_neg hzero]
        exact ⟨not_lt.1 (mt hpoint.2 hzero), hgreatest⟩

/-- A grid has a point in the interval if its steps are smaller than the distance from the
    number to the upper end. -/
theorem nearestOn?_ne_none (scale : Int)
    (hfine : 10 ^ scale < (interval.high : ℚ) / interval.unit - interval.number) :
    interval.nearestOn? scale ≠ none := by
  intro hnone
  have hnext := lt_floorAt interval h scale
  have hfloor := floorAt_le interval h scale
  -- The next point above the number is less than a step away from it.
  refine not_inside_of_nearestOn? interval h _ hnone (interval.floorAt scale + 1) ?_
  have hlow := (lt_number interval h).trans hnext
  have hhigh : ((interval.floorAt scale + 1 : Nat) : ℚ) * 10 ^ scale
      < (interval.high : ℚ) / interval.unit := by
    push_cast
    linarith
  unfold Inside
  split
  · exact ⟨hlow.le, hhigh.le⟩
  · exact ⟨hlow, hhigh⟩

variable (leading : Int) (hleads : interval.LeadsAt leading)
include hleads

/-- A decimal in the interval that has few digits is no better than some point of a grid:
    itself if its first digit stands where that of the number does, and otherwise the power
    of ten between them. -/
theorem exists_on_grid (count : Nat) (hcount : 0 < count) (other : Nat) (place : Int)
    (hother : interval.Inside (other * 10 ^ place)) (hdigits : digitCount other ≤ count) :
    ∃ n : Nat, interval.Inside (n * 10 ^ (leading - (count - 1 : Nat)))
      ∧ Nearer interval.number (n * 10 ^ (leading - (count - 1 : Nat)))
          (other * 10 ^ place) := by
  have hten : (1 : ℚ) ≤ 10 := by norm_num
  have hpos : 0 < other := by
    have hvalue := pos_of_inside interval h _ hother
    rw [mul_pos_iff_of_pos_right (ten_zpow_pos place)] at hvalue
    exact Nat.cast_pos.1 hvalue
  have hcounted := digitCount_pos other
  -- The decimal lies between two powers of ten.
  have hleast : (10 : ℚ) ^ (place + (digitCount other - 1 : Nat)) ≤ other * 10 ^ place := by
    have hcast : ((10 ^ (digitCount other - 1) : Nat) : ℚ) ≤ other :=
      Nat.cast_le.2 (pow_digitCount_le other hpos)
    push_cast at hcast
    rw [zpow_add₀ (by norm_num), zpow_natCast, mul_comm]
    exact mul_le_mul_of_nonneg_right hcast (ten_zpow_pos place).le
  have hmost : (other : ℚ) * 10 ^ place ≤ 10 ^ (place + (digitCount other : Nat)) := by
    have hcast : (other : ℚ) ≤ (10 ^ digitCount other : Nat) :=
      Nat.cast_le.2 (lt_pow_digitCount other).le
    push_cast at hcast
    rw [zpow_add₀ (by norm_num), zpow_natCast, mul_comm]
    exact mul_le_mul_of_nonneg_left hcast (ten_zpow_pos place).le
  -- In each case a decimal with a scale that is coarse enough is no worse.
  have hcoarse : ∃ (n : Nat) (scale : Int), leading - (count - 1 : Nat) ≤ scale
      ∧ interval.Inside (n * 10 ^ scale)
      ∧ Nearer interval.number (n * 10 ^ scale) (other * 10 ^ place) := by
    rcases lt_trichotomy (place + (digitCount other - 1 : Nat)) leading with hlt | heq | hgt
    · have hbelow : (other : ℚ) * 10 ^ place ≤ (1 : Nat) * 10 ^ leading := by
        rw [Nat.cast_one, one_mul]
        exact hmost.trans (zpow_le_zpow_right₀ hten (by omega))
      have hnumber : ((1 : Nat) : ℚ) * 10 ^ leading ≤ interval.number := by
        rw [Nat.cast_one, one_mul]
        exact hleads.1
      exact ⟨1, leading, by omega,
        inside_of_between interval h _ _ hother (Or.inl ⟨hbelow, hnumber⟩),
        .of_below _ _ _ hbelow hnumber⟩
    · exact ⟨other, place, by omega, hother, .refl _ _⟩
    · have habove : ((1 : Nat) : ℚ) * 10 ^ (leading + 1) ≤ other * 10 ^ place := by
        rw [Nat.cast_one, one_mul]
        exact (zpow_le_zpow_right₀ hten (by omega)).trans hleast
      have hnumber : interval.number ≤ (1 : Nat) * 10 ^ (leading + 1) := by
        rw [Nat.cast_one, one_mul]
        exact hleads.2.le
      exact ⟨1, leading + 1, by omega,
        inside_of_between interval h _ _ hother (Or.inr ⟨hnumber, habove⟩),
        .of_above _ _ _ habove hnumber⟩
  obtain ⟨n, scale, hle, hinside, hnearer⟩ := hcoarse
  rw [← shifted n scale _ hle] at hinside hnearer
  exact ⟨_, hinside, hnearer⟩

/-- A point that is found does not lie behind the next power of ten. -/
theorem found_le (count : Nat) (hcount : 0 < count) (found : Nat)
    (hfound : interval.nearestOn? (leading - (count - 1 : Nat)) = some found) :
    found ≤ 10 ^ count := by
  obtain ⟨hinside, hnearest⟩ := nearer_of_nearestOn? interval h _ found hfound
  have hpower : ((10 ^ count : Nat) : ℚ) * 10 ^ (leading - (count - 1 : Nat))
      = 10 ^ (leading + 1) := by
    have hscale : leading + 1 - (leading - (count - 1 : Nat)) = count := by omega
    rw [← one_mul ((10 : ℚ) ^ (leading + 1)), ← Nat.cast_one (R := ℚ),
      ← shifted 1 (leading + 1) (leading - (count - 1 : Nat)) (by omega), hscale,
      Int.toNat_natCast, Nat.one_mul]
  by_contra hlt
  -- Otherwise the power of ten would be preferred.
  have hless : ((10 ^ count : Nat) : ℚ) * 10 ^ (leading - (count - 1 : Nat))
      ≤ found * 10 ^ (leading - (count - 1 : Nat)) :=
    mul_le_mul_of_nonneg_right (Nat.cast_le.2 (by omega)) (ten_zpow_pos _).le
  have hnumber : interval.number
      ≤ ((10 ^ count : Nat) : ℚ) * 10 ^ (leading - (count - 1 : Nat)) :=
    hpower ▸ hleads.2.le
  have hsame := (hnearest _ (inside_of_between interval h _ _ hinside
    (Or.inr ⟨hnumber, hless⟩))).antisymm (.of_above _ _ _ hless hnumber)
  have heq : found = 10 ^ count :=
    Nat.cast_injective (mul_right_cancel₀ (ten_zpow_pos _).ne' hsame)
  omega

/-- The first grid on which a point is found decides. -/
theorem isShortest_of_first (count : Nat) (hcount : 0 < count) (found : Nat)
    (hfound : interval.nearestOn? (leading - (count - 1 : Nat)) = some found)
    (hfirst : ∀ fewer, 0 < fewer → fewer < count →
      interval.nearestOn? (leading - (fewer - 1 : Nat)) = none) :
    ∃ (n : Nat) (scale : Int), IsShortest interval.Inside interval.number n scale
      ∧ Decimal.ofScaled found (leading - (count - 1 : Nat))
        = ⟨Nat.toDigits 10 n, scale + (digitCount n - 1 : Nat)⟩ := by
  obtain ⟨hinside, hnearest⟩ := nearer_of_nearestOn? interval h _ found hfound
  have hpos : 0 < found := by
    have hvalue := pos_of_inside interval h _ hinside
    rw [mul_pos_iff_of_pos_right (ten_zpow_pos _)] at hvalue
    exact Nat.cast_pos.1 hvalue
  obtain ⟨n, scale, hends, hle, hvalue, hscaled⟩ :=
    Decimal.exists_ofScaled found (leading - (count - 1 : Nat)) hpos
  -- The point found does not exceed the next power of ten, so it has few digits.
  have hfew : digitCount n ≤ count := by
    have hmost := found_le interval h leading hleads count hcount found hfound
    rw [digitCount_le_iff n count hcount]
    refine lt_of_le_of_ne (hle.trans hmost) fun heq => hends ?_
    rw [heq, ← Nat.sub_add_cancel hcount, Nat.pow_succ, Nat.mul_mod_left]
  -- With fewer digits there would have been a point on a coarser grid.
  have hfewest : ∀ (other : Nat) (place : Int), interval.Inside (other * 10 ^ place) →
      count ≤ digitCount other := by
    intro other place hother
    by_contra hless
    obtain ⟨point, hpoint, -⟩ := exists_on_grid interval h leading hleads (digitCount other)
      (digitCount_pos other) other place hother le_rfl
    exact not_inside_of_nearestOn? interval h _
      (hfirst _ (digitCount_pos other) (not_le.1 hless)) point hpoint
  refine ⟨n, scale, ⟨hends, hvalue ▸ hinside, fun other place hother =>
    hfew.trans (hfewest other place hother), fun other place hother hsame => ?_⟩, hscaled⟩
  obtain ⟨point, hpoint, hnearer⟩ := exists_on_grid interval h leading hleads count hcount other
    place hother (hsame ▸ hfew)
  rw [hvalue]
  exact (hnearest point hpoint).trans hnearer

end Searching

/-- The search goes on to the first grid that has a point, by induction on the grids that
    are left. -/
theorem exists_shortestFrom (interval : RealInterval) (leading : Int) (count more last : Nat)
    (hcount : count ≤ last) (hlast : last < count + more)
    (hfound : interval.nearestOn? (leading - (last - 1 : Nat)) ≠ none) :
    ∃ first found, count ≤ first
      ∧ interval.nearestOn? (leading - (first - 1 : Nat)) = some found
      ∧ (∀ fewer, count ≤ fewer → fewer < first →
        interval.nearestOn? (leading - (fewer - 1 : Nat)) = none)
      ∧ interval.shortestFrom leading count more
        = .ofScaled found (leading - (first - 1 : Nat)) := by
  induction more generalizing count with
  | zero => omega
  | succ more ih =>
      rw [shortestFrom]
      cases hpoint : interval.nearestOn? (leading - (count - 1 : Nat)) with
      | some found =>
          exact ⟨count, found, le_rfl, hpoint, fun fewer hle hlt => by omega, rfl⟩
      | none =>
          -- The grid that is known to have a point is not this one, so it is still to come.
          have hnext : count + 1 ≤ last := by
            rcases Nat.eq_or_lt_of_le hcount with rfl | hlt
            · exact absurd hpoint hfound
            · exact hlt
          obtain ⟨first, found, hle, hfirst, hnone, hshortest⟩ :=
            ih (count + 1) hnext (by omega)
          refine ⟨first, found, by omega, hfirst, fun fewer hfewer hlt => ?_, ?_⟩
          · rcases Nat.eq_or_lt_of_le hfewer with rfl | hmore
            · exact hpoint
            · exact hnone fewer hmore hlt
          · exact hshortest

/-- What the search finds is the shortest decimal of the interval, if the number lies within
    the range of the search and the interval is not too narrow. -/
theorem exists_isShortest (interval : RealInterval) (h : interval.Proper) (range digits : Nat)
    (hdigits : 0 < digits) (hleast : 10 ^ (-range : Int) ≤ interval.number)
    (hgreatest : interval.number < 10 ^ (range + 1 : Int))
    (hfine : interval.number * 10 ^ (1 - digits : Int)
      < (interval.high : ℚ) / interval.unit - interval.number) :
    ∃ (n : Nat) (scale : Int), IsShortest interval.Inside interval.number n scale
      ∧ interval.shortest range digits
        = ⟨Nat.toDigits 10 n, scale + (digitCount n - 1 : Nat)⟩ := by
  have hleads : interval.LeadsAt (interval.leadingExponent (2 * range) (-range)) := by
    refine leadsAt_leadingExponent interval h _ _ hleast ?_
    have hrange : (-range : Int) + (2 * range : Nat) + 1 = range + 1 := by omega
    rwa [hrange]
  unfold shortest
  generalize interval.leadingExponent (2 * range) (-range) = leading at hleads
  -- The finest grid is finer than the interval is wide, so it has a point.
  have hgrid : (10 : ℚ) ^ (leading - (digits - 1 : Nat))
      ≤ interval.number * 10 ^ (1 - digits : Int) := by
    have hscale : leading - (digits - 1 : Nat) = leading + (1 - digits : Int) := by omega
    rw [hscale, zpow_add₀ (by norm_num)]
    exact mul_le_mul_of_nonneg_right hleads.1 (ten_zpow_pos _).le
  obtain ⟨first, found, hfirst, hfound, hnone, hshortest⟩ := exists_shortestFrom interval leading
    1 digits digits hdigits (by omega)
    (nearestOn?_ne_none interval h _ (hgrid.trans_lt hfine))
  rw [hshortest]
  exact isShortest_of_first interval h leading hleads first hfirst found hfound
    fun fewer hpos hlt => hnone fewer hpos hlt

end RealInterval

end FileSignatures
