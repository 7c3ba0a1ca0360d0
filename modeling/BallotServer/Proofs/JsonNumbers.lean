import BallotServer.Proofs.JsonText
import Mathlib.Algebra.Order.Field.Power
import Mathlib.Data.Rat.Cast.Order
import Mathlib.Tactic.Linarith
import Mathlib.Tactic.NormNum
import Mathlib.Tactic.Positivity
import Mathlib.Tactic.Ring

/-! Which numbers count as finite. Gathering the digits and rounding twice moves a number by less
than one part in 2^52, so it is decided rightly unless the number is that close to the greatest
double. -/

namespace BallotServer.Json.Number

def follow (start : Nat) (ds : List UInt8) : Nat :=
  ds.foldl (fun n d => 10 * n + digit d) start

def decimal (ds : List UInt8) : Nat := follow 0 ds

/-- The power of ten that the digits before and after the point together are multiplied by. -/
def power (n : Number) : Int :=
  (if n.exponentNegative then -(decimal n.exponent : Int) else decimal n.exponent) -
    n.fraction.length

def absolute (n : Number) : ℚ := decimal (n.whole ++ n.fraction) * (10 : ℚ) ^ n.power

section Gathering

variable {ds : List UInt8}

theorem follow_append (start : Nat) (ds es : List UInt8) :
    follow start (ds ++ es) = follow (follow start ds) es :=
  List.foldl_append

theorem digit_le {b : UInt8} (digit : 48 ≤ b ∧ b ≤ 57) : Number.digit b ≤ 9 := by
  have most : b.toNat ≤ 57 := UInt8.le_iff_toNat_le.1 digit.2
  unfold Number.digit
  omega

theorem le_follow (start : Nat) (ds : List UInt8) :
    start * 10 ^ ds.length ≤ follow start ds := by
  induction ds generalizing start with
  | nil => simp [follow]
  | cons d ds ih =>
    refine Nat.le_trans ?_ (ih (10 * start + digit d))
    rw [List.length_cons, pow_succ]
    nlinarith [Nat.zero_le (digit d * 10 ^ ds.length)]

theorem follow_lt (start : Nat) (small : ∀ d ∈ ds, digit d ≤ 9) :
    follow start ds < (start + 1) * 10 ^ ds.length := by
  induction ds generalizing start with
  | nil => simp [follow]
  | cons d ds ih =>
    obtain ⟨least, small⟩ := List.forall_mem_cons.1 small
    refine Nat.lt_of_lt_of_le (ih (10 * start + digit d) small) ?_
    rw [List.length_cons, pow_succ, ← mul_assoc, mul_right_comm]
    exact Nat.mul_le_mul_right _ (by omega)

theorem gather_spec (start : Nat) (small : ∀ d ∈ ds, digit d ≤ 9) :
    start * 10 ^ ds.length ≤ (gather start ds).1 * 10 ^ (gather start ds).2 ∧
      (gather start ds).1 * 10 ^ (gather start ds).2 ≤ follow start ds ∧
      follow start ds < ((gather start ds).1 + 1) * 10 ^ (gather start ds).2 ∧
      (gather start ds).2 ≤ ds.length ∧
      (0 < (gather start ds).2 → 2 ^ 60 ≤ (gather start ds).1) := by
  induction ds generalizing start with
  | nil => simp [gather, follow]
  | cons d ds ih =>
    obtain ⟨least, small'⟩ := List.forall_mem_cons.1 small
    simp only [gather]
    split
    · obtain ⟨below, low, high, count, large⟩ := ih (10 * start + digit d) small'
      refine ⟨Nat.le_trans ?_ below, low, high, Nat.le_succ_of_le count, large⟩
      rw [List.length_cons, pow_succ]
      nlinarith [Nat.zero_le (digit d * 10 ^ ds.length)]
    · rename_i full
      refine ⟨Nat.le_refl _, le_follow start (d :: ds), follow_lt start small, Nat.le_refl _, ?_⟩
      intro _
      rw [Nat.pow_eq] at full
      omega

theorem gather_lt {start : Nat} (fits : start < 2 ^ 64) (ds : List UInt8) :
    (gather start ds).1 < 2 ^ 64 := by
  induction ds generalizing start with
  | nil => exact fits
  | cons d ds ih =>
    simp only [gather]
    split
    · rename_i next
      exact ih next
    · exact fits

theorem magnitude_cases (ds : List UInt8) :
    magnitude ds = decimal ds ∨ magnitude ds = 2 ^ 31 ∧ 2 ^ 31 ≤ decimal ds := by
  have each (start : Nat) :
      ds.foldl (fun n d => min (10 * n + digit d) (Nat.pow 2 31)) (min start (2 ^ 31)) =
        min (follow start ds) (2 ^ 31) := by
    induction ds generalizing start with
    | nil => rfl
    | cons d ds ih =>
      rw [List.foldl_cons, follow, List.foldl_cons, ← follow, ← ih]
      congr 1
      rw [Nat.pow_eq]
      omega
  have least : magnitude ds = min (decimal ds) (2 ^ 31) := each 0
  omega

end Gathering

/-- Neither number exceeds the other by more than one of so many parts. -/
def Close (parts x y : Nat) : Prop := x * parts ≤ y * (parts + 1) ∧ y * parts ≤ x * (parts + 1)

section Rounding

variable {parts x y : Nat}

theorem close_self (parts x : Nat) : Close parts x x :=
  ⟨Nat.mul_le_mul_left x (Nat.le_succ parts), Nat.mul_le_mul_left x (Nat.le_succ parts)⟩

theorem close_of_between {count unit : Nat} (many : parts ≤ count)
    (low : count * unit ≤ x ∧ count * unit ≤ y)
    (high : x < (count + 1) * unit ∧ y < (count + 1) * unit) : Close parts x y := by
  have step {u v : Nat} (above : u < (count + 1) * unit) (below : count * unit ≤ v) :
      u * parts ≤ v * (parts + 1) := by
    calc u * parts ≤ (count + 1) * unit * parts := Nat.mul_le_mul_right _ above.le
      _ = count * unit * parts + parts * unit := by ring
      _ ≤ count * unit * parts + count * unit := by
        exact Nat.add_le_add_left (Nat.mul_le_mul_right _ many) _
      _ = count * unit * (parts + 1) := by ring
      _ ≤ v * (parts + 1) := Nat.mul_le_mul_right _ below
  exact ⟨step high.1 low.2, step high.2 low.1⟩

theorem close_round53 (n : Nat) : Close (2 ^ 53) n (round53 n) := by
  unfold round53
  split
  · exact close_self _ n
  · rename_i large
    rw [Nat.pow_eq, Nat.not_lt] at large
    have log : 53 ≤ n.log2 := (Nat.le_log2 (by omega)).2 large
    dsimp only
    rw [Nat.pow_eq]
    generalize unit_eq : 2 ^ (n.log2 - 52) = unit
    have unit_pos : 0 < unit := unit_eq ▸ Nat.two_pow_pos _
    have most : 2 ^ 52 * unit ≤ n := by
      rw [← unit_eq, ← pow_add, Nat.add_sub_cancel' (by omega)]
      exact Nat.log2_self_le (by omega)
    have quotient : 2 ^ 52 * unit ≤ n / unit * unit :=
      Nat.mul_le_mul_right _ ((Nat.le_div_iff_mul_le unit_pos).2 most)
    have whole : n / unit * unit + n % unit = n := Nat.div_add_mod' n unit
    have rest : n % unit < unit := Nat.mod_lt _ unit_pos
    unfold Close
    split
    · rename_i up
      have half : unit ≤ 2 * (n % unit) := by
        simp only [Bool.or_eq_true, Bool.and_eq_true, decide_eq_true_eq] at up
        omega
      rw [Nat.add_mul, Nat.one_mul]
      constructor <;> omega
    · rename_i down
      have half : 2 * (n % unit) ≤ unit := by
        simp only [Bool.or_eq_true, Bool.and_eq_true, decide_eq_true_eq, not_or] at down
        omega
      constructor <;> omega

end Rounding

/-- The digits of the number are digits, and there are not too many of them. -/
structure Practical (n : Number) : Prop where
  digits : ∀ d ∈ n.whole ++ n.fraction, digit d ≤ 9
  short : n.whole.length + n.fraction.length < 2 ^ 30

def counted (n : Number) : Int :=
  if n.exponentNegative then -(magnitude n.exponent : Int) else magnitude n.exponent

def omitted (n : Number) : Nat :=
  (gather 0 n.whole).2 + (gather (gather 0 n.whole).1 n.fraction).2

section Scaling

variable {n : Number}

theorem Pointed.spec {ds s : List UInt8} (point : Pointed ds s) :
    ds.length ≤ s.length ∧ ∀ d ∈ ds, 48 ≤ d ∧ d ≤ 57 := by
  cases point with
  | none => exact ⟨Nat.le_refl _, List.forall_mem_nil _⟩
  | point digits => exact ⟨Nat.le_succ _, digits.2⟩

theorem Spelled.practical {s : List UInt8} (spelled : n.Spelled s) (short : s.length < 2 ^ 30) :
    n.Practical := by
  obtain ⟨front, point, power⟩ := spelled
  obtain ⟨size, digits⟩ := point.spec
  simp only [List.length_append] at short
  refine ⟨fun d member => digit_le ?_, by omega⟩
  exact (List.mem_append.1 member).elim (front.1.2 d) (digits d)

theorem close_gathered (practical : n.Practical) :
    Close (2 ^ 60) (decimal (n.whole ++ n.fraction)) (n.scaled.1 * 10 ^ n.omitted) := by
  obtain ⟨smallWhole, smallFraction⟩ := List.forall_mem_append.1 practical.digits
  obtain ⟨-, low, high, -, large⟩ := gather_spec 0 smallWhole
  obtain ⟨below', low', high', -, large'⟩ := gather_spec (gather 0 n.whole).1 smallFraction
  change Close _ _ ((gather (gather 0 n.whole).1 n.fraction).1 * 10 ^ n.omitted)
  rw [decimal, follow_append, omitted, pow_add]
  generalize gather 0 n.whole = front at *
  obtain ⟨start, count⟩ := front
  generalize gather start n.fraction = all at *
  obtain ⟨significand, count'⟩ := all
  dsimp only at *
  rcases Nat.eq_zero_or_pos count with rfl | some
  · obtain rfl : follow 0 n.whole = start := by omega
    rw [pow_zero, Nat.one_mul]
    rcases Nat.eq_zero_or_pos count' with rfl | some'
    · obtain rfl : follow (follow 0 n.whole) n.fraction = significand := by omega
      rw [pow_zero, Nat.mul_one]
      exact close_self _ _
    · refine close_of_between (large' some') ⟨low', Nat.le_refl _⟩ ⟨high', ?_⟩
      exact Nat.mul_lt_mul_of_pos_right (Nat.lt_succ_self _) (by positivity)
  · -- Both are what is left of the whole digits, with other digits after them.
    have fits : follow start n.fraction < (start + 1) * 10 ^ n.fraction.length :=
      follow_lt start smallFraction
    have above : follow (follow 0 n.whole) n.fraction <
        (follow 0 n.whole + 1) * 10 ^ n.fraction.length := follow_lt _ smallFraction
    have below := le_follow (follow 0 n.whole) n.fraction
    refine @close_of_between _ _ _ _ (10 ^ count * 10 ^ n.fraction.length) (large some) ⟨?_, ?_⟩
      ⟨?_, ?_⟩
    · calc start * (10 ^ count * 10 ^ n.fraction.length)
          = start * 10 ^ count * 10 ^ n.fraction.length := (mul_assoc ..).symm
        _ ≤ follow 0 n.whole * 10 ^ n.fraction.length := Nat.mul_le_mul_right _ low
        _ ≤ _ := below
    · calc start * (10 ^ count * 10 ^ n.fraction.length)
          = start * 10 ^ n.fraction.length * 10 ^ count := by ring
        _ ≤ significand * 10 ^ count' * 10 ^ count := Nat.mul_le_mul_right _ below'
        _ = significand * (10 ^ count * 10 ^ count') := by ring
    · calc follow (follow 0 n.whole) n.fraction
          < (follow 0 n.whole + 1) * 10 ^ n.fraction.length := above
        _ ≤ (start + 1) * 10 ^ count * 10 ^ n.fraction.length := Nat.mul_le_mul_right _ high
        _ = _ := mul_assoc ..
    · calc significand * (10 ^ count * 10 ^ count')
          = significand * 10 ^ count' * 10 ^ count := by ring
        _ < (start + 1) * 10 ^ n.fraction.length * 10 ^ count :=
          Nat.mul_lt_mul_of_pos_right (Nat.lt_of_le_of_lt low' fits) (by positivity)
        _ = (start + 1) * (10 ^ count * 10 ^ n.fraction.length) := by ring

theorem scaled_power (practical : n.Practical) :
    n.scaled.2 = n.omitted - n.fraction.length + n.counted ∧
      n.omitted ≤ n.whole.length + n.fraction.length := by
  obtain ⟨smallWhole, smallFraction⟩ := List.forall_mem_append.1 practical.digits
  obtain ⟨-, -, -, few, -⟩ := gather_spec 0 smallWhole
  obtain ⟨-, -, -, few', -⟩ := gather_spec (gather 0 n.whole).1 smallFraction
  refine ⟨?_, Nat.add_le_add few few'⟩
  unfold scaled omitted counted
  dsimp only
  rw [Nat.cast_sub few', Nat.cast_add]
  ring

end Scaling

section Finite

variable {n : Number}

/-- The number as it is scaled, before it is rounded. -/
def gathered (n : Number) : ℚ := n.scaled.1 * (10 : ℚ) ^ n.scaled.2

theorem gathered_eq (practical : n.Practical) :
    n.gathered = ((n.scaled.1 * 10 ^ n.omitted : Nat) : ℚ) *
      (10 : ℚ) ^ (n.counted - n.fraction.length) := by
  have power : n.scaled.2 = (n.omitted : Int) + (n.counted - n.fraction.length) := by
    rw [(scaled_power practical).1]
    ring
  rw [gathered, power, zpow_add₀ (by norm_num), zpow_natCast]
  push_cast
  ring

theorem scale_le {x y : Nat} {a b : Int} (close : x * 2 ^ 60 ≤ y * (2 ^ 60 + 1)) (le : a ≤ b) :
    (x : ℚ) * 10 ^ a * 2 ^ 60 ≤ y * 10 ^ b * (2 ^ 60 + 1) := by
  have cast : (x : ℚ) * 2 ^ 60 ≤ y * (2 ^ 60 + 1) := by exact_mod_cast close
  calc (x : ℚ) * 10 ^ a * 2 ^ 60 = (x : ℚ) * 2 ^ 60 * 10 ^ a := by ring
    _ ≤ (y : ℚ) * (2 ^ 60 + 1) * 10 ^ a := by gcongr
    _ ≤ (y : ℚ) * (2 ^ 60 + 1) * 10 ^ b := by
      gcongr
      norm_num
    _ = (y : ℚ) * 10 ^ b * (2 ^ 60 + 1) := by ring

theorem counted_of_power (practical : n.Practical) :
    (0 ≤ n.scaled.2 → n.counted - n.fraction.length ≤ n.power) ∧
      (n.scaled.2 ≤ 308 → n.power ≤ n.counted - n.fraction.length) := by
  obtain ⟨power, few⟩ := scaled_power practical
  have short := practical.short
  have least := magnitude_cases n.exponent
  unfold counted at power ⊢
  unfold Number.power
  cases down : n.exponentNegative <;>
    simp only [down, Bool.false_eq_true, if_true, if_false] at power ⊢ <;> omega

theorem gathered_le (practical : n.Practical) (whole : 0 ≤ n.scaled.2) :
    n.gathered * 2 ^ 60 ≤ n.absolute * (2 ^ 60 + 1) := by
  rw [gathered_eq practical, absolute]
  exact scale_le (close_gathered practical).2 ((counted_of_power practical).1 whole)

theorem le_gathered (practical : n.Practical) (bounded : n.scaled.2 ≤ 308) :
    n.absolute * 2 ^ 60 ≤ n.gathered * (2 ^ 60 + 1) := by
  rw [gathered_eq practical, absolute]
  exact scale_le (close_gathered practical).1 ((counted_of_power practical).2 bounded)

theorem gathered_of_nonneg (whole : 0 ≤ n.scaled.2) :
    n.gathered = n.scaled.1 * 10 ^ n.scaled.2.toNat := by
  rw [gathered]
  congr 1
  conv_lhs => rw [← Int.toNat_of_nonneg whole]
  exact zpow_natCast _ _

theorem close_product {x y x' y' : Nat} {parts : Nat} (first : x * parts ≤ x' * (parts + 1))
    (second : y * parts ≤ y' * (parts + 1)) :
    x * y * parts ^ 2 ≤ x' * y' * (parts + 1) ^ 2 := by
  calc x * y * parts ^ 2 = x * parts * (y * parts) := by ring
    _ ≤ x' * (parts + 1) * (y' * (parts + 1)) := Nat.mul_le_mul first second
    _ = x' * y' * (parts + 1) ^ 2 := by ring

theorem isFinite_eq (n : Number) :
    n.isFinite = if n.scaled.1 = 0 || n.scaled.2 < 0 then true
      else if 308 < n.scaled.2 then false
      else round53 n.scaled.1 * round53 (Nat.pow 10 n.scaled.2.toNat) < infinite := rfl

theorem top_eq : (2 : ℚ) ^ 1024 = 2 ^ 54 * 2 ^ 970 := by
  rw [← pow_add]

theorem infinite_eq : ((infinite : Nat) : ℚ) = (2 ^ 54 - 1) * 2 ^ 970 := by
  unfold infinite
  -- The power is never to be computed.
  generalize 970 = k
  rw [Nat.cast_mul, @Nat.pow_eq 2 k, Nat.cast_pow, Nat.cast_ofNat]
  congr 1
  norm_num

theorem le_pow_of_beyond {power : Int} (beyond : 308 < power) :
    (2 : ℚ) * 2 ^ 1024 ≤ 10 ^ power.toNat := by
  have least : 2 * 2 ^ 1024 ≤ 10 ^ 309 := by decide +kernel
  calc (2 : ℚ) * 2 ^ 1024 ≤ 10 ^ 309 := by exact_mod_cast least
    _ ≤ 10 ^ power.toNat := pow_le_pow_right₀ (by norm_num) (by omega)

theorem isFinite_of_le (practical : n.Practical)
    (small : n.absolute ≤ (1 - 1 / 2 ^ 51) * 2 ^ 1024) : n.isFinite := by
  rw [isFinite_eq]
  split
  · rfl
  · rename_i some
    simp only [Bool.or_eq_true, decide_eq_true_eq, not_or, not_lt] at some
    have bound := gathered_le practical some.2
    rw [gathered_of_nonneg some.2] at bound
    have one : (1 : ℚ) ≤ n.scaled.1 := by exact_mod_cast Nat.pos_of_ne_zero some.1
    have unit : (0 : ℚ) < 2 ^ 970 := by positivity
    have moderate : ¬308 < n.scaled.2 := by
      intro beyond
      have least := le_pow_of_beyond beyond
      have product := le_mul_of_one_le_left (le_trans (by positivity) least) one
      rw [top_eq] at small least
      generalize (2 : ℚ) ^ 970 = u at *
      linarith
    rw [if_neg moderate, decide_eq_true_eq]
    have product := close_product (close_round53 n.scaled.1).2
      (close_round53 (Nat.pow 10 n.scaled.2.toNat)).2
    rw [← @Nat.cast_lt ℚ, infinite_eq]
    rw [← @Nat.cast_le ℚ] at product
    rw [top_eq] at small
    push_cast [Nat.pow_eq] at product ⊢
    generalize (2 : ℚ) ^ 970 = u at *
    linarith

theorem absolute_eq_zero (practical : n.Practical) (none : n.scaled.1 = 0) : n.absolute = 0 := by
  have close := (close_gathered practical).1
  rw [none, Nat.zero_mul, Nat.zero_mul] at close
  have zero : decimal (n.whole ++ n.fraction) = 0 := by omega
  rw [absolute, zero, Nat.cast_zero, zero_mul]

theorem gathered_lt (fraction : n.scaled.2 < 0) : n.gathered < 2 ^ 64 := by
  have fits : (n.scaled.1 : ℚ) < 2 ^ 64 := by
    exact_mod_cast gather_lt (gather_lt (by decide) _) _
  have part : (10 : ℚ) ^ n.scaled.2 ≤ 1 := zpow_le_one_of_nonpos₀ (by norm_num) fraction.le
  exact lt_of_le_of_lt (mul_le_of_le_one_right (Nat.cast_nonneg _) part) fits

theorem isFinite_eq_false_of_le (practical : n.Practical)
    (large : (1 + 1 / 2 ^ 51) * 2 ^ 1024 ≤ n.absolute) : n.isFinite = false := by
  have unit : (2 : ℚ) ^ 64 ≤ 2 ^ 970 := pow_le_pow_right₀ (by norm_num) (by norm_num)
  rw [top_eq] at large
  have some : n.scaled.1 ≠ 0 := by
    intro none
    rw [absolute_eq_zero practical none] at large
    generalize (2 : ℚ) ^ 970 = u at *
    linarith
  rw [isFinite_eq]
  by_cases moderate : n.scaled.2 ≤ 308
  · have bound := le_gathered practical moderate
    have whole : ¬n.scaled.2 < 0 := by
      intro fraction
      have fits := gathered_lt fraction
      generalize (2 : ℚ) ^ 970 = u at *
      linarith
    rw [gathered_of_nonneg (not_lt.1 whole)] at bound
    have product := close_product (close_round53 n.scaled.1).1
      (close_round53 (Nat.pow 10 n.scaled.2.toNat)).1
    rw [if_neg (by simp [some, whole]), if_neg (not_lt.2 moderate), decide_eq_false_iff_not, not_lt,
      ← @Nat.cast_le ℚ, infinite_eq]
    rw [← @Nat.cast_le ℚ] at product
    push_cast [Nat.pow_eq] at product ⊢
    generalize (2 : ℚ) ^ 970 = u at *
    linarith
  · rw [if_neg (by simp [some]; omega), if_pos (not_le.1 moderate)]

end Finite

end BallotServer.Json.Number
