import BallotServer.Json.Token

/-! The numbers of JSON: their grammar, and which of them are finite as double-precision values.

A number's digits are gathered into a significand of 64 bits. Once a digit no longer fits, the
remaining digits before the point only raise the power of ten and the remaining ones after it are
dropped. Significand and power of ten are then rounded to 53 bits each, and a number is finite if
their rounded product is; a number with a negative power of ten always is. -/

namespace BallotServer.Json

structure Number where
  negative : Bool
  whole : List UInt8
  fraction : List UInt8
  exponentNegative : Bool
  exponent : List UInt8
  deriving DecidableEq, Repr

namespace Number

def isDigit (b : UInt8) : Bool := 48 ≤ b && b ≤ 57

def digit (b : UInt8) : Nat := b.toNat - 48

def digits (s : List UInt8) : Except Fault (List UInt8 × List UInt8) :=
  let ds := s.takeWhile isDigit
  let rest := s.dropWhile isDigit
  if ds.isEmpty then .error (if rest.isEmpty then .ended else .malformed) else .ok (ds, rest)

/-- The digits before the point: a zero stands alone. -/
def wholeDigits (s : List UInt8) : Except Fault (List UInt8 × List UInt8) :=
  match digits s with
  | .error e => .error e
  | .ok (ds, rest) =>
    if ds.head? = some 48 && ds.length != 1 then .error .malformed else .ok (ds, rest)

def fractionDigits : List UInt8 → Except Fault (List UInt8 × List UInt8)
  | 46 :: s => digits s
  | s => .ok ([], s)

/-- The sign and digits of an exponent; without one, no digits. -/
def exponentDigits : List UInt8 → Except Fault (Bool × List UInt8 × List UInt8)
  | [] => .ok (false, [], [])
  | b :: s =>
    if b = 101 || b = 69 then
      match s with
      | 45 :: s => (digits s).map fun p => (true, p)
      | 43 :: s => (digits s).map fun p => (false, p)
      | s => (digits s).map fun p => (false, p)
    else .ok (false, [], b :: s)

def unsigned (negative : Bool) (s : List UInt8) : Except Fault (Number × List UInt8) :=
  match wholeDigits s with
  | .error e => .error e
  | .ok (whole, s) =>
    match fractionDigits s with
    | .error e => .error e
    | .ok (fraction, s) =>
      match exponentDigits s with
      | .error e => .error e
      | .ok (exponentNegative, exponent, s) =>
        .ok (⟨negative, whole, fraction, exponentNegative, exponent⟩, s)

def read : List UInt8 → Except Fault (Number × List UInt8)
  | 45 :: s => unsigned true s
  | s => unsigned false s

theorem length_of_digits {s ds rest : List UInt8} (h : digits s = .ok (ds, rest)) :
    rest.length < s.length := by
  simp only [digits] at h
  split at h
  · simp at h
  · rename_i hd
    obtain ⟨rfl, rfl⟩ := by simpa using h
    have hs := congrArg List.length (List.takeWhile_append_dropWhile (p := isDigit) (l := s))
    have : 0 < (s.takeWhile isDigit).length := by
      rw [List.length_pos_iff]; simpa using hd
    rw [List.length_append] at hs
    omega

theorem length_of_wholeDigits {s ds rest : List UInt8} (h : wholeDigits s = .ok (ds, rest)) :
    rest.length < s.length := by
  unfold wholeDigits at h
  split at h
  · simp at h
  · rename_i hd
    have := length_of_digits hd
    split at h
    · simp at h
    · simp at h; grind

theorem length_of_fractionDigits {s ds rest : List UInt8}
    (h : fractionDigits s = .ok (ds, rest)) : rest.length ≤ s.length := by
  unfold fractionDigits at h
  split at h
  · have := length_of_digits h
    simp; omega
  · simp at h; grind

theorem length_of_exponentDigits {s ds rest : List UInt8} {neg : Bool}
    (h : exponentDigits s = .ok (neg, ds, rest)) : rest.length ≤ s.length := by
  have key : ∀ {t : List UInt8} {sign : Bool},
      (digits t).map (fun p => (sign, p)) = .ok (neg, ds, rest) → rest.length < t.length := by
    intro t sign ht
    cases hd : digits t with
    | error e => simp [hd, Except.map] at ht
    | ok p =>
      simp only [hd, Except.map, Except.ok.injEq, Prod.mk.injEq] at ht
      exact length_of_digits (by rw [hd, ht.2])
  cases s with
  | nil => simp [exponentDigits] at h; grind
  | cons b s =>
    simp only [exponentDigits] at h
    split at h
    · split at h <;> have hr := key h
      all_goals simp only [List.length_cons]; omega
    · simp at h; grind

theorem length_of_unsigned {s rest : List UInt8} {neg : Bool} {n : Number}
    (h : unsigned neg s = .ok (n, rest)) : rest.length < s.length := by
  unfold unsigned at h
  split at h
  · simp at h
  · rename_i hw
    have := length_of_wholeDigits hw
    split at h
    · simp at h
    · rename_i hf
      have := length_of_fractionDigits hf
      split at h
      · simp at h
      · rename_i he
        have := length_of_exponentDigits he
        simp at h; grind

theorem length_of_read {s rest : List UInt8} {n : Number} (h : read s = .ok (n, rest)) :
    rest.length < s.length := by
  unfold read at h
  split at h
  · have := length_of_unsigned h
    simp; omega
  · exact length_of_unsigned h

/-- Adds digits to a significand while it fits 64 bits; gives how many were left out. -/
def gather (significand : Nat) : List UInt8 → Nat × Nat
  | [] => (significand, 0)
  | d :: ds =>
    let next := 10 * significand + digit d
    if next < Nat.pow 2 64 then gather next ds else (significand, ds.length + 1)

/-- The value of an exponent's digits; every value from 2^31 on counts as 2^31. -/
def magnitude (ds : List UInt8) : Nat := ds.foldl (fun n d => min (10 * n + digit d) (Nat.pow 2 31)) 0

/-- Rounds to 53 significant bits, a tie to the even neighbour. -/
def round53 (n : Nat) : Nat :=
  if n < Nat.pow 2 53 then n
  else
    let unit := Nat.pow 2 (n.log2 - 52)
    let quotient := n / unit
    let twice := 2 * (n % unit)
    (if unit < twice || (twice = unit && quotient % 2 = 1) then quotient + 1 else quotient) * unit

def scaled (n : Number) : Nat × Int :=
  let whole := gather 0 n.whole
  let all := gather whole.1 n.fraction
  let written : Int := magnitude n.exponent
  (all.1, (whole.2 : Int) - (n.fraction.length - all.2 : Nat) +
    (if n.exponentNegative then -written else written))

/-- The least product that rounds beyond the greatest double. -/
def infinite : Nat := (Nat.pow 2 54 - 1) * Nat.pow 2 970

def isFinite (n : Number) : Bool :=
  let (significand, power) := n.scaled
  if significand = 0 || power < 0 then true
  else if 308 < power then false
  else round53 significand * round53 (Nat.pow 10 power.toNat) < infinite

end Number

end BallotServer.Json
