/-! Decimal integers as text: the digits a value is written with, and the readers for plain
digits, for 64-bit signed and for bounded unsigned numbers. A number too large for its range
is refused, however many digits it has; leading zeros never matter. -/

namespace BallotServer.Decimal

def isDigit (c : Char) : Bool := '0' ≤ c && c ≤ '9'

def digitValue (c : Char) : Nat := c.toNat - '0'.toNat

def value (digits : List Char) : Nat :=
  digits.foldl (fun n c => 10 * n + digitValue c) 0

def isNumeral (cs : List Char) : Bool := !cs.isEmpty && cs.all isDigit

/-- The value of a row of digits that follow digits of value `n`, as long as it is no greater than
`bound`. -/
def valueUpTo (bound n : Nat) : List Char → Option Nat
  | [] => if n ≤ bound then some n else none
  | c :: cs => if n ≤ bound then valueUpTo bound (10 * n + digitValue c) cs else none

theorem le_foldl_digits (n : Nat) (cs : List Char) :
    n ≤ cs.foldl (fun n c => 10 * n + digitValue c) n := by
  induction cs generalizing n with
  | nil => exact Nat.le_refl n
  | cons c cs ih => exact Nat.le_trans (by omega) (ih (10 * n + digitValue c))

theorem valueUpTo_eq (bound n : Nat) (cs : List Char) :
    valueUpTo bound n cs =
      let m := cs.foldl (fun n c => 10 * n + digitValue c) n
      if m ≤ bound then some m else none := by
  induction cs generalizing n with
  | nil => rfl
  | cons c cs ih =>
    unfold valueUpTo
    by_cases h : n ≤ bound
    · rw [if_pos h, ih]
      rfl
    · have hm := le_foldl_digits n (c :: cs)
      rw [if_neg h]
      exact (if_neg (by omega)).symm

def fits (bound : Nat) (digits : List Char) : Bool := (valueUpTo bound 0 digits).isSome

theorem fits_iff {bound : Nat} {digits : List Char} : fits bound digits ↔ value digits ≤ bound := by
  rw [fits, valueUpTo_eq]
  by_cases h : value digits ≤ bound
  · simp only [value] at h ⊢
    simp [h]
  · simp only [value] at h ⊢
    simp [h]

def readUpTo (bound : Nat) (cs : List Char) : Option Nat :=
  if isNumeral cs && fits bound cs then some (value cs) else none

def greatestId : Nat := Nat.pow 2 63 - 1

/-- Reads an unsigned number up to `bound`, with at most one leading plus. -/
def readUnsigned (bound : Nat) : List Char → Option Nat
  | '+' :: cs => readUpTo bound cs
  | cs => readUpTo bound cs

/-- Reads a signed 64-bit number, with at most one leading plus or minus. -/
def readSigned : List Char → Option Int
  | '-' :: cs => (readUpTo (greatestId + 1) cs).map fun n => -(n : Int)
  | '+' :: cs => (readUpTo greatestId cs).map fun n => (n : Int)
  | cs => (readUpTo greatestId cs).map fun n => (n : Int)

/-- The canonical digits: no leading zero, a minus sign below zero. -/
def write : Int → List Char
  | .ofNat n => Nat.toDigits 10 n
  | .negSucc n => '-' :: Nat.toDigits 10 (n + 1)

def text (i : Int) : String := String.ofList (write i)

theorem toList_text (i : Int) : (text i).toList = write i := by simp [text]

theorem write_ofNat (n : Nat) : write (n : Int) = Nat.toDigits 10 n := rfl

theorem readUpTo_eq_some_iff {bound : Nat} {cs : List Char} {n : Nat} :
    readUpTo bound cs = some n ↔ isNumeral cs ∧ value cs = n ∧ n ≤ bound := by
  unfold readUpTo
  by_cases h : isNumeral cs <;> by_cases hf : fits bound cs <;> have hv := @fits_iff bound cs <;>
    grind

end BallotServer.Decimal
