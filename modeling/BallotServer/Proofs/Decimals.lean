import BallotServer.Decimal

/-! Decimals are read back as they are written, rows of digits differ from them in leading zeros
only, and what texts are read as 64-bit integers. -/

namespace BallotServer.Decimal

theorem value_toDigits (n : Nat) : value (Nat.toDigits 10 n) = n :=
  Nat.ofDigitChars_ten_toDigits

theorem isNumeral_toDigits (n : Nat) : isNumeral (Nat.toDigits 10 n) := by
  have all : (Nat.toDigits 10 n).all isDigit :=
    List.all_eq_true.2 fun c member => Nat.isDigit_of_mem_toDigits (by decide) (by decide) member
  have some : (Nat.toDigits 10 n).isEmpty = false := by
    simp
  rw [isNumeral, all, some]
  rfl

theorem digitValue_lt {c : Char} (digit : isDigit c) : digitValue c < 10 := by
  obtain ⟨-, most⟩ := Bool.and_eq_true_iff.1 digit
  have most : c.toNat ≤ 57 := of_decide_eq_true most
  have zero : '0'.toNat = 48 := rfl
  unfold digitValue
  omega

theorem digitChar_digitValue {c : Char} (digit : isDigit c) : (digitValue c).digitChar = c := by
  obtain ⟨least, -⟩ := Bool.and_eq_true_iff.1 digit
  have least : 48 ≤ c.toNat := of_decide_eq_true least
  apply Char.toNat_inj.1
  rw [Nat.toNat_digitChar_of_lt_ten (digitValue_lt digit), digitValue, show '0'.toNat = 48 from rfl]
  omega

theorem toDigits_append {n : Nat} (positive : 0 < n) {digits : List Char}
    (all : ∀ c ∈ digits, isDigit c) :
    Nat.toDigits 10 n ++ digits =
      Nat.toDigits 10 (digits.foldl (fun n c => 10 * n + digitValue c) n) := by
  induction digits generalizing n with
  | nil => exact List.append_nil _
  | cons c digits ih =>
    obtain ⟨digit, later⟩ := List.forall_mem_cons.1 all
    have last : Nat.toDigits 10 (digitValue c) = [c] := by
      rw [Nat.toDigits_of_lt_base (digitValue_lt digit), digitChar_digitValue digit]
    have one := Nat.toDigits_append_toDigits (by decide : 1 < 10) positive (digitValue_lt digit)
    rw [last] at one
    rw [List.append_cons, one]
    exact ih (by omega) later

theorem exists_zeros {digits : List Char} (numeral : isNumeral digits) :
    ∃ zeros, digits = List.replicate zeros '0' ++ Nat.toDigits 10 (value digits) := by
  obtain ⟨some, all⟩ := Bool.and_eq_true_iff.1 numeral
  rw [List.all_eq_true] at all
  induction digits with
  | nil => cases some
  | cons c digits ih =>
    obtain ⟨digit, later⟩ := List.forall_mem_cons.1 all
    by_cases zero : c = '0'
    · subst zero
      cases digits with
      | nil => exact ⟨0, rfl⟩
      | cons d digits =>
        have more : isNumeral (d :: digits) := Bool.and_eq_true_iff.2 ⟨rfl, List.all_eq_true.2 later⟩
        obtain ⟨zeros, same⟩ := ih more rfl later
        refine ⟨zeros + 1, ?_⟩
        rw [List.replicate_succ, List.cons_append]
        exact congrArg _ same
    · have positive : 0 < digitValue c := by
        refine Nat.pos_of_ne_zero fun none => zero ?_
        rw [← digitChar_digitValue digit, none]
        rfl
      have first : Nat.toDigits 10 (digitValue c) = [c] := by
        rw [Nat.toDigits_of_lt_base (digitValue_lt digit), digitChar_digitValue digit]
      have start : value (c :: digits) =
          digits.foldl (fun n c => 10 * n + digitValue c) (digitValue c) := by
        simp [value]
      refine ⟨0, ?_⟩
      rw [start, ← toDigits_append positive later, first]
      rfl

theorem value_zeros (zeros : Nat) (digits : List Char) :
    value (List.replicate zeros '0' ++ digits) = value digits := by
  induction zeros with
  | zero => rfl
  | succ zeros ih => exact ih

theorem isNumeral_zeros (zeros n : Nat) :
    isNumeral (List.replicate zeros '0' ++ Nat.toDigits 10 n) := by
  induction zeros with
  | zero => exact isNumeral_toDigits n
  | succ zeros ih =>
    obtain ⟨-, all⟩ := Bool.and_eq_true_iff.1 ih
    exact Bool.and_eq_true_iff.2 ⟨rfl, all⟩

/-- The texts of a 64-bit integer: digits, with at most one sign before them. -/
inductive Denotes : List Char → Int → Prop
  | plain {digits : List Char} (numeral : isNumeral digits) (most : value digits ≤ Nat.pow 2 63 - 1) :
    Denotes digits (value digits)
  | plus {digits : List Char} (numeral : isNumeral digits) (most : value digits ≤ Nat.pow 2 63 - 1) :
    Denotes ('+' :: digits) (value digits)
  | minus {digits : List Char} (numeral : isNumeral digits) (most : value digits ≤ Nat.pow 2 63) :
    Denotes ('-' :: digits) (-value digits)

theorem readUnsigned_eq_some_iff {bound n : Nat} {cs : List Char} :
    readUnsigned bound cs = some n ↔
      ∃ digits, (cs = digits ∨ cs = '+' :: digits) ∧ isNumeral digits ∧ value digits = n ∧
        n ≤ bound := by
  unfold readUnsigned
  split
  · rename_i digits
    rw [readUpTo_eq_some_iff]
    constructor
    · exact fun read => ⟨digits, .inr rfl, read⟩
    · rintro ⟨_, rfl | same, read⟩
      · cases read.1
      · obtain rfl := (List.cons.inj same).2
        exact read
  · rename_i other
    rw [readUpTo_eq_some_iff]
    constructor
    · exact fun read => ⟨cs, .inl rfl, read⟩
    · rintro ⟨digits, rfl | rfl, read⟩
      · exact read
      · exact absurd rfl (other digits)

theorem map_readUpTo_eq_some_iff {bound : Nat} {cs : List Char} {f : Int → Int} {i : Int} :
    ((readUpTo bound cs >>= fun n => some (n : Int)).map f) = some i ↔
      isNumeral cs ∧ value cs ≤ bound ∧ f (value cs) = i := by
  simp only [Option.bind_eq_bind, Option.map_eq_some_iff, Option.bind_eq_some_iff,
    readUpTo_eq_some_iff]
  grind

theorem readSigned_eq_some_iff {cs : List Char} {i : Int} :
    readSigned cs = some i ↔ Denotes cs i := by
  constructor
  · intro h
    unfold readSigned at h
    split at h
    · obtain ⟨numeral, most, rfl⟩ := map_readUpTo_eq_some_iff.1 h
      exact .minus numeral most
    · obtain ⟨numeral, most, rfl⟩ := map_readUpTo_eq_some_iff.1 h
      exact .plus numeral most
    · obtain ⟨numeral, most, rfl⟩ := map_readUpTo_eq_some_iff.1 h
      exact .plain numeral most
  · rintro (⟨numeral, most⟩ | ⟨numeral, most⟩ | ⟨numeral, most⟩)
    · unfold readSigned
      split
      · cases numeral
      · cases numeral
      · exact map_readUpTo_eq_some_iff.2 ⟨numeral, most, rfl⟩
    · exact map_readUpTo_eq_some_iff.2 ⟨numeral, most, rfl⟩
    · exact map_readUpTo_eq_some_iff.2 ⟨numeral, most, rfl⟩

theorem denotes_write {i : Int} (least : -Nat.pow 2 63 ≤ i) (most : i < Nat.pow 2 63) :
    Denotes (write i) i := by
  cases i with
  | ofNat n =>
    have numeral := isNumeral_toDigits n
    have most : value (Nat.toDigits 10 n) ≤ Nat.pow 2 63 - 1 := by
      rw [value_toDigits]
      simp only [Int.ofNat_eq_natCast] at most
      omega
    have denotes := Denotes.plain numeral most
    rwa [value_toDigits] at denotes
  | negSucc n =>
    have numeral := isNumeral_toDigits (n + 1)
    have most : value (Nat.toDigits 10 (n + 1)) ≤ Nat.pow 2 63 := by
      rw [value_toDigits]
      omega
    have denotes := Denotes.minus numeral most
    rwa [value_toDigits] at denotes

end BallotServer.Decimal
