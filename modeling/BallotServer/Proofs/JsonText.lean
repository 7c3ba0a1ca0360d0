import BallotServer.Json.Scan
import BallotServer.Proofs.Outcomes
import Mathlib.Data.List.TakeWhile

/-! The grammar of JSON, written down as the standard has it, without a reader in mind, and that what
is passed over is a word of it. Texts are rows of bytes. Readers give what is left, so each of them
is said to split its input into a text of its kind and the rest; the machine that passes over a value
keeps a list of open brackets, and what it passes over from there is the rest of the innermost one,
then of the one around it, to the end of the outermost value. -/

namespace BallotServer.Json

def Blank (s : List UInt8) : Prop := ∀ b ∈ s, isBlank b

theorem blank_nil : Blank [] := List.forall_mem_nil _

def Digits (s : List UInt8) : Prop := s ≠ [] ∧ ∀ b ∈ s, 48 ≤ b ∧ b ≤ 57

/-- The digits before the point: nothing follows a leading zero. -/
def Whole (s : List UInt8) : Prop := Digits s ∧ (s.head? = some 48 → s = [48])

inductive Fraction : List UInt8 → Prop
  | none : Fraction []
  | point {s : List UInt8} (digits : Digits s) : Fraction (46 :: s)

inductive Exponent : List UInt8 → Prop
  | none : Exponent []
  | marked {e : UInt8} {sign s : List UInt8} (mark : e = 101 ∨ e = 69)
      (signed : sign = [] ∨ sign = [43] ∨ sign = [45]) (digits : Digits s) :
    Exponent (e :: (sign ++ s))

inductive Numeral : List UInt8 → Prop
  | mk {sign whole fraction exponent : List UInt8} (signed : sign = [] ∨ sign = [45])
      (front : Whole whole) (point : Fraction fraction) (power : Exponent exponent) :
    Numeral (sign ++ (whole ++ (fraction ++ exponent)))

namespace Number

def sign (negative : Bool) : List UInt8 := if negative then [45] else []

inductive Pointed : List UInt8 → List UInt8 → Prop
  | none : Pointed [] []
  | point {s : List UInt8} (digits : Digits s) : Pointed s (46 :: s)

inductive Raised : Bool → List UInt8 → List UInt8 → Prop
  | none : Raised false [] []
  | up {e : UInt8} {sign s : List UInt8} (mark : e = 101 ∨ e = 69)
      (signed : sign = [] ∨ sign = [43]) (digits : Digits s) : Raised false s (e :: (sign ++ s))
  | down {e : UInt8} {s : List UInt8} (mark : e = 101 ∨ e = 69) (digits : Digits s) :
    Raised true s (e :: 45 :: s)

inductive Spelled (n : Number) : List UInt8 → Prop
  | mk {fraction exponent : List UInt8} (front : Whole n.whole) (point : Pointed n.fraction fraction)
      (power : Raised n.exponentNegative n.exponent exponent) :
    Spelled n (sign n.negative ++ (n.whole ++ (fraction ++ exponent)))

variable {n : Number} {ds s : List UInt8} {negative : Bool}

theorem Pointed.fraction (point : Pointed ds s) : Fraction s := by
  cases point with
  | none => exact .none
  | point digits => exact .point digits

theorem Raised.exponent (power : Raised negative ds s) : Exponent s := by
  cases power with
  | none => exact .none
  | up mark signed digits => exact .marked mark (signed.imp_right .inl) digits
  | down mark digits => exact .marked mark (.inr (.inr rfl)) digits

theorem Spelled.numeral (spelled : n.Spelled s) : Numeral s := by
  obtain ⟨front, point, power⟩ := spelled
  refine .mk ?_ front point.fraction power.exponent
  cases n.negative
  · exact .inl rfl
  · exact .inr rfl

end Number

theorem Fraction.exists_pointed {s : List UInt8} (fraction : Fraction s) :
    ∃ ds, Number.Pointed ds s := by
  cases fraction with
  | none => exact ⟨[], .none⟩
  | point digits => exact ⟨_, .point digits⟩

theorem Exponent.exists_raised {s : List UInt8} (exponent : Exponent s) :
    ∃ negative ds, Number.Raised negative ds s := by
  cases exponent with
  | none => exact ⟨false, [], .none⟩
  | marked mark signed digits =>
    rcases signed with rfl | rfl | rfl
    · exact ⟨false, _, .up mark (.inl rfl) digits⟩
    · exact ⟨false, _, .up mark (.inr rfl) digits⟩
    · exact ⟨true, _, .down mark digits⟩

theorem Numeral.exists_spelled {s : List UInt8} (numeral : Numeral s) :
    ∃ n : Number, n.Spelled s := by
  obtain ⟨signed, front, fraction, exponent⟩ := numeral
  obtain ⟨ds, point⟩ := fraction.exists_pointed
  obtain ⟨negative, es, power⟩ := exponent.exists_raised
  rcases signed with rfl | rfl
  · exact ⟨⟨false, _, ds, negative, es⟩, .mk front point power⟩
  · exact ⟨⟨true, _, ds, negative, es⟩, .mk front point power⟩

def IsHex (b : UInt8) : Prop := 48 ≤ b ∧ b ≤ 57 ∨ 97 ≤ b ∧ b ≤ 102 ∨ 65 ≤ b ∧ b ≤ 70

def HexDigit (b : UInt8) (v : Nat) : Prop :=
  "0123456789abcdef".toUTF8.data.toList[v]? = some b ∨
    "0123456789ABCDEF".toUTF8.data.toList[v]? = some b

inductive Hex : List UInt8 → Nat → Prop
  | mk {a b c d : UInt8} {v w x y : Nat} (first : HexDigit a v) (second : HexDigit b w)
      (third : HexDigit c x) (fourth : HexDigit d y) :
    Hex [a, b, c, d] (((v * 16 + w) * 16 + x) * 16 + y)

/-- One character of a string as it is written: it stands for itself, or a letter or four hex digits
stand for it after a backslash. -/
inductive Symbol : List UInt8 → Prop
  | plain {b : UInt8} (visible : 0x20 ≤ b) (inside : b ≠ quote) (itself : b ≠ backslash) : Symbol [b]
  | letter {b : UInt8} (known : b ∈ [quote, backslash, 47, 98, 102, 110, 114, 116]) :
    Symbol [backslash, b]
  | unit {a b c d : UInt8} (hex : ∀ x ∈ [a, b, c, d], IsHex x) : Symbol [backslash, 117, a, b, c, d]

inductive Symbols : List UInt8 → Prop
  | nil : Symbols []
  | cons {s t : List UInt8} (first : Symbol s) (rest : Symbols t) : Symbols (s ++ t)

def Quoted (s : List UInt8) : Prop := ∃ inside, Symbols inside ∧ s = quote :: (inside ++ [quote])

def Key (s : List UInt8) : Prop :=
  ∃ before key after, Blank before ∧ Quoted key ∧ Blank after ∧
    s = before ++ (key ++ (after ++ [colon]))

def Bracket.opening : Bracket → UInt8
  | list => openList
  | object => openObject

def Lead : Bracket → List UInt8 → Prop
  | .list, s => Blank s
  | .object, s => ∃ key gap, Key key ∧ Blank gap ∧ s = key ++ gap

inductive Kind
  | value
  | inside (b : Bracket)

/-- The texts of each kind. A value has no blanks around it, the items of a bracket may have. -/
inductive Written : Kind → List UInt8 → Prop
  | null : Written .value [110, 117, 108, 108]
  | true : Written .value [116, 114, 117, 101]
  | false : Written .value [102, 97, 108, 115, 101]
  | numeral {s : List UInt8} (numeral : Numeral s) : Written .value s
  | quoted {s : List UInt8} (quoted : Quoted s) : Written .value s
  | hollow {b : Bracket} {gap : List UInt8} (blank : Blank gap) :
    Written .value (b.opening :: (gap ++ [b.closing]))
  | bracket {b : Bracket} {s : List UInt8} (items : Written (.inside b) s) :
    Written .value (b.opening :: (s ++ [b.closing]))
  | item {b : Bracket} {lead s gap : List UInt8} (leads : Lead b lead) (value : Written .value s)
      (blank : Blank gap) : Written (.inside b) (lead ++ (s ++ gap))
  | row {b : Bracket} {s t : List UInt8} (first : Written (.inside b) s)
      (rest : Written (.inside b) t) : Written (.inside b) (s ++ comma :: t)

abbrev Value (s : List UInt8) : Prop := Written .value s

section Outside

variable {s : List UInt8}

theorem isBlank_of_digit {b : UInt8} (digit : 48 ≤ b ∧ b ≤ 57) : isBlank b = false := by
  have other {c : UInt8} (below : c < 48) : (b == c) = false := by
    refine beq_eq_false_iff_ne.2 fun is => UInt8.not_le.2 below ?_
    exact is ▸ digit.1
  simp [isBlank, other]

theorem Numeral.not_isBlank (numeral : Numeral s) {b : UInt8} (member : b ∈ s) :
    isBlank b = false := by
  have digits {t : List UInt8} (digits : Digits t) (here : b ∈ t) : isBlank b = false :=
    isBlank_of_digit (digits.2 b here)
  obtain ⟨signed, whole, fraction, exponent⟩ := numeral
  simp only [List.mem_append] at member
  rcases member with sign | here | here | here
  · rcases signed with rfl | rfl
    · cases sign
    · obtain rfl := List.mem_singleton.1 sign
      rfl
  · exact digits whole.1 here
  · cases fraction with
    | none => cases here
    | point after =>
      rcases List.mem_cons.1 here with rfl | here
      · rfl
      · exact digits after here
  · cases exponent with
    | none => cases here
    | marked mark signed after =>
      rcases List.mem_cons.1 here with rfl | here
      · rcases mark with rfl | rfl <;> rfl
      · rcases List.mem_append.1 here with sign | here
        · rcases signed with rfl | rfl | rfl
          · cases sign
          · obtain rfl := List.mem_singleton.1 sign
            rfl
          · obtain rfl := List.mem_singleton.1 sign
            rfl
        · exact digits after here

/-- Neither the first nor the last byte is a blank. -/
def Bare (s : List UInt8) : Prop :=
  ∀ b, s.head? = some b ∨ s.getLast? = some b → isBlank b = false

theorem bare_of_all (none : ∀ b ∈ s, isBlank b = false) : Bare s := by
  rintro b (first | last)
  · exact none b (List.mem_of_mem_head? first)
  · exact none b (List.mem_of_getLast? last)

theorem bare_of_ends {first last : UInt8} (begins : isBlank first = false)
    (ends : isBlank last = false) : Bare (first :: (s ++ [last])) := by
  rintro b (is | is)
  · exact Option.some.inj is ▸ begins
  · rw [← List.cons_append, List.getLast?_concat] at is
    exact Option.some.inj is ▸ ends

theorem Written.bare (value : Value s) : Bare s := by
  cases value with
  | null | true | false => exact bare_of_all (by simp [isBlank])
  | numeral numeral => exact bare_of_all fun b => numeral.not_isBlank
  | quoted quoted =>
    obtain ⟨inside, -, rfl⟩ := quoted
    exact bare_of_ends rfl rfl
  | @hollow b gap blank => cases b <;> exact bare_of_ends rfl rfl
  | @bracket b s items => cases b <;> exact bare_of_ends rfl rfl

end Outside

section Tokens

variable {s rest : List UInt8}

theorem exists_blank (s : List UInt8) : ∃ gap, Blank gap ∧ s = gap ++ skipBlank s :=
  ⟨s.takeWhile isBlank, fun _ => List.mem_takeWhile_imp, (List.takeWhile_append_dropWhile ..).symm⟩

theorem exists_blank_of_cons {b : UInt8} {r : List UInt8} (h : skipBlank s = b :: r) :
    ∃ gap, Blank gap ∧ s = gap ++ b :: r := by
  rw [← h]
  exact exists_blank s

theorem eq_of_word {w : List UInt8} (h : word w s = .ok rest) : s = w ++ rest := by
  induction w generalizing s with
  | nil =>
    cases h
    rfl
  | cons x w ih =>
    cases s with
    | nil => cases h
    | cons b s =>
      rw [word] at h
      split at h
      · rename_i same
        rw [ih h, same, List.cons_append]
      · cases h

theorem digits_of_digits {ds : List UInt8} (h : Number.digits s = .ok (ds, rest)) :
    Digits ds ∧ s = ds ++ rest := by
  simp only [Number.digits] at h
  split at h
  · cases h
  · rename_i some
    cases h
    refine ⟨⟨by simpa using some, fun b member => ?_⟩, (List.takeWhile_append_dropWhile ..).symm⟩
    simpa [Number.isDigit] using List.mem_takeWhile_imp member

theorem whole_of_wholeDigits {ds : List UInt8} (h : Number.wholeDigits s = .ok (ds, rest)) :
    Whole ds ∧ s = ds ++ rest := by
  unfold Number.wholeDigits at h
  split at h
  · cases h
  · rename_i read
    obtain ⟨digits, rfl⟩ := digits_of_digits read
    split at h
    · cases h
    · rename_i alone
      cases h
      refine ⟨⟨digits, fun zero => ?_⟩, rfl⟩
      have one : ds.length = 1 := by simpa [zero] using alone
      obtain ⟨b, rfl⟩ := List.length_eq_one_iff.1 one
      cases zero
      rfl

theorem pointed_of_fractionDigits {ds : List UInt8}
    (h : Number.fractionDigits s = .ok (ds, rest)) :
    ∃ t, Number.Pointed ds t ∧ s = t ++ rest := by
  unfold Number.fractionDigits at h
  split at h
  · obtain ⟨digits, rfl⟩ := digits_of_digits h
    exact ⟨_, .point digits, rfl⟩
  · cases h
    exact ⟨[], .none, rfl⟩

theorem raised_of_exponentDigits {ds : List UInt8} {negative : Bool}
    (h : Number.exponentDigits s = .ok (negative, ds, rest)) :
    ∃ t, Number.Raised negative ds t ∧ s = t ++ rest := by
  have signed {sign : Bool} {t : List UInt8}
      (h : (Number.digits t).map (fun p => (sign, p)) = .ok (negative, ds, rest)) :
      sign = negative ∧ Digits ds ∧ t = ds ++ rest := by
    obtain ⟨p, read, is⟩ := exists_of_map_eq_ok h
    cases is
    exact ⟨rfl, digits_of_digits read⟩
  cases s with
  | nil =>
    cases h
    exact ⟨[], .none, rfl⟩
  | cons e s =>
    simp only [Number.exponentDigits] at h
    split at h
    · rename_i mark
      have mark : e = 101 ∨ e = 69 := by simpa using mark
      split at h
      · obtain ⟨rfl, digits, rfl⟩ := signed h
        exact ⟨_, .down mark digits, rfl⟩
      · obtain ⟨rfl, digits, rfl⟩ := signed h
        exact ⟨_, .up mark (.inr rfl) digits, rfl⟩
      · obtain ⟨rfl, digits, rfl⟩ := signed h
        exact ⟨_, .up mark (.inl rfl) digits, rfl⟩
    · cases h
      exact ⟨[], .none, rfl⟩

theorem spelled_of_unsigned {n : Number} {negative : Bool}
    (h : Number.unsigned negative s = .ok (n, rest)) :
    ∃ t, n.Spelled t ∧ Number.sign negative ++ s = t ++ rest := by
  unfold Number.unsigned at h
  split at h
  · cases h
  · rename_i read
    obtain ⟨whole, rfl⟩ := whole_of_wholeDigits read
    split at h
    · cases h
    · rename_i read
      obtain ⟨t, fraction, rfl⟩ := pointed_of_fractionDigits read
      split at h
      · cases h
      · rename_i read
        obtain ⟨u, exponent, rfl⟩ := raised_of_exponentDigits read
        cases h
        exact ⟨_, .mk whole fraction exponent, by simp only [List.append_assoc]⟩

theorem spelled_of_read {n : Number} (h : Number.read s = .ok (n, rest)) :
    ∃ t, n.Spelled t ∧ s = t ++ rest := by
  unfold Number.read at h
  split at h
  · exact spelled_of_unsigned h
  · exact spelled_of_unsigned h

theorem hexValue?_eq_some_iff {b : UInt8} {v : Nat} : hexValue? b = some v ↔ HexDigit b v := by
  have found : ∀ n : Fin 256, ∀ v ∈ hexValue? (UInt8.ofNat n),
      "0123456789abcdef".toUTF8.data.toList[v]? = some (UInt8.ofNat n) ∨
        "0123456789ABCDEF".toUTF8.data.toList[v]? = some (UInt8.ofNat n) := by
    decide +kernel
  have lower : ∀ v < 16, ∀ b ∈ "0123456789abcdef".toUTF8.data.toList[v]?, hexValue? b = some v := by
    decide +kernel
  have upper : ∀ v < 16, ∀ b ∈ "0123456789ABCDEF".toUTF8.data.toList[v]?, hexValue? b = some v := by
    decide +kernel
  have size : "0123456789abcdef".toUTF8.data.toList.length = 16 ∧
      "0123456789ABCDEF".toUTF8.data.toList.length = 16 := by
    decide +kernel
  constructor
  · intro is
    simpa [HexDigit] using found ⟨b.toNat, b.toNat_lt⟩ v (by simpa using is)
  · rintro (is | is)
    · exact lower v (size.1 ▸ (List.getElem?_eq_some_iff.1 is).1) b is
    · exact upper v (size.2 ▸ (List.getElem?_eq_some_iff.1 is).1) b is

theorem isHex_iff {b : UInt8} : IsHex b ↔ ∃ v, HexDigit b v := by
  have some : (hexValue? b).isSome ↔ IsHex b := by
    simp only [hexValue?, IsHex, Bool.and_eq_true, decide_eq_true_eq]
    split_ifs <;> simp [*]
  simp only [← some, Option.isSome_iff_exists, hexValue?_eq_some_iff]

theorem Hex.symbol {n : Nat} (hex : Hex s n) : Symbol (backslash :: 117 :: s) := by
  obtain ⟨first, second, third, fourth⟩ := hex
  refine .unit ?_
  simp only [List.forall_mem_cons, isHex_iff]
  exact ⟨⟨_, first⟩, ⟨_, second⟩, ⟨_, third⟩, ⟨_, fourth⟩, List.forall_mem_nil _⟩

theorem exists_hex {a b c d : UInt8} (digits : ∀ x ∈ [a, b, c, d], IsHex x) :
    ∃ n, Hex [a, b, c, d] n := by
  simp only [List.forall_mem_cons, isHex_iff] at digits
  obtain ⟨⟨v, first⟩, ⟨w, second⟩, ⟨x, third⟩, ⟨y, fourth⟩, -⟩ := digits
  exact ⟨_, .mk first second third fourth⟩

theorem exists_hex_of_unit {n : Nat} (h : unit s = .ok (n, rest)) :
    ∃ t, Hex t n ∧ s = t ++ rest := by
  unfold unit at h
  split at h
  · split at h
    · rename_i first second third fourth
      cases h
      exact ⟨_, .mk (hexValue?_eq_some_iff.1 first) (hexValue?_eq_some_iff.1 second)
        (hexValue?_eq_some_iff.1 third) (hexValue?_eq_some_iff.1 fourth), rfl⟩
    · cases h
  · cases h

theorem Hex.read {t : List UInt8} {n : Nat} (hex : Hex t n) (rest : List UInt8) :
    unit (t ++ rest) = .ok (n, rest) := by
  obtain ⟨first, second, third, fourth⟩ := hex
  simp only [← hexValue?_eq_some_iff] at first second third fourth
  simp only [List.cons_append, List.nil_append, unit, first, second, third, fourth]

theorem isSome_escaped?_iff {b : UInt8} :
    (escaped? b).isSome ↔ b ∈ [quote, backslash, 47, 98, 102, 110, 114, 116] := by
  simp only [escaped?, List.mem_cons, List.not_mem_nil, or_false, Bool.or_eq_true,
    decide_eq_true_eq, or_assoc]
  split_ifs <;> grind

theorem symbol_of_skipEscape (h : skipEscape s = .ok rest) :
    ∃ t, Symbol (backslash :: t) ∧ s = t ++ rest := by
  cases s with
  | nil => cases h
  | cons b s =>
    simp only [skipEscape] at h
    split at h
    · rename_i is
      obtain ⟨p, read, rfl⟩ := exists_of_map_eq_ok h
      obtain ⟨t, hex, rfl⟩ := exists_hex_of_unit read
      exact ⟨117 :: t, hex.symbol, by rw [is]; rfl⟩
    · split at h
      · rename_i known
        cases h
        exact ⟨[b], .letter (isSome_escaped?_iff.1 known), rfl⟩
      · cases h

theorem symbols_of_skipString (h : skipString s = .ok rest) :
    ∃ t, Symbols t ∧ s = t ++ quote :: rest := by
  fun_induction skipString s with
  | case1 => cases h
  | case2 s =>
    cases h
    exact ⟨[], .nil, rfl⟩
  | case3 => cases h
  | case4 s rest' escape _ _ ih =>
    obtain ⟨t, symbol, rfl⟩ := symbol_of_skipEscape escape
    obtain ⟨u, symbols, rfl⟩ := ih h
    exact ⟨_, .cons symbol symbols, by simp only [List.append_assoc, List.cons_append]⟩
  | case5 => cases h
  | case6 b s other plain visible ih =>
    obtain ⟨u, symbols, rfl⟩ := ih h
    exact ⟨_, .cons (.plain (UInt8.not_lt.1 visible) other plain) symbols, rfl⟩

theorem quoted_of_skipString (h : skipString s = .ok rest) :
    ∃ t, Quoted t ∧ quote :: s = t ++ rest := by
  obtain ⟨t, symbols, rfl⟩ := symbols_of_skipString h
  exact ⟨_, ⟨t, symbols, rfl⟩, by simp only [List.cons_append, List.append_assoc, List.nil_append]⟩

theorem value_of_skipScalar (h : skipScalar s = .ok rest) : ∃ t, Value t ∧ s = t ++ rest := by
  unfold skipScalar at h
  split at h
  · cases h
  · rename_i b r
    split at h
    · rename_i is
      obtain ⟨t, quoted, split⟩ := quoted_of_skipString h
      exact ⟨t, .quoted quoted, is ▸ split⟩
    · split at h
      · rename_i is
        exact ⟨_, .null, by rw [is, eq_of_word h]; rfl⟩
      · split at h
        · rename_i is
          exact ⟨_, .true, by rw [is, eq_of_word h]; rfl⟩
        · split at h
          · rename_i is
            exact ⟨_, .false, by rw [is, eq_of_word h]; rfl⟩
          · obtain ⟨p, read, rfl⟩ := exists_of_map_eq_ok h
            obtain ⟨t, spelled, split⟩ := spelled_of_read read
            exact ⟨t, .numeral spelled.numeral, split⟩

theorem key_of_skipKey (h : skipKey s = .ok rest) : ∃ t, Key t ∧ s = t ++ rest := by
  unfold skipKey at h
  split at h
  · cases h
  · rename_i b r found
    obtain ⟨before, blank, rfl⟩ := exists_blank_of_cons found
    split at h
    · rename_i is
      split at h
      · cases h
      · rename_i r' read
        obtain ⟨key, quoted, split⟩ := quoted_of_skipString read
        split at h
        · cases h
        · rename_i c u next
          obtain ⟨after, blank', rfl⟩ := exists_blank_of_cons next
          split at h
          · rename_i is'
            cases h
            refine ⟨_, ⟨before, key, after, blank, quoted, blank', rfl⟩, ?_⟩
            rw [is, split, is']
            simp only [List.append_assoc, List.cons_append, List.nil_append]
          · cases h
    · cases h

end Tokens

/-- What follows a value in an open bracket, up to the end of the bracket. -/
inductive Tail (b : Bracket) : List UInt8 → Prop
  | close {gap : List UInt8} (blank : Blank gap) : Tail b (gap ++ [b.closing])
  | next {gap lead s t : List UInt8} (blank : Blank gap) (leads : Lead b lead) (value : Value s)
      (tail : Tail b t) : Tail b (gap ++ comma :: (lead ++ (s ++ t)))

theorem Tail.items {b : Bracket} {lead s t : List UInt8} (tail : Tail b t) (leads : Lead b lead)
    (value : Value s) :
    ∃ inside, Written (.inside b) inside ∧ lead ++ (s ++ t) = inside ++ [b.closing] := by
  induction tail generalizing lead s with
  | @close gap blank =>
    exact ⟨_, .item leads value blank, by simp only [List.append_assoc]⟩
  | @next gap lead' s' t blank leads' value' tail ih =>
    obtain ⟨inside, items, split⟩ := ih leads' value'
    refine ⟨_, .row (.item leads value blank) items, ?_⟩
    rw [split]
    simp only [List.append_assoc, List.cons_append]

/-- What follows a value inside open brackets, innermost first, to the end of the outermost. -/
def Closes : List Bracket → List UInt8 → Prop
  | [], t => t = []
  | b :: outer, t => ∃ u v, Tail b u ∧ Closes outer v ∧ t = u ++ v

def PassesItem (b : Bracket) (stack : List Bracket) (t : List UInt8) : Prop :=
  ∃ lead s u, Lead b lead ∧ Value s ∧ Closes stack u ∧ t = lead ++ (s ++ u)

/-- What is passed over from a phase on inside open brackets. -/
def Passes : Phase → List Bracket → List UInt8 → Prop
  | .complete, stack, t => Closes stack t
  | .opened, [], _ => False
  | .opened, b :: outer, t =>
    ∃ s v, Value (b.opening :: s) ∧ Closes outer v ∧ t = s ++ v
  | .key, stack, t => PassesItem .object stack t
  | .value, stack, t => PassesItem .list stack t

theorem passes_item (b : Bracket) (stack : List Bracket) (t : List UInt8) :
    Passes b.item stack t = PassesItem b stack t := by
  cases b <;> rfl

theorem passes_of_scan {phase : Phase} {stack : List Bracket} {s rest : List UInt8}
    (h : scan phase stack s = .ok rest) : ∃ t, Passes phase stack t ∧ s = t ++ rest := by
  fun_induction scan phase stack s with
  | case1 s =>
    cases h
    exact ⟨[], rfl, rfl⟩
  | case2 => cases h
  | case3 s top outer r found _ ih =>
    obtain ⟨gap, blank, rfl⟩ := exists_blank_of_cons found
    obtain ⟨t, passes, rfl⟩ := ih h
    rw [passes_item] at passes
    obtain ⟨lead, v, u, leads, value, ⟨u, outside, tail, closes, rfl⟩, rfl⟩ := passes
    refine ⟨_, ⟨_, outside, .next blank leads value tail, closes, rfl⟩, ?_⟩
    simp only [List.append_assoc, List.cons_append]
  | case4 s top outer r found _ _ ih =>
    obtain ⟨gap, blank, rfl⟩ := exists_blank_of_cons found
    obtain ⟨t, closes, rfl⟩ := ih h
    refine ⟨_, ⟨_, t, .close blank, closes, rfl⟩, ?_⟩
    simp only [List.append_assoc, List.cons_append, List.nil_append]
  | case5 => cases h
  | case6 => cases h
  | case7 => cases h
  | case8 s top outer r _ found _ ih =>
    obtain ⟨gap, blank, rfl⟩ := exists_blank_of_cons found
    obtain ⟨t, closes, rfl⟩ := ih h
    refine ⟨_, ⟨_, t, .hollow blank, closes, rfl⟩, ?_⟩
    simp only [List.append_assoc, List.cons_append, List.nil_append]
  | case9 s top outer b r found _ _ _ ih =>
    obtain ⟨t, passes, rfl⟩ := ih h
    rw [passes_item] at passes
    obtain ⟨lead, v, u, leads, value, ⟨u, outside, tail, closes, rfl⟩, rfl⟩ := passes
    obtain ⟨inside, items, split⟩ := tail.items leads value
    refine ⟨_, ⟨_, outside, .bracket items, closes, rfl⟩, ?_⟩
    rw [← split]
    simp only [List.append_assoc]
  | case10 => cases h
  | case11 s stack r read _ ih =>
    obtain ⟨key, isKey, rfl⟩ := key_of_skipKey read
    obtain ⟨t, ⟨gap, v, u, blank, value, closes, rfl⟩, rfl⟩ := ih h
    refine ⟨_, ⟨_, v, u, ⟨key, gap, isKey, blank, rfl⟩, value, closes, rfl⟩, ?_⟩
    simp only [List.append_assoc]
  | case12 => cases h
  | case13 s stack r found _ ih | case14 s stack r found _ _ ih =>
    obtain ⟨gap, blank, rfl⟩ := exists_blank_of_cons found
    obtain ⟨t, ⟨inside, u, value, closes, rfl⟩, rfl⟩ := ih h
    refine ⟨_, ⟨gap, _, u, blank, value, closes, rfl⟩, ?_⟩
    simp only [Bracket.opening, List.append_assoc, List.cons_append]
  | case15 => cases h
  | case16 s stack b r found _ _ _ rest' read _ _ ih =>
    obtain ⟨gap, blank, rfl⟩ := exists_blank_of_cons found
    obtain ⟨v, value, split⟩ := value_of_skipScalar read
    obtain ⟨t, closes, rfl⟩ := ih h
    refine ⟨_, ⟨gap, v, t, blank, value, closes, rfl⟩, ?_⟩
    rw [split]
    simp only [List.append_assoc]

theorem value_of_skipValue {s rest : List UInt8} (h : skipValue s = .ok rest) :
    ∃ gap v, Blank gap ∧ Value v ∧ s = gap ++ (v ++ rest) := by
  obtain ⟨t, ⟨gap, v, u, blank, value, rfl, rfl⟩, rfl⟩ := passes_of_scan h
  exact ⟨gap, v, blank, value, by simp only [List.append_assoc, List.nil_append]⟩

theorem value_of_rawValue {s raw rest : List UInt8} (h : rawValue s = .ok (raw, rest)) :
    ∃ gap, Blank gap ∧ Value raw ∧ s = gap ++ (raw ++ rest) := by
  obtain ⟨gap, blank, split⟩ := exists_blank s
  unfold rawValue at h
  obtain ⟨rest', passed, is⟩ := exists_of_map_eq_ok h
  obtain ⟨taken, rfl⟩ := Prod.mk.inj is
  obtain ⟨lead, v, leads, value, left⟩ := value_of_skipValue passed
  have none : lead = [] := by
    cases lead with
    | nil => rfl
    | cons b lead =>
      have first := List.head?_dropWhile_not isBlank s
      rw [← skipBlank, left] at first
      exact absurd (leads b (.head _)) (by simpa using first)
  have raw_eq : raw = v := by
    rw [← taken, left, none]
    simp
  refine ⟨gap, blank, raw_eq ▸ value, ?_⟩
  rw [split, left, none, raw_eq]
  simp

end BallotServer.Json
