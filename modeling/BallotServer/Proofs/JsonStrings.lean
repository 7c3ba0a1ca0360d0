import BallotServer.Proofs.JsonReading
import BallotServer.Utf8

/-! What the strings of JSON say. A string as it is written says a row of bytes: a byte says itself, a
letter after a backslash says one byte, and four hex digits say a code point, alone or as one half of
a pair. The reader of strings finds what they say, and no other text is read as a string. -/

namespace BallotServer.Json

/-- What follows a backslash and a `u`, and its code point. -/
inductive Point : List UInt8 → Nat → Prop
  | lone {s : List UInt8} {n : Nat} (hex : Hex s n) (low : n < 0xD800 ∨ 0xE000 ≤ n) : Point s n
  | pair {s t : List UInt8} {high low : Nat} (first : Hex s high) (second : Hex t low)
      (leading : 0xD800 ≤ high ∧ high < 0xDC00) (trailing : 0xDC00 ≤ low ∧ low < 0xE000) :
    Point (s ++ backslash :: 117 :: t) (0x10000 + (high - 0xD800) * 0x400 + (low - 0xDC00))

def letters : List (UInt8 × UInt8) :=
  [(quote, quote), (backslash, backslash), (47, 47), (98, 8), (102, 12), (110, 10), (114, 13),
    (116, 9)]

/-- One character of a string as it is written, and its bytes. -/
inductive Says : List UInt8 → List UInt8 → Prop
  | plain {b : UInt8} (visible : 0x20 ≤ b) (inside : b ≠ quote) (itself : b ≠ backslash) :
    Says [b] [b]
  | letter {b c : UInt8} (known : letters.lookup b = some c) : Says [backslash, b] [c]
  | point {s : List UInt8} {n : Nat} (point : Point s n) :
    Says (backslash :: 117 :: s) (String.utf8EncodeChar (Char.ofNat n))

inductive Spells : List UInt8 → List UInt8 → Prop
  | nil : Spells [] []
  | cons {s t bytes more : List UInt8} (first : Says s bytes) (rest : Spells t more) :
    Spells (s ++ t) (bytes ++ more)

structure Literal (text bytes : List UInt8) : Prop where
  spelled : ∃ inside, Spells inside bytes ∧ text = quote :: (inside ++ [quote])
  encoded : (Utf8.read? bytes).isSome

section Escapes

variable {s rest : List UInt8} {n : Nat}

theorem isLeading_iff : isLeading n ↔ 0xD800 ≤ n ∧ n < 0xDC00 := by
  simp only [isLeading, Bool.and_eq_true, decide_eq_true_eq]
  omega

theorem isTrailing_iff : isTrailing n ↔ 0xDC00 ≤ n ∧ n < 0xE000 := by
  simp only [isTrailing, Bool.and_eq_true, decide_eq_true_eq]
  omega

theorem point_of_codePoint (h : codePoint s = .ok (n, rest)) : ∃ t, Point t n ∧ s = t ++ rest := by
  unfold codePoint at h
  split at h
  · cases h
  · rename_i high after read
    obtain ⟨t, hex, rfl⟩ := exists_hex_of_unit read
    split at h
    · cases h
    · rename_i noTrail
      split at h
      · rename_i lead
        unfold trailing at h
        split at h
        · cases h
        · rename_i escaped
          obtain rfl := eq_of_word escaped
          split at h
          · cases h
          · rename_i low after' read'
            obtain ⟨u, hex', rfl⟩ := exists_hex_of_unit read'
            split at h
            · rename_i trail
              obtain ⟨rfl, rfl⟩ := Prod.mk.inj (Except.ok.inj h)
              refine ⟨_, .pair hex hex' (isLeading_iff.1 lead) (isTrailing_iff.1 trail), ?_⟩
              simp only [List.append_assoc, List.cons_append, List.nil_append]
            · cases h
      · rename_i noLead
        cases h
        rw [isLeading_iff] at noLead
        rw [isTrailing_iff] at noTrail
        exact ⟨t, .lone hex (by omega), rfl⟩

theorem codePoint_append {t : List UInt8} (point : Point t n) (rest : List UInt8) :
    codePoint (t ++ rest) = .ok (n, rest) := by
  cases point with
  | lone hex low =>
    rw [codePoint, hex.read]
    dsimp only
    rw [if_neg (by rw [isTrailing_iff]; omega), if_neg (by rw [isLeading_iff]; omega)]
  | @pair t u high low first second lead trail =>
    have escaped : word [backslash, 117] (backslash :: 117 :: u ++ rest) = .ok (u ++ rest) :=
      word_append _ _
    rw [List.append_assoc, codePoint, first.read]
    dsimp only
    rw [if_neg (by rw [isTrailing_iff]; omega), if_pos (isLeading_iff.2 lead), trailing, escaped]
    dsimp only
    rw [second.read]
    exact if_pos (isTrailing_iff.2 trail)

theorem escaped?_eq_lookup (b : UInt8) : escaped? b = letters.lookup b := by
  have each : ∀ n : Fin 256, escaped? (UInt8.ofNat n) = letters.lookup (UInt8.ofNat n) := by
    decide +kernel
  simpa using each ⟨b.toNat, b.toNat_lt⟩

theorem says_of_escape {bytes : List UInt8} (h : escape s = .ok (bytes, rest)) :
    ∃ t, Says (backslash :: t) bytes ∧ s = t ++ rest := by
  cases s with
  | nil => cases h
  | cons b s =>
    simp only [escape] at h
    split at h
    · rename_i is
      split at h
      · cases h
      · rename_i n after read
        obtain ⟨t, point, rfl⟩ := point_of_codePoint read
        obtain ⟨rfl, rfl⟩ := Prod.mk.inj (Except.ok.inj h)
        exact ⟨117 :: t, .point point, by rw [is]; rfl⟩
    · split at h
      · rename_i known
        cases h
        exact ⟨[b], .letter (escaped?_eq_lookup b ▸ known), rfl⟩
      · cases h

theorem string_escape {done bytes : List UInt8} (read : escape s = .ok (bytes, rest)) :
    string done (backslash :: s) = string (bytes.reverse ++ done) rest := by
  rw [string, if_neg (by decide), if_pos rfl]
  split <;> rename_i found <;> rw [read] at found <;> cases found
  rfl

theorem Says.read {t bytes : List UInt8} (character : Says t bytes) (done rest : List UInt8) :
    string done (t ++ rest) = string (bytes.reverse ++ done) rest := by
  cases character with
  | plain visible inside itself =>
    rw [List.singleton_append, string, if_neg inside, if_neg itself,
      if_neg (UInt8.not_lt.2 visible)]
    rfl
  | @letter b c known =>
    refine string_escape ?_
    have other : b ≠ 117 := by
      rintro rfl
      cases known
    refine (if_neg other).trans ?_
    rw [escaped?_eq_lookup, known]
    rfl
  | @point s n point =>
    refine string_escape ?_
    change escape (117 :: (s ++ rest)) = _
    rw [escape, if_pos rfl, codePoint_append point]

end Escapes

section Strings

variable {s rest done bytes : List UInt8}

theorem Spells.read {inside : List UInt8} (spells : Spells inside bytes) (done rest : List UInt8) :
    string done (inside ++ quote :: rest) = .ok (done.reverse ++ bytes, rest) := by
  induction spells generalizing done with
  | nil => rw [List.nil_append, string, if_pos rfl, List.append_nil]
  | cons first _ ih =>
    rw [List.append_assoc, first.read, ih, List.reverse_append, List.reverse_reverse,
      List.append_assoc]

theorem spells_of_string (h : string done s = .ok (bytes, rest)) :
    ∃ inside more, Spells inside more ∧ bytes = done.reverse ++ more ∧
      s = inside ++ quote :: rest := by
  fun_induction string done s with
  | case1 => cases h
  | case2 done s =>
    cases h
    exact ⟨[], [], .nil, by rw [List.append_nil], rfl⟩
  | case3 => cases h
  | case4 done s said rest' read _ _ ih =>
    obtain ⟨t, character, rfl⟩ := says_of_escape read
    obtain ⟨inside, more, spells, rfl, rfl⟩ := ih h
    refine ⟨_, _, .cons character spells, ?_, ?_⟩
    · rw [List.reverse_append, List.reverse_reverse, List.append_assoc]
    · simp only [List.append_assoc, List.cons_append]
  | case5 => cases h
  | case6 done b s other plain visible ih =>
    obtain ⟨inside, more, spells, rfl, rfl⟩ := ih h
    refine ⟨_, _, .cons (.plain (UInt8.not_lt.1 visible) other plain) spells, ?_, rfl⟩
    rw [List.reverse_cons, List.append_assoc]

theorem string_eq_ok_iff :
    string [] s = .ok (bytes, rest) ↔ ∃ inside, Spells inside bytes ∧ s = inside ++ quote :: rest := by
  constructor
  · intro h
    obtain ⟨inside, more, spells, rfl, rfl⟩ := spells_of_string h
    exact ⟨inside, spells, rfl⟩
  · rintro ⟨inside, spells, rfl⟩
    exact spells.read [] rest

theorem Symbol.symbols (symbol : Symbol s) : Symbols s := by
  rw [← List.append_nil s]
  exact .cons symbol .nil

theorem Symbols.append {t : List UInt8} (first : Symbols s) (second : Symbols t) :
    Symbols (s ++ t) := by
  induction first with
  | nil => exact second
  | cons symbol _ ih =>
    rw [List.append_assoc]
    exact .cons symbol ih

theorem Says.symbols (character : Says s bytes) : Symbols s := by
  cases character with
  | plain visible inside itself => exact (Symbol.plain visible inside itself).symbols
  | letter known =>
    refine (Symbol.letter (isSome_escaped?_iff.1 ?_)).symbols
    rw [escaped?_eq_lookup, known]
    rfl
  | point point =>
    cases point with
    | lone hex => exact hex.symbol.symbols
    | pair first second => exact first.symbol.symbols.append second.symbol.symbols

theorem Spells.symbols (spells : Spells s bytes) : Symbols s := by
  induction spells with
  | nil => exact .nil
  | cons first _ ih => exact first.symbols.append ih

theorem spells_self (plain : ∀ b ∈ s, 0x20 ≤ b ∧ b ≠ quote ∧ b ≠ backslash) : Spells s s := by
  induction s with
  | nil => exact .nil
  | cons b s ih =>
    obtain ⟨⟨visible, inside, itself⟩, plain⟩ := List.forall_mem_cons.1 plain
    exact .cons (.plain visible inside itself) (ih plain)

theorem Literal.value {text : List UInt8} (literal : Literal text bytes) : Value text := by
  obtain ⟨inside, spells, rfl⟩ := literal.spelled
  exact .quoted ⟨inside, spells.symbols, rfl⟩

end Strings

end BallotServer.Json
