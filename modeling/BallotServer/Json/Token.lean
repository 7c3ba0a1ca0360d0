/-! The tokens of JSON, read from bytes: blanks, words, strings and the row of characters of a
number. Each reader gives what is left after its token, which is always shorter.

Strings are read in two ways. `string` decodes: escaped surrogates come in pairs. `skipString`
only finds the closing quote: an escaped unit is any four hex digits. Both refuse bytes below
0x20. Neither looks at the encoding of the bytes it passes. -/

namespace BallotServer.Json

inductive Fault
  | ended
  | malformed
  /-- The grammar is kept, but the value is not of the wanted kind. -/
  | mismatched
  deriving DecidableEq, Repr

def isBlank (b : UInt8) : Bool := b == 32 || b == 9 || b == 10 || b == 13

def skipBlank (s : List UInt8) : List UInt8 := s.dropWhile isBlank

def quote : UInt8 := 34

def comma : UInt8 := 44

def colon : UInt8 := 58

def backslash : UInt8 := 92

def openList : UInt8 := 91

def closeList : UInt8 := 93

def openObject : UInt8 := 123

def closeObject : UInt8 := 125

theorem length_skipBlank_le (s : List UInt8) : (skipBlank s).length ≤ s.length :=
  (List.dropWhile_sublist _).length_le

def word : List UInt8 → List UInt8 → Except Fault (List UInt8)
  | [], s => .ok s
  | _ :: _, [] => .error .ended
  | w :: ws, b :: s => if b = w then word ws s else .error .malformed

theorem length_of_word {w s rest : List UInt8} (h : word w s = .ok rest) :
    s.length = w.length + rest.length := by
  induction w generalizing s with
  | nil => simp_all [word]
  | cons x w ih =>
    cases s with
    | nil => simp [word] at h
    | cons b s =>
      by_cases hb : b = x
      · have := ih (by simpa [word, hb] using h)
        simp [this]; omega
      · simp [word, hb] at h

def hexValue? (b : UInt8) : Option Nat :=
  if 48 ≤ b && b ≤ 57 then some (b.toNat - 48)
  else if 97 ≤ b && b ≤ 102 then some (b.toNat - 87)
  else if 65 ≤ b && b ≤ 70 then some (b.toNat - 55)
  else none

def unit : List UInt8 → Except Fault (Nat × List UInt8)
  | a :: b :: c :: d :: rest =>
    match hexValue? a, hexValue? b, hexValue? c, hexValue? d with
    | some a, some b, some c, some d => .ok (((a * 16 + b) * 16 + c) * 16 + d, rest)
    | _, _, _, _ => .error .malformed
  | _ => .error .ended

theorem length_of_unit {s rest : List UInt8} {n : Nat} (h : unit s = .ok (n, rest)) :
    s.length = rest.length + 4 := by
  unfold unit at h
  split at h
  · split at h
    · simp_all
    · simp at h
  · simp at h

def isLeading (n : Nat) : Bool := 0xD800 ≤ n && n ≤ 0xDBFF

def isTrailing (n : Nat) : Bool := 0xDC00 ≤ n && n ≤ 0xDFFF

/-- The second half of a pair of surrogates, with its own escape. -/
def trailing (leading : Nat) (s : List UInt8) : Except Fault (Nat × List UInt8) :=
  match word [backslash, 117] s with
  | .error e => .error e
  | .ok s =>
    match unit s with
    | .error e => .error e
    | .ok (n, rest) =>
      if isTrailing n then .ok (0x10000 + (leading - 0xD800) * 0x400 + (n - 0xDC00), rest)
      else .error .malformed

def codePoint (s : List UInt8) : Except Fault (Nat × List UInt8) :=
  match unit s with
  | .error e => .error e
  | .ok (n, rest) =>
    if isTrailing n then .error .malformed
    else if isLeading n then trailing n rest
    else .ok (n, rest)

theorem length_of_codePoint {s rest : List UInt8} {n : Nat} (h : codePoint s = .ok (n, rest)) :
    rest.length < s.length := by
  unfold codePoint at h
  split at h
  · simp at h
  · rename_i hu
    have := length_of_unit hu
    split at h
    · simp at h
    · split at h
      · unfold trailing at h
        split at h
        · simp at h
        · rename_i hw
          have := length_of_word hw
          split at h
          · simp at h
          · rename_i hv
            have := length_of_unit hv
            split at h
            · simp at h; grind
            · simp at h
      · simp at h; grind

def escaped? (b : UInt8) : Option UInt8 :=
  if b = quote || b = backslash || b = 47 then some b
  else if b = 98 then some 8
  else if b = 102 then some 12
  else if b = 110 then some 10
  else if b = 114 then some 13
  else if b = 116 then some 9
  else none

def escape : List UInt8 → Except Fault (List UInt8 × List UInt8)
  | [] => .error .ended
  | b :: s =>
    if b = 117 then
      match codePoint s with
      | .error e => .error e
      | .ok (n, rest) => .ok (String.utf8EncodeChar (Char.ofNat n), rest)
    else match escaped? b with
      | some c => .ok ([c], s)
      | none => .error .malformed

theorem length_of_escape {s rest bytes : List UInt8} (h : escape s = .ok (bytes, rest)) :
    rest.length < s.length := by
  cases s with
  | nil => simp [escape] at h
  | cons b s =>
    simp only [escape] at h
    split at h
    · split at h
      · simp at h
      · rename_i hc
        have := length_of_codePoint hc
        simp at h ⊢; grind
    · split at h
      · simp at h ⊢; grind
      · simp at h

/-- The decoded bytes of a string, after its opening quote; `done` holds those read so far, last
first. -/
def string (done : List UInt8) (s : List UInt8) : Except Fault (List UInt8 × List UInt8) :=
  match s with
  | [] => .error .ended
  | b :: s =>
    if b = quote then .ok (done.reverse, s)
    else if b = backslash then
      match h : escape s with
      | .error e => .error e
      | .ok (bytes, rest) =>
        have := length_of_escape h
        string (bytes.reverse ++ done) rest
    else if b < 0x20 then .error .malformed
    else string (b :: done) s
termination_by s.length

theorem length_of_string {done s bytes rest : List UInt8} (h : string done s = .ok (bytes, rest)) :
    rest.length < s.length := by
  fun_induction string done s with
  | case1 => simp at h
  | case2 => simp_all
  | case3 => simp at h
  | case4 => grind
  | case5 => simp at h
  | case6 => grind

/-- An escape whose value is of no interest, after its backslash. -/
def skipEscape : List UInt8 → Except Fault (List UInt8)
  | [] => .error .ended
  | b :: s =>
    if b = 117 then (unit s).map Prod.snd
    else if (escaped? b).isSome then .ok s
    else .error .malformed

theorem length_of_skipEscape {s rest : List UInt8} (h : skipEscape s = .ok rest) :
    rest.length < s.length := by
  cases s with
  | nil => simp [skipEscape] at h
  | cons b s =>
    simp only [skipEscape] at h
    split at h
    · cases hu : unit s with
      | error e => simp [hu, Except.map] at h
      | ok p =>
        have hl : s.length = p.2.length + 4 := length_of_unit hu
        simp [hu, Except.map] at h ⊢; grind
    · split at h
      · simp at h ⊢; grind
      · simp at h

def skipString (s : List UInt8) : Except Fault (List UInt8) :=
  match s with
  | [] => .error .ended
  | b :: s =>
    if b = quote then .ok s
    else if b = backslash then
      match h : skipEscape s with
      | .error e => .error e
      | .ok rest =>
        have := length_of_skipEscape h
        skipString rest
    else if b < 0x20 then .error .malformed
    else skipString s
termination_by s.length

theorem length_of_skipString {s rest : List UInt8} (h : skipString s = .ok rest) :
    rest.length < s.length := by
  fun_induction skipString s with
  | case1 => simp at h
  | case2 => simp_all
  | case3 => simp at h
  | case4 => grind
  | case5 => simp at h
  | case6 => grind

end BallotServer.Json
