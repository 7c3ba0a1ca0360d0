import BallotServer.Bytes

/-! Methods, header names and header values: which are legal, and which values can be read as
text. Names are compared without regard to the case of ASCII letters; values are bytes. -/

namespace BallotServer.Http

def isTokenChar (c : Char) : Bool := c.isAlphanum || "!#$%&'*+-.^_`|~".toList.contains c

/-- Methods and header names are non-empty tokens. -/
def isToken (s : String) : Bool := !s.isEmpty && s.toList.all isTokenChar

structure Header where
  name : String
  value : ByteArray
  deriving DecidableEq

namespace Header

/-- A tab, or any byte that is no control character. -/
def isValueByte (b : UInt8) : Bool := b == 9 || (32 ≤ b && b != 127)

def isLegalValue (value : ByteArray) : Bool := value.data.toList.all isValueByte

def longestName : Nat := 65535

def isLegal (h : Header) : Bool :=
  isToken h.name && h.name.utf8ByteSize ≤ longestName && isLegalValue h.value

/-- Visible ASCII, spaces and tabs. -/
def isVisible (b : UInt8) : Bool := b == 9 || (32 ≤ b && b < 127)

/-- A value as text; one that holds any other byte has none. -/
def text? (value : ByteArray) : Option (List Char) :=
  let bytes := value.data.toList
  if bytes.all isVisible then some (bytes.map fun b => Char.ofNat b.toNat) else none

theorem isValueByte_of_isVisible {b : UInt8} (h : isVisible b) : isValueByte b := by
  simp only [isVisible, isValueByte, Bool.or_eq_true, Bool.and_eq_true, decide_eq_true_eq,
    beq_iff_eq, bne_iff_ne] at h ⊢
  rcases h with h | ⟨h, hlt⟩
  · exact .inl h
  · exact .inr ⟨h, by rintro rfl; exact absurd hlt (by decide)⟩

def valuesOf (name : String) (headers : List Header) : List ByteArray :=
  (headers.filter fun h => h.name.toLower == name).map Header.value

end Header

end BallotServer.Http
