/-! Base64 in two forms: the standard alphabet with padding, and the alphabet that is safe in
URLs without any. Reading is strict, so each row of bytes has one text in each form: padding is
there exactly as the form asks, and the bits of the last symbol that carry nothing are zero.

Symbols are bytes and offsets count bytes. A stray byte at the very end of a text one byte too
long is named first; then the whole quads, from the left; then the last, possibly short, quad. -/

namespace BallotServer.Base64

structure Form where
  symbol62 : UInt8
  symbol63 : UInt8
  padded : Bool
  deriving DecidableEq, Repr

/-- Plus, slash and padding. -/
def standard : Form := ⟨43, 47, true⟩

/-- Minus, underscore and no padding. -/
def urlSafe : Form := ⟨45, 95, false⟩

def pad : UInt8 := 61

inductive Fault
  | strangeSymbol (byte : UInt8) (offset : Nat)
  | badLength (length : Nat)
  | spareBits (byte : UInt8) (offset : Nat)
  | badPadding
  deriving DecidableEq, Repr

def Fault.message : Fault → String
  | strangeSymbol byte offset =>
    "Invalid symbol " ++ toString byte.toNat ++ ", offset " ++ toString offset ++ "."
  | badLength length => "Invalid input length: " ++ toString length
  | spareBits byte offset =>
    "Invalid last symbol " ++ toString byte.toNat ++ ", offset " ++ toString offset ++ "."
  | badPadding => "Invalid padding"

namespace Form

def symbol (f : Form) (v : Nat) : UInt8 :=
  if v < 26 then (65 + v).toUInt8
  else if v < 52 then (71 + v).toUInt8
  else if v < 62 then (v - 4).toUInt8
  else if v = 62 then f.symbol62
  else f.symbol63

def value? (f : Form) (b : UInt8) : Option Nat :=
  let n := b.toNat
  if 65 ≤ n && n ≤ 90 then some (n - 65)
  else if 97 ≤ n && n ≤ 122 then some (n - 71)
  else if 48 ≤ n && n ≤ 57 then some (n + 4)
  else if b = f.symbol62 then some 62
  else if b = f.symbol63 then some 63
  else none

def padding (f : Form) (n : Nat) : List UInt8 := if f.padded then List.replicate n pad else []

def encode (f : Form) : List UInt8 → List UInt8
  | [] => []
  | [a] => f.symbol (a.toNat / 4) :: f.symbol (a.toNat % 4 * 16) :: f.padding 2
  | [a, b] =>
    f.symbol (a.toNat / 4) :: f.symbol (a.toNat % 4 * 16 + b.toNat / 16) ::
      f.symbol (b.toNat % 16 * 4) :: f.padding 1
  | a :: b :: c :: rest =>
    f.symbol (a.toNat / 4) :: f.symbol (a.toNat % 4 * 16 + b.toNat / 16) ::
      f.symbol (b.toNat % 16 * 4 + c.toNat / 64) :: f.symbol (c.toNat % 64) :: encode f rest

def read (f : Form) (b : UInt8) (offset : Nat) : Except Fault Nat :=
  match f.value? b with
  | some v => .ok v
  | none => .error (.strangeSymbol b offset)

def byte0 (a b : Nat) : UInt8 := (a * 4 + b / 16).toUInt8

def byte1 (b c : Nat) : UInt8 := (b % 16 * 16 + c / 4).toUInt8

def byte2 (c d : Nat) : UInt8 := (c % 4 * 64 + d).toUInt8

/-- The values in the last quad and the number of padding signs after them. At least two values
come before padding, and nothing comes after it. -/
def lastQuad (f : Form) (offset : Nat) :
    List Nat → Nat → List UInt8 → Except Fault (List Nat × Nat)
  | values, pads, [] => .ok (values, pads)
  | values, pads, b :: rest =>
    if b = pad then
      if values.length + pads < 2 then .error (.strangeSymbol pad (offset + values.length + pads))
      else lastQuad f offset values (pads + 1) rest
    else if 0 < pads then .error (.strangeSymbol pad (offset + values.length))
    else match f.read b (offset + values.length) with
      | .error e => .error e
      | .ok v => lastQuad f offset (values ++ [v]) 0 rest

/-- The bytes that the last quad carries, and the bits left over. -/
def lastBytes : List Nat → List UInt8 × Nat
  | [a, b] => ([byte0 a b], b % 16)
  | [a, b, c] => ([byte0 a b, byte1 b c], c % 4)
  | [a, b, c, d] => ([byte0 a b, byte1 b c, byte2 c d], 0)
  | _ => ([], 0)

def finish (f : Form) (offset : Nat) (last : List UInt8) : Except Fault (List UInt8) :=
  match f.lastQuad offset [] 0 last with
  | .error e => .error e
  | .ok (values, pads) =>
    if last.isEmpty then .ok []
    else if values.length < 2 then .error (.badLength (offset + values.length))
    else if (if f.padded then (values.length + pads) % 4 != 0 else 0 < pads) then .error .badPadding
    else
      let (bytes, spare) := lastBytes values
      if spare = 0 then .ok bytes
      else
        .error (.spareBits ((last[values.length - 1]?).getD pad) (offset + values.length - 1))

/-- Reads whole quads while more follows; `done` holds the bytes read so far, last first. -/
def quads (f : Form) (offset : Nat) (done : List UInt8) :
    List UInt8 → Except Fault (List UInt8)
  | a :: b :: c :: d :: e :: rest =>
    match f.read a offset, f.read b (offset + 1), f.read c (offset + 2), f.read d (offset + 3) with
    | .ok a, .ok b, .ok c, .ok d =>
      quads f (offset + 4) (byte2 c d :: byte1 b c :: byte0 a b :: done) (e :: rest)
    | .error fault, _, _, _ => .error fault
    | _, .error fault, _, _ => .error fault
    | _, _, .error fault, _ => .error fault
    | _, _, _, .error fault => .error fault
  | last => (f.finish offset last).map (done.reverse ++ ·)
termination_by text => text.length

/-- The byte that makes a text one too long, unless it could be a symbol or padding. -/
def overhang? (f : Form) (text : List UInt8) : Option UInt8 :=
  if text.length % 4 = 1 then
    text.getLast?.filter fun b => b != pad && (f.value? b).isNone
  else none

def decode (f : Form) (text : List UInt8) : Except Fault (List UInt8) :=
  match f.overhang? text with
  | some b => .error (.strangeSymbol b (text.length - 1))
  | none => f.quads 0 [] text

theorem value?_symbol_standard : ∀ v < 64, standard.value? (standard.symbol v) = some v := by
  decide

theorem value?_symbol_urlSafe : ∀ v < 64, urlSafe.value? (urlSafe.symbol v) = some v := by
  decide

def text (f : Form) (bytes : List UInt8) : String :=
  String.ofList ((f.encode bytes).map fun b => Char.ofNat b.toNat)

end Form

end BallotServer.Base64
