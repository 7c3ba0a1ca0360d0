import BallotServer.Json.Scan
import BallotServer.Utf8

/-! The body of the draw service's reply: an object with a text under `pdfb64` and any value under
`bubbles`, or the two as a list. The bubble map is kept as it is written.

The body is read once from the left, and the first fault decides. A field that is there twice is
noticed at its second key; a missing one at the closing bracket. Other fields are passed over. -/

namespace BallotServer.Draw

open Json

/-- The two fields: the decoded text of the PDF, and the bubble map as written. -/
structure Fields where
  pdf : Option (List UInt8)
  bubbles : Option (List UInt8)
  deriving DecidableEq, Repr

def checkUtf8 (p : List UInt8 × List UInt8) : Except Fault (List UInt8 × List UInt8) :=
  if (Utf8.read? p.1).isSome then .ok p else .error .malformed

def readString (s : List UInt8) : Except Fault (List UInt8 × List UInt8) :=
  match string [] s with
  | .error e => .error e
  | .ok p => checkUtf8 p

/-- The fault of a value that is no text: a bracket is refused at sight, and any other value is
read before it is refused. -/
def unwanted (s : List UInt8) : Fault :=
  match s with
  | [] => .ended
  | b :: _ =>
    if b = openList || b = openObject then .mismatched
    else match skipScalar s with
      | .error e => e
      | .ok _ =>
        match Number.read s with
        | .error _ => .mismatched
        | .ok (n, _) => if n.isFinite then .mismatched else .malformed

def readText (s : List UInt8) : Except Fault (List UInt8 × List UInt8) :=
  match skipBlank s with
  | [] => .error .ended
  | b :: r => if b = quote then readString r else .error (unwanted (b :: r))

def readRaw (s : List UInt8) : Except Fault (List UInt8 × List UInt8) :=
  match rawValue s with
  | .error e => .error e
  | .ok p => checkUtf8 p

inductive Field
  | pdf
  | bubbles
  | other
  deriving DecidableEq, Repr

def Field.ofKey (key : List UInt8) : Field :=
  if key = "pdfb64".toUTF8.data.toList then pdf
  else if key = "bubbles".toUTF8.data.toList then bubbles
  else other

/-- A key, refused if its field is there already, and what follows its colon. -/
def readField (seen : Fields) (s : List UInt8) : Except Fault (Field × List UInt8) :=
  match skipBlank s with
  | [] => .error .ended
  | b :: r =>
    if b = quote then
      match readString r with
      | .error e => .error e
      | .ok (key, r) =>
        let field := Field.ofKey key
        if (field = .pdf && seen.pdf.isSome) || (field = .bubbles && seen.bubbles.isSome) then
          .error .mismatched
        else match skipBlank r with
          | [] => .error .ended
          | b :: r => if b = colon then .ok (field, r) else .error .malformed
    else .error .malformed

def readInto (seen : Fields) (field : Field) (s : List UInt8) :
    Except Fault (Fields × List UInt8) :=
  match field with
  | .pdf => (readText s).map fun p => ({ seen with pdf := some p.1 }, p.2)
  | .bubbles => (readRaw s).map fun p => ({ seen with bubbles := some p.1 }, p.2)
  | .other => (skipValue s).map fun r => (seen, r)

/-- Reads members until the object closes, at most as many as `fuel`. -/
def readMembers (fuel : Nat) (seen : Fields) (s : List UInt8) :
    Except Fault (Fields × List UInt8) :=
  match fuel with
  | 0 => .error .ended
  | fuel + 1 =>
    match readField seen s with
    | .error e => .error e
    | .ok (field, r) =>
      match readInto seen field r with
      | .error e => .error e
      | .ok (seen, r) =>
        match skipBlank r with
        | [] => .error .ended
        | b :: r =>
          if b = closeObject then .ok (seen, r)
          else if b = comma then readMembers fuel seen r
          else .error .malformed

def complete (fields : Fields) : Except Fault (List UInt8 × List UInt8) :=
  match fields.pdf, fields.bubbles with
  | some pdf, some bubbles => .ok (pdf, bubbles)
  | _, _ => .error .mismatched

/-- What follows the opening bracket of an object. Every member takes at least one byte, so there
are no more members than bytes. -/
def readObject (s : List UInt8) : Except Fault ((List UInt8 × List UInt8) × List UInt8) :=
  match skipBlank s with
  | [] => .error .ended
  | b :: r =>
    if b = closeObject then .error .mismatched
    else match readMembers (r.length + 1) ⟨none, none⟩ (b :: r) with
      | .error e => .error e
      | .ok (fields, rest) => (complete fields).map fun p => (p, rest)

def readPair (s : List UInt8) : Except Fault ((List UInt8 × List UInt8) × List UInt8) :=
  match skipBlank s with
  | [] => .error .ended
  | b :: r =>
    if b = closeList then .error .mismatched
    else match readText (b :: r) with
      | .error e => .error e
      | .ok (pdf, r) =>
        match skipBlank r with
        | [] => .error .ended
        | b :: r =>
          if b = closeList then .error .mismatched
          else if b = comma then
            match readRaw r with
            | .error e => .error e
            | .ok (bubbles, r) =>
              match skipBlank r with
              | [] => .error .ended
              | b :: r => if b = closeList then .ok ((pdf, bubbles), r) else .error .malformed
          else .error .malformed

def readParts (s : List UInt8) : Except Fault ((List UInt8 × List UInt8) × List UInt8) :=
  match skipBlank s with
  | [] => .error .ended
  | b :: r =>
    if b = openObject then readObject r
    else if b = openList then readPair r
    else if b = quote then
      match readString r with
      | .error e => .error e
      | .ok _ => .error .mismatched
    else .error (unwanted (b :: r))

def readReply (body : List UInt8) : Except Fault (List UInt8 × List UInt8) :=
  match readParts body with
  | .error e => .error e
  | .ok (p, rest) => if (skipBlank rest).isEmpty then .ok p else .error .malformed

end BallotServer.Draw
