import BallotServer.Http.Body
import BallotServer.Json.Strict

/-! Election documents: the bodies that may become the text of an election. A document is UTF-8
and one JSON text, an object or null, of bounded length. It is kept exactly as sent. -/

namespace BallotServer.Document

def limit : Nat := 1000000

inductive Fault
  /-- Too long, or lost on the way. -/
  | badBody
  /-- No UTF-8, or no JSON object or null. -/
  | badJson
  deriving DecidableEq, Repr

def ofBytes? (bytes : ByteArray) : Option String :=
  if Json.isObjectOrNull bytes.data.toList then String.fromUTF8? bytes else none

def ofBody (body : Http.Body) : Except Fault String :=
  match body.read? limit with
  | none => .error .badBody
  | some bytes =>
    match ofBytes? bytes with
    | none => .error .badJson
    | some text => .ok text

theorem toByteArray_of_ofBytes? {bytes : ByteArray} {text : String}
    (h : ofBytes? bytes = some text) : text.toByteArray = bytes := by
  unfold ofBytes? at h
  split at h
  · unfold String.fromUTF8? at h
    split at h
    · obtain rfl := Option.some.inj h; rfl
    · simp at h
  · simp at h

end BallotServer.Document
