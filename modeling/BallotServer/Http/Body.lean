import BallotServer.Bytes

/-! Request bodies. A body arrives in pieces; the connection may be lost in between. -/

namespace BallotServer.Http

/-- The pieces of a body in order; `none` where the connection was lost. -/
structure Body where
  pieces : List (Option ByteArray)
  deriving DecidableEq

namespace Body

def ofBytes (bytes : ByteArray) : Body := ⟨[some bytes]⟩

def gather (limit : Nat) (done : ByteArray) : List (Option ByteArray) → Option ByteArray
  | [] => some done
  | none :: _ => none
  | some piece :: rest =>
    if done.size + piece.size ≤ limit then gather limit (done ++ piece) rest else none

def read? (b : Body) (limit : Nat) : Option ByteArray := gather limit ByteArray.empty b.pieces

theorem size_of_gather {limit : Nat} {done bytes : ByteArray} {pieces : List (Option ByteArray)}
    (hd : done.size ≤ limit) (h : gather limit done pieces = some bytes) : bytes.size ≤ limit := by
  induction pieces generalizing done with
  | nil => simp_all [gather]
  | cons p rest ih =>
    cases p with
    | none => simp [gather] at h
    | some piece =>
      simp only [gather] at h
      split at h
      · exact ih (by rw [ByteArray.size_append]; assumption) h
      · simp at h

theorem size_of_read? {b : Body} {limit : Nat} {bytes : ByteArray}
    (h : b.read? limit = some bytes) : bytes.size ≤ limit :=
  size_of_gather (by simp) h

end Body

end BallotServer.Http
