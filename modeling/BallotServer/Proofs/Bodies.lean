import BallotServer.Http.Body

/-! A body is read as a whole or not at all: the limit is kept piece by piece, but what is read
depends only on the pieces joined, and on whether any of them was lost. -/

namespace BallotServer.Http.Body

def join : List (Option ByteArray) → Option ByteArray
  | [] => some .empty
  | none :: _ => none
  | some piece :: rest => (join rest).map (piece ++ ·)

def whole? (b : Body) : Option ByteArray := join b.pieces

variable {limit : Nat} {done bytes : ByteArray} {pieces : List (Option ByteArray)} {b : Body}

theorem gather_eq_some_iff (fits : done.size ≤ limit) :
    gather limit done pieces = some bytes ↔
      ∃ rest, join pieces = some rest ∧ done ++ rest = bytes ∧ bytes.size ≤ limit := by
  induction pieces generalizing done with
  | nil =>
    simp only [gather, join, Option.some.injEq]
    constructor
    · rintro rfl
      exact ⟨.empty, rfl, ByteArray.append_empty, fits⟩
    · rintro ⟨_, rfl, rfl, -⟩
      exact ByteArray.append_empty.symm
  | cons p rest ih =>
    cases p with
    | none => simp [gather, join]
    | some piece =>
      simp only [gather, join, Option.map_eq_some_iff]
      split
      · rename_i more
        rw [ih (by rwa [ByteArray.size_append])]
        constructor
        · rintro ⟨tail, joined, rfl, size⟩
          exact ⟨piece ++ tail, ⟨tail, joined, rfl⟩, ByteArray.append_assoc.symm, size⟩
        · rintro ⟨_, ⟨tail, joined, rfl⟩, rfl, size⟩
          exact ⟨tail, joined, ByteArray.append_assoc, size⟩
      · rename_i less
        constructor
        · intro stopped
          cases stopped
        · rintro ⟨_, ⟨tail, joined, rfl⟩, rfl, size⟩
          simp only [ByteArray.size_append] at size
          omega

theorem read?_eq_some_iff :
    b.read? limit = some bytes ↔ b.whole? = some bytes ∧ bytes.size ≤ limit := by
  rw [read?, gather_eq_some_iff (Nat.zero_le _), whole?]
  constructor
  · rintro ⟨rest, joined, rfl, size⟩
    rw [ByteArray.empty_append] at size ⊢
    exact ⟨joined, size⟩
  · rintro ⟨joined, size⟩
    exact ⟨bytes, joined, ByteArray.empty_append, size⟩

theorem read?_eq_none_iff :
    b.read? limit = none ↔ ∀ bytes, b.whole? = some bytes → limit < bytes.size := by
  simp only [Option.eq_none_iff_forall_ne_some, ne_eq, read?_eq_some_iff, not_and, Nat.not_le]

end BallotServer.Http.Body
