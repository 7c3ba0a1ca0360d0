/-! Rows of characters: blanks as the Unicode `White_Space` property lists them, trimming, and
cutting at a separator, once or everywhere. -/

namespace BallotServer.Text

/-- The twenty-five characters with the `White_Space` property. -/
def isBlank (c : Char) : Bool :=
  let n := c.toNat
  (9 ≤ n && n ≤ 13) || n == 32 || n == 0x85 || n == 0xA0 || n == 0x1680 ||
    (0x2000 ≤ n && n ≤ 0x200A) || n == 0x2028 || n == 0x2029 || n == 0x202F ||
    n == 0x205F || n == 0x3000

def trim (cs : List Char) : List Char :=
  ((cs.dropWhile isBlank).reverse.dropWhile isBlank).reverse

def cut? (sep : Char) : List Char → Option (List Char × List Char)
  | [] => none
  | c :: cs => if c = sep then some ([], cs) else (cut? sep cs).map fun p => (c :: p.1, p.2)

/-- All parts between separators; a text without separator is its only part. -/
def parts (sep : Char) : List Char → List (List Char)
  | [] => [[]]
  | c :: cs =>
    if c = sep then [] :: parts sep cs
    else match parts sep cs with
      | [] => [[c]]
      | p :: ps => (c :: p) :: ps

theorem parts_ne_nil (sep : Char) (cs : List Char) : parts sep cs ≠ [] := by
  induction cs with
  | nil => simp [parts]
  | cons c cs ih => unfold parts; split <;> (try split) <;> simp

theorem intercalate_parts (sep : Char) (cs : List Char) : [sep].intercalate (parts sep cs) = cs := by
  induction cs with
  | nil => rfl
  | cons c cs ih =>
    unfold parts
    obtain ⟨p, ps, hp⟩ := List.exists_cons_of_ne_nil (parts_ne_nil sep cs)
    rw [hp] at ih ⊢
    cases ps <;> by_cases h : c = sep <;> simp_all [List.intercalate]

theorem eq_append_of_cut? {sep : Char} {cs a b : List Char} (h : cut? sep cs = some (a, b)) :
    cs = a ++ sep :: b ∧ sep ∉ a := by
  induction cs generalizing a b with
  | nil => simp [cut?] at h
  | cons c cs ih =>
    by_cases hc : c = sep
    · simp_all [cut?]
    · obtain ⟨p, hp, rfl⟩ : ∃ p, cut? sep cs = some (p, b) ∧ c :: p = a := by
        simpa [cut?, hc] using h
      have := ih hp
      simp_all [Ne.symm hc]

end BallotServer.Text
