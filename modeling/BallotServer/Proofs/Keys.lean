import BallotServer.Artifact

/-! The keys of the cache tell elections and kinds of artifact apart: the decimal of an integer
gives the integer back, and it holds no dot, which every key of a preview does. -/

namespace BallotServer

namespace Decimal

theorem toDigits_injective {m n : Nat} (same : Nat.toDigits 10 m = Nat.toDigits 10 n) :
    m = n := by
  have value := congrArg (Nat.ofDigitChars 10 · 0) same
  simpa only [Nat.ofDigitChars_ten_toDigits] using value

theorem isDigit_of_mem_toDigits {n : Nat} {c : Char} (h : c ∈ Nat.toDigits 10 n) :
    c.isDigit := Nat.isDigit_of_mem_toDigits (by decide) (by decide) h

theorem mem_write {i : Int} {c : Char} (h : c ∈ write i) : c = '-' ∨ c.isDigit := by
  cases i with
  | ofNat n => exact .inr (isDigit_of_mem_toDigits h)
  | negSucc n =>
    rcases List.mem_cons.1 h with sign | digit
    · exact .inl sign
    · exact .inr (isDigit_of_mem_toDigits digit)

theorem dot_notMem_write (i : Int) : '.' ∉ write i := by
  intro h
  rcases mem_write h with sign | digit
  · exact absurd sign (by decide)
  · exact absurd digit (by decide)

theorem minus_notMem_toDigits (n : Nat) : '-' ∉ Nat.toDigits 10 n := by
  intro h
  exact absurd (isDigit_of_mem_toDigits h) (by decide)

theorem write_injective {i j : Int} (same : write i = write j) : i = j := by
  cases i with
  | ofNat m =>
    cases j with
    | ofNat n => exact congrArg Int.ofNat (toDigits_injective same)
    | negSucc n =>
      refine absurd ?_ (minus_notMem_toDigits m)
      rw [show Nat.toDigits 10 m = '-' :: Nat.toDigits 10 (n + 1) from same]
      exact List.mem_cons_self
  | negSucc m =>
    cases j with
    | ofNat n =>
      refine absurd ?_ (minus_notMem_toDigits n)
      rw [show Nat.toDigits 10 n = '-' :: Nat.toDigits 10 (m + 1) from same.symm]
      exact List.mem_cons_self
    | negSucc n =>
      have digits := toDigits_injective (List.cons.inj same).2
      exact congrArg Int.negSucc (Nat.succ.inj digits)

theorem text_injective {i j : Int} (same : text i = text j) : i = j := by
  apply write_injective
  rw [← toList_text, same, toList_text]

end Decimal

namespace Artifact

theorem ballotKey_injective {a b : Int} (same : ballotKey a = ballotKey b) : a = b :=
  Decimal.text_injective same

theorem toList_previewKey (a : Int) : (previewKey a).toList = Decimal.write a ++ ".png".toList := by
  rw [previewKey, String.toList_append, Decimal.toList_text]

theorem previewKey_injective {a b : Int} (same : previewKey a = previewKey b) : a = b := by
  have spelled := congrArg String.toList same
  rw [toList_previewKey, toList_previewKey] at spelled
  exact Decimal.write_injective (List.append_cancel_right spelled)

theorem ballotKey_ne_previewKey (a b : Int) : ballotKey a ≠ previewKey b := by
  intro same
  have spelled := congrArg String.toList same
  rw [ballotKey, Decimal.toList_text, toList_previewKey] at spelled
  refine Decimal.dot_notMem_write a ?_
  rw [spelled]
  exact List.mem_append_right _ (by decide)

def keyFor (election : Int) : Artifact → String
  | ballot _ => ballotKey election
  | preview _ => previewKey election

theorem of_keyFor_eq_ballotKey {a b : Int} {artifact : Artifact}
    (same : artifact.keyFor a = ballotKey b) : a = b ∧ ∃ d, artifact = ballot d := by
  cases artifact with
  | ballot d => exact ⟨ballotKey_injective same, d, rfl⟩
  | preview png => exact absurd same.symm (ballotKey_ne_previewKey b a)

theorem of_keyFor_eq_previewKey {a b : Int} {artifact : Artifact}
    (same : artifact.keyFor a = previewKey b) : a = b ∧ ∃ png, artifact = preview png := by
  cases artifact with
  | ballot d => exact absurd same (ballotKey_ne_previewKey a b)
  | preview png => exact ⟨previewKey_injective same, png, rfl⟩

/-- The keys of an election, in the order in which they are invalidated. -/
def keysOf (id : Int) : List String := [ballotKey id, previewKey id]

theorem ballotKey_mem (id : Int) : ballotKey id ∈ keysOf id := .head _

theorem previewKey_mem (id : Int) : previewKey id ∈ keysOf id := .tail _ (.head _)

theorem nodup_keysOf (id : Int) : (keysOf id).Nodup := by
  simpa [keysOf] using ballotKey_ne_previewKey id id

theorem eq_of_keysOf {a b : Int} {key : String} (of : key ∈ keysOf a)
    (of' : key ∈ keysOf b) : a = b := by
  simp only [keysOf, List.mem_cons, List.not_mem_nil, or_false] at of of'
  rcases of with rfl | rfl
  · rcases of' with same | same
    · exact ballotKey_injective same
    · exact absurd same (ballotKey_ne_previewKey a b)
  · rcases of' with same | same
    · exact absurd same.symm (ballotKey_ne_previewKey b a)
    · exact previewKey_injective same

theorem keysOf_eq_of_mem {id : Int} {some : List String} (first : some <+: keysOf id)
    (last : previewKey id ∈ some) : some = keysOf id := by
  obtain ⟨rest, all⟩ := first
  rcases List.eq_nil_or_concat rest with rfl | ⟨rest, key, rfl⟩
  · rwa [List.append_nil] at all
  · have nodup := nodup_keysOf id
    rw [← all] at nodup
    have is : key = previewKey id := by
      have ends := congrArg List.getLast? all
      simpa [keysOf] using ends
    exact absurd rfl ((List.nodup_append.1 nodup).2.2 _ last _ (by simp [is]))

end Artifact

end BallotServer
