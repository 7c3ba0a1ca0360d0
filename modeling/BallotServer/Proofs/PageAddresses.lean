import BallotServer.Page
import BallotServer.Proofs.Keys
import Mathlib.Data.List.Infix

/-! The addresses that the script of a page sends to. Each stands in quotes behind a mark; a text in
which no mark begins adds none, so the addresses of a page are read off its pieces one by one. -/

namespace BallotServer.Page

def mark : List Char := "fetch('".toList

def targets : List Char → List (List Char)
  | [] => []
  | c :: cs => match mark.isPrefixOf? (c :: cs) with
    | some rest => rest.takeWhile (· != '\'') :: targets cs
    | none => targets cs

/-- The addresses that the script of a page sends to. -/
def addresses (page : String) : List String := (targets page.toList).map String.ofList

/-- No mark begins in the text, whatever comes after it. -/
def silent : List Char → Bool
  | [] => true
  | c :: cs => !(mark.isPrefixOf (c :: cs) || (c :: cs).isPrefixOf mark) && silent cs

theorem mark_eq : mark = 'f' :: "etch('".toList := by decide

theorem silent_ofList {text : List Char} (quiet : silent text) :
    silent (String.ofList text).toList := by
  rwa [String.toList_ofList]

theorem silent_of_notMem {text : List Char} (none : 'f' ∉ text) : silent text := by
  induction text with
  | nil => rfl
  | cons c cs ih =>
    obtain ⟨other, later⟩ := List.ne_and_not_mem_of_not_mem_cons none
    simp [silent, mark_eq, List.isPrefixOf, other, Ne.symm other, ih later]

theorem targets_silent {text : List Char} (quiet : silent text) (rest : List Char) :
    targets (text ++ rest) = targets rest := by
  induction text with
  | nil => rfl
  | cons c cs ih =>
    simp only [silent, Bool.and_eq_true, Bool.not_eq_true', Bool.or_eq_false_iff] at quiet
    obtain ⟨⟨longer, shorter⟩, later⟩ := quiet
    have none : mark.isPrefixOf? (c :: (cs ++ rest)) = none := by
      refine Option.eq_none_iff_forall_ne_some.2 fun tail found => ?_
      have begins : mark <+: c :: cs ++ rest := ⟨tail, List.append_eq_of_isPrefixOf?_eq_some found⟩
      rcases List.prefix_or_prefix_of_prefix begins (List.prefix_append (c :: cs) rest) with h | h
      · rw [List.isPrefixOf_iff_prefix.2 h] at longer
        cases longer
      · rw [List.isPrefixOf_iff_prefix.2 h] at shorter
        cases shorter
    rw [List.cons_append, targets, none]
    exact ih later

theorem targets_of_silent {text : List Char} (quiet : silent text) : targets text = [] := by
  have all := targets_silent quiet []
  rwa [List.append_nil] at all

theorem targets_mark {address : List Char} (quiet : silent address) (unquoted : '\'' ∉ address)
    (rest : List Char) :
    targets (mark ++ (address ++ '\'' :: rest)) = address :: targets rest := by
  have begins : mark.isPrefixOf? (mark ++ (address ++ '\'' :: rest)) =
      some (address ++ '\'' :: rest) := List.isPrefixOf?_eq_some_iff_append_eq.2 rfl
  have skipped : targets ("etch('".toList ++ (address ++ '\'' :: rest)) = targets rest := by
    rw [targets_silent (by decide), targets_silent quiet, ← List.singleton_append,
      targets_silent (by decide)]
  have other : ∀ c ∈ address, (c != '\'') = true := fun c member =>
    bne_iff_ne.2 fun same => unquoted (same ▸ member)
  have taken : (address ++ '\'' :: rest).takeWhile (· != '\'') = address := by
    rw [List.takeWhile_append_of_pos other]
    simp
  rw [mark_eq, List.cons_append] at begins ⊢
  simp only [targets, mark_eq, begins, taken, skipped]

section ScanForm

theorem notMem_text (id : Int) {c : Char} (sign : c ≠ '-') (digit : c.isDigit = false) :
    c ∉ (Decimal.text id).toList := by
  rw [Decimal.toList_text]
  intro member
  rcases Decimal.mem_write member with rfl | is
  · exact sign rfl
  · rw [digit] at is
    cases is

theorem notMem_path (id : Int) {c : Char} (first : c ∉ "/election/".toList) (sign : c ≠ '-')
    (digit : c.isDigit = false) (last : c ∉ View.scan.ending) :
    c ∉ (View.scan.path id).toList := by
  simp only [View.path, String.toList_append, String.toList_ofList, List.mem_append, not_or]
  exact ⟨⟨first, notMem_text id sign digit⟩, last⟩

theorem addresses_scanForm (id : Int) : addresses (scanForm id) = [View.scan.path id] := by
  have digits : silent (Decimal.text id).toList :=
    silent_of_notMem (notMem_text id (by decide) (by decide))
  have address : silent (View.scan.path id).toList :=
    silent_of_notMem (notMem_path id (by decide) (by decide) (by decide) (by decide))
  have unquoted : '\'' ∉ (View.scan.path id).toList :=
    notMem_path id (by decide) (by decide) (by decide) (by decide)
  have call : "const resp = await fetch('".toList = "const resp = await ".toList ++ mark := by
    decide
  have quote : "', \x7b\n".toList = '\'' :: ", \x7b\n".toList := by decide
  have page : targets (scanForm id).toList = [(View.scan.path id).toList] := by
    unfold scanForm
    simp only [String.toList_append, List.append_assoc, call, quote, List.cons_append]
    iterate 13 rw [targets_silent]
    · rw [targets_mark address unquoted]
      iterate 4 rw [targets_silent]
      · rw [targets_of_silent]
        exact silent_ofList (by decide)
      all_goals exact silent_ofList (by decide)
    all_goals first | exact silent_ofList (by decide) | exact digits
  rw [addresses, page, List.map_singleton, String.ofList_toList]

end ScanForm

end BallotServer.Page
