import BallotServer.Operation
import Mathlib.Data.List.Infix

/-! Election paths are read back from their spelling. No ending begins with a digit, so the digits
of a path are all the digits after the slash. -/

namespace BallotServer

theorem isPrefixOf?_append (l tail : List Char) : l.isPrefixOf? (l ++ tail) = some tail :=
  List.isPrefixOf?_eq_some_iff_append_eq.2 rfl

theorem View.takeWhile_ending (v : View) : v.ending.takeWhile Decimal.isDigit = [] := by
  cases v <;> decide

theorem View.dropWhile_ending (v : View) : v.ending.dropWhile Decimal.isDigit = v.ending := by
  cases v <;> decide

namespace ElectionPath

variable {digits : List Char}

theorem ofTail?_append (numeral : Decimal.isNumeral digits) (v : View) :
    ofTail? (digits ++ v.ending) = some (view digits v) := by
  obtain ⟨some, all⟩ := Bool.and_eq_true_iff.1 numeral
  have each := List.all_eq_true.1 all
  have taken : (digits ++ v.ending).takeWhile Decimal.isDigit = digits := by
    rw [List.takeWhile_append_of_pos each, v.takeWhile_ending, List.append_nil]
  have left : (digits ++ v.ending).dropWhile Decimal.isDigit = v.ending := by
    rw [List.dropWhile_append_of_pos each, v.dropWhile_ending]
  have nonempty : digits.isEmpty = false := by simpa using some
  simp only [ofTail?, taken, left, nonempty, View.ofEnding?_ending, Bool.false_eq_true, if_false,
    Option.map_some]

def IsNumbered : ElectionPath → Prop
  | collection => True
  | view digits _ => Decimal.isNumeral digits

theorem ofPath?_spell {p : ElectionPath} (numbered : p.IsNumbered) :
    ofPath? p.spell = some p := by
  cases p with
  | collection => decide
  | view digits v =>
    have cut := isPrefixOf?_append root ('/' :: (digits ++ v.ending))
    simp only [spell, ofPath?, cut]
    exact ofTail?_append numbered v

end ElectionPath

namespace Operation

variable {method path : String}

theorem ofRequest_spell {p : ElectionPath} (numbered : p.IsNumbered)
    (spelled : path.toList = p.spell) : ofRequest method path = ofElectionPath method p := by
  rw [ofRequest, spelled, ElectionPath.ofPath?_spell numbered]

end Operation

end BallotServer
