import BallotServer.Proofs.Paths
import Mathlib.Data.List.TakeWhile
import Mathlib.Data.List.Perm.Basic

/-! The language of the election paths, and what each of its words asks for with each method. A path
is read by taking all digits after the slash; to take one of the endings off its tail first gives the
same reading, whichever ending is tried first: no ending begins with a digit, and none is the end of
another. -/

namespace BallotServer

namespace View

theorem ending_eq_nil_iff {v : View} : v.ending = [] ↔ v = .document := by cases v <;> decide

theorem eq_of_suffix_ending {v w : View} (some : w ≠ .document) (ends : w.ending <:+ v.ending) :
    w = v := by
  have mem_all (v : View) : v ∈ all := by cases v <;> decide
  have apart : ∀ w ∈ all, w ≠ .document → ∀ v ∈ all, w.ending <:+ v.ending → w = v := by decide
  exact apart w (mem_all w) some v (mem_all v) ends

theorem eq_of_suffix_digits {v w : View} {digits : List Char}
    (numeral : Decimal.isNumeral digits) (some : w ≠ .document)
    (ends : w.ending <:+ digits ++ v.ending) : w = v := by
  rcases List.suffix_or_suffix_of_suffix ends (List.suffix_append digits v.ending) with short | long
  · exact eq_of_suffix_ending some short
  · by_cases document : v = .document
    · -- The tail is all digits, and no ending begins with one.
      have tail : digits ++ v.ending = digits := by
        rw [ending_eq_nil_iff.2 document, List.append_nil]
      have each := List.all_eq_true.1 (Bool.and_eq_true_iff.1 numeral).2
      have digit : ∀ c ∈ w.ending, Decimal.isDigit c := fun c member =>
        each c ((tail ▸ ends).subset member)
      have empty : w.ending = [] := by
        rw [← w.takeWhile_ending]
        exact (List.takeWhile_eq_self_iff.2 digit).symm
      exact absurd (ending_eq_nil_iff.1 empty) some
    · exact (eq_of_suffix_ending document long).symm

end View

namespace ElectionPath

variable {digits path tail : List Char}

theorem ofTail?_eq_some_iff {p : ElectionPath} :
    ofTail? tail = some p ↔
      ∃ digits v, p = view digits v ∧ Decimal.isNumeral digits ∧ tail = digits ++ v.ending := by
  constructor
  · intro h
    simp only [ofTail?] at h
    split at h
    · cases h
    · rename_i nonempty
      obtain ⟨v, ending, rfl⟩ := Option.map_eq_some_iff.1 h
      refine ⟨_, v, rfl, ?_, ?_⟩
      · have all : (tail.takeWhile Decimal.isDigit).all Decimal.isDigit :=
          List.all_eq_true.2 fun c member => List.mem_takeWhile_imp member
        simp only [Decimal.isNumeral, nonempty, all, Bool.not_false, Bool.and_self]
      · rw [View.ending_of_ofEnding? ending, List.takeWhile_append_dropWhile]
  · rintro ⟨digits, v, rfl, numeral, rfl⟩
    exact ofTail?_append numeral v

theorem ofPath?_eq_some_iff {p : ElectionPath} :
    ofPath? path = some p ↔ p.IsNumbered ∧ path = p.spell := by
  constructor
  · intro h
    unfold ofPath? at h
    split at h
    · cases h
    · rename_i cut
      cases h
      refine ⟨trivial, ?_⟩
      rw [← List.append_eq_of_isPrefixOf?_eq_some cut, List.append_nil]
      rfl
    · rename_i tail cut
      obtain ⟨digits, v, rfl, numeral, rfl⟩ := ofTail?_eq_some_iff.1 h
      exact ⟨numeral, (List.append_eq_of_isPrefixOf?_eq_some cut).symm⟩
    · cases h
  · rintro ⟨numbered, rfl⟩
    exact ofPath?_spell numbered

theorem spell_unique {p q : ElectionPath} (numbered : p.IsNumbered) (other : q.IsNumbered)
    (same : q.spell = p.spell) : q = p := by
  have read : ofPath? p.spell = some q := ofPath?_eq_some_iff.2 ⟨other, same.symm⟩
  exact Option.some.inj (read.symm.trans (ofPath?_spell numbered))

/-- Takes an ending off a tail: the first of a row of views whose ending is there. Without one the
tail is a document's. -/
def cutEnding (order : List View) (tail : List Char) : View × List Char :=
  (order.findSome? fun v => (v.ending.isSuffixOf? tail).map fun stem => (v, stem)).getD
    (.document, tail)

def ofTailBy? (order : List View) (tail : List Char) : Option ElectionPath :=
  let (v, stem) := cutEnding order tail
  if Decimal.isNumeral stem then some (view stem v) else none

def ofPathBy? (order : List View) (path : List Char) : Option ElectionPath :=
  match root.isPrefixOf? path with
  | none => none
  | some [] => some collection
  | some ('/' :: tail) => ofTailBy? order tail
  | some (_ :: _) => none

/-- The views whose endings are to be tried, in any order. -/
def Suffixed (order : List View) : Prop := order.Perm [.scan, .bubbles, .pdf, .png]

theorem Suffixed.mem_iff {order : List View} (suffixed : Suffixed order) {v : View} :
    v ∈ order ↔ v ≠ .document := by
  rw [List.Perm.mem_iff suffixed]
  cases v <;> decide

theorem append_cutEnding (order : List View) (tail : List Char) :
    (cutEnding order tail).2 ++ (cutEnding order tail).1.ending = tail := by
  unfold cutEnding
  cases found : order.findSome? fun v => (v.ending.isSuffixOf? tail).map fun stem => (v, stem) with
  | none => exact List.append_nil tail
  | some cut =>
    obtain ⟨v, -, taken⟩ := List.exists_of_findSome?_eq_some found
    obtain ⟨stem, ends, rfl⟩ := Option.map_eq_some_iff.1 taken
    exact List.append_eq_of_isSuffixOf?_eq_some ends

theorem cutEnding_append {order : List View} (suffixed : Suffixed order)
    (numeral : Decimal.isNumeral digits) (v : View) :
    cutEnding order (digits ++ v.ending) = (v, digits) := by
  have whole := append_cutEnding order (digits ++ v.ending)
  have same : (cutEnding order (digits ++ v.ending)).1 = v := by
    unfold cutEnding
    cases found : order.findSome? fun w =>
        (w.ending.isSuffixOf? (digits ++ v.ending)).map fun stem => (w, stem) with
    | none =>
      by_contra other
      have tried := List.findSome?_eq_none_iff.1 found v (suffixed.mem_iff.2 (Ne.symm other))
      have ends : v.ending.isSuffixOf? (digits ++ v.ending) = some digits :=
        List.isSuffixOf?_eq_some_iff_append_eq.2 rfl
      rw [ends] at tried
      cases tried
    | some cut =>
      obtain ⟨w, member, taken⟩ := List.exists_of_findSome?_eq_some found
      obtain ⟨stem, ends, rfl⟩ := Option.map_eq_some_iff.1 taken
      exact View.eq_of_suffix_digits numeral (suffixed.mem_iff.1 member)
        ⟨stem, List.append_eq_of_isSuffixOf?_eq_some ends⟩
  rw [same] at whole
  exact Prod.ext same (List.append_cancel_right whole)

theorem ofTailBy?_eq {order : List View} (suffixed : Suffixed order) (tail : List Char) :
    ofTailBy? order tail = ofTail? tail := by
  refine Option.ext fun p => ?_
  rw [ofTail?_eq_some_iff]
  constructor
  · intro h
    simp only [ofTailBy?] at h
    split at h
    · rename_i numeral
      exact ⟨_, _, (Option.some.inj h).symm, numeral, (append_cutEnding order tail).symm⟩
    · cases h
  · rintro ⟨digits, v, rfl, numeral, rfl⟩
    simp only [ofTailBy?, cutEnding_append suffixed numeral, numeral, if_true]

/-- A path is read alike from its front and from its end, whichever ending is tried first. -/
theorem ofPathBy?_eq {order : List View} (suffixed : Suffixed order) (path : List Char) :
    ofPathBy? order path = ofPath? path := by
  have tails : ofTailBy? order = ofTail? := funext (ofTailBy?_eq suffixed)
  unfold ofPathBy?
  rw [tails]
  rfl

def view? : ElectionPath → Option View
  | collection => none
  | view _ v => some v

def number : ElectionPath → Nat
  | collection => 0
  | view digits _ => Decimal.value digits

theorem inRange_iff (p : ElectionPath) : p.inRange ↔ p.number ≤ Decimal.greatestId := by
  cases p with
  | collection => exact ⟨fun _ => Nat.zero_le _, fun _ => rfl⟩
  | view digits v => exact Decimal.fits_iff

end ElectionPath

namespace Operation

/-- A service: a kind of path, a method and what they ask for. -/
structure Service where
  view? : Option View
  method : String
  operation : Int → Operation

def services : List Service :=
  [⟨none, "POST", fun _ => createElection⟩,
    ⟨some .document, "GET", readElection⟩, ⟨some .document, "POST", updateElection⟩,
    ⟨some .pdf, "GET", ballotPdf⟩, ⟨some .bubbles, "GET", ballotBubbles⟩,
    ⟨some .png, "GET", preview⟩, ⟨some .scan, "GET", scanForm⟩, ⟨some .scan, "POST", scanUpload⟩]

def Service.Serves (s : Service) (method : String) (p : ElectionPath) : Prop :=
  s.view? = p.view? ∧ s.method = method

theorem Service.operation_ne {s : Service} (member : s ∈ services) (id : Int) :
    s.operation id ≠ unsupported ∧ s.operation id ≠ badItem := by
  simp only [services, List.mem_cons, List.not_mem_nil, or_false] at member
  rcases member with rfl | rfl | rfl | rfl | rfl | rfl | rfl | rfl <;> exact ⟨nofun, nofun⟩

def methodOf : Verb → String
  | .get => "GET"
  | .post => "POST"

theorem eq_methodOf {method : String} {verb : Verb} (asked : Verb.ofMethod? method = some verb) :
    method = methodOf verb := by
  unfold Verb.ofMethod? at asked
  split at asked
  · rename_i get
    cases asked
    exact get
  · split at asked
    · rename_i post
      cases asked
      exact post
    · cases asked

section Path

variable {method : String} {p : ElectionPath}

theorem ofElectionPath_of_serves {s : Service} (inRange : p.inRange) (member : s ∈ services)
    (serves : s.Serves method p) : ofElectionPath method p = s.operation p.number := by
  obtain ⟨view, rfl⟩ := serves
  simp only [services, List.mem_cons, List.not_mem_nil, or_false] at member
  rw [ofElectionPath, if_pos inRange]
  rcases member with rfl | rfl | rfl | rfl | rfl | rfl | rfl | rfl <;> cases p <;> cases view <;> rfl

theorem ofVerb?_eq_find? (p : ElectionPath) (verb : Verb) :
    ofVerb? p verb =
      (services.find? fun s => s.view? = p.view? ∧ s.method = methodOf verb).map
        (·.operation p.number) := by
  cases p with
  | collection => cases verb <;> rfl
  | view digits v => cases v <;> cases verb <;> rfl

theorem exists_serves_of_ofVerb? {verb : Verb} {operation : Operation}
    (asked : Verb.ofMethod? method = some verb) (served : ofVerb? p verb = some operation) :
    ∃ s ∈ services, s.Serves method p := by
  rw [ofVerb?_eq_find?, Option.map_eq_some_iff] at served
  obtain ⟨s, found, -⟩ := served
  refine ⟨s, List.mem_of_find?_eq_some found, ?_⟩
  have serves : s.view? = p.view? ∧ s.method = methodOf verb := by
    simpa using List.find?_some found
  rw [eq_methodOf asked]
  exact serves

theorem ofElectionPath_eq_unsupported_iff (inRange : p.inRange) :
    ofElectionPath method p = unsupported ↔ ∀ s ∈ services, ¬s.Serves method p := by
  constructor
  · intro unserved s member serves
    rw [ofElectionPath_of_serves inRange member serves] at unserved
    exact (s.operation_ne member _).1 unserved
  · intro none
    rw [ofElectionPath, if_pos inRange]
    cases asked : Verb.ofMethod? method with
    | none => rfl
    | some verb =>
      rw [Option.bind_some]
      cases served : ofVerb? p verb with
      | none => rfl
      | some operation =>
        obtain ⟨s, member, serves⟩ := exists_serves_of_ofVerb? asked served
        exact absurd serves (none s member)

theorem ofElectionPath_eq_badItem_iff : ofElectionPath method p = badItem ↔ ¬p.inRange := by
  constructor
  · intro bad inRange
    by_cases served : ∃ s ∈ services, s.Serves method p
    · obtain ⟨s, member, serves⟩ := served
      rw [ofElectionPath_of_serves inRange member serves] at bad
      exact (s.operation_ne member _).2 bad
    · rw [(ofElectionPath_eq_unsupported_iff inRange).2 (by simpa using served)] at bad
      cases bad
  · intro beyond
    rw [ofElectionPath, if_neg beyond]

end Path

/-- What is asked for, from the path and the method. A path that is no spelling of an election path
asks for the home page. Any other is the spelling of one election path only. Its number is too large,
or the service for its view and the method is asked for, if there is one. The endings can be tried in
any order. -/
theorem ofRequest_exact (method path : String) :
    (ofRequest method path = home ↔ ¬∃ p : ElectionPath, p.IsNumbered ∧ path.toList = p.spell) ∧
    (∀ p : ElectionPath, p.IsNumbered → path.toList = p.spell →
      (∀ q : ElectionPath, q.IsNumbered → path.toList = q.spell → q = p) ∧
      (ofRequest method path = badItem ↔ Nat.pow 2 63 - 1 < p.number) ∧
      (p.number ≤ Nat.pow 2 63 - 1 →
        (∀ s ∈ services, s.Serves method p → ofRequest method path = s.operation p.number) ∧
        (ofRequest method path = unsupported ↔ ∀ s ∈ services, ¬s.Serves method p))) ∧
    ∀ order, ElectionPath.Suffixed order →
      ElectionPath.ofPathBy? order path.toList = ElectionPath.ofPath? path.toList := by
  refine ⟨?_, fun p numbered spelled => ?_, fun order suffixed =>
    ElectionPath.ofPathBy?_eq suffixed path.toList⟩
  · simp only [ofRequest_eq_home_iff, Option.eq_none_iff_forall_ne_some, ne_eq,
      ElectionPath.ofPath?_eq_some_iff, not_exists]
  · rw [ofRequest_spell numbered spelled]
    refine ⟨fun q other same => ElectionPath.spell_unique numbered other (same.symm.trans spelled),
      ?_, fun least => ?_⟩
    · rw [ofElectionPath_eq_badItem_iff, p.inRange_iff, Nat.not_le]
      rfl
    · have inRange : p.inRange := p.inRange_iff.2 least
      exact ⟨fun s member serves => ofElectionPath_of_serves inRange member serves,
        ofElectionPath_eq_unsupported_iff inRange⟩

theorem ofRequest_exact_zeros :
    let p : ElectionPath := .view ['0', '0', '7'] .png
    p.IsNumbered ∧ "/election/007.png".toList = p.spell ∧ p.number ≤ Nat.pow 2 63 - 1 ∧
      ofRequest "GET" "/election/007.png" = preview 7 ∧
      ElectionPath.Suffixed [.png, .scan, .pdf, .bubbles] ∧
      ElectionPath.ofPathBy? [.png, .scan, .pdf, .bubbles] "/election/007.png".toList = some p := by
  intro p
  have numbered : p.IsNumbered := (by decide : Decimal.isNumeral ['0', '0', '7'])
  have spelled : "/election/007.png".toList = p.spell := by decide
  have least : p.number ≤ Nat.pow 2 63 - 1 := by decide
  have suffixed : ElectionPath.Suffixed [.png, .scan, .pdf, .bubbles] := by
    unfold ElectionPath.Suffixed
    decide
  obtain ⟨-, words, orders⟩ := ofRequest_exact "GET" "/election/007.png"
  have served := ((words p numbered spelled).2.2 least).1 ⟨some .png, "GET", preview⟩
    (by simp [services]) ⟨rfl, rfl⟩
  refine ⟨numbered, spelled, least, served, suffixed, ?_⟩
  rw [orders _ suffixed, ElectionPath.ofPath?_eq_some_iff]
  exact ⟨numbered, spelled⟩

end Operation

end BallotServer
