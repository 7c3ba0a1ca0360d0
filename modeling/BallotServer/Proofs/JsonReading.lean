import BallotServer.Proofs.JsonText

/-! What the grammar has as a value is passed over as one. A number is as long as it can be, so what
follows a value must not go on with it; in a reply a blank, a comma or a closing bracket follows. -/

namespace BallotServer.Json

section Blanks

variable {gap s : List UInt8}

theorem skipBlank_append (blank : Blank gap) (s : List UInt8) :
    skipBlank (gap ++ s) = skipBlank s :=
  List.dropWhile_append_of_pos blank

theorem skipBlank_cons {b : UInt8} (other : isBlank b = false) (s : List UInt8) :
    skipBlank (b :: s) = b :: s :=
  List.dropWhile_cons_of_neg (by simp [other])

theorem skipBlank_eq_nil_iff : skipBlank s = [] ↔ Blank s :=
  List.dropWhile_eq_nil_iff

theorem Bracket.isBlank_opening (b : Bracket) : isBlank b.opening = false := by
  cases b <;> rfl

theorem Bracket.isBlank_closing (b : Bracket) : isBlank b.closing = false := by
  cases b <;> rfl

end Blanks

/-- A value may stand before this: it begins with a blank, a comma or a closing bracket, if at all. -/
def Apart (rest : List UInt8) : Prop :=
  ∀ b, rest.head? = some b → isBlank b ∨ b ∈ [comma, closeList, closeObject]

theorem apart_cons {b : UInt8} (ends : b ∈ [comma, closeList, closeObject]) (s : List UInt8) :
    Apart (b :: s) := by
  intro c is
  obtain rfl := Option.some.inj is
  exact .inr ends

theorem Apart.append {gap rest : List UInt8} (apart : Apart rest) (blank : Blank gap) :
    Apart (gap ++ rest) := by
  cases gap with
  | nil => exact apart
  | cons c gap =>
    intro b is
    obtain rfl := Option.some.inj is
    exact .inl (blank c List.mem_cons_self)

section Numerals

variable {s rest : List UInt8}

def Unlike (p : UInt8 → Prop) (s : List UInt8) : Prop := ∀ b, s.head? = some b → ¬p b

theorem unlike_cons {p : UInt8 → Prop} {b : UInt8} (other : ¬p b) : Unlike p (b :: s) := by
  intro c is
  exact Option.some.inj is ▸ other

theorem Unlike.mono {p q : UInt8 → Prop} (unlike : Unlike q s) (sub : ∀ b, p b → q b) :
    Unlike p s :=
  fun b is here => unlike b is (sub b here)

def GoesOn (b : UInt8) : Prop := Number.isDigit b ∨ b = 46 ∨ b = 101 ∨ b = 69

theorem Apart.unlike (apart : Apart rest) : Unlike GoesOn rest := by
  rintro b is (digit | point)
  · have digit : 48 ≤ b ∧ b ≤ 57 := by simpa [Number.isDigit] using digit
    rcases apart b is with blank | ends
    · exact absurd blank (by rw [isBlank_of_digit digit]; decide)
    · simp only [List.mem_cons, List.not_mem_nil, or_false] at ends
      rcases ends with rfl | rfl | rfl <;> exact absurd digit (by decide)
  · rcases apart b is with blank | ends
    · rcases point with rfl | rfl | rfl <;> cases blank
    · rcases point with rfl | rfl | rfl <;> exact absurd ends (by decide)

theorem Digits.exists_cons (digits : Digits s) : ∃ d t, s = d :: t ∧ 48 ≤ d ∧ d ≤ 57 := by
  cases s with
  | nil => exact absurd rfl digits.1
  | cons d t => exact ⟨d, t, rfl, digits.2 d List.mem_cons_self⟩

theorem digits_append (digits : Digits s) (ends : Unlike (Number.isDigit ·) rest) :
    Number.digits (s ++ rest) = .ok (s, rest) := by
  have each : ∀ b ∈ s, Number.isDigit b := fun b member => by
    simpa [Number.isDigit] using digits.2 b member
  have none : rest.takeWhile Number.isDigit = [] ∧ rest.dropWhile Number.isDigit = rest := by
    cases rest with
    | nil => exact ⟨rfl, rfl⟩
    | cons b rest =>
      have other := ends b rfl
      exact ⟨List.takeWhile_cons_of_neg other, List.dropWhile_cons_of_neg other⟩
  simp only [Number.digits, List.takeWhile_append_of_pos each, List.dropWhile_append_of_pos each,
    none, List.append_nil]
  rw [if_neg (by simpa using digits.1)]

theorem wholeDigits_append (whole : Whole s) (ends : Unlike (Number.isDigit ·) rest) :
    Number.wholeDigits (s ++ rest) = .ok (s, rest) := by
  rw [Number.wholeDigits, digits_append whole.1 ends]
  refine if_neg ?_
  by_cases zero : s.head? = some 48
  · simp [whole.2 zero]
  · simp [zero]

theorem fractionDigits_append {ds : List UInt8} (point : Number.Pointed ds s)
    (ends : Unlike (fun b => Number.isDigit b ∨ b = 46) rest) :
    Number.fractionDigits (s ++ rest) = .ok (ds, rest) := by
  cases point with
  | none =>
    rw [List.nil_append]
    unfold Number.fractionDigits
    split
    · exact absurd (.inr rfl) (ends 46 rfl)
    · rfl
  | point digits => exact digits_append digits (ends.mono fun b => .inl)

theorem exponentDigits_append {negative : Bool} {ds : List UInt8}
    (power : Number.Raised negative ds s) (ends : Unlike GoesOn rest) :
    Number.exponentDigits (s ++ rest) = .ok (negative, ds, rest) := by
  have marks {e : UInt8} (mark : e = 101 ∨ e = 69) :
      (decide (e = 101) || decide (e = 69)) = true := by simpa using mark
  cases power with
  | none =>
    cases rest with
    | nil => rfl
    | cons b rest =>
      have other := ends b rfl
      unfold Number.exponentDigits
      simp only [GoesOn, not_or] at other
      simp [other]
  | @up e sign ds mark signed digits =>
    have read := digits_append digits (ends.mono fun b => .inl)
    unfold Number.exponentDigits
    simp only [List.cons_append, marks mark, if_true]
    rcases signed with rfl | rfl
    · obtain ⟨d, t, rfl, digit⟩ := digits.exists_cons
      -- A digit is no sign.
      split
      · rename_i head
        cases head
        exact absurd digit (by decide)
      · rename_i head
        cases head
        exact absurd digit (by decide)
      · rw [List.nil_append, read]
        rfl
    · change (Number.digits (ds ++ rest)).map _ = _
      rw [read]
      rfl
  | @down e ds mark digits =>
    have read := digits_append digits (ends.mono fun b => .inl)
    unfold Number.exponentDigits
    simp only [List.cons_append, marks mark, if_true]
    rw [read]
    rfl

theorem unsigned_append {n : Number} {fraction exponent : List UInt8} (front : Whole n.whole)
    (point : Number.Pointed n.fraction fraction)
    (power : Number.Raised n.exponentNegative n.exponent exponent) (ends : Unlike GoesOn rest) :
    Number.unsigned n.negative (n.whole ++ (fraction ++ (exponent ++ rest))) = .ok (n, rest) := by
  have after : Unlike (fun b => Number.isDigit b ∨ b = 46) (exponent ++ rest) := by
    cases power.exponent with
    | none => exact ends.mono fun b => Or.imp_right .inl
    | marked mark => exact unlike_cons (by rcases mark with rfl | rfl <;> decide)
  have behind : Unlike (Number.isDigit ·) (fraction ++ (exponent ++ rest)) := by
    cases point.fraction with
    | none => exact after.mono fun b => .inl
    | point => exact unlike_cons (by decide)
  rw [Number.unsigned, wholeDigits_append front behind]
  dsimp only
  rw [fractionDigits_append point after]
  dsimp only
  rw [exponentDigits_append power ends]

theorem Number.Spelled.read {n : Number} (spelled : n.Spelled s) (ends : Unlike GoesOn rest) :
    Number.read (s ++ rest) = .ok (n, rest) := by
  obtain ⟨front, point, power⟩ := spelled
  have unsigned := unsigned_append front point power ends
  simp only [List.append_assoc]
  cases is : n.negative with
  | false =>
    rw [is] at unsigned
    obtain ⟨d, t, first, digit⟩ := front.1.exists_cons
    change Number.read (n.whole ++ _) = _
    unfold Number.read
    split
    · rename_i head
      rw [first] at head
      cases head
      exact absurd digit (by decide)
    · exact unsigned
  | true =>
    rw [is] at unsigned
    exact unsigned

theorem Numeral.read (numeral : Numeral s) (ends : Unlike GoesOn rest) :
    ∃ n, Number.read (s ++ rest) = .ok (n, rest) := by
  obtain ⟨n, spelled⟩ := numeral.exists_spelled
  exact ⟨n, spelled.read ends⟩

end Numerals

section Tokens

variable {s : List UInt8}

theorem word_append (w rest : List UInt8) : word w (w ++ rest) = .ok rest := by
  induction w with
  | nil => rfl
  | cons b w ih => rw [List.cons_append, word, if_pos rfl, ih]

theorem skipString_escape {rest : List UInt8} (skip : skipEscape s = .ok rest) :
    skipString (backslash :: s) = skipString rest := by
  rw [skipString, if_neg (by decide), if_pos rfl]
  split <;> rename_i found <;> rw [skip] at found <;> cases found
  rfl

theorem Symbol.skip (symbol : Symbol s) (rest : List UInt8) :
    skipString (s ++ rest) = skipString rest := by
  cases symbol with
  | plain visible inside itself =>
    rw [List.singleton_append, skipString, if_neg inside, if_neg itself,
      if_neg (UInt8.not_lt.2 visible)]
  | @letter b known =>
    refine skipString_escape ?_
    have other : b ≠ 117 := by
      rintro rfl
      exact absurd known (by decide)
    exact (if_neg other).trans (if_pos (isSome_escaped?_iff.2 known))
  | @unit a b c d digits =>
    obtain ⟨n, hex⟩ := exists_hex digits
    refine skipString_escape ?_
    change (Json.unit ([a, b, c, d] ++ rest)).map Prod.snd = .ok rest
    rw [hex.read]
    rfl

theorem Symbols.skip (symbols : Symbols s) (rest : List UInt8) :
    skipString (s ++ quote :: rest) = .ok rest := by
  induction symbols with
  | nil => rw [List.nil_append, skipString, if_pos rfl]
  | cons first _ ih => rw [List.append_assoc, first.skip, ih]

theorem skipKey_append {rest : List UInt8} (key : Key s) : skipKey (s ++ rest) = .ok rest := by
  obtain ⟨before, key, after, blank, ⟨inside, symbols, rfl⟩, blank', rfl⟩ := key
  simp only [List.append_assoc, List.cons_append, List.nil_append]
  rw [skipKey, skipBlank_append blank, skipBlank_cons rfl]
  dsimp only
  rw [if_pos rfl, symbols.skip]
  dsimp only
  rw [skipBlank_append blank', skipBlank_cons rfl]
  exact if_pos rfl

end Tokens

section Begins

variable {s : List UInt8}

def Opens (b : UInt8) : Prop :=
  b ∈ [quote, 110, 116, 102, 45, openList, openObject] ∨ 48 ≤ b ∧ b ≤ 57

theorem Opens.not_isBlank {b : UInt8} (opens : Opens b) : isBlank b = false := by
  rcases opens with known | digit
  · simp only [List.mem_cons, List.not_mem_nil, or_false] at known
    rcases known with rfl | rfl | rfl | rfl | rfl | rfl | rfl <;> rfl
  · exact isBlank_of_digit digit

theorem Opens.ne_closing {b : UInt8} (opens : Opens b) (top : Bracket) : b ≠ top.closing := by
  rintro rfl
  cases top <;> revert opens <;> simp only [Opens] <;> decide

theorem Numeral.exists_cons (numeral : Numeral s) :
    ∃ b t, s = b :: t ∧ (b = 45 ∨ 48 ≤ b ∧ b ≤ 57) := by
  obtain ⟨rfl | rfl, front, -, -⟩ := numeral
  · obtain ⟨d, t, rfl, digit⟩ := front.1.exists_cons
    exact ⟨d, _, rfl, .inr digit⟩
  · exact ⟨45, _, rfl, .inl rfl⟩

theorem Numeral.skipScalar {rest : List UInt8} (numeral : Numeral s) (ends : Unlike GoesOn rest) :
    skipScalar (s ++ rest) = .ok rest := by
  obtain ⟨n, read⟩ := numeral.read ends
  obtain ⟨b, t, rfl, front⟩ := numeral.exists_cons
  have other {c : UInt8} (no : ¬(c = 45 ∨ 48 ≤ c ∧ c ≤ 57)) : b ≠ c := by
    rintro rfl
    exact no front
  rw [List.cons_append] at read ⊢
  rw [Json.skipScalar, if_neg (other (by decide)), if_neg (other (by decide)),
    if_neg (other (by decide)), if_neg (other (by decide)), read]
  rfl

theorem Written.exists_cons (value : Value s) : ∃ b t, s = b :: t ∧ Opens b := by
  cases value with
  | null | true | false => exact ⟨_, _, rfl, .inl (by decide)⟩
  | numeral numeral =>
    obtain ⟨b, t, rfl, rfl | digit⟩ := numeral.exists_cons
    · exact ⟨45, t, rfl, .inl (by decide)⟩
    · exact ⟨b, t, rfl, .inr digit⟩
  | quoted quoted =>
    obtain ⟨inside, -, rfl⟩ := quoted
    exact ⟨quote, _, rfl, .inl (by decide)⟩
  | @hollow b => exact ⟨b.opening, _, rfl, by cases b <;> exact .inl (by decide)⟩
  | @bracket b => exact ⟨b.opening, _, rfl, by cases b <;> exact .inl (by decide)⟩

theorem skipBlank_value {gap : List UInt8} (blank : Blank gap) (value : Value s)
    (rest : List UInt8) : skipBlank (gap ++ (s ++ rest)) = s ++ rest := by
  obtain ⟨b, t, rfl, opens⟩ := value.exists_cons
  rw [skipBlank_append blank]
  exact skipBlank_cons opens.not_isBlank _

theorem Written.skipBlank_items {b : Bracket} (items : Written (.inside b) s) (rest : List UInt8) :
    ∃ c r, skipBlank (s ++ rest) = c :: r ∧ c ≠ b.closing := by
  generalize kind : Kind.inside b = k at items
  induction items generalizing rest with
  | @item b' lead s gap leads value =>
    cases kind
    rw [List.append_assoc, List.append_assoc]
    cases b with
    | list =>
      obtain ⟨c, t, rfl, opens⟩ := value.exists_cons
      exact ⟨c, _, skipBlank_value leads value _, opens.ne_closing _⟩
    | object =>
      obtain ⟨_, gap', ⟨before, _, after, blank, ⟨inside, -, rfl⟩, -, rfl⟩, -, rfl⟩ := leads
      refine ⟨quote, ?_, ?_, by decide⟩
      rotate_left
      simp only [List.append_assoc, List.cons_append]
      rw [skipBlank_append blank, skipBlank_cons rfl]
  | @row b' s t first rest' ih _ =>
    cases kind
    rw [List.append_assoc]
    exact ih _ rfl
  | _ => cases kind

end Begins

section Machine

variable {s r rest : List UInt8} {top : Bracket} {outer stack : List Bracket}

theorem scan_complete (top : Bracket) (outer : List Bracket) (s : List UInt8) :
    scan .complete (top :: outer) s =
      match skipBlank s with
      | [] => .error .ended
      | b :: r =>
        if b = comma then scan top.item (top :: outer) r
        else if b = top.closing then scan .complete outer r
        else .error .malformed := by
  rw [scan]
  split <;> rename_i is <;> simp only [is]

theorem scan_opened (top : Bracket) (outer : List Bracket) (s : List UInt8) :
    scan .opened (top :: outer) s =
      match skipBlank s with
      | [] => .error .ended
      | b :: r =>
        if b = top.closing then scan .complete outer r else scan top.item (top :: outer) s := by
  conv => lhs; rw [scan]
  split <;> rename_i is <;> simp only [is]

theorem scan_key (read : skipKey s = .ok rest) : scan .key stack s = scan .value stack rest := by
  rw [scan]
  split <;> rename_i is <;> rw [read] at is <;> cases is
  rfl

theorem scan_value (stack : List Bracket) (s : List UInt8) :
    scan .value stack s =
      match skipBlank s with
      | [] => .error .ended
      | b :: r =>
        if b = openList then scan .opened (.list :: stack) r
        else if b = openObject then scan .opened (.object :: stack) r
        else match skipScalar (b :: r) with
          | .error e => .error e
          | .ok rest => scan .complete stack rest := by
  conv => lhs; rw [scan]
  split <;> rename_i is <;> simp only [is]
  split_ifs
  · rfl
  · rfl
  · split <;> rename_i is <;> simp only [is]

theorem scan_complete_append {gap : List UInt8} (blank : Blank gap) (s : List UInt8) :
    scan .complete (top :: outer) (gap ++ s) = scan .complete (top :: outer) s := by
  rw [scan_complete, skipBlank_append blank, ← scan_complete]

theorem scan_closing (s : List UInt8) :
    scan .complete (top :: outer) (top.closing :: s) = scan .complete outer s := by
  rw [scan_complete, skipBlank_cons top.isBlank_closing]
  exact (if_neg (by cases top <;> decide)).trans (if_pos rfl)

theorem scan_opening {gap : List UInt8} (blank : Blank gap) (top : Bracket) (s : List UInt8) :
    scan .value stack (gap ++ top.opening :: s) = scan .opened (top :: stack) s := by
  rw [scan_value, skipBlank_append blank, skipBlank_cons top.isBlank_opening]
  cases top with
  | list => exact if_pos rfl
  | object => exact (if_neg (by decide)).trans (if_pos rfl)

theorem scan_scalar {gap : List UInt8} {b : UInt8} (blank : Blank gap) (opens : Opens b)
    (other : b ≠ openList ∧ b ≠ openObject) (read : skipScalar (b :: s) = .ok rest) :
    scan .value stack (gap ++ b :: s) = scan .complete stack rest := by
  rw [scan_value, skipBlank_append blank, skipBlank_cons opens.not_isBlank]
  dsimp only
  rw [if_neg other.1, if_neg other.2, read]

/-- What scanning does with a text that is followed by another. -/
def Kind.Scanned : Kind → List UInt8 → Prop
  | .value, s => ∀ gap stack rest, Blank gap → Apart rest →
    scan .value stack (gap ++ (s ++ rest)) = scan .complete stack rest
  | .inside b, s => ∀ outer c rest, c = comma ∨ c = b.closing →
    scan b.item (b :: outer) (s ++ c :: rest) = scan .complete (b :: outer) (c :: rest)

theorem Written.scanned {k : Kind} (written : Written k s) : k.Scanned s := by
  induction written with
  | null | true | false =>
    intro gap stack rest blank _
    exact scan_scalar blank (.inl (by decide)) (by decide) (word_append _ rest)
  | numeral numeral =>
    intro gap stack rest blank apart
    have read := numeral.skipScalar apart.unlike
    obtain ⟨b, t, rfl, front⟩ := numeral.exists_cons
    refine scan_scalar blank ?_ ?_ read
    · rcases front with rfl | digit
      · exact .inl (by decide)
      · exact .inr digit
    · refine ⟨?_, ?_⟩ <;> rintro rfl <;> revert front <;> decide
  | quoted quoted =>
    obtain ⟨inside, symbols, rfl⟩ := quoted
    intro gap stack rest blank _
    simp only [List.cons_append, List.append_assoc, List.nil_append]
    refine scan_scalar blank (.inl (by decide)) (by decide) ?_
    rw [skipScalar, if_pos rfl, symbols.skip]
  | @hollow b gap' blank' =>
    intro gap stack rest blank _
    simp only [List.cons_append, List.append_assoc, List.nil_append]
    rw [scan_opening blank, scan_opened, skipBlank_append blank', skipBlank_cons b.isBlank_closing]
    exact if_pos rfl
  | @bracket b s items ih =>
    intro gap stack rest blank _
    simp only [List.cons_append, List.append_assoc, List.nil_append]
    -- Items are told from an empty bracket by their first byte.
    obtain ⟨c, r, found, other⟩ := items.skipBlank_items (b.closing :: rest)
    rw [scan_opening blank, scan_opened, found]
    dsimp only
    rw [if_neg other, ih stack b.closing rest (.inr rfl), scan_closing]
  | @item b lead s gap' leads value blank' ih =>
    intro outer c rest ends
    -- A number would go on otherwise.
    have apart : Apart (gap' ++ c :: rest) := by
      refine (apart_cons ?_ rest).append blank'
      rcases ends with rfl | rfl
      · decide
      · cases b <;> decide
    simp only [List.append_assoc]
    cases b with
    | list => rw [Bracket.item, ih lead _ _ leads apart, scan_complete_append blank']
    | object =>
      obtain ⟨key, gap, isKey, blank, rfl⟩ := leads
      rw [Bracket.item, List.append_assoc, scan_key (skipKey_append isKey),
        ih gap _ _ blank apart, scan_complete_append blank']
  | @row b s t _ _ ih ih' =>
    intro outer c rest ends
    rw [List.append_assoc, List.cons_append, ih outer comma _ (.inl rfl), scan_complete,
      skipBlank_cons rfl]
    exact (if_pos rfl).trans (ih' outer c rest ends)

theorem skipValue_append {gap : List UInt8} (blank : Blank gap) (value : Value s)
    (apart : Apart rest) : skipValue (gap ++ (s ++ rest)) = .ok rest := by
  rw [skipValue, value.scanned gap [] rest blank apart, scan]

theorem rawValue_append {gap : List UInt8} (blank : Blank gap) (value : Value s)
    (apart : Apart rest) : rawValue (gap ++ (s ++ rest)) = .ok (s, rest) := by
  have passed : skipValue (s ++ rest) = .ok rest := skipValue_append blank_nil value apart
  have taken : (s ++ rest).take ((s ++ rest).length - rest.length) = s := by
    rw [List.length_append, Nat.add_sub_cancel, List.take_left]
  rw [rawValue, skipBlank_value blank value, passed]
  change Except.ok (List.take _ _, rest) = _
  rw [taken]

end Machine

end BallotServer.Json
