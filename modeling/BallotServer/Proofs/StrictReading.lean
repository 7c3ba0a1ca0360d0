import BallotServer.Proofs.JsonChecked
import Mathlib.Data.List.DropRight

/-! What is read strictly is a text of the grammar with its checks, and the other way round, as far
as no key is reserved. Lists and objects are read alike, so both are followed by one reader of
items; an object whose first key is reserved is one more way to take a text, which no checked one
needs. -/

namespace BallotServer.Json

def Bracket.readFront : Bracket → List UInt8 → Option (List UInt8)
  | list, s => some s
  | object, s => (readKey s).map Prod.snd

/-- From a value on, what is read up to the end of its bracket. -/
def Bracket.finish : Bracket → Reader → List UInt8 → Option (List UInt8)
  | list => items
  | object => members

def Bracket.readItems (b : Bracket) (item : Reader) (s : List UInt8) : Option (List UInt8) :=
  (b.readFront s).bind (b.finish item)

/-- What is read after an opening bracket, if no key is reserved. -/
def Bracket.readRest (b : Bracket) (item : Reader) (s : List UInt8) : Option (List UInt8) :=
  match skipBlank s with
  | [] => none
  | c :: r => if c = b.closing then some r else b.readItems item s

section Equations

variable {s gap rest : List UInt8} {item : Reader} {inner : List UInt8 → Bool}

theorem finish_eq (b : Bracket) (item : Reader) (s : List UInt8) :
    b.finish item s = (item.read s).bind fun r =>
      match skipBlank r with
      | [] => none
      | c :: r =>
        if c = b.closing then some r else if c = comma then b.readItems item r else none := by
  cases b with
  | list =>
    change items item s = _
    rw [items]
    split <;> rename_i read <;> simp only [read, Option.bind_none, Option.bind_some]
    split <;> rename_i found <;> simp only [found]
    rfl
  | object =>
    change members item s = _
    rw [members]
    split <;> rename_i read <;> simp only [read, Option.bind_none, Option.bind_some]
    split <;> rename_i found <;> simp only [found]
    refine if_congr Iff.rfl rfl (if_congr Iff.rfl ?_ rfl)
    split <;> rename_i key <;> simp only [Bracket.readItems, Bracket.readFront, key] <;> rfl

theorem skipBlank_skipBlank (s : List UInt8) : skipBlank (skipBlank s) = skipBlank s :=
  List.dropWhile_idempotent isBlank s

theorem readKey_skipBlank (s : List UInt8) : readKey (skipBlank s) = readKey s := by
  rw [readKey, skipBlank_skipBlank, readKey]

theorem value_skipBlank (inner : List UInt8 → Bool) (depth : Nat) (s : List UInt8) :
    (value inner depth).read (skipBlank s) = (value inner depth).read s := by
  cases depth with
  | zero => exact congrArg readScalar (skipBlank_skipBlank s)
  | succ depth => simp only [value, skipBlank_skipBlank]

theorem value_append (blank : Blank gap) (inner : List UInt8 → Bool) (depth : Nat)
    (s : List UInt8) : (value inner depth).read (gap ++ s) = (value inner depth).read s := by
  rw [← value_skipBlank, skipBlank_append blank, value_skipBlank]

theorem readList_eq (inner : List UInt8 → Bool) (depth : Nat) (s : List UInt8) :
    readList (value inner depth) s = Bracket.list.readRest (value inner depth) s := by
  unfold readList Bracket.readRest
  cases found : skipBlank s with
  | nil => rfl
  | cons c r =>
    refine if_congr Iff.rfl rfl ?_
    change Bracket.list.finish _ _ = Bracket.list.finish _ _
    rw [finish_eq, ← found, value_skipBlank, ← finish_eq]

theorem readObject_eq (reserved : Option (List UInt8 → Bool)) (item : Reader) (s : List UInt8)
    (free : ∀ inner ∈ reserved, ∀ name r, readKey s = some (name, r) → name ≠ reservedKey) :
    readObject reserved item s = Bracket.object.readRest item s := by
  unfold readObject Bracket.readRest
  cases found : skipBlank s with
  | nil => rfl
  | cons c r =>
    refine if_congr Iff.rfl rfl ?_
    rw [← found, readKey_skipBlank]
    split <;> rename_i key <;> simp only [Bracket.readItems, Bracket.readFront, key]
    · rfl
    · cases reserved with
      | none => rfl
      | some inner => exact if_neg (free inner rfl _ _ key)

theorem readObject_cases (h : readObject (some inner) item s = some rest) :
    Bracket.object.readRest item s = some rest ∨
      ∃ r, readKey s = some (reservedKey, r) ∧ readReserved inner r = some rest := by
  by_cases first : ∃ r, readKey s = some (reservedKey, r)
  · obtain ⟨r, first⟩ := first
    unfold readObject at h
    unfold Bracket.readRest
    cases found : skipBlank s with
    | nil =>
      rw [found] at h
      cases h
    | cons c r' =>
      rw [found] at h
      dsimp only at h ⊢
      split at h
      · rename_i is
        exact .inl ((if_pos is).trans h)
      · rw [← found, readKey_skipBlank, first] at h
        exact .inr ⟨r, first, (if_pos rfl).symm.trans h⟩
  · refine .inl ((readObject_eq (some inner) item s ?_).symm.trans h)
    rintro _ - name r key rfl
    exact first ⟨r, key⟩

end Equations

/-- A checked text, or one with a reserved object. -/
def Passed (depth : Nat) (kind : Kind) (s : List UInt8) : Prop :=
  Checked depth kind s ∨ Reserves kind s

section Soundness

variable {s t gap front rest : List UInt8} {b : Bracket} {depth : Nat} {kind : Kind}
  {reader : Reader} {inner : List UInt8 → Bool}

theorem Passed.written (passed : Passed depth kind s) : Written kind s :=
  passed.elim Checked.written Reserves.written

theorem Passed.bracket (items : Passed depth (.inside b) s) :
    Passed (depth + 1) .value (b.opening :: (s ++ [b.closing])) :=
  items.imp .bracket .bracket

theorem Passed.item (fronts : Front b front) (value : Passed depth .value s) (blank : Blank gap) :
    Passed depth (.inside b) (front ++ (s ++ gap)) :=
  value.imp (.item fronts · blank) (.item fronts.lead · blank)

theorem Passed.row (first : Passed depth (.inside b) s) (more : Passed depth (.inside b) t) :
    Passed depth (.inside b) (s ++ comma :: t) := by
  rcases first with checked | reserves
  · rcases more with checked' | reserves
    · exact .inl (.row checked checked')
    · exact .inr (.rest checked.written reserves)
  · exact .inr (.first reserves more.written)

theorem exists_front_of_readFront (h : b.readFront s = some rest) :
    ∃ front, (∀ gap, Blank gap → Front b (front ++ gap)) ∧ s = front ++ rest := by
  cases b with
  | list =>
    cases h
    exact ⟨[], fun gap blank => blank, rfl⟩
  | object =>
    obtain ⟨⟨name, r⟩, read, rfl⟩ := Option.map_eq_some_iff.1 h
    obtain ⟨key, named, rfl⟩ := readKey_eq_some_iff.1 read
    exact ⟨key, fun gap blank => ⟨name, key, gap, named, blank, rfl⟩, rfl⟩

/-- What the reader takes is a text that passes, with blanks before it. -/
def Reader.Sound (reader : Reader) (depth : Nat) : Prop :=
  ∀ s rest, reader.read s = some rest →
    ∃ gap v, Blank gap ∧ Passed depth .value v ∧ s = gap ++ (v ++ rest)

theorem passed_of_finish (sound : reader.Sound depth)
    (fronts : ∀ gap, Blank gap → Front b (front ++ gap)) (h : b.finish reader s = some rest) :
    ∃ t, Passed depth (.inside b) t ∧ front ++ s = t ++ b.closing :: rest := by
  induction size : s.length using Nat.strong_induction_on generalizing s front with
  | _ n ih =>
    rw [finish_eq, Option.bind_eq_some_iff] at h
    obtain ⟨r, read, after⟩ := h
    obtain ⟨gap, v, blank, value, rfl⟩ := sound s r read
    have shorter := reader.shorter read
    split at after
    · cases after
    · rename_i c u found
      have shorter' := length_of_skipBlank found
      obtain ⟨gap', blank', rfl⟩ := exists_blank_of_cons found
      have first := Passed.item (fronts gap blank) value blank'
      split at after
      · rename_i is
        cases after
        exact ⟨_, first, by rw [is]; simp only [List.append_assoc]⟩
      · split at after
        · rename_i is
          obtain ⟨w, lead, finish⟩ := Option.bind_eq_some_iff.1 after
          obtain ⟨front', fronts', rfl⟩ := exists_front_of_readFront lead
          rw [List.length_append] at shorter'
          obtain ⟨t, passed, split⟩ := ih _ (by omega) fronts' finish rfl
          refine ⟨_, first.row passed, ?_⟩
          rw [is, split]
          simp only [List.append_assoc, List.cons_append]
        · cases after

theorem passed_of_readRest (sound : reader.Sound depth) (h : b.readRest reader s = some rest) :
    ∃ t, (Blank t ∨ Passed depth (.inside b) t) ∧ s = t ++ b.closing :: rest := by
  unfold Bracket.readRest at h
  split at h
  · cases h
  · rename_i c r found
    split at h
    · rename_i is
      cases h
      obtain ⟨gap, blank, rfl⟩ := exists_blank_of_cons found
      exact ⟨gap, .inl blank, by rw [is]⟩
    · obtain ⟨w, lead, finish⟩ := Option.bind_eq_some_iff.1 h
      obtain ⟨front, fronts, rfl⟩ := exists_front_of_readFront lead
      obtain ⟨t, passed, split⟩ := passed_of_finish sound fronts finish
      exact ⟨t, .inr passed, split⟩

theorem passed_of_rest (inside : Blank t ∨ Passed depth (.inside b) t) :
    Passed (depth + 1) .value (b.opening :: (t ++ [b.closing])) :=
  inside.elim (fun blank => .inl (.hollow blank)) .bracket

theorem reserves_of_readReserved {key : List UInt8} (named : Named reservedKey key)
    (h : readReserved inner s = some rest) :
    ∃ t, Reserves .value (openObject :: (t ++ [closeObject])) ∧
      key ++ s = t ++ closeObject :: rest := by
  unfold readReserved at h
  split at h
  · cases h
  · rename_i c r found
    obtain ⟨gap, blank, rfl⟩ := exists_blank_of_cons found
    split at h
    · rename_i is
      split at h
      · cases h
      · rename_i text r' read
        obtain ⟨inside, spells, rfl⟩ := string_eq_ok_iff.1 read
        split at h
        · split at h
          · cases h
          · rename_i c' u next
            obtain ⟨gap', blank', rfl⟩ := exists_blank_of_cons next
            split at h
            · rename_i is'
              cases h
              have string : Value (quote :: (inside ++ [quote])) := (Scalar.quoted spells).value
              have member : Written (.inside .object) ((key ++ gap) ++ (_ ++ gap')) :=
                .item ⟨key, gap, named.key, blank, rfl⟩ string blank'
              rw [List.append_assoc] at member
              refine ⟨_, .here named member, ?_⟩
              rw [is, is']
              simp only [List.append_assoc, List.cons_append, List.nil_append]
            · cases h
        · cases h
    · cases h

theorem value_sound (inner : List UInt8 → Bool) (depth : Nat) :
    (value inner depth).Sound depth := by
  induction depth with
  | zero =>
    intro s rest h
    obtain ⟨gap, blank, split⟩ := exists_blank s
    obtain ⟨v, scalar, split'⟩ := scalar_of_readScalar h
    exact ⟨gap, v, blank, .inl (.scalar scalar), by rw [split, split']⟩
  | succ depth ih =>
    intro s rest h
    change (match skipBlank s with
      | [] => none
      | b :: r =>
        if b = openList then readList (value inner depth) r
        else if b = openObject then readObject (some inner) (value inner depth) r
        else readScalar (b :: r)) = some rest at h
    split at h
    · cases h
    · rename_i c r found
      obtain ⟨gap, blank, rfl⟩ := exists_blank_of_cons found
      refine ⟨gap, ?_⟩
      have bracket {b : Bracket} (is : c = b.opening)
          (h : b.readRest (value inner depth) r = some rest) :
          ∃ v, Blank gap ∧ Passed (depth + 1) .value v ∧ gap ++ c :: r = gap ++ (v ++ rest) := by
        obtain ⟨t, inside, rfl⟩ := passed_of_readRest ih h
        refine ⟨_, blank, passed_of_rest inside, ?_⟩
        rw [is]
        simp only [List.append_assoc, List.cons_append, List.nil_append]
      split at h
      · rename_i is
        exact bracket (b := .list) is (readList_eq inner depth r ▸ h)
      · split at h
        · rename_i is
          rcases readObject_cases h with rest | ⟨r', first, reserved⟩
          · exact bracket (b := .object) is rest
          · obtain ⟨key, named, rfl⟩ := readKey_eq_some_iff.1 first
            obtain ⟨t, reserves, split⟩ := reserves_of_readReserved named reserved
            refine ⟨_, blank, .inr reserves, ?_⟩
            rw [is, split]
            simp only [List.append_assoc, List.cons_append, List.nil_append]
        · obtain ⟨v, scalar, split⟩ := scalar_of_readScalar h
          exact ⟨v, blank, .inl (.scalar scalar), by rw [split]⟩

end Soundness

section Completeness

variable {s gap rest : List UInt8} {b : Bracket} {depth : Nat} {kind : Kind}
  {inner : List UInt8 → Bool}

theorem Scalar.exists_cons (scalar : Scalar s) :
    ∃ c t, s = c :: t ∧ c ≠ openList ∧ c ≠ openObject := by
  cases scalar with
  | null | true | false | quoted => exact ⟨_, _, rfl, by decide⟩
  | number spelled =>
    obtain ⟨c, t, rfl, front⟩ := spelled.numeral.exists_cons
    refine ⟨c, t, rfl, ?_, ?_⟩ <;> rintro rfl <;> revert front <;> decide

theorem value_scalar (scalar : Scalar s) (apart : Apart rest) :
    (value inner depth).read (s ++ rest) = some rest := by
  have skipped : skipBlank (s ++ rest) = s ++ rest := skipBlank_value blank_nil scalar.value rest
  have read := scalar.read apart
  cases depth with
  | zero =>
    change readScalar (skipBlank (s ++ rest)) = some rest
    rw [skipped, read]
  | succ depth =>
    obtain ⟨c, t, rfl, list, object⟩ := scalar.exists_cons
    rw [List.cons_append] at skipped read ⊢
    simp only [value, skipped, if_neg list, if_neg object, read]

theorem Checked.exists_named (items : Checked depth (.inside .object) s) :
    ∃ name key t, Named name key ∧ s = key ++ t := by
  generalize is : Kind.inside .object = kind at items
  induction items with
  | item fronts =>
    cases is
    obtain ⟨name, key, gap, named, -, rfl⟩ := fronts
    exact ⟨name, key, _, named, List.append_assoc ..⟩
  | row _ _ ih =>
    obtain ⟨name, key, t, named, rfl⟩ := ih is
    exact ⟨name, key, _, named, List.append_assoc ..⟩
  | _ => cases is

theorem value_opening
    (free : b = .object → ∀ name r, readKey s = some (name, r) → name ≠ reservedKey) :
    (value inner (depth + 1)).read (b.opening :: s) = b.readRest (value inner depth) s := by
  simp only [value, skipBlank_cons b.isBlank_opening]
  cases b with
  | list => exact (if_pos rfl).trans (readList_eq inner depth s)
  | object =>
    have other : Bracket.object.opening ≠ openList := by decide
    rw [if_neg other]
    exact (if_pos rfl).trans (readObject_eq (some inner) _ s fun _ _ => free rfl)

theorem readRest_hollow (blank : Blank gap) (item : Reader) :
    b.readRest item (gap ++ b.closing :: rest) = some rest := by
  rw [Bracket.readRest, skipBlank_append blank, skipBlank_cons b.isBlank_closing]
  exact if_pos rfl

theorem readRest_items {item : Reader} (items : Checked depth (.inside b) s)
    (read : b.readItems item (s ++ b.closing :: rest) = some rest) :
    b.readRest item (s ++ b.closing :: rest) = some rest := by
  -- Items are told from an empty bracket by their first byte.
  obtain ⟨c, r, found, other⟩ := items.written.skipBlank_items (b.closing :: rest)
  rw [Bracket.readRest, found]
  exact (if_neg other).trans read

/-- What reading does with a text that is followed by another. -/
def Kind.Reads (inner : List UInt8 → Bool) (depth : Nat) : Kind → List UInt8 → Prop
  | .value, s => ∀ rest, Apart rest → (Json.value inner depth).read (s ++ rest) = some rest
  | .inside b, s => ∀ c rest, c = comma ∨ c = b.closing →
    b.readItems (Json.value inner depth) (s ++ c :: rest) =
      if c = b.closing then some rest else b.readItems (Json.value inner depth) rest

theorem readItems_front {front : List UInt8} (fronts : Front b front) (inner : List UInt8 → Bool)
    (depth : Nat) (s : List UInt8) :
    b.readItems (value inner depth) (front ++ s) = b.finish (value inner depth) s := by
  cases b with
  | list =>
    change Bracket.list.finish _ _ = _
    rw [finish_eq, value_append fronts, ← finish_eq]
  | object =>
    obtain ⟨name, key, gap, named, blank, rfl⟩ := fronts
    have read : readKey (key ++ (gap ++ s)) = some (name, gap ++ s) :=
      readKey_eq_some_iff.2 ⟨key, named, rfl⟩
    rw [List.append_assoc, Bracket.readItems, Bracket.readFront, read]
    change Bracket.object.finish _ _ = _
    rw [finish_eq, value_append blank, ← finish_eq]

theorem Checked.reads (checked : Checked depth kind s) (free : ¬Reserves kind s)
    (inner : List UInt8 → Bool) : kind.Reads inner depth s := by
  induction checked with
  | scalar scalar => exact fun rest apart => value_scalar scalar apart
  | @hollow depth b gap blank =>
    intro rest _
    simp only [List.cons_append, List.append_assoc, List.nil_append]
    rw [value_opening, readRest_hollow blank]
    rintro rfl name r key
    -- After the opening bracket comes the closing one, no key.
    rw [← readKey_skipBlank, skipBlank_append blank, skipBlank_cons rfl] at key
    cases key
  | @bracket depth b s items ih =>
    intro rest _
    simp only [List.cons_append, List.append_assoc, List.nil_append]
    have read := ih (fun reserves => free (.bracket reserves)) b.closing rest (.inr rfl)
    rw [value_opening, readRest_items items (read.trans (if_pos rfl))]
    rintro rfl name r key rfl
    obtain ⟨name', key', t, named, rfl⟩ := items.exists_named
    rw [List.append_assoc] at key
    cases key.symm.trans (readKey_eq_some_iff.2 ⟨key', named, rfl⟩)
    exact free (.here named items.written)
  | @item depth b front s gap fronts value blank ih =>
    intro c rest ends
    -- A number would go on otherwise.
    have apart : Apart (gap ++ c :: rest) := by
      refine (apart_cons ?_ rest).append blank
      rcases ends with rfl | rfl
      · decide
      · cases b <;> decide
    have read := ih (fun reserves => free (.item fronts.lead reserves blank)) _ apart
    have other : isBlank c = false := by
      rcases ends with rfl | rfl
      · rfl
      · exact b.isBlank_closing
    simp only [List.append_assoc]
    rw [readItems_front fronts, finish_eq, read, Option.bind_some, skipBlank_append blank,
      skipBlank_cons other]
    rcases ends with rfl | rfl
    · exact if_congr Iff.rfl rfl (if_pos rfl)
    · exact (if_pos rfl).trans (if_pos rfl).symm
  | @row depth b s t first more ih ih' =>
    intro c rest ends
    have read := ih (fun reserves => free (.first reserves more.written)) comma (t ++ c :: rest)
      (.inl rfl)
    have read' := ih' (fun reserves => free (.rest first.written reserves)) c rest ends
    rw [List.append_assoc, List.cons_append, read, if_neg (by cases b <;> decide), read']

end Completeness

section Root

variable {s rest : List UInt8}

theorem isDone_iff : isDone s ↔ Blank s := by
  rw [isDone, List.isEmpty_iff, skipBlank_eq_nil_iff]

theorem Blank.apart (blank : Blank s) : Apart s :=
  fun b is => .inl (blank b (List.mem_of_mem_head? is))

theorem isObjectOrNull_null {gap : List UInt8} (blank : Blank gap) (s : List UInt8) :
    isObjectOrNull (gap ++ 110 :: s) = (word [117, 108, 108] s).toOption.any isDone := by
  rw [isObjectOrNull, skipBlank_append blank, skipBlank_cons rfl]
  exact if_pos rfl

theorem isObjectOrNull_object {gap : List UInt8} (blank : Blank gap) (s : List UInt8) :
    isObjectOrNull (gap ++ openObject :: s) = (Bracket.object.readRest
      (value (isText (gap ++ openObject :: s).length) (deepest - 1)) s).any isDone := by
  rw [isObjectOrNull, skipBlank_append blank, skipBlank_cons rfl, ← readObject_eq none _ _ nofun]
  exact (if_neg (by decide)).trans (if_pos rfl)

theorem root_of_isObjectOrNull (free : ¬Reserved s) (h : isObjectOrNull s) : Root s := by
  have nonempty : skipBlank s ≠ [] := fun none => by simp [isObjectOrNull, none] at h
  obtain ⟨c, r, found⟩ := List.exists_cons_of_ne_nil nonempty
  obtain ⟨before, blank, rfl⟩ := exists_blank_of_cons found
  have first : c = 110 ∨ c = openObject := by
    rw [isObjectOrNull, found] at h
    by_contra other
    obtain ⟨noNull, noObject⟩ := not_or.1 other
    simp [noNull, noObject] at h
  rcases first with rfl | rfl
  · rw [isObjectOrNull_null blank] at h
    obtain ⟨after, read, done⟩ := (Option.any_eq_true ..).1 h
    refine ⟨before, _, after, blank, .scalar .null, .inl rfl, isDone_iff.1 done, ?_⟩
    rw [eq_of_word (toOption_eq_some read)]
    rfl
  · rw [isObjectOrNull_object blank] at h
    obtain ⟨after, read, done⟩ := (Option.any_eq_true ..).1 h
    obtain ⟨t, inside, rfl⟩ := passed_of_readRest (value_sound _ _) read
    have checked : Checked deepest .value (openObject :: (t ++ [closeObject])) := by
      rcases inside with gap | checked | reserves
      · exact .hollow (b := .object) gap
      · exact .bracket (b := .object) checked
      · refine absurd ⟨before, t, after, blank, reserves, isDone_iff.1 done, ?_⟩ free
        simp only [List.cons_append, List.append_assoc, List.nil_append]
        rfl
    refine ⟨before, _, after, blank, checked, .inr rfl, isDone_iff.1 done, ?_⟩
    simp only [List.cons_append, List.append_assoc, List.nil_append]
    rfl

theorem Root.isObjectOrNull (root : Root s) (free : ¬Reserved s) : isObjectOrNull s := by
  obtain ⟨before, text, after, blank, checked, top, blank', rfl⟩ := root
  have done {t : Option (List UInt8)} (is : t = some after) : t.any isDone :=
    (Option.any_eq_true ..).2 ⟨after, is, isDone_iff.2 blank'⟩
  rcases top with rfl | object
  · refine (isObjectOrNull_null blank _).trans (done ?_)
    exact congrArg Except.toOption (word_append [117, 108, 108] after)
  · generalize is : deepest = depth at checked
    cases checked with
    | scalar scalar =>
      obtain ⟨c, t, rfl, -, other⟩ := scalar.exists_cons
      exact absurd (Option.some.inj object) other
    | @hollow depth b gap blank'' =>
      cases b with
      | list => cases object
      | object =>
        rw [Bracket.opening, List.cons_append, isObjectOrNull_object blank, List.append_assoc]
        exact done (readRest_hollow blank'' _)
    | @bracket depth b items checked =>
      cases b with
      | list => cases object
      | object =>
        cases is
        have free : ¬Reserves (.inside .object) items := fun reserves =>
          free ⟨before, items, after, blank, reserves, blank', rfl⟩
        have read (inner : List UInt8 → Bool) :=
          checked.reads free inner closeObject after (.inr rfl)
        rw [Bracket.opening, List.cons_append, isObjectOrNull_object blank, List.append_assoc]
        exact done (readRest_items checked ((read _).trans (if_pos rfl)))

theorem isObjectOrNull_iff (free : ¬Reserved s) : isObjectOrNull s ↔ Root s :=
  ⟨root_of_isObjectOrNull free, fun root => root.isObjectOrNull free⟩

end Root

end BallotServer.Json
