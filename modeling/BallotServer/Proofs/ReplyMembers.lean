import BallotServer.Draw
import BallotServer.Proofs.JsonStrings

/-! The members of the object in a reply, and what is read of them. Members stand in a row, and none of
the two fields may stand there twice. Whether a field is there already is all that the reader knows of
the members before, so reading a row of members and then another is reading both in one. -/

namespace BallotServer.Draw

open Json

structure Carried (raw : List UInt8) : Prop where
  value : Value raw
  encoded : (Utf8.read? raw).isSome

/-- A member of an object: its key as it is decoded, and its value as it is written. -/
structure Member where
  name : List UInt8
  value : List UInt8

inductive Member.Spelled (m : Member) : List UInt8 → Prop
  | mk {before key after lead behind : List UInt8} (blank : Blank before)
      (named : Literal key m.name) (spaced : Blank after) (gap : Blank lead) (value : Value m.value)
      (ends : Blank behind) :
    Spelled m (before ++ (key ++ (after ++ colon :: (lead ++ (m.value ++ behind)))))

inductive Listed : List Member → List UInt8 → Prop
  | last {m : Member} {s : List UInt8} (first : m.Spelled s) : Listed [m] s
  | more {m : Member} {ms : List Member} {s t : List UInt8} (first : m.Spelled s)
      (rest : Listed ms t) : Listed (m :: ms) (s ++ comma :: t)

def pdfName : List UInt8 := "pdfb64".toUTF8.data.toList

def bubblesName : List UInt8 := "bubbles".toUTF8.data.toList

def named (name : List UInt8) (members : List Member) : List (List UInt8) :=
  (members.filter fun m => m.name = name).map Member.value

section Parts

variable {s rest gap text bytes raw : List UInt8}

theorem literal_of_readString (h : readString s = .ok (bytes, rest)) :
    ∃ text, Literal text bytes ∧ quote :: s = text ++ rest := by
  unfold readString at h
  split at h
  · cases h
  · rename_i p read
    unfold checkUtf8 at h
    split at h
    · rename_i encoded
      cases h
      obtain ⟨inside, spells, rfl⟩ := string_eq_ok_iff.1 read
      refine ⟨_, ⟨⟨inside, spells, rfl⟩, encoded⟩, ?_⟩
      simp only [List.cons_append, List.append_assoc, List.nil_append]
    · cases h

theorem readString_of_literal (literal : Literal text bytes) (rest : List UInt8) :
    ∃ s, text ++ rest = quote :: s ∧ readString s = .ok (bytes, rest) := by
  obtain ⟨⟨inside, spells, rfl⟩, encoded⟩ := literal
  refine ⟨inside ++ quote :: rest, ?_, ?_⟩
  · simp only [List.cons_append, List.append_assoc, List.nil_append]
  · rw [readString, spells.read]
    exact if_pos encoded

theorem literal_of_readText (h : readText s = .ok (bytes, rest)) :
    ∃ gap text, Blank gap ∧ Literal text bytes ∧ s = gap ++ (text ++ rest) := by
  unfold readText at h
  split at h
  · cases h
  · rename_i b r found
    obtain ⟨gap, blank, rfl⟩ := exists_blank_of_cons found
    split at h
    · rename_i is
      obtain ⟨text, literal, split⟩ := literal_of_readString h
      exact ⟨gap, text, blank, literal, by rw [is, split]⟩
    · cases h

theorem readText_append (literal : Literal text bytes) (blank : Blank gap) (rest : List UInt8) :
    readText (gap ++ (text ++ rest)) = .ok (bytes, rest) := by
  obtain ⟨s, split, read⟩ := readString_of_literal literal rest
  rw [readText, skipBlank_value blank literal.value, split]
  exact (if_pos rfl).trans read

theorem split_of_readRaw (h : readRaw s = .ok (raw, rest)) :
    ∃ gap, Blank gap ∧ Carried raw ∧ s = gap ++ (raw ++ rest) := by
  unfold readRaw at h
  split at h
  · cases h
  · rename_i p read
    unfold checkUtf8 at h
    split at h
    · rename_i encoded
      cases h
      obtain ⟨gap, blank, value, split⟩ := value_of_rawValue read
      exact ⟨gap, blank, ⟨value, encoded⟩, split⟩
    · cases h

theorem readRaw_append (carried : Carried raw) (blank : Blank gap) (apart : Apart rest) :
    readRaw (gap ++ (raw ++ rest)) = .ok (raw, rest) := by
  rw [readRaw, rawValue_append blank carried.value apart]
  exact if_pos carried.encoded

end Parts

section Members

variable {seen next fields : Fields} {field : Field} {s r rest : List UInt8} {m : Member}
  {ms : List Member}

def Fields.Free (seen : Fields) : Field → Prop
  | .pdf => seen.pdf = none
  | .bubbles => seen.bubbles = none
  | .other => True

theorem Fields.free_iff : seen.Free field ↔
    ¬(decide (field = .pdf) && seen.pdf.isSome ||
      decide (field = .bubbles) && seen.bubbles.isSome) := by
  cases field <;> simp [Free]

theorem readField_eq_ok_iff : readField seen s = .ok (field, r) ↔
    ∃ before key name after, Blank before ∧ Literal key name ∧ Blank after ∧
      Field.ofKey name = field ∧ seen.Free field ∧
        s = before ++ (key ++ (after ++ colon :: r)) := by
  constructor
  · intro h
    unfold readField at h
    split at h
    · cases h
    · rename_i b r' found
      obtain ⟨before, blank, rfl⟩ := exists_blank_of_cons found
      split at h
      · rename_i is
        split at h
        · cases h
        · rename_i name r'' read
          obtain ⟨key, literal, split⟩ := literal_of_readString read
          dsimp only at h
          split at h
          · cases h
          · rename_i free
            split at h
            · cases h
            · rename_i c u found'
              obtain ⟨after, blank', rfl⟩ := exists_blank_of_cons found'
              split at h
              · rename_i is'
                cases h
                refine ⟨before, key, name, after, blank, literal, blank', rfl, ?_, ?_⟩
                · exact Fields.free_iff.2 free
                · rw [is, split, is']
              · cases h
      · cases h
  · rintro ⟨before, key, name, after, blank, literal, blank', rfl, free, rfl⟩
    obtain ⟨s, split, read⟩ := readString_of_literal literal (after ++ colon :: r)
    rw [readField, skipBlank_value blank literal.value, split]
    dsimp only
    rw [if_pos rfl, read]
    dsimp only
    rw [if_neg (Fields.free_iff.1 free), skipBlank_append blank', skipBlank_cons rfl]
    exact if_pos rfl

/-- What becomes of a field when values are read for it, at most one. -/
inductive Takes (R : List UInt8 → List UInt8 → Prop) :
    Option (List UInt8) → List (List UInt8) → Option (List UInt8) → Prop
  | none {seen : Option (List UInt8)} : Takes R seen [] seen
  | one {text value : List UInt8} (is : R text value) : Takes R .none [text] (some value)

theorem takes_append {R : List UInt8 → List UInt8 → Prop} {a c : Option (List UInt8)}
    {xs ys : List (List UInt8)} :
    Takes R a (xs ++ ys) c ↔ ∃ b, Takes R a xs b ∧ Takes R b ys c := by
  constructor
  · intro takes
    cases xs with
    | nil => exact ⟨a, .none, takes⟩
    | cons x xs =>
      generalize all : x :: xs ++ ys = zs at takes
      cases takes with
      | none => cases all
      | one is =>
        obtain ⟨rfl, nothing⟩ := List.cons.inj all
        obtain ⟨rfl, rfl⟩ := List.append_eq_nil_iff.1 nothing
        exact ⟨_, .one is, .none⟩
  · rintro ⟨b, first, second⟩
    cases first with
    | none => exact second
    | one is =>
      cases second
      exact .one is

theorem takes_nil_iff {R : List UInt8 → List UInt8 → Prop} {a c : Option (List UInt8)} :
    Takes R a [] c ↔ c = a := by
  constructor
  · intro takes
    cases takes
    rfl
  · rintro rfl
    exact .none

theorem takes_one_iff {R : List UInt8 → List UInt8 → Prop} {a c : Option (List UInt8)}
    {text : List UInt8} : Takes R a [text] c ↔ a = none ∧ ∃ value, R text value ∧ c = some value := by
  constructor
  · intro takes
    cases takes with
    | one is => exact ⟨rfl, _, is, rfl⟩
  · rintro ⟨rfl, value, is, rfl⟩
    exact .one is

def Fields.Adds (seen : Fields) (ms : List Member) (fields : Fields) : Prop :=
  Takes Literal seen.pdf (named pdfName ms) fields.pdf ∧
    Takes (fun text raw => text = raw ∧ Draw.Carried raw) seen.bubbles (named bubblesName ms)
      fields.bubbles

theorem named_cons (name : List UInt8) (m : Member) (ms : List Member) :
    named name (m :: ms) = named name [m] ++ named name ms := by
  rw [named, ← List.singleton_append, List.filter_append, List.map_append]
  rfl

theorem Fields.adds_cons : seen.Adds (m :: ms) fields ↔
    ∃ next : Fields, seen.Adds [m] next ∧ next.Adds ms fields := by
  simp only [Adds, named_cons _ m ms, takes_append]
  constructor
  · rintro ⟨⟨pdf, first, rest⟩, bubbles, first', rest'⟩
    exact ⟨⟨pdf, bubbles⟩, ⟨first, first'⟩, rest, rest'⟩
  · rintro ⟨next, ⟨first, first'⟩, rest, rest'⟩
    exact ⟨⟨_, first, rest⟩, _, first', rest'⟩

def Fields.Gets (seen : Fields) (value : List UInt8) (next : Fields) : Field → Prop
  | .pdf => seen.pdf = none ∧ ∃ pdf, Literal value pdf ∧ next = { seen with pdf := some pdf }
  | .bubbles =>
    seen.bubbles = none ∧ Draw.Carried value ∧ next = { seen with bubbles := some value }
  | .other => next = seen

theorem Fields.adds_one : seen.Adds [m] next ↔ seen.Gets m.value next (Field.ofKey m.name) := by
  have different : bubblesName ≠ pdfName := by decide
  obtain ⟨pdf, bubbles⟩ := seen
  obtain ⟨pdf', bubbles'⟩ := next
  by_cases isPdf : m.name = pdfName
  · have field : Field.ofKey m.name = .pdf := if_pos isPdf
    have one : named pdfName [m] = [m.value] := by simp [named, isPdf]
    have nothing : named bubblesName [m] = [] := by simp [named, isPdf, different.symm]
    simp only [Adds, field, Gets, one, nothing, takes_nil_iff, takes_one_iff, mk.injEq]
    grind
  · by_cases isMap : m.name = bubblesName
    · have field : Field.ofKey m.name = .bubbles := (if_neg isPdf).trans (if_pos isMap)
      have nothing : named pdfName [m] = [] := by simp [named, isPdf]
      have one : named bubblesName [m] = [m.value] := by simp [named, isMap]
      simp only [Adds, field, Gets, one, nothing, takes_nil_iff, takes_one_iff, mk.injEq]
      grind
    · have field : Field.ofKey m.name = .other := (if_neg isPdf).trans (if_neg isMap)
      have nothing : named pdfName [m] = [] := by simp [named, isPdf]
      have nothing' : named bubblesName [m] = [] := by simp [named, isMap]
      simp only [Adds, field, Gets, nothing, nothing', takes_nil_iff, mk.injEq]

theorem Fields.Gets.free {value : List UInt8} (gets : seen.Gets value next field) :
    seen.Free field := by
  cases field with
  | pdf | bubbles => exact gets.1
  | other => trivial

theorem gets_of_readInto (free : seen.Free field) (h : readInto seen field s = .ok (next, r)) :
    ∃ lead value, Blank lead ∧ Value value ∧ seen.Gets value next field ∧
      s = lead ++ (value ++ r) := by
  cases field with
  | pdf =>
    obtain ⟨p, read, is⟩ := exists_of_map_eq_ok h
    cases is
    obtain ⟨lead, text, blank, literal, split⟩ := literal_of_readText read
    exact ⟨lead, text, blank, literal.value, ⟨free, _, literal, rfl⟩, split⟩
  | bubbles =>
    obtain ⟨p, read, is⟩ := exists_of_map_eq_ok h
    cases is
    obtain ⟨lead, blank, carried, split⟩ := split_of_readRaw read
    exact ⟨lead, _, blank, carried.value, ⟨free, carried, rfl⟩, split⟩
  | other =>
    obtain ⟨r', read, is⟩ := exists_of_map_eq_ok h
    cases is
    obtain ⟨lead, value, blank, isValue, split⟩ := value_of_skipValue read
    exact ⟨lead, value, blank, isValue, rfl, split⟩

theorem readInto_append {lead value : List UInt8} (isValue : Value value)
    (gets : seen.Gets value next field) (blank : Blank lead) (apart : Apart r) :
    readInto seen field (lead ++ (value ++ r)) = .ok (next, r) := by
  cases field with
  | pdf =>
    obtain ⟨-, pdf, literal, rfl⟩ := gets
    rw [readInto, readText_append literal blank]
    rfl
  | bubbles =>
    obtain ⟨-, carried, rfl⟩ := gets
    rw [readInto, readRaw_append carried blank apart]
    rfl
  | other =>
    cases gets
    rw [readInto, skipValue_append blank isValue apart]
    rfl

theorem spelled_of_read {t gap : List UInt8} (h : readField seen s = .ok (field, r))
    (h' : readInto seen field r = .ok (next, gap ++ t)) (blank : Blank gap) :
    ∃ (m : Member) (u : List UInt8), m.Spelled u ∧ seen.Adds [m] next ∧ s = u ++ t := by
  obtain ⟨before, key, name, after, blank', literal, blank'', rfl, free, rfl⟩ :=
    readField_eq_ok_iff.1 h
  obtain ⟨lead, value, isBlank, isValue, gets, rfl⟩ := gets_of_readInto free h'
  refine ⟨⟨name, value⟩, _, .mk blank' literal blank'' isBlank isValue blank,
    Fields.adds_one.2 gets, ?_⟩
  simp only [List.append_assoc, List.cons_append]

theorem read_of_spelled {u : List UInt8} {c : UInt8} (spelled : m.Spelled u)
    (adds : seen.Adds [m] next) (ends : c = comma ∨ c = closeObject) (t : List UInt8) :
    ∃ field r r', readField seen (u ++ c :: t) = .ok (field, r) ∧
      readInto seen field r = .ok (next, r') ∧ skipBlank r' = c :: t := by
  obtain ⟨blank, literal, spaced, gap, value, behind⟩ := spelled
  have gets := Fields.adds_one.1 adds
  have plain : isBlank c = false := by rcases ends with rfl | rfl <;> rfl
  have last : c ∈ [comma, closeList, closeObject] := by rcases ends with rfl | rfl <;> decide
  have apart := (apart_cons last t).append behind
  refine ⟨Field.ofKey m.name, _, _, readField_eq_ok_iff.2
    ⟨_, _, m.name, _, blank, literal, spaced, rfl, gets.free, ?_⟩,
    readInto_append value gets gap apart, ?_⟩
  · simp only [List.append_assoc, List.cons_append]
  · rw [skipBlank_append behind, skipBlank_cons plain]

theorem listed_of_readMembers {fuel : Nat} (h : readMembers fuel seen s = .ok (fields, rest)) :
    ∃ ms t, Listed ms t ∧ seen.Adds ms fields ∧ s = t ++ closeObject :: rest := by
  induction fuel generalizing seen s with
  | zero => cases h
  | succ fuel ih =>
    simp only [readMembers] at h
    split at h
    · cases h
    · rename_i field r key
      split at h
      · cases h
      · rename_i next r' value
        split at h
        · cases h
        · rename_i c u found
          obtain ⟨gap, blank, rfl⟩ := exists_blank_of_cons found
          -- The fields after this member are what the other members find.
          obtain ⟨m, t, spelled, adds, rfl⟩ := spelled_of_read key value blank
          split at h
          · rename_i is
            cases h
            exact ⟨[m], t, .last spelled, adds, by rw [is]⟩
          · split at h
            · rename_i is
              obtain ⟨ms, v, listed, adds', rfl⟩ := ih h
              refine ⟨m :: ms, _, .more spelled listed, Fields.adds_cons.2 ⟨next, adds, adds'⟩, ?_⟩
              rw [is, List.append_assoc, List.cons_append]
            · cases h

theorem readMembers_append {t : List UInt8} (listed : Listed ms t) (adds : seen.Adds ms fields)
    (spare : Nat) (rest : List UInt8) :
    readMembers (spare + ms.length) seen (t ++ closeObject :: rest) = .ok (fields, rest) := by
  induction listed generalizing seen with
  | last first =>
    obtain ⟨field, r, r', key, value, found⟩ := read_of_spelled first adds (.inr rfl) rest
    simp only [List.length_singleton, readMembers, key, value, found, if_true]
  | @more m ms s t first _ ih =>
    obtain ⟨next, adds, adds'⟩ := Fields.adds_cons.1 adds
    obtain ⟨field, r, r', key, value, found⟩ := read_of_spelled first adds (.inl rfl)
      (t ++ closeObject :: rest)
    have other : comma ≠ closeObject := by decide
    rw [List.append_assoc, List.cons_append]
    simp only [List.length_cons, ← Nat.add_assoc, readMembers, key, value, found, other, if_false,
      if_true]
    exact ih adds'

theorem Listed.length_le {t : List UInt8} (listed : Listed ms t) : ms.length ≤ t.length := by
  induction listed with
  | last first =>
    cases first
    simp only [List.length_append, List.length_cons, List.length_nil]
    omega
  | more first _ ih =>
    cases first
    simp only [List.length_append, List.length_cons]
    omega

theorem Listed.append {gap t : List UInt8} (listed : Listed ms t) (blank : Blank gap) :
    Listed ms (gap ++ t) := by
  have blanks {before : List UInt8} (blank' : Blank before) : Blank (gap ++ before) :=
    List.forall_mem_append.2 ⟨blank, blank'⟩
  cases listed with
  | last first =>
    obtain ⟨blank', literal, spaced, gap, value, behind⟩ := first
    rw [← List.append_assoc]
    exact .last (.mk (blanks blank') literal spaced gap value behind)
  | more first rest =>
    obtain ⟨blank', literal, spaced, gap, value, behind⟩ := first
    rw [← List.append_assoc, ← List.append_assoc]
    exact .more (.mk (blanks blank') literal spaced gap value behind) rest

theorem Listed.exists_quote {t : List UInt8} (listed : Listed ms t) :
    ∃ gap u, Blank gap ∧ Listed ms (quote :: u) ∧ t = gap ++ quote :: u := by
  have none := blank_nil
  cases listed with
  | last first =>
    obtain ⟨blank, literal, spaced, gap, value, behind⟩ := first
    have first' := Member.Spelled.mk none literal spaced gap value behind
    obtain ⟨⟨inside, -, rfl⟩, -⟩ := literal
    exact ⟨_, _, blank, .last first', rfl⟩
  | more first rest =>
    obtain ⟨blank, literal, spaced, gap, value, behind⟩ := first
    have first' := Member.Spelled.mk none literal spaced gap value behind
    obtain ⟨⟨inside, -, rfl⟩, -⟩ := literal
    exact ⟨_, _, blank, .more first' rest, by rw [List.append_assoc]; rfl⟩

end Members

end BallotServer.Draw
