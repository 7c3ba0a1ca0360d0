import BallotServer.Json.Strict
import BallotServer.Proofs.JsonStrings

/-! The grammar of JSON with what is checked of its values: brackets nest at most so deep, numbers
are finite and escaped surrogates come in pairs. Objects with the reserved key are left out of what
is said of this grammar; which texts have one is said by a relation of its own, over the grammar
without checks. -/

namespace BallotServer.Json

inductive Scalar : List UInt8 → Prop
  | null : Scalar [110, 117, 108, 108]
  | true : Scalar [116, 114, 117, 101]
  | false : Scalar [102, 97, 108, 115, 101]
  | number {n : Number} {s : List UInt8} (spelled : n.Spelled s) (finite : n.isFinite) : Scalar s
  | quoted {inside bytes : List UInt8} (spells : Spells inside bytes) :
    Scalar (quote :: (inside ++ [quote]))

def Named (name s : List UInt8) : Prop :=
  ∃ before inside after, Blank before ∧ Spells inside name ∧ Blank after ∧
    s = before ++ quote :: (inside ++ quote :: (after ++ [colon]))

def Front : Bracket → List UInt8 → Prop
  | .list, s => Blank s
  | .object, s => ∃ name key gap, Named name key ∧ Blank gap ∧ s = key ++ gap

/-- The texts of each kind whose brackets nest at most as deep as given. -/
inductive Checked : Nat → Kind → List UInt8 → Prop
  | scalar {depth : Nat} {s : List UInt8} (scalar : Scalar s) : Checked depth .value s
  | hollow {depth : Nat} {b : Bracket} {gap : List UInt8} (blank : Blank gap) :
    Checked (depth + 1) .value (b.opening :: (gap ++ [b.closing]))
  | bracket {depth : Nat} {b : Bracket} {s : List UInt8} (items : Checked depth (.inside b) s) :
    Checked (depth + 1) .value (b.opening :: (s ++ [b.closing]))
  | item {depth : Nat} {b : Bracket} {front s gap : List UInt8} (fronts : Front b front)
      (value : Checked depth .value s) (blank : Blank gap) :
    Checked depth (.inside b) (front ++ (s ++ gap))
  | row {depth : Nat} {b : Bracket} {s t : List UInt8} (first : Checked depth (.inside b) s)
      (rest : Checked depth (.inside b) t) : Checked depth (.inside b) (s ++ comma :: t)

/-- The texts of each kind with an object whose first key is reserved. -/
inductive Reserves : Kind → List UInt8 → Prop
  | here {key s : List UInt8} (named : Named reservedKey key)
      (items : Written (.inside .object) (key ++ s)) :
    Reserves .value (openObject :: ((key ++ s) ++ [closeObject]))
  | bracket {b : Bracket} {s : List UInt8} (items : Reserves (.inside b) s) :
    Reserves .value (b.opening :: (s ++ [b.closing]))
  | item {b : Bracket} {lead s gap : List UInt8} (leads : Lead b lead) (value : Reserves .value s)
      (blank : Blank gap) : Reserves (.inside b) (lead ++ (s ++ gap))
  | first {b : Bracket} {s t : List UInt8} (first : Reserves (.inside b) s)
      (rest : Written (.inside b) t) : Reserves (.inside b) (s ++ comma :: t)
  | rest {b : Bracket} {s t : List UInt8} (first : Written (.inside b) s)
      (rest : Reserves (.inside b) t) : Reserves (.inside b) (s ++ comma :: t)

def Root (s : List UInt8) : Prop :=
  ∃ before text after, Blank before ∧ Checked deepest .value text ∧
    (text = [110, 117, 108, 108] ∨ text.head? = some openObject) ∧ Blank after ∧
    s = before ++ (text ++ after)

/-- An object with blanks around it, in which another object has the reserved key first. -/
def Reserved (s : List UInt8) : Prop :=
  ∃ before items after, Blank before ∧ Reserves (.inside .object) items ∧ Blank after ∧
    s = before ++ (openObject :: (items ++ [closeObject]) ++ after)

section Unchecked

variable {name s : List UInt8} {depth : Nat} {kind : Kind} {b : Bracket}

theorem Scalar.value (scalar : Scalar s) : Value s := by
  cases scalar with
  | null => exact .null
  | true => exact .true
  | false => exact .false
  | number spelled => exact .numeral spelled.numeral
  | quoted spells => exact .quoted ⟨_, spells.symbols, rfl⟩

theorem Named.key (named : Named name s) : Key s := by
  obtain ⟨before, inside, after, blank, spells, blank', rfl⟩ := named
  refine ⟨before, _, after, blank, ⟨inside, spells.symbols, rfl⟩, blank', ?_⟩
  simp only [List.append_assoc, List.cons_append, List.nil_append]

theorem Front.lead (fronts : Front b s) : Lead b s := by
  cases b with
  | list => exact fronts
  | object =>
    obtain ⟨name, key, gap, named, blank, rfl⟩ := fronts
    exact ⟨key, gap, named.key, blank, rfl⟩

theorem Checked.written (checked : Checked depth kind s) : Written kind s := by
  induction checked with
  | scalar scalar => exact scalar.value
  | hollow blank => exact .hollow blank
  | bracket _ ih => exact .bracket ih
  | item fronts _ blank ih => exact .item fronts.lead ih blank
  | row _ _ ih ih' => exact .row ih ih'

theorem Reserves.written (reserves : Reserves kind s) : Written kind s := by
  induction reserves with
  | here named items => exact Written.bracket (b := .object) items
  | bracket _ ih => exact .bracket ih
  | item leads _ blank ih => exact .item leads ih blank
  | first _ rest ih => exact .row ih rest
  | rest first _ ih => exact .row first ih

theorem Spells.eq_of_notMem {inside bytes : List UInt8} (spells : Spells inside bytes)
    (none : backslash ∉ inside) : bytes = inside := by
  induction spells with
  | nil => rfl
  | cons first _ ih =>
    rw [List.mem_append, not_or] at none
    cases first with
    | plain => rw [ih none.2]
    | letter | point => exact absurd (List.mem_cons_self ..) none.1

theorem Named.mem_of_reserved (named : Named reservedKey s) : 36 ∈ s ∨ backslash ∈ s := by
  obtain ⟨before, inside, after, -, spells, -, rfl⟩ := named
  by_cases escaped : backslash ∈ inside
  · exact .inr (by simp [escaped])
  · have dollar : 36 ∈ reservedKey := by decide +kernel
    rw [spells.eq_of_notMem escaped] at dollar
    exact .inl (by simp [dollar])

theorem Reserves.mem (reserves : Reserves kind s) : 36 ∈ s ∨ backslash ∈ s := by
  induction reserves with
  | here named => exact named.mem_of_reserved.imp (by simp +contextual) (by simp +contextual)
  | bracket _ ih | item _ _ _ ih | first _ _ ih | rest _ _ ih =>
    exact ih.imp (by simp +contextual) (by simp +contextual)

theorem not_reserved_of_notMem (dollar : 36 ∉ s) (escape : backslash ∉ s) : ¬Reserved s := by
  rintro ⟨before, items, after, -, reserves, -, rfl⟩
  rcases reserves.mem with member | member
  · exact dollar (by simp [member])
  · exact escape (by simp [member])

end Unchecked

section Tokens

variable {name s rest : List UInt8}

theorem scalar_of_readScalar (h : readScalar s = some rest) : ∃ t, Scalar t ∧ s = t ++ rest := by
  unfold readScalar at h
  split at h
  · cases h
  · rename_i b r
    split at h
    · rename_i is
      obtain ⟨p, read, rfl⟩ := Option.map_eq_some_iff.1 h
      obtain ⟨inside, spells, rfl⟩ := string_eq_ok_iff.1 (toOption_eq_some read)
      exact ⟨_, .quoted spells, by rw [is]; simp only [List.cons_append, List.append_assoc,
        List.nil_append]⟩
    · split at h
      · rename_i is
        exact ⟨_, .null, by rw [is, eq_of_word (toOption_eq_some h)]; rfl⟩
      · split at h
        · rename_i is
          exact ⟨_, .true, by rw [is, eq_of_word (toOption_eq_some h)]; rfl⟩
        · split at h
          · rename_i is
            exact ⟨_, .false, by rw [is, eq_of_word (toOption_eq_some h)]; rfl⟩
          · split at h
            · cases h
            · rename_i n r' read
              obtain ⟨t, spelled, split⟩ := spelled_of_read read
              split at h
              · rename_i finite
                cases h
                exact ⟨t, .number spelled finite, split⟩
              · cases h

theorem Scalar.read (scalar : Scalar s) (apart : Apart rest) :
    readScalar (s ++ rest) = some rest := by
  cases scalar with
  | null => exact congrArg Except.toOption (word_append [117, 108, 108] rest)
  | true => exact congrArg Except.toOption (word_append [114, 117, 101] rest)
  | false => exact congrArg Except.toOption (word_append [97, 108, 115, 101] rest)
  | @number n _ spelled finite =>
    have read := spelled.read apart.unlike
    obtain ⟨b, t, rfl, front⟩ := spelled.numeral.exists_cons
    have other {c : UInt8} (no : ¬(c = 45 ∨ 48 ≤ c ∧ c ≤ 57)) : b ≠ c := by
      rintro rfl
      exact no front
    rw [List.cons_append] at read ⊢
    rw [readScalar, if_neg (other (by decide)), if_neg (other (by decide)),
      if_neg (other (by decide)), if_neg (other (by decide)), read]
    exact if_pos finite
  | quoted spells =>
    simp only [List.cons_append, List.append_assoc, List.nil_append]
    rw [readScalar, if_pos rfl, spells.read]
    rfl

theorem readKey_eq_some_iff :
    readKey s = some (name, rest) ↔ ∃ key, Named name key ∧ s = key ++ rest := by
  constructor
  · intro h
    unfold readKey at h
    split at h
    · cases h
    · rename_i b r found
      obtain ⟨before, blank, rfl⟩ := exists_blank_of_cons found
      split at h
      · rename_i is
        split at h
        · cases h
        · rename_i said r' read
          obtain ⟨inside, spells, rfl⟩ := string_eq_ok_iff.1 read
          split at h
          · cases h
          · rename_i c u next
            obtain ⟨after, blank', rfl⟩ := exists_blank_of_cons next
            split at h
            · rename_i is'
              cases h
              refine ⟨_, ⟨before, inside, after, blank, spells, blank', rfl⟩, ?_⟩
              rw [is, is']
              simp only [List.append_assoc, List.cons_append, List.nil_append]
            · cases h
      · cases h
  · rintro ⟨key, ⟨before, inside, after, blank, spells, blank', rfl⟩, rfl⟩
    simp only [List.append_assoc, List.cons_append, List.nil_append]
    rw [readKey, skipBlank_append blank, skipBlank_cons rfl]
    dsimp only
    rw [if_pos rfl, spells.read]
    dsimp only
    rw [skipBlank_append blank', skipBlank_cons rfl]
    exact if_pos rfl

end Tokens

end BallotServer.Json
