import BallotServer.Json.Number

/-! Which bytes are one JSON text, read with all values checked: escaped surrogates are paired,
numbers are finite, and brackets nest to a bounded depth.

One object form is reserved: if the first key of an object inside another value is `reservedKey`,
its value must be a string that is itself one JSON text, and the object must end there. The test
for such a string is passed on as `inner`. -/

namespace BallotServer.Json

/-- A reader of one item, with the blanks before it. -/
structure Reader where
  read : List UInt8 → Option (List UInt8)
  shorter : ∀ {s rest}, read s = some rest → rest.length < s.length

def readScalar (s : List UInt8) : Option (List UInt8) :=
  match s with
  | [] => none
  | b :: r =>
    if b = quote then (string [] r).toOption.map Prod.snd
    else if b = 110 then (word [117, 108, 108] r).toOption
    else if b = 116 then (word [114, 117, 101] r).toOption
    else if b = 102 then (word [97, 108, 115, 101] r).toOption
    else match Number.read s with
      | .error _ => none
      | .ok (n, r) => if n.isFinite then some r else none

theorem toOption_eq_some {ε α : Type} {x : Except ε α} {a : α} (h : x.toOption = some a) :
    x = .ok a := by
  cases x <;> simp_all [Except.toOption]

theorem length_of_readScalar {s rest : List UInt8} (h : readScalar s = some rest) :
    rest.length < s.length := by
  unfold readScalar at h
  split at h
  · simp at h
  · rename_i b r
    split at h
    · obtain ⟨p, hp, rfl⟩ := Option.map_eq_some_iff.1 h
      have hl : p.2.length < r.length := length_of_string (toOption_eq_some hp)
      simp; omega
    · split at h
      · have := length_of_word (toOption_eq_some h); simp; omega
      · split at h
        · have := length_of_word (toOption_eq_some h); simp; omega
        · split at h
          · have := length_of_word (toOption_eq_some h); simp; omega
          · split at h
            · simp at h
            · rename_i hn
              have := Number.length_of_read hn
              split at h <;> grind

theorem length_of_skipBlank {s r : List UInt8} {b : UInt8} (h : skipBlank s = b :: r) :
    r.length < s.length := by
  have := length_skipBlank_le s
  rw [h] at this
  simp at this; omega

def Reader.scalar : Reader where
  read s := readScalar (skipBlank s)
  shorter h := Nat.lt_of_lt_of_le (length_of_readScalar h) (length_skipBlank_le _)

def items (item : Reader) (s : List UInt8) : Option (List UInt8) :=
  match h : item.read s with
  | none => none
  | some r =>
    match hb : skipBlank r with
    | [] => none
    | b :: r =>
      if b = closeList then some r
      else if b = comma then
        have := item.shorter h
        have := length_of_skipBlank hb
        items item r
      else none
termination_by s.length

theorem length_of_items {item : Reader} {s rest : List UInt8} (h : items item s = some rest) :
    rest.length < s.length := by
  fun_induction items item s with
  | case1 => simp at h
  | case2 => simp at h
  | case3 s r h1 r hb =>
    have := item.shorter h1
    have := length_of_skipBlank hb
    simp at h; grind
  | case4 => grind
  | case5 => simp at h

def readList (item : Reader) (s : List UInt8) : Option (List UInt8) :=
  match skipBlank s with
  | [] => none
  | b :: r => if b = closeList then some r else items item (b :: r)

def readKey (s : List UInt8) : Option (List UInt8 × List UInt8) :=
  match skipBlank s with
  | [] => none
  | b :: r =>
    if b = quote then
      match string [] r with
      | .error _ => none
      | .ok (key, r) =>
        match skipBlank r with
        | [] => none
        | b :: r => if b = colon then some (key, r) else none
    else none

theorem length_of_readKey {s rest key : List UInt8} (h : readKey s = some (key, rest)) :
    rest.length < s.length := by
  unfold readKey at h
  split at h
  · simp at h
  · rename_i hb
    have := length_of_skipBlank hb
    split at h
    · split at h
      · simp at h
      · rename_i hs
        have := length_of_string hs
        split at h
        · simp at h
        · rename_i hc
          have := length_of_skipBlank hc
          split at h <;> grind
    · simp at h

def members (value : Reader) (s : List UInt8) : Option (List UInt8) :=
  match h : value.read s with
  | none => none
  | some r =>
    match hb : skipBlank r with
    | [] => none
    | b :: r =>
      if b = closeObject then some r
      else if b = comma then
        match hk : readKey r with
        | none => none
        | some (_, r) =>
          have := value.shorter h
          have := length_of_skipBlank hb
          have := length_of_readKey hk
          members value r
      else none
termination_by s.length

theorem length_of_members {value : Reader} {s rest : List UInt8}
    (h : members value s = some rest) : rest.length < s.length := by
  fun_induction members value s with
  | case1 => simp at h
  | case2 => simp at h
  | case3 s r h1 r hb =>
    have := value.shorter h1
    have := length_of_skipBlank hb
    simp at h; grind
  | case4 => simp at h
  | case5 => grind
  | case6 => simp at h

def reservedKey : List UInt8 := "$serde_json::private::RawValue".toUTF8.data.toList

/-- The value under the reserved key and the end of its object. -/
def readReserved (inner : List UInt8 → Bool) (s : List UInt8) : Option (List UInt8) :=
  match skipBlank s with
  | [] => none
  | b :: r =>
    if b = quote then
      match string [] r with
      | .error _ => none
      | .ok (text, r) =>
        if inner text then
          match skipBlank r with
          | [] => none
          | b :: r => if b = closeObject then some r else none
        else none
    else none

theorem length_of_readReserved {inner : List UInt8 → Bool} {s rest : List UInt8}
    (h : readReserved inner s = some rest) : rest.length < s.length := by
  unfold readReserved at h
  split at h
  · simp at h
  · rename_i hb
    have := length_of_skipBlank hb
    split at h
    · split at h
      · simp at h
      · rename_i hs
        have := length_of_string hs
        split at h
        · split at h
          · simp at h
          · rename_i hc
            have := length_of_skipBlank hc
            split at h <;> grind
        · simp at h
    · simp at h

/-- What follows the opening bracket of an object. The test says what becomes of a reserved first
key; without one no key is reserved. -/
def readObject (inner : Option (List UInt8 → Bool)) (value : Reader) (s : List UInt8) :
    Option (List UInt8) :=
  match skipBlank s with
  | [] => none
  | b :: r =>
    if b = closeObject then some r
    else match readKey (b :: r) with
      | none => none
      | some (key, r) =>
        match inner with
        | none => members value r
        | some inner => if key = reservedKey then readReserved inner r else members value r

theorem length_of_readList {item : Reader} {s rest : List UInt8}
    (h : readList item s = some rest) : rest.length < s.length := by
  unfold readList at h
  have hs := length_skipBlank_le s
  split at h
  · simp at h
  · rename_i hb
    have := length_of_skipBlank hb
    split at h
    · grind
    · have := length_of_items h
      rw [hb] at hs
      omega

theorem length_of_readObject {inner : Option (List UInt8 → Bool)} {value : Reader}
    {s rest : List UInt8} (h : readObject inner value s = some rest) :
    rest.length < s.length := by
  unfold readObject at h
  have hs := length_skipBlank_le s
  split at h
  · simp at h
  · rename_i hb
    have := length_of_skipBlank hb
    split at h
    · grind
    · split at h
      · simp at h
      · rename_i hk
        have := length_of_readKey hk
        rw [hb] at hs
        split at h
        · have := length_of_members h; omega
        · split at h
          · have := length_of_readReserved h; omega
          · have := length_of_members h; omega

/-- A value whose brackets nest at most as deep as given. -/
def value (inner : List UInt8 → Bool) : Nat → Reader
  | 0 => .scalar
  | depth + 1 =>
    { read := fun s =>
        match skipBlank s with
        | [] => none
        | b :: r =>
          if b = openList then readList (value inner depth) r
          else if b = openObject then readObject (some inner) (value inner depth) r
          else readScalar (b :: r)
      shorter := by
        intro s rest h
        have hs := length_skipBlank_le s
        split at h
        · simp at h
        · rename_i hb
          have := length_of_skipBlank hb
          split at h
          · have := length_of_readList h; omega
          · split at h
            · have := length_of_readObject h; omega
            · have := length_of_readScalar h
              rw [hb] at hs
              omega }

def deepest : Nat := 127

def isDone (s : List UInt8) : Bool := (skipBlank s).isEmpty

/-- Whether the bytes are one JSON text; the number bounds how often texts are reserved strings of
other texts. -/
def isText : Nat → List UInt8 → Bool
  | 0, _ => false
  | n + 1, s => ((value (isText n) deepest).read s).any isDone

def isObjectOrNull (s : List UInt8) : Bool :=
  match skipBlank s with
  | [] => false
  | b :: r =>
    if b = 110 then (word [117, 108, 108] r).toOption.any isDone
    else if b = openObject then
      (readObject none (value (isText s.length) (deepest - 1)) r).any isDone
    else false

end BallotServer.Json
