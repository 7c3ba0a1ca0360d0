import BallotServer.Json.Number

/-! Passing over a JSON value. Only the grammar is checked: numbers have no range, escaped units
need not pair, and brackets nest without bound; the open ones are kept on a list. -/

namespace BallotServer.Json

inductive Bracket
  | list
  | object
  deriving DecidableEq, Repr

def Bracket.closing : Bracket → UInt8
  | list => closeList
  | object => closeObject

/-- What is read next: a value, a key, the inside of a bracket just opened, or what may follow a
complete value. -/
inductive Phase
  | value
  | key
  | opened
  | complete
  deriving DecidableEq, Repr

def Phase.rank : Phase → Nat
  | opened => 1
  | _ => 0

def Bracket.item : Bracket → Phase
  | list => .value
  | object => .key

theorem Bracket.rank_item (b : Bracket) : b.item.rank < Phase.opened.rank := by
  cases b <;> decide

def skipScalar (s : List UInt8) : Except Fault (List UInt8) :=
  match s with
  | [] => .error .ended
  | b :: r =>
    if b = quote then skipString r
    else if b = 110 then word [117, 108, 108] r
    else if b = 116 then word [114, 117, 101] r
    else if b = 102 then word [97, 108, 115, 101] r
    else (Number.read s).map Prod.snd

theorem length_of_skipScalar {s rest : List UInt8} (h : skipScalar s = .ok rest) :
    rest.length < s.length := by
  unfold skipScalar at h
  split at h
  · simp at h
  · rename_i b r
    split at h
    · have := length_of_skipString h; simp; omega
    · split at h
      · have := length_of_word h; simp; omega
      · split at h
        · have := length_of_word h; simp; omega
        · split at h
          · have := length_of_word h; simp; omega
          · cases hn : Number.read (b :: r) with
            | error e => simp [hn, Except.map] at h
            | ok p =>
              have hl : p.2.length < (b :: r).length := Number.length_of_read hn
              simp only [hn, Except.map, Except.ok.injEq] at h
              exact h ▸ hl

def skipKey (s : List UInt8) : Except Fault (List UInt8) :=
  match skipBlank s with
  | [] => .error .ended
  | b :: r =>
    if b = quote then
      match skipString r with
      | .error e => .error e
      | .ok r =>
        match skipBlank r with
        | [] => .error .ended
        | b :: r => if b = colon then .ok r else .error .malformed
    else .error .malformed

theorem length_of_skipBlank_eq {s r : List UInt8} {b : UInt8} (h : skipBlank s = b :: r) :
    r.length + 1 ≤ s.length := by
  have := length_skipBlank_le s
  rw [h] at this
  simpa using this

theorem length_of_skipKey {s rest : List UInt8} (h : skipKey s = .ok rest) :
    rest.length < s.length := by
  unfold skipKey at h
  split at h
  · simp at h
  · rename_i hb
    have := length_of_skipBlank_eq hb
    split at h
    · split at h
      · simp at h
      · rename_i hs
        have := length_of_skipString hs
        split at h
        · simp at h
        · rename_i hc
          have := length_of_skipBlank_eq hc
          split at h <;> grind
    · simp at h

/-- Goes on in a phase inside the given open brackets, innermost first, to the end of the
outermost value. -/
def scan (phase : Phase) (stack : List Bracket) (s : List UInt8) : Except Fault (List UInt8) :=
  match phase, stack with
  | .complete, [] => .ok s
  | .complete, top :: outer =>
    match hb : skipBlank s with
    | [] => .error .ended
    | b :: r =>
      have := length_of_skipBlank_eq hb
      if b = comma then scan top.item (top :: outer) r
      else if b = top.closing then scan .complete outer r
      else .error .malformed
  | .opened, [] => .error .malformed
  | .opened, top :: outer =>
    match hb : skipBlank s with
    | [] => .error .ended
    | b :: r =>
      have := length_of_skipBlank_eq hb
      have := top.rank_item
      if b = top.closing then scan .complete outer r
      else scan top.item (top :: outer) s
  | .key, stack =>
    match hk : skipKey s with
    | .error e => .error e
    | .ok r =>
      have := length_of_skipKey hk
      scan .value stack r
  | .value, stack =>
    match hb : skipBlank s with
    | [] => .error .ended
    | b :: r =>
      have := length_of_skipBlank_eq hb
      if b = openList then scan .opened (.list :: stack) r
      else if b = openObject then scan .opened (.object :: stack) r
      else
        match hs : skipScalar (b :: r) with
        | .error e => .error e
        | .ok rest =>
          have := length_of_skipScalar hs
          have : rest.length < s.length := by simp at this; omega
          scan .complete stack rest
termination_by (s.length, phase.rank)
decreasing_by all_goals first
  | exact Prod.Lex.left _ _ (by omega)
  | exact Prod.Lex.right _ (by assumption)

def skipValue (s : List UInt8) : Except Fault (List UInt8) := scan .value [] s

/-- The next value as it is written, without the blanks before it, and what follows. -/
def rawValue (s : List UInt8) : Except Fault (List UInt8 × List UInt8) :=
  let s := skipBlank s
  (skipValue s).map fun rest => (s.take (s.length - rest.length), rest)

end BallotServer.Json
