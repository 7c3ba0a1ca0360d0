import BallotServer.Proofs.Base64Text
import BallotServer.Proofs.ReplyMembers

/-! Which replies of the draw service give a ballot, and which one. A body is an object or a list. In an
object the two fields stand once each among any other members, which count for nothing; in a list they
stand in their order with nothing else. -/

namespace BallotServer.Draw

open Json

/-- The inside of an object in which one member each has the name of a field. -/
inductive InObject (pdf raw : List UInt8) : List UInt8 → Prop
  | mk {s text : List UInt8} {members : List Member} (listed : Listed members s)
      (onePdf : named pdfName members = [text]) (literal : Literal text pdf)
      (oneMap : named bubblesName members = [raw]) (carried : Carried raw) : InObject pdf raw s

/-- The inside of a list of the two fields. -/
inductive InList (pdf raw : List UInt8) : List UInt8 → Prop
  | mk {text a b c d : List UInt8} (first : Blank a ∧ Blank b) (literal : Literal text pdf)
      (second : Blank c ∧ Blank d) (carried : Carried raw) :
    InList pdf raw (a ++ (text ++ (b ++ comma :: (c ++ (raw ++ d)))))

inductive Holds (pdf raw : List UInt8) : List UInt8 → Prop
  | object {gap gap' s : List UInt8} (before : Blank gap) (after : Blank gap')
      (inside : InObject pdf raw s) : Holds pdf raw (gap ++ openObject :: (s ++ closeObject :: gap'))
  | list {gap gap' s : List UInt8} (before : Blank gap) (after : Blank gap')
      (inside : InList pdf raw s) : Holds pdf raw (gap ++ openList :: (s ++ closeList :: gap'))

theorem Holds.carried {pdf raw body : List UInt8} (holds : Holds pdf raw body) : Carried raw := by
  obtain ⟨-, -, -, -, -, -, carried⟩ | ⟨-, -, -, -, -, carried⟩ := holds
  · exact carried
  · exact carried

section Forms

variable {s rest pdf raw body : List UInt8} {ms : List Member} {fields : Fields}

theorem complete_eq_ok_iff : complete fields = .ok (pdf, raw) ↔ fields = ⟨some pdf, some raw⟩ := by
  obtain ⟨pdf', raw'⟩ := fields
  cases pdf' <;> cases raw' <;> simp [complete]

theorem adds_none_iff : Fields.Adds ⟨none, none⟩ ms ⟨some pdf, some raw⟩ ↔
    (∃ text, named pdfName ms = [text] ∧ Literal text pdf) ∧ named bubblesName ms = [raw] ∧
      Carried raw := by
  have takes {R : List UInt8 → List UInt8 → Prop} {texts : List (List UInt8)}
      {value : List UInt8} :
      Takes R none texts (some value) ↔ ∃ text, texts = [text] ∧ R text value := by
    constructor
    · intro takes
      cases takes with
      | one is => exact ⟨_, rfl, is⟩
    · rintro ⟨text, rfl, is⟩
      exact .one is
  simp only [Fields.Adds, takes]
  grind

theorem inObject_of_readObject (h : readObject s = .ok ((pdf, raw), rest)) :
    ∃ t, InObject pdf raw t ∧ s = t ++ closeObject :: rest := by
  unfold readObject at h
  split at h
  · cases h
  · rename_i b r found
    obtain ⟨gap, blank, rfl⟩ := exists_blank_of_cons found
    split at h
    · cases h
    · split at h
      · cases h
      · rename_i fields rest' read
        obtain ⟨p, both, is⟩ := exists_of_map_eq_ok h
        cases is
        obtain rfl := complete_eq_ok_iff.1 both
        obtain ⟨ms, t, listed, adds, split⟩ := listed_of_readMembers read
        obtain ⟨⟨text, onePdf, literal⟩, oneMap, carried⟩ := adds_none_iff.1 adds
        refine ⟨gap ++ t, .mk (listed.append blank) onePdf literal oneMap carried, ?_⟩
        rw [split, List.append_assoc]

theorem readObject_append {t : List UInt8} (inside : InObject pdf raw t) (rest : List UInt8) :
    readObject (t ++ closeObject :: rest) = .ok ((pdf, raw), rest) := by
  obtain ⟨listed, onePdf, literal, oneMap, carried⟩ := inside
  have adds := adds_none_iff.2 ⟨⟨_, onePdf, literal⟩, oneMap, carried⟩
  -- Only what stands behind the first blanks is counted into the bound on the members.
  obtain ⟨gap, u, blank, tight, rfl⟩ := listed.exists_quote
  have enough := Nat.le_succ_of_le tight.length_le
  have bound : (quote :: u).length + 1 ≤ (u ++ closeObject :: rest).length + 1 := by
    simp only [List.length_append, List.length_cons]
    omega
  obtain ⟨spare, fuel⟩ := Nat.exists_eq_add_of_le' (enough.trans bound)
  have read := readMembers_append tight adds spare rest
  rw [List.append_assoc, readObject, skipBlank_append blank, List.cons_append, skipBlank_cons rfl]
  dsimp only
  rw [if_neg (by decide), fuel, ← List.cons_append, read]
  rfl

theorem inList_of_readPair (h : readPair s = .ok ((pdf, raw), rest)) :
    ∃ t, InList pdf raw t ∧ s = t ++ closeList :: rest := by
  unfold readPair at h
  split at h
  · cases h
  · rename_i first r found
    obtain ⟨gap, blank, rfl⟩ := exists_blank_of_cons found
    split at h
    · cases h
    · split at h
      · cases h
      · rename_i bytes r' read
        obtain ⟨lead, text, blank', literal, split⟩ := literal_of_readText read
        have before : Blank (gap ++ lead) := List.forall_mem_append.2 ⟨blank, blank'⟩
        split at h
        · cases h
        · rename_i second u found'
          obtain ⟨b, blankB, rfl⟩ := exists_blank_of_cons found'
          split at h
          · cases h
          · split at h
            · rename_i is
              split at h
              · cases h
              · rename_i bubbles r'' read'
                obtain ⟨c, blankC, carried, rfl⟩ := split_of_readRaw read'
                split at h
                · cases h
                · rename_i third v found''
                  obtain ⟨d, blankD, rfl⟩ := exists_blank_of_cons found''
                  split at h
                  · rename_i is'
                    cases h
                    refine ⟨_, .mk ⟨before, blankB⟩ literal ⟨blankC, blankD⟩ carried, ?_⟩
                    rw [split, is, is']
                    simp only [List.append_assoc, List.cons_append]
                  · cases h
            · cases h

theorem readPair_append {t : List UInt8} (inside : InList pdf raw t) (rest : List UInt8) :
    readPair (t ++ closeList :: rest) = .ok ((pdf, raw), rest) := by
  obtain ⟨⟨blankA, blankB⟩, literal, ⟨blankC, blankD⟩, carried⟩ := inside
  rename_i text a b c d
  have apart : Apart (d ++ closeList :: rest) := (apart_cons (by decide) rest).append blankD
  let after := b ++ comma :: (c ++ (raw ++ (d ++ closeList :: rest)))
  obtain ⟨u, begins, -⟩ := readString_of_literal literal after
  have read : readText (quote :: u) = .ok (pdf, after) :=
    begins ▸ readText_append literal blank_nil after
  simp only [List.append_assoc, List.cons_append]
  rw [readPair, skipBlank_value blankA literal.value, begins]
  dsimp only
  rw [if_neg (by decide), read]
  dsimp only
  rw [skipBlank_append blankB, skipBlank_cons rfl]
  dsimp only
  rw [if_neg (by decide), if_pos rfl, readRaw_append carried blankC apart]
  dsimp only
  rw [skipBlank_append blankD, skipBlank_cons rfl]
  exact if_pos rfl

theorem readParts_eq_ok_iff : readParts s = .ok ((pdf, raw), rest) ↔
    ∃ gap t, Blank gap ∧
      (s = gap ++ openObject :: t ∧ readObject t = .ok ((pdf, raw), rest) ∨
        s = gap ++ openList :: t ∧ readPair t = .ok ((pdf, raw), rest)) := by
  constructor
  · intro h
    unfold readParts at h
    split at h
    · cases h
    · rename_i b r found
      obtain ⟨gap, blank, rfl⟩ := exists_blank_of_cons found
      split at h
      · rename_i is
        exact ⟨gap, r, blank, .inl ⟨by rw [is], h⟩⟩
      · split at h
        · rename_i is
          exact ⟨gap, r, blank, .inr ⟨by rw [is], h⟩⟩
        · split at h
          · split at h <;> cases h
          · cases h
  · rintro ⟨gap, t, blank, ⟨rfl, read⟩ | ⟨rfl, read⟩⟩
    · rw [readParts, skipBlank_append blank, skipBlank_cons rfl]
      exact (if_pos rfl).trans read
    · rw [readParts, skipBlank_append blank, skipBlank_cons rfl]
      exact (if_neg (by decide)).trans ((if_pos rfl).trans read)

theorem readReply_eq_ok_iff : readReply body = .ok (pdf, raw) ↔ Holds pdf raw body := by
  constructor
  · intro h
    unfold readReply at h
    split at h
    · cases h
    · rename_i p rest read
      split at h
      · rename_i ends
        cases h
        have after : Blank rest := skipBlank_eq_nil_iff.1 (List.isEmpty_iff.1 ends)
        obtain ⟨gap, t, before, ⟨rfl, object⟩ | ⟨rfl, list⟩⟩ := readParts_eq_ok_iff.1 read
        · obtain ⟨t, inside, rfl⟩ := inObject_of_readObject object
          exact .object before after inside
        · obtain ⟨t, inside, rfl⟩ := inList_of_readPair list
          exact .list before after inside
      · cases h
  · intro holds
    have ends {gap : List UInt8} (after : Blank gap) : (skipBlank gap).isEmpty := by
      rw [skipBlank_eq_nil_iff.2 after]
      rfl
    cases holds with
    | @object gap gap' t before after inside =>
      have read := readParts_eq_ok_iff.2
        ⟨gap, _, before, .inl ⟨rfl, readObject_append inside gap'⟩⟩
      rw [readReply, read]
      exact if_pos (ends after)
    | @list gap gap' t before after inside =>
      have read := readParts_eq_ok_iff.2 ⟨gap, _, before, .inr ⟨rfl, readPair_append inside gap'⟩⟩
      rw [readReply, read]
      exact if_pos (ends after)

end Forms

section Ballots

variable {b : Ballot} {body : List UInt8}

/-- The body holds the base64 text of a ballot's PDF, and the ballot's bubble map as it is. -/
def Tells (b : Ballot) (body : List UInt8) : Prop :=
  Holds (Base64.standard.encode b.pdf.data.toList) b.bubbles.data.toList body

theorem Reply.ballot_eq_ok_iff {r : Reply} (success : r.isSuccess) :
    r.ballot = .ok b ↔ b.pdf.data.toList ≠ [] ∧ Tells b r.body.data.toList := by
  constructor
  · intro h
    simp only [ballot, success, Bool.not_true, Bool.false_eq_true, if_false] at h
    split at h
    · cases h
    · rename_i text raw read
      split at h
      · cases h
      · cases h
      · rename_i bytes some decoded
        cases h
        refine ⟨some, ?_⟩
        rw [Base64.Form.faithful_standard.decode_eq_ok_iff] at decoded
        rw [decoded, readReply_eq_ok_iff] at read
        exact read
  · rintro ⟨some, tells⟩
    simp only [ballot, success, Bool.not_true, Bool.false_eq_true, if_false]
    rw [readReply_eq_ok_iff.2 tells]
    dsimp only
    rw [Base64.Form.faithful_standard.decode_eq_ok_iff.2 rfl]
    split
    · rename_i failed
      cases failed
    · rename_i nothing
      exact absurd (Except.ok.inj nothing) some
    · rename_i is
      cases is
      rfl

/-- A ballot and the reply that it was taken from: the reply reports success, the PDF is not empty,
and the bubble map is one JSON value in UTF-8 with no blanks around it. -/
structure Reply.Gives (r : Reply) (b : Ballot) : Prop where
  taken : r.ballot = .ok b
  success : 200 ≤ r.status ∧ r.status ≤ 299
  pdf : 0 < b.pdf.size
  value : Value b.bubbles.data.toList
  bare : Bare b.bubbles.data.toList
  encoded : ∃ text : String, text.toUTF8 = b.bubbles

theorem isSome_read?_iff {raw : List UInt8} :
    (Utf8.read? raw).isSome ↔ ∃ text : String, text.toUTF8 = ⟨raw.toArray⟩ := by
  constructor
  · intro h
    obtain ⟨text, read⟩ := Option.isSome_iff_exists.1 h
    refine ⟨text, ?_⟩
    unfold Utf8.read? String.fromUTF8? at read
    split at read
    · obtain rfl := Option.some.inj read
      rfl
    · cases read
  · rintro ⟨text, is⟩
    rw [Utf8.read?, ← is, String.fromUTF8?, String.toUTF8_eq_toByteArray, dif_pos text.isValidUTF8]
    rfl

theorem Reply.gives_of_ballot {r : Reply} (h : r.ballot = .ok b) : r.Gives b := by
  obtain ⟨success, pdf⟩ := size_pdf_of_ballot h
  have carried := ((ballot_eq_ok_iff success).1 h).2.carried
  refine ⟨h, ?_, pdf, carried.value, carried.value.bare, isSome_read?_iff.1 carried.encoded⟩
  simpa [isSuccess] using success

def quoted (s : List UInt8) : List UInt8 := quote :: (s ++ [quote])

def forms (b : Ballot) : List (List UInt8) :=
  let pdf := quoted (Base64.standard.encode b.pdf.data.toList)
  let raw := b.bubbles.data.toList
  [openObject :: (quoted pdfName ++ colon :: (pdf ++
      comma :: (quoted bubblesName ++ colon :: (raw ++ [closeObject])))),
    openObject :: (quoted bubblesName ++ colon :: (raw ++
      comma :: (quoted pdfName ++ colon :: (pdf ++ [closeObject])))),
    openList :: (pdf ++ comma :: (raw ++ [closeList]))]

theorem literal_quoted {s : List UInt8} (text : String) (is : text.toUTF8.data.toList = s)
    (plain : ∀ b ∈ s, 0x20 ≤ b ∧ b ≠ quote ∧ b ≠ backslash) : Literal (quoted s) s where
  spelled := ⟨s, spells_self plain, rfl⟩
  encoded := isSome_read?_iff.2 ⟨text, ByteArray.ext (by rw [← is, Array.toArray_toList])⟩

theorem literal_encode (bytes : List UInt8) :
    Literal (quoted (Base64.standard.encode bytes)) (Base64.standard.encode bytes) := by
  have symbol : ∀ v < 64, 0x20 ≤ Base64.standard.symbol v ∧ Base64.standard.symbol v ≠ quote ∧
      Base64.standard.symbol v ≠ backslash := by
    decide
  refine literal_quoted (Base64.standard.text bytes)
    (Base64.Form.faithful_standard.bytes_text bytes) fun b member => ?_
  rcases Base64.Form.mem_encode member with ⟨v, most, rfl⟩ | ⟨-, rfl⟩
  · exact symbol v most
  · exact ⟨by decide, by decide, by decide⟩

theorem Member.spelled_quoted {m : Member} (named : Literal (quoted m.name) m.name)
    (value : Value m.value) : m.Spelled (quoted m.name ++ colon :: m.value) := by
  have spelled := Member.Spelled.mk blank_nil named blank_nil blank_nil value blank_nil
  rwa [List.nil_append, List.nil_append, List.nil_append, List.append_nil] at spelled

theorem tells_of_mem_forms (carried : Carried b.bubbles.data.toList) (member : body ∈ forms b) :
    Tells b body := by
  have none := blank_nil
  have pdf := literal_encode b.pdf.data.toList
  have key : Literal (quoted pdfName) pdfName := literal_quoted "pdfb64" rfl (by decide +kernel)
  have key' : Literal (quoted bubblesName) bubblesName :=
    literal_quoted "bubbles" rfl (by decide +kernel)
  have first := @Member.spelled_quoted ⟨pdfName, quoted (Base64.standard.encode b.pdf.data.toList)⟩
    key pdf.value
  have second := @Member.spelled_quoted ⟨bubblesName, b.bubbles.data.toList⟩ key' carried.value
  simp only [forms, List.mem_cons, List.not_mem_nil, or_false] at member
  rcases member with rfl | rfl | rfl
  · have holds := Holds.object none none (.mk (.more first (.last second)) rfl pdf rfl carried)
    simpa only [Tells, List.append_assoc, List.cons_append, List.nil_append] using holds
  · have holds := Holds.object none none (.mk (.more second (.last first)) rfl pdf rfl carried)
    simpa only [Tells, List.append_assoc, List.cons_append, List.nil_append] using holds
  · have holds := Holds.list none none (.mk ⟨none, none⟩ pdf ⟨none, none⟩ carried)
    simpa only [Tells, List.append_assoc, List.cons_append, List.nil_append] using holds

end Ballots

end BallotServer.Draw

namespace BallotServer.DrawService

open Draw

/-- The ballots that a successful reply gives. A reply gives a ballot exactly if the ballot has a PDF
and the body tells of it; and each ballot with a bubble map that can be carried comes back from all
forms of it. -/
theorem draw_exact {d : DrawService} {status : Nat} (configured : d.address.isSome)
    (success : 200 ≤ status ∧ status ≤ 299) (b : Ballot) :
    (∀ body, d.draw (.answered ⟨status, body⟩) = .ok b ↔
      b.pdf.data.toList ≠ [] ∧ Tells b body.data.toList) ∧
    (b.pdf.data.toList ≠ [] → Carried b.bubbles.data.toList → ∀ body ∈ forms b,
      d.draw (.answered ⟨status, ⟨body.toArray⟩⟩) = .ok b) := by
  obtain ⟨address⟩ := d
  obtain ⟨address, rfl⟩ := Option.isSome_iff_exists.1 configured
  have exact (body : ByteArray) : draw ⟨some address⟩ (.answered ⟨status, body⟩) = .ok b ↔
      b.pdf.data.toList ≠ [] ∧ Tells b body.data.toList :=
    Reply.ballot_eq_ok_iff
      (show Reply.isSuccess ⟨status, body⟩ by simpa [Reply.isSuccess] using success)
  refine ⟨exact, fun some carried body member => ?_⟩
  exact (exact _).2 ⟨some, tells_of_mem_forms carried member⟩

theorem draw_exact_null :
    let d : DrawService := ⟨some "http://draw"⟩
    let b : Ballot := ⟨"%PDF".toUTF8, "[null]".toUTF8⟩
    d.address.isSome ∧ (200 ≤ 201 ∧ 201 ≤ 299) ∧ b.pdf.data.toList ≠ [] ∧
      Carried b.bubbles.data.toList ∧
      d.draw (.answered ⟨201, "[\"JVBERg==\",[null]]".toUTF8⟩) = .ok b := by
  intro d b
  have items := Json.Written.item (b := .list) Json.blank_nil .null Json.blank_nil
  have carried : Carried b.bubbles.data.toList :=
    ⟨.bracket items, isSome_read?_iff.2 ⟨"[null]", rfl⟩⟩
  refine ⟨rfl, by decide, by decide, carried, ?_⟩
  exact (draw_exact (d := d) rfl (by decide) b).2 (by decide) carried _ (.tail _ (.tail _ (.head _)))

end BallotServer.DrawService
