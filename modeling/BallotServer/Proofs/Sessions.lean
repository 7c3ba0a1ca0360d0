import BallotServer.Proofs.Base64Text
import BallotServer.Proofs.Decimals
import BallotServer.Proofs.Keys
import BallotServer.Session

/-! Which sessions verify. A header value is a row of items with semicolons between them; an item
verifies for a user if, blanks at its ends apart, it is the cookie's name, an equals sign, a text of
the user's id, a dot and the one signature of that text. -/

namespace BallotServer.Session

def Shown (c : Char) : Prop := c = '\t' ∨ 32 ≤ c.toNat ∧ c.toNat < 127

instance decidableShown (c : Char) : Decidable (Shown c) :=
  inferInstanceAs (Decidable (c = '\t' ∨ 32 ≤ c.toNat ∧ c.toNat < 127))

def Plain (item : List Char) : Prop := ∀ c ∈ item, Shown c ∧ c ≠ ';'

instance decidablePlain (item : List Char) : Decidable (Plain item) :=
  List.decidableBAll (fun c => Shown c ∧ c ≠ ';') item

def line (items : List (List Char)) : ByteArray := (String.ofList ([';'].intercalate items)).toUTF8

def IsGap (c : Char) : Prop := c = ' ' ∨ c = '\t'

def signed (key : ByteArray) (guid : List Char) : List Char :=
  (Base64.urlSafe.text (signature key guid)).toList

/-- An item that carries a session of a user. -/
def Verifies (key : ByteArray) (item : List Char) (user : Int) : Prop :=
  ∃ guid, '.' ∉ guid ∧ Decimal.Denotes guid user ∧
    Text.trim item = cookieName.toList ++ '=' :: (guid ++ '.' :: signed key guid)

variable {key : ByteArray}

theorem verify?_append {guid : List Char} (none : '.' ∉ guid) (sign : List Char) (user : Int) :
    verify? key (guid ++ '.' :: sign) = some user ↔
      Decimal.Denotes guid user ∧ sign = signed key guid := by
  have read {bytes : List UInt8} :
      Base64.urlSafe.decode (String.ofList sign).toUTF8.data.toList = .ok bytes ↔
        sign = (Base64.urlSafe.text bytes).toList := by
    rw [Base64.Form.faithful_urlSafe.decode_utf8_eq_ok_iff, ← String.toList_inj,
      String.toList_ofList]
  rw [verify?, Text.cut?_append none]
  dsimp only
  cases decoded : Base64.urlSafe.decode (String.ofList sign).toUTF8.data.toList with
  | error fault =>
    refine iff_of_false nofun fun ⟨_, is⟩ => ?_
    rw [read.2 is] at decoded
    cases decoded
  | ok bytes =>
    dsimp only
    split
    · rename_i same
      rw [same] at decoded
      rw [Decimal.readSigned_eq_some_iff]
      exact ⟨fun denotes => ⟨denotes, read.1 decoded⟩, And.left⟩
    · rename_i other
      refine iff_of_false nofun fun ⟨_, is⟩ => other ?_
      exact (Except.ok.inj (decoded.symm.trans (read.2 is)))

theorem verify?_eq_some_iff {session : List Char} {user : Int} :
    verify? key session = some user ↔
      ∃ guid, '.' ∉ guid ∧ Decimal.Denotes guid user ∧ session = guid ++ '.' :: signed key guid := by
  constructor
  · intro h
    cases cut : Text.cut? '.' session with
    | none =>
      rw [verify?, cut] at h
      cases h
    | some p =>
      obtain ⟨rfl, none⟩ := Text.cut?_eq_some_iff.1 cut
      obtain ⟨denotes, is⟩ := (verify?_append none p.2 user).1 h
      exact ⟨p.1, none, denotes, by rw [is]⟩
  · rintro ⟨guid, none, denotes, rfl⟩
    exact (verify?_append none _ user).2 ⟨denotes, rfl⟩

theorem ofItem?_eq_some_iff {item : List Char} {user : Int} :
    ofItem? key item = some user ↔ Verifies key item user := by
  constructor
  · intro h
    unfold ofItem? at h
    split at h
    · cases h
    · rename_i name session cut
      split at h
      · rename_i named
        obtain ⟨guid, none, denotes, rfl⟩ := verify?_eq_some_iff.1 h
        exact ⟨guid, none, denotes, named ▸ (Text.cut?_eq_some_iff.1 cut).1⟩
      · cases h
  · rintro ⟨guid, none, denotes, is⟩
    have named : '=' ∉ cookieName.toList := by decide
    rw [ofItem?, is, Text.cut?_append named]
    dsimp only
    rw [if_pos rfl]
    exact verify?_eq_some_iff.2 ⟨guid, none, denotes, rfl⟩

def Valid (key : ByteArray) (item : List Char) : Prop := ∃ user, Verifies key item user

theorem isSome_ofItem?_iff {item : List Char} : (ofItem? key item).isSome ↔ Valid key item := by
  simp only [Option.isSome_iff_exists, ofItem?_eq_some_iff, Valid]

instance decidableValid (key : ByteArray) (item : List Char) : Decidable (Valid key item) :=
  decidable_of_iff _ isSome_ofItem?_iff

section Lines

variable {items : List (List Char)}

theorem Shown.ascii {c : Char} (shown : Shown c) : c.toNat < 128 := by
  rcases shown with rfl | ⟨-, most⟩
  · decide
  · omega

theorem isVisible_iff {b : UInt8} :
    Http.Header.isVisible b ↔ b < 128 ∧ Shown (Char.ofNat b.toNat) := by
  have each : ∀ n : Fin 256, Http.Header.isVisible (UInt8.ofNat n) ↔
      UInt8.ofNat n < 128 ∧ (Char.ofNat (UInt8.ofNat n).toNat = '\t' ∨
        32 ≤ (Char.ofNat (UInt8.ofNat n).toNat).toNat ∧
        (Char.ofNat (UInt8.ofNat n).toNat).toNat < 127) := by
    decide +kernel
  simpa [Shown] using each ⟨b.toNat, b.toNat_lt⟩

theorem text?_line_of_shown {cs : List Char} (shown : ∀ c ∈ cs, Shown c) :
    Http.Header.text? (String.ofList cs).toUTF8 = some cs := by
  have ascii : ∀ c ∈ cs, c.toNat < 128 := fun c member => (shown c member).ascii
  have visible : (cs.map fun c => c.toNat.toUInt8).all Http.Header.isVisible := by
    rw [List.all_map, List.all_eq_true]
    intro c member
    refine isVisible_iff.2 ⟨?_, ?_⟩
    · rw [UInt8.lt_iff_toNat_lt, Ascii.toNat_toUInt8 (ascii c member)]
      exact ascii c member
    · rw [Ascii.toNat_toUInt8 (ascii c member), Char.ofNat_toNat]
      exact shown c member
  simp only [Http.Header.text?, Ascii.bytes_ofList ascii, visible, if_true,
    Ascii.map_ofNat_map ascii]

theorem shown_of_text? {header : ByteArray} {cs : List Char}
    (read : Http.Header.text? header = some cs) :
    (∀ c ∈ cs, Shown c) ∧ header = (String.ofList cs).toUTF8 := by
  simp only [Http.Header.text?] at read
  split at read
  · rename_i visible
    cases read
    have each := List.all_eq_true.1 visible
    refine ⟨fun c member => ?_, ?_⟩
    · obtain ⟨b, here, rfl⟩ := List.mem_map.1 member
      exact (isVisible_iff.1 (each b here)).2
    · refine ByteArray.ext (Array.toList_inj.1 ?_)
      exact (Ascii.bytes_map_ofNat fun b here => (isVisible_iff.1 (each b here)).1).symm
  · cases read

theorem mem_intercalate {c : Char} (member : c ∈ [';'].intercalate items) :
    c = ';' ∨ ∃ item ∈ items, c ∈ item := by
  induction items with
  | nil => cases member
  | cons item items ih =>
    cases items with
    | nil =>
      rw [List.intercalate_singleton] at member
      exact .inr ⟨item, List.mem_cons_self, member⟩
    | cons next items =>
      rw [List.intercalate_cons_cons, List.append_assoc, List.mem_append, List.mem_append,
        List.mem_singleton] at member
      rcases member with here | between | later
      · exact .inr ⟨item, List.mem_cons_self, here⟩
      · exact .inl between
      · obtain between | ⟨other, member, inside⟩ := ih later
        · exact .inl between
        · exact .inr ⟨other, List.mem_cons_of_mem _ member, inside⟩

theorem mem_intercalate_of_mem {c : Char} {item : List Char} (member : item ∈ items)
    (inside : c ∈ item) : c ∈ [';'].intercalate items := by
  induction items with
  | nil => cases member
  | cons first items ih =>
    cases items with
    | nil =>
      obtain rfl := List.mem_singleton.1 member
      rwa [List.intercalate_singleton]
    | cons next items =>
      rw [List.intercalate_cons_cons, List.append_assoc, List.mem_append, List.mem_append]
      rcases List.mem_cons.1 member with rfl | later
      · exact .inl inside
      · exact .inr (.inr (ih later))

theorem text?_line (plain : ∀ item ∈ items, Plain item) :
    Http.Header.text? (line items) = some ([';'].intercalate items) := by
  refine text?_line_of_shown fun c member => ?_
  rcases mem_intercalate member with rfl | ⟨item, member, inside⟩
  · exact .inr (by decide)
  · exact (plain item member c inside).1

theorem itemsOf_line (some : items ≠ []) (plain : ∀ item ∈ items, Plain item) :
    itemsOf (line items) = items := by
  rw [itemsOf, text?_line plain]
  exact Text.parts_intercalate some fun item member inside => (plain item member _ inside).2 rfl

theorem line_itemsOf {header : ByteArray} {item : List Char} (member : item ∈ itemsOf header) :
    header = line (itemsOf header) ∧ ∀ item ∈ itemsOf header, Plain item := by
  cases read : Http.Header.text? header with
  | none =>
    rw [itemsOf, read] at member
    cases member
  | some cs =>
    have items : itemsOf header = Text.parts ';' cs := by rw [itemsOf, read]
    obtain ⟨shown, rfl⟩ := shown_of_text? read
    rw [items, line, Text.intercalate_parts]
    refine ⟨rfl, fun item member c inside => ⟨shown c ?_, fun is => ?_⟩⟩
    · rw [← Text.intercalate_parts ';' cs]
      exact mem_intercalate_of_mem member inside
    · exact Text.notMem_of_mem_parts member (is ▸ inside)

end Lines

/-- The users for whom the items of a header value verify, in order. -/
def users (key header : ByteArray) : List Int := (itemsOf header).filterMap (ofItem? key)

theorem caller?_eq_head? (cookies : List ByteArray) :
    caller? key cookies = (cookies.flatMap (users key)).head? := by
  rw [caller?, ← List.head?_filterMap, List.filterMap_flatMap]
  rfl

theorem users_line {items : List (List Char)} (plain : ∀ item ∈ items, Plain item) :
    users key (line items) = items.filterMap (ofItem? key) := by
  by_cases some : items = []
  · subst some
    rfl
  · rw [users, itemsOf_line some plain]

theorem mem_users_iff {header : ByteArray} {user : Int} :
    user ∈ users key header ↔ ∃ items, header = line items ∧ (∀ item ∈ items, Plain item) ∧
      ∃ item ∈ items, Verifies key item user := by
  constructor
  · intro member
    obtain ⟨item, inside, verifies⟩ := List.mem_filterMap.1 member
    obtain ⟨written, plain⟩ := line_itemsOf inside
    exact ⟨itemsOf header, written, plain, item, inside, ofItem?_eq_some_iff.1 verifies⟩
  · rintro ⟨items, rfl, plain, item, inside, verifies⟩
    rw [users_line plain, List.mem_filterMap]
    exact ⟨item, inside, ofItem?_eq_some_iff.2 verifies⟩

section Issued

variable {user : Int}

def IsId (user : Int) : Prop := -Nat.pow 2 63 ≤ user ∧ user < Nat.pow 2 63

theorem toList_value (key : ByteArray) (user : Int) :
    (value key user).toList = Decimal.write user ++ '.' :: signed key (Decimal.write user) := by
  rw [value, String.toList_append, String.toList_append, Decimal.toList_text, List.append_assoc]
  rfl

theorem toList_cookie (key : ByteArray) (user : Int) :
    (cookie key user).toList = cookieName.toList ++ '=' :: (value key user).toList := by
  rw [cookie, String.toList_append, String.toList_append, List.append_assoc]
  rfl

def Solid (c : Char) : Prop := 33 ≤ c.toNat ∧ c.toNat < 127 ∧ c ≠ ';'

theorem Solid.isBlank {c : Char} (solid : Solid c) : Text.isBlank c = false := by
  obtain ⟨least, most, -⟩ := solid
  simp [Text.isBlank]
  omega

theorem solid_of_mem_signed {guid : List Char} {c : Char} (member : c ∈ signed key guid) :
    Solid c := by
  have symbol : ∀ v < 64, 33 ≤ (Char.ofNat (Base64.urlSafe.symbol v).toNat).toNat ∧
      (Char.ofNat (Base64.urlSafe.symbol v).toNat).toNat < 127 ∧
      Char.ofNat (Base64.urlSafe.symbol v).toNat ≠ ';' := by
    decide
  rw [signed, Base64.Form.text, String.toList_ofList] at member
  obtain ⟨b, inside, rfl⟩ := List.mem_map.1 member
  rcases Base64.Form.mem_encode inside with ⟨v, most, rfl⟩ | ⟨padded, -⟩
  · exact symbol v most
  · cases padded

theorem solid_of_mem_write {c : Char} (member : c ∈ Decimal.write user) : Solid c := by
  rcases Decimal.mem_write member with rfl | digit
  · exact ⟨by decide, by decide, by decide⟩
  · obtain ⟨least, most⟩ := Char.isDigit_iff_toNat.1 digit
    have zero : '0'.toNat = 48 := rfl
    have nine : '9'.toNat = 57 := rfl
    refine ⟨by omega, by omega, ?_⟩
    rintro rfl
    cases digit

theorem solid_of_mem_cookie {c : Char} (member : c ∈ (cookie key user).toList) : Solid c := by
  have named : cookieName.toList.all fun c => 33 ≤ c.toNat ∧ c.toNat < 127 ∧ c ≠ ';' := by decide
  simp only [toList_cookie, toList_value, List.mem_append, List.mem_cons] at member
  rcases member with name | rfl | digits | rfl | sign
  · have solid := of_decide_eq_true (List.all_eq_true.1 named c name)
    exact solid
  · exact ⟨by decide, by decide, by decide⟩
  · exact solid_of_mem_write digits
  · exact ⟨by decide, by decide, by decide⟩
  · exact solid_of_mem_signed sign

theorem trim_cookie {gap gap' : List Char} (before : ∀ c ∈ gap, IsGap c)
    (after : ∀ c ∈ gap', IsGap c) :
    Text.trim (gap ++ ((cookie key user).toList ++ gap')) = (cookie key user).toList := by
  have blank {c : Char} (is : IsGap c) : Text.isBlank c := by
    rcases is with rfl | rfl <;> decide
  refine Text.trim_append (fun c member => blank (before c member))
    (fun c member => blank (after c member)) ?_ ?_
  · rw [toList_cookie]
    exact nofun
  · rintro c (first | last)
    · exact (solid_of_mem_cookie (List.mem_of_mem_head? first)).isBlank
    · exact (solid_of_mem_cookie (List.mem_of_getLast? last)).isBlank

theorem verifies_cookie {gap gap' : List Char} (id : IsId user)
    (before : ∀ c ∈ gap, IsGap c) (after : ∀ c ∈ gap', IsGap c) :
    Verifies key (gap ++ ((cookie key user).toList ++ gap')) user := by
  refine ⟨Decimal.write user, Decimal.dot_notMem_write user, Decimal.denotes_write id.1 id.2, ?_⟩
  rw [trim_cookie before after, toList_cookie, toList_value]

theorem plain_cookie {gap gap' : List Char} (before : ∀ c ∈ gap, IsGap c)
    (after : ∀ c ∈ gap', IsGap c) :
    Plain (gap ++ ((cookie key user).toList ++ gap')) := by
  have blank {c : Char} (is : IsGap c) : Shown c ∧ c ≠ ';' := by
    rcases is with rfl | rfl
    · exact ⟨.inr (by decide), by decide⟩
    · exact ⟨.inl rfl, by decide⟩
  intro c member
  rcases List.mem_append.1 member with here | member
  · exact blank (before c here)
  · rcases List.mem_append.1 member with here | here
    · obtain ⟨least, most, other⟩ := solid_of_mem_cookie here
      exact ⟨.inr ⟨by omega, most⟩, other⟩
    · exact blank (after c here)

theorem caller?_cookie (id : IsId user) : caller? key [(cookie key user).toUTF8] = some user := by
  have none : ∀ c ∈ ([] : List Char), IsGap c := nofun
  have plain : Plain ([] ++ ((cookie key user).toList ++ [])) := plain_cookie none none
  have verifies : ofItem? key ([] ++ ((cookie key user).toList ++ [])) = some user :=
    ofItem?_eq_some_iff.2 (verifies_cookie id none none)
  rw [List.nil_append, List.append_nil] at plain verifies
  have written : (cookie key user).toUTF8 = line [(cookie key user).toList] := by
    rw [line, List.intercalate_singleton, String.ofList_toList]
  rw [caller?_eq_head?, written, List.flatMap_singleton,
    users_line (List.forall_mem_singleton.2 plain), List.filterMap_cons_some verifies]
  rfl

end Issued

/-- The sessions that are accepted. A caller is found only if some item of a header value verifies for
it. A text of an id verifies with its signature and with no other text, so with the digits of an id
only the session that was issued for it does; and that one verifies for its user alone. -/
theorem sessions_exact (key : ByteArray) :
    (∀ cookies user, caller? key cookies = some user →
      ∃ items, line items ∈ cookies ∧ (∀ item ∈ items, Plain item) ∧
        ∃ item ∈ items, Verifies key item user) ∧
    (∀ guid sign user, '.' ∉ guid →
      (verify? key (guid ++ '.' :: sign) = some user ↔
        Decimal.Denotes guid user ∧ sign = signed key guid)) ∧
    ∀ user, IsId user →
      (∀ sign other, verify? key (Decimal.write user ++ '.' :: sign) = some other →
        other = user ∧ Decimal.write user ++ '.' :: sign = (value key user).toList) ∧
      (∀ other, verify? key (value key user).toList = some other ↔ other = user) ∧
      caller? key [(cookie key user).toUTF8] = some user := by
  refine ⟨fun cookies user found => ?_, fun guid sign user none => verify?_append none sign user,
    fun user id => ?_⟩
  · rw [caller?_eq_head?] at found
    obtain ⟨header, sent, member⟩ := List.mem_flatMap.1 (List.mem_of_head? found)
    obtain ⟨items, rfl, plain, item, inside, verifies⟩ := mem_users_iff.1 member
    exact ⟨items, sent, plain, item, inside, verifies⟩
  · have denotes := Decimal.denotes_write id.1 id.2
    have none := Decimal.dot_notMem_write user
    have issued : verify? key (value key user).toList = some user := by
      rw [toList_value, verify?_append none]
      exact ⟨denotes, rfl⟩
    refine ⟨fun sign other accepted => ?_, fun other => ?_, caller?_cookie id⟩
    · obtain ⟨-, is⟩ := (verify?_append none sign other).1 accepted
      rw [is, ← toList_value] at accepted ⊢
      exact ⟨Option.some.inj (accepted.symm.trans issued), rfl⟩
    · rw [issued, Option.some.injEq]
      exact eq_comm

theorem sessions_exact_least :
    let key := "0123456789abcdef".toUTF8
    let cookies := [(cookie key (-9223372036854775808)).toUTF8]
    IsId (-9223372036854775808) ∧ caller? key cookies = some (-9223372036854775808) ∧
      (∃ items, line items ∈ cookies ∧ (∀ item ∈ items, Plain item) ∧
        ∃ item ∈ items, Verifies key item (-9223372036854775808)) ∧
      '.' ∉ ['+', '7'] ∧ Decimal.Denotes ['+', '7'] 7 ∧
      verify? key (['+', '7'] ++ '.' :: signed key ['+', '7']) = some 7 := by
  intro key cookies
  obtain ⟨carried, accepted, issued⟩ := sessions_exact key
  have id : IsId (-9223372036854775808) := ⟨by decide, by decide⟩
  have none : '.' ∉ ['+', '7'] := by decide
  have seven : Decimal.isNumeral ['7'] := by decide
  have denotes : Decimal.Denotes ['+', '7'] 7 := .plus seven (by decide)
  have found := (issued _ id).2.2
  exact ⟨id, found, carried _ _ found, none, denotes, (accepted _ _ _ none).2 ⟨denotes, rfl⟩⟩

end BallotServer.Session
