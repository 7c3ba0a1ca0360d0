import BallotServer.Proofs.Sessions
import Mathlib.Logic.Relation

/-! A session among other items. Only the items that verify matter, in their order: the caller is the
user of the first of them, whatever else the header values hold and however they are cut. -/

namespace BallotServer.Session

variable {key : ByteArray}

def Silent (key header : ByteArray) : Prop :=
  ∀ items, header = line items → (∀ item ∈ items, Plain item) → ∀ item ∈ items, ¬Valid key item

theorem users_of_silent {header : ByteArray} (silent : Silent key header) :
    users key header = [] := by
  refine List.eq_nil_iff_forall_not_mem.2 fun user member => ?_
  obtain ⟨items, written, plain, item, inside, verifies⟩ := mem_users_iff.1 member
  exact silent items written plain item inside ⟨user, verifies⟩

theorem ofItem?_eq_none {item : List Char} (idle : ¬Valid key item) : ofItem? key item = none :=
  Option.not_isSome_iff_eq_none.1 fun some => idle (isSome_ofItem?_iff.1 some)

theorem filterMap_of_idle {items : List (List Char)} (idle : ∀ item ∈ items, ¬Valid key item) :
    items.filterMap (ofItem? key) = [] :=
  List.filterMap_eq_nil_iff.2 fun item member => ofItem?_eq_none (idle item member)

theorem filterMap_filter_valid (items : List (List Char)) :
    (items.filter (Valid key ·)).filterMap (ofItem? key) = items.filterMap (ofItem? key) := by
  rw [List.filterMap_filter]
  congr 1
  funext item
  by_cases valid : Valid key item
  · simp only [valid, decide_true, if_true]
  · simp only [valid, decide_false, Bool.false_eq_true, if_false, ofItem?_eq_none valid]

def IsAscii (b : UInt8) : Prop := Http.Header.isValueByte b ∧ b < 0x80

theorem IsAscii.isVisible {b : UInt8} (ascii : IsAscii b) : Http.Header.isVisible b := by
  obtain ⟨legal, low⟩ := ascii
  simp only [Http.Header.isValueByte, Http.Header.isVisible, Bool.or_eq_true, Bool.and_eq_true,
    beq_iff_eq, decide_eq_true_eq, bne_iff_ne, ne_eq] at legal ⊢
  refine legal.imp_right (And.imp_right fun other => ?_)
  rw [UInt8.lt_iff_toNat_lt] at low ⊢
  have last : b.toNat ≠ 127 := fun is => other (UInt8.toNat_inj.1 is)
  change b.toNat < 128 at low
  change b.toNat < 127
  omega

theorem text?_of_ascii {header : ByteArray} (ascii : ∀ b ∈ header.data.toList, IsAscii b) :
    Http.Header.text? header = some (header.data.toList.map fun b => Char.ofNat b.toNat) := by
  have all : header.data.toList.all Http.Header.isVisible :=
    List.all_eq_true.2 fun b member => (ascii b member).isVisible
  simp only [Http.Header.text?, all, if_true]

theorem users_eq_nil {header : ByteArray} (beyond : ∃ b ∈ header.data.toList, 0x80 ≤ b) :
    users key header = [] := by
  obtain ⟨b, member, high⟩ := beyond
  have hidden : header.data.toList.all Http.Header.isVisible = false := by
    refine Bool.eq_false_iff.2 fun all => ?_
    have low := (isVisible_iff.1 (List.all_eq_true.1 all b member)).1
    exact absurd high (UInt8.not_le.2 low)
  have unread : Http.Header.text? header = none := by
    simp only [Http.Header.text?, hidden, Bool.false_eq_true, if_false]
  rw [users, itemsOf, unread]
  rfl

theorem users_append {header header' : ByteArray}
    (ascii : ∀ b ∈ (header ++ header').data.toList, IsAscii b) :
    users key (header ++ ";".toUTF8 ++ header') = users key header ++ users key header' := by
  rw [ByteArray.toList_data_append] at ascii
  have front := text?_of_ascii fun b member => ascii b (List.mem_append_left _ member)
  have back := text?_of_ascii fun b member => ascii b (List.mem_append_right _ member)
  have semicolon : ";".toUTF8.data.toList = [59] := by decide
  have bytes : (header ++ ";".toUTF8 ++ header').data.toList =
      header.data.toList ++ 59 :: header'.data.toList := by
    rw [ByteArray.toList_data_append, ByteArray.toList_data_append, semicolon, List.append_assoc]
    rfl
  have whole := @text?_of_ascii (header ++ ";".toUTF8 ++ header') (by
    rw [bytes]
    intro b member
    rcases List.mem_append.1 member with here | here
    · exact ascii b (List.mem_append_left _ here)
    · rcases List.mem_cons.1 here with rfl | here
      · exact ⟨by decide, by decide⟩
      · exact ascii b (List.mem_append_right _ here))
  rw [bytes, List.map_append, List.map_cons] at whole
  simp only [users, itemsOf, front, back, whole]
  rw [← List.filterMap_append, ← Text.parts_append]
  rfl

/-- One change of the header values that concerns no session. Items that do not verify come or go,
with others or alone, or change their places; a header value with bytes beyond ASCII comes or goes; a
header value is cut at a semicolon. A byte beyond ASCII takes its whole header value along, so items
that hold one are no noise beside a session. -/
inductive Noise (key : ByteArray) : List ByteArray → List ByteArray → Prop
  | item {before after : List ByteArray} {front back : List (List Char)} {item : List Char}
      (plain : ∀ i ∈ front ++ item :: back, Plain i) (idle : ¬Valid key item) :
    Noise key (before ++ line (front ++ back) :: after)
      (before ++ line (front ++ item :: back) :: after)
  | alone {before after : List ByteArray} {item : List Char} (plain : Plain item)
      (idle : ¬Valid key item) :
    Noise key (before ++ after) (before ++ line [item] :: after)
  | places {before after : List ByteArray} {items items' : List (List Char)}
      (plain : ∀ i ∈ items, Plain i) (perm : items.Perm items')
      (kept : items.filter (Valid key ·) = items'.filter (Valid key ·)) :
    Noise key (before ++ line items :: after) (before ++ line items' :: after)
  | foreign {before after : List ByteArray} {header : ByteArray}
      (beyond : ∃ b ∈ header.data.toList, 0x80 ≤ b) :
    Noise key (before ++ after) (before ++ header :: after)
  | cut {before after : List ByteArray} {header header' : ByteArray}
      (ascii : ∀ b ∈ (header ++ header').data.toList, IsAscii b) :
    Noise key (before ++ (header ++ ";".toUTF8 ++ header') :: after)
      (before ++ header :: header' :: after)

theorem Noise.users_eq {cookies cookies' : List ByteArray} (noise : Noise key cookies cookies') :
    cookies.flatMap (users key) = cookies'.flatMap (users key) := by
  cases noise with
  | @item before after front back item plain idle =>
    have less : ∀ i ∈ front ++ back, Plain i := fun i member => plain i (by
      rcases List.mem_append.1 member with here | here
      · exact List.mem_append_left _ here
      · exact List.mem_append_right _ (List.mem_cons_of_mem _ here))
    simp only [List.flatMap_append, List.flatMap_cons, users_line plain, users_line less,
      List.filterMap_append, List.filterMap_cons_none (ofItem?_eq_none idle)]
  | @alone before after item plain idle =>
    have plain' : ∀ i ∈ [item], Plain i := List.forall_mem_singleton.2 plain
    simp only [List.flatMap_append, List.flatMap_cons, users_line plain',
      List.filterMap_cons_none (ofItem?_eq_none idle), List.filterMap_nil, List.nil_append]
  | @places before after items items' plain perm kept =>
    have plain' : ∀ i ∈ items', Plain i := fun i member => plain i (perm.mem_iff.2 member)
    have same : items.filterMap (ofItem? key) = items'.filterMap (ofItem? key) := by
      rw [← filterMap_filter_valid, kept, filterMap_filter_valid]
    simp only [List.flatMap_append, List.flatMap_cons, users_line plain, users_line plain', same]
  | foreign beyond =>
    simp only [List.flatMap_append, List.flatMap_cons, users_eq_nil beyond, List.nil_append]
  | cut ascii =>
    simp only [List.flatMap_append, List.flatMap_cons, users_append ascii, List.append_assoc]

theorem Noise.caller?_eq {cookies cookies' : List ByteArray}
    (noise : Relation.EqvGen (Noise key) cookies cookies') :
    caller? key cookies = caller? key cookies' := by
  induction noise with
  | rel cookies cookies' noise => rw [caller?_eq_head?, caller?_eq_head?, noise.users_eq]
  | refl cookies => rfl
  | symm cookies cookies' _ same => exact same.symm
  | trans cookies between cookies' _ _ first second => exact first.trans second

theorem caller?_of_first {user : Int} {before after : List ByteArray}
    {front back : List (List Char)} {gap gap' : List Char} (id : IsId user)
    (silent : ∀ header ∈ before, Silent key header) (plain : ∀ item ∈ front ++ back, Plain item)
    (idle : ∀ item ∈ front, ¬Valid key item) (left : ∀ c ∈ gap, IsGap c)
    (right : ∀ c ∈ gap', IsGap c) :
    caller? key
      (before ++ line (front ++ (gap ++ ((cookie key user).toList ++ gap')) :: back) :: after) =
        some user := by
  have verifies : ofItem? key (gap ++ ((cookie key user).toList ++ gap')) = some user :=
    ofItem?_eq_some_iff.2 (verifies_cookie id left right)
  have all : ∀ item ∈ front ++ (gap ++ ((cookie key user).toList ++ gap')) :: back, Plain item := by
    intro item member
    rcases List.mem_append.1 member with here | here
    · exact plain item (List.mem_append_left _ here)
    · rcases List.mem_cons.1 here with rfl | here
      · exact plain_cookie left right
      · exact plain item (List.mem_append_right _ here)
  have none : before.flatMap (users key) = [] :=
    List.flatMap_eq_nil_iff.2 fun header member => users_of_silent (silent header member)
  rw [caller?_eq_head?, List.flatMap_append, none, List.nil_append, List.flatMap_cons,
    users_line all, List.filterMap_append, filterMap_of_idle idle, List.nil_append,
    List.filterMap_cons_some verifies]
  rfl

/-- A session that was issued is found wherever it stands, unless an item before it verifies; and no
noise changes the caller. -/
theorem sessions_found (key : ByteArray) :
    (∀ user before after front back gap gap', IsId user →
      (∀ header ∈ before, Silent key header) → (∀ item ∈ front ++ back, Plain item) →
      (∀ item ∈ front, ¬Valid key item) → (∀ c ∈ gap, IsGap c) → (∀ c ∈ gap', IsGap c) →
      caller? key
        (before ++ line (front ++ (gap ++ ((cookie key user).toList ++ gap')) :: back) :: after) =
          some user) ∧
    ∀ cookies cookies', Relation.EqvGen (Noise key) cookies cookies' →
      caller? key cookies = caller? key cookies' :=
  ⟨fun _ _ _ _ _ _ _ id silent plain idle left right =>
    caller?_of_first id silent plain idle left right, fun _ _ noise => Noise.caller?_eq noise⟩

theorem sessions_found_second :
    let key := "0123456789abcdef".toUTF8
    let theme := "theme=dark".toList
    let session := [' '] ++ ((cookie key 77).toList ++ [])
    let foreign : ByteArray := ⟨#[0xff]⟩
    IsId 77 ∧ Plain theme ∧ ¬Valid key theme ∧ caller? key [line [theme, session]] = some 77 ∧
      Relation.EqvGen (Noise key) [line [theme, session]] [foreign, line [session]] ∧
      caller? key [foreign, line [session]] = some 77 := by
  intro key theme session foreign
  have id : IsId 77 := ⟨by decide, by decide⟩
  have plain : Plain theme := by decide
  have idle : ¬Valid key theme := by
    rintro ⟨user, guid, -, -, is⟩
    have trimmed : Text.trim theme = theme := by decide
    have name : cookieName.toList <+: theme := ⟨_, (trimmed ▸ is).symm⟩
    exact absurd name (by decide)
  have gap : ∀ c ∈ [' '], IsGap c := fun c member => .inl (List.mem_singleton.1 member)
  obtain ⟨found, kept⟩ := sessions_found key
  have first : caller? key [line [theme, session]] = some 77 :=
    found 77 [] [] [theme] [] [' '] [] id nofun (by simpa using plain) (by simpa using idle) gap nofun
  have plain' : ∀ i ∈ [theme, session], Plain i :=
    List.forall_mem_cons.2 ⟨plain, List.forall_mem_singleton.2 (plain_cookie gap nofun)⟩
  have noise : Relation.EqvGen (Noise key) [line [theme, session]] [foreign, line [session]] := by
    refine .trans _ [line [session]] _ (.symm _ _ (.rel _ _ ?_)) (.rel _ _ ?_)
    · exact @Noise.item key [] [] [] [session] theme plain' idle
    · exact @Noise.foreign key [] [line [session]] foreign ⟨0xff, by decide, by decide⟩
  exact ⟨id, plain, idle, first, noise, (kept _ _ noise).symm.trans first⟩

theorem isLegalValue_of_text? {header : ByteArray} {cs : List Char}
    (read : Http.Header.text? header = some cs) : Http.Header.isLegalValue header := by
  rw [Http.Header.text?] at read
  split at read
  case isTrue visible =>
    exact List.all_eq_true.2 fun b member =>
      Http.Header.isValueByte_of_isVisible (List.all_eq_true.1 visible b member)
  case isFalse => cases read

/-- A session that is found alone, and no more with an item of one byte in front of it that a header
value may hold and that is no session. -/
theorem session_hidden_beyond_ascii :
    let key := "0123456789abcdef".toUTF8
    let session := (cookie key 77).toUTF8
    let item : ByteArray := ⟨#[0xff]⟩
    let beside := item ++ ";".toUTF8 ++ session
    Http.Header.isLegalValue beside ∧ caller? key [item] = none ∧
      caller? key [session] = some 77 ∧ caller? key [beside] = none := by
  intro key session item beside
  have bytes : beside.data.toList = 0xff :: 59 :: session.data.toList := by
    rw [ByteArray.toList_data_append, ByteArray.toList_data_append]
    rfl
  have unread {header : ByteArray} (beyond : ∃ b ∈ header.data.toList, 0x80 ≤ b) :
      caller? key [header] = none := by
    rw [caller?_eq_head?, List.flatMap_singleton, users_eq_nil beyond]
    rfl
  refine ⟨?_, unread ⟨0xff, .head _, by decide⟩, caller?_cookie ⟨by decide, by decide⟩,
    unread ⟨0xff, bytes ▸ .head _, by decide⟩⟩
  have plain := @plain_cookie key 77 [] [] nofun nofun
  have written := text?_line_of_shown fun c member => (plain c member).1
  rw [List.nil_append, List.append_nil, String.ofList_toList] at written
  have legal : session.data.toList.all Http.Header.isValueByte := isLegalValue_of_text? written
  rw [Http.Header.isLegalValue, bytes, List.all_cons, List.all_cons, legal]
  rfl

end BallotServer.Session
