import BallotServer.Proofs.Base64Digits
import BallotServer.Proofs.CommandWords
import BallotServer.Proofs.Sessions

/-! Cookie keys as texts. The text of a key is the canonical base64 of its sixteen bytes, blanks around
it do not count, and no other text stands for the key. So a server that is started again with the text
of its key, one made by chance included, knows the sessions that it issued before. -/

namespace BallotServer

namespace CookieKey

open Base64 (Canonical)

/-- What a text stands for, once the blanks around it are dropped. -/
inductive Stands (chance : Vector UInt8 16) (cs : List Char) : Except SettingsError CookieKey → Prop
  | blank (none : cs = []) : Stands chance cs (.ok (.generated chance))
  | key (some : cs ≠ []) (k : Vector UInt8 16) (canonical : Canonical k.toList cs) :
    Stands chance cs (.ok (.provided k))
  | length (some : cs ≠ []) {bytes : List UInt8} (canonical : Canonical bytes cs)
    (other : bytes.length ≠ 16) : Stands chance cs (.error (.cookieKeyLength bytes.length))
  | strange (some : cs ≠ []) {fault : Base64.Fault}
    (refused : Base64.standard.decode (String.ofList cs).toUTF8.data.toList = .error fault) :
    Stands chance cs (.error (.cookieKeyText fault))

variable {chance : Vector UInt8 16} {text : String} {result : Except SettingsError CookieKey}

theorem stands_ofText (chance : Vector UInt8 16) (text : String) :
    Stands chance (Text.trim text.toList) (ofText chance text) := by
  unfold ofText
  dsimp only
  generalize Text.trim text.toList = cs
  split
  · rename_i none
    exact .blank (List.isEmpty_iff.1 none)
  · rename_i some
    rw [List.isEmpty_iff] at some
    split
    · rename_i fault refused
      exact .strange some refused
    · rename_i bytes read
      have canonical := Base64.decode_eq_ok_iff_canonical.1 read
      split
      · rename_i sixteen
        exact .key some ⟨bytes.toArray, sixteen⟩ canonical
      · rename_i other
        exact .length some canonical other

theorem ofText_eq_iff :
    ofText chance text = result ↔ Stands chance (Text.trim text.toList) result := by
  constructor
  · rintro rfl
    exact stands_ofText chance text
  · intro stands
    unfold ofText
    dsimp only
    cases stands with
    | blank none => rw [none]; rfl
    | key some k canonical =>
      rw [if_neg (mt List.isEmpty_iff.1 some), Base64.decode_eq_ok_iff_canonical.2 canonical]
      exact dif_pos k.length_toList
    | length some canonical other =>
      rw [if_neg (mt List.isEmpty_iff.1 some), Base64.decode_eq_ok_iff_canonical.2 canonical]
      exact dif_neg other
    | strange some refused => rw [if_neg (mt List.isEmpty_iff.1 some), refused]

section Meaning

variable (some : Text.trim text.toList ≠ [])

include some

theorem ofText_eq_ok_iff {key : CookieKey} :
    ofText chance text = .ok key ↔
      ∃ k, key = .provided k ∧ Canonical k.toList (Text.trim text.toList) := by
  rw [ofText_eq_iff]
  constructor
  · rintro (none | ⟨-, k, canonical⟩)
    · exact absurd none some
    · exact ⟨k, rfl, canonical⟩
  · rintro ⟨k, rfl, canonical⟩
    exact .key some k canonical

theorem ofText_eq_length_iff {n : Nat} :
    ofText chance text = .error (.cookieKeyLength n) ↔
      n ≠ 16 ∧ ∃ bytes, bytes.length = n ∧ Canonical bytes (Text.trim text.toList) := by
  rw [ofText_eq_iff]
  constructor
  · rintro ⟨⟩
    rename_i bytes canonical other
    exact ⟨other, bytes, rfl, canonical⟩
  · rintro ⟨other, bytes, rfl, canonical⟩
    exact .length some canonical other

theorem ofText_eq_strange_iff :
    (∃ fault, ofText chance text = .error (.cookieKeyText fault)) ↔
      ∀ bytes, ¬Canonical bytes (Text.trim text.toList) := by
  simp only [ofText_eq_iff]
  constructor
  · rintro ⟨fault, ⟨⟩⟩ bytes canonical
    rename_i refused
    rw [Base64.decode_eq_ok_iff_canonical.2 canonical] at refused
    cases refused
  · intro none
    cases read : Base64.standard.decode (String.ofList (Text.trim text.toList)).toUTF8.data.toList with
    | error fault => exact ⟨fault, .strange some read⟩
    | ok bytes => exact absurd (Base64.decode_eq_ok_iff_canonical.1 read) (none bytes)

end Meaning

theorem canonical_encoded (key : CookieKey) : Canonical key.bytes.data.toList key.encoded.toList :=
  Base64.canonical_text _

theorem encoded_ne_nil (key : CookieKey) : key.encoded.toList ≠ [] := by
  intro none
  have canonical := canonical_encoded key
  rw [none] at canonical
  have nothing := canonical.bytes_unique (Base64.canonical_text [])
  cases key with
  | provided k | generated k => exact absurd (k.length_toList.symm.trans (congrArg _ nothing)) nofun

theorem trim_encoded (key : CookieKey) {gap gap' : List Char} (before : ∀ c ∈ gap, Text.isBlank c)
    (after : ∀ c ∈ gap', Text.isBlank c) :
    Text.trim (gap ++ (key.encoded.toList ++ gap')) = key.encoded.toList := by
  have signs : ('=' :: Base64.alphabet).all fun c => !Text.isBlank c := by decide
  have bare {c : Char} (member : c ∈ key.encoded.toList) : Text.isBlank c = false := by
    simpa using List.all_eq_true.1 signs c ((canonical_encoded key).mem member)
  refine Text.trim_append before after (encoded_ne_nil key) ?_
  rintro c (first | last)
  · exact bare (List.mem_of_mem_head? first)
  · exact bare (List.mem_of_getLast? last)

theorem exists_ofText_encoded (key : CookieKey) {gap gap' : List Char}
    (before : ∀ c ∈ gap, Text.isBlank c) (after : ∀ c ∈ gap', Text.isBlank c) :
    ∃ k, (provided k).bytes = key.bytes ∧ ∀ chance,
      ofText chance (String.ofList gap ++ key.encoded ++ String.ofList gap') = .ok (.provided k) := by
  have trimmed : Text.trim (String.ofList gap ++ key.encoded ++ String.ofList gap').toList =
      key.encoded.toList := by
    rw [String.toList_append, String.toList_append, String.toList_ofList, String.toList_ofList,
      List.append_assoc, trim_encoded key before after]
  have read (k : Vector UInt8 16) (same : (provided k).bytes = key.bytes) (chance : Vector UInt8 16) :
      ofText chance (String.ofList gap ++ key.encoded ++ String.ofList gap') = .ok (.provided k) := by
    rw [ofText_eq_iff, trimmed]
    have canonical := canonical_encoded key
    rw [← same] at canonical
    exact .key (encoded_ne_nil key) k canonical
  cases key with
  | provided k | generated k => exact ⟨k, rfl, read k rfl⟩

end CookieKey

theorem Settings.ofValues_set_cookieKey {chance chance' : Vector UInt8 16} {v : Values}
    {settings : Settings} {text : String} {key : CookieKey} (made : ofValues chance v = .ok settings)
    (read : CookieKey.ofText chance' text = .ok key) :
    ofValues chance' (v.set .cookieKey text) = .ok { settings with cookieKey := key } := by
  obtain ⟨engine, _, one, minutes, dots, -, word, rfl⟩ := ofValues_eq_ok_iff.1 made
  refine ofValues_eq_ok_iff.2 ⟨engine, key, one, minutes, dots, ?_, word, rfl⟩
  rw [Values.set_self]
  exact read

/-- Blank texts stand for a key made by chance. Every other text stands for the key of which it is the
canonical base64, blanks around it apart, and for nothing if there is none: of too many bytes or too few
the fault is their number, and a text that is not canonical is refused as base64. The text of any key,
blanks around it or not, stands for the same bytes whatever chance makes; a server whose settings were
made is started again with it in the same settings, and knows every session that it issued. -/
theorem CookieKey.keys_kept (chance : Vector UInt8 16) :
    (∀ text, Text.trim text.toList = [] → ofText chance text = .ok (.generated chance)) ∧
    (∀ text, Text.trim text.toList ≠ [] →
      (∀ key, ofText chance text = .ok key ↔
        ∃ k, key = .provided k ∧ Base64.Canonical k.toList (Text.trim text.toList)) ∧
      (∀ key, ofText chance text = .ok key → key.encoded.toList = Text.trim text.toList) ∧
      (∀ n, ofText chance text = .error (.cookieKeyLength n) ↔
        n ≠ 16 ∧ ∃ bytes, bytes.length = n ∧ Base64.Canonical bytes (Text.trim text.toList)) ∧
      ((∃ fault, ofText chance text = .error (.cookieKeyText fault)) ↔
        ∀ bytes, ¬Base64.Canonical bytes (Text.trim text.toList))) ∧
    ∀ (key : CookieKey) (gap gap' : List Char),
      (∀ c ∈ gap, Text.isBlank c) → (∀ c ∈ gap', Text.isBlank c) →
      let text := String.ofList gap ++ key.encoded ++ String.ofList gap'
      ∃ k, (provided k).bytes = key.bytes ∧
        (∀ chance', ofText chance' text = .ok (.provided k)) ∧
        (∀ v settings, Settings.ofValues chance v = .ok settings → ∀ chance',
          Settings.ofValues chance' (v.set .cookieKey text) =
            .ok { settings with cookieKey := .provided k }) ∧
        (∀ cookies, Session.caller? (provided k).bytes cookies = Session.caller? key.bytes cookies) ∧
        ∀ user, Session.IsId user →
          Session.caller? (provided k).bytes [(Session.cookie key.bytes user).toUTF8] = some user := by
  refine ⟨fun text none => ?_, fun text some => ⟨fun key => ?_, fun key read => ?_, fun n => ?_, ?_⟩,
    fun key gap gap' before after => ?_⟩
  · exact ofText_eq_iff.2 (.blank none)
  · exact ofText_eq_ok_iff some
  · obtain ⟨k, rfl, canonical⟩ := (ofText_eq_ok_iff some).1 read
    exact (canonical_encoded (.provided k)).unique canonical
  · exact ofText_eq_length_iff some
  · exact ofText_eq_strange_iff some
  · obtain ⟨k, same, read⟩ := exists_ofText_encoded key before after
    refine ⟨k, same, read, fun v settings made chance' => ?_, fun cookies => ?_, fun user id => ?_⟩
    · exact Settings.ofValues_set_cookieKey made (read chance')
    · rw [same]
    · rw [same]
      exact Session.caller?_cookie id

theorem CookieKey.keys_kept_sevens :
    let chance := Vector.replicate 16 7
    let text := " BwcHBwcHBwcHBwcHBwcHBw==\n"
    let settings : Settings := ⟨":8180", .memory, none, none, .generated chance, none, 67108864,
      "pdftoppm", 100, 3420, 10⟩
    Text.trim "\t".toList = [] ∧ ofText chance "\t" = .ok (.generated chance) ∧
      Text.trim text.toList ≠ [] ∧ ofText chance text = .ok (.provided chance) ∧
      (provided chance).encoded.toList = Text.trim text.toList ∧
      Text.trim "AAAA".toList ≠ [] ∧ ofText chance "AAAA" = .error (.cookieKeyLength 3) ∧
      (∀ c ∈ [' '], Text.isBlank c) ∧ (∀ c ∈ ['\n'], Text.isBlank c) ∧
      Settings.ofValues chance .none = .ok settings ∧ Session.IsId (-1) ∧
      ∃ k, Settings.ofValues (Vector.replicate 16 0) (Values.none.set .cookieKey text) =
          .ok { settings with cookieKey := .provided k } ∧
        Session.caller? (provided k).bytes
          [(Session.cookie settings.cookieKey.bytes (-1)).toUTF8] = some (-1) := by
  intro chance text settings
  obtain ⟨blank, others, again⟩ := keys_kept chance
  have canonical : Base64.Canonical chance.toList (Text.trim text.toList) :=
    Base64.canonical_iff.2 (by decide)
  have three : Base64.Canonical [0, 0, 0] (Text.trim "AAAA".toList) :=
    Base64.canonical_iff.2 (by decide)
  have some : Text.trim text.toList ≠ [] := by decide
  obtain ⟨provided, encoded, -⟩ := others text some
  have key := (provided _).2 ⟨chance, rfl, canonical⟩
  have short : Text.trim "AAAA".toList ≠ [] := by decide
  obtain ⟨-, -, length, -⟩ := others "AAAA" short
  have before : ∀ c ∈ [' '], Text.isBlank c := List.forall_mem_singleton.2 rfl
  have after : ∀ c ∈ ['\n'], Text.isBlank c := List.forall_mem_singleton.2 rfl
  obtain ⟨k, -, -, starts, -, known⟩ := again (.generated chance) [' '] ['\n'] before after
  have made : Settings.ofValues chance .none = .ok settings := rfl
  have id : Session.IsId (-1) := ⟨by decide, by decide⟩
  exact ⟨by decide, blank "\t" (by decide), some, key, encoded _ key, short,
    (length 3).2 ⟨by decide, _, rfl, three⟩, before, after, made, id, k,
    starts .none settings made (Vector.replicate 16 0), known (-1) id⟩

end BallotServer
