import BallotServer.Http.Header
import BallotServer.Text
import Mathlib.Data.List.TakeWhile

/-! Cutting and joining rows of characters, and the bytes of ASCII texts. Parts between separators are
joined again in one way only, so a text has the same parts whether it is cut at once or piece by
piece. -/

namespace BallotServer

namespace Text

variable {sep : Char} {cs a b : List Char}

theorem cut?_append (none : sep ∉ a) (b : List Char) : cut? sep (a ++ sep :: b) = some (a, b) := by
  induction a with
  | nil => simp [cut?]
  | cons c a ih =>
    obtain ⟨other, none⟩ := List.ne_and_not_mem_of_not_mem_cons none
    rw [List.cons_append, cut?, if_neg (Ne.symm other), ih none]
    rfl

theorem cut?_eq_some_iff : cut? sep cs = some (a, b) ↔ cs = a ++ sep :: b ∧ sep ∉ a := by
  constructor
  · exact eq_append_of_cut?
  · rintro ⟨rfl, none⟩
    exact cut?_append none b

theorem parts_append (sep : Char) (a b : List Char) :
    parts sep (a ++ sep :: b) = parts sep a ++ parts sep b := by
  induction a with
  | nil => simp [parts]
  | cons c a ih =>
    rw [List.cons_append, parts, parts, ih]
    split
    · rfl
    · obtain ⟨p, ps, here⟩ := List.exists_cons_of_ne_nil (parts_ne_nil sep a)
      rw [here]
      rfl

theorem parts_of_notMem (none : sep ∉ cs) : parts sep cs = [cs] := by
  induction cs with
  | nil => rfl
  | cons c cs ih =>
    obtain ⟨other, none⟩ := List.ne_and_not_mem_of_not_mem_cons none
    rw [parts, if_neg (Ne.symm other), ih none]

theorem notMem_of_mem_parts {p : List Char} (member : p ∈ parts sep cs) : sep ∉ p := by
  induction cs generalizing p with
  | nil =>
    obtain rfl := List.mem_singleton.1 member
    exact List.not_mem_nil
  | cons c cs ih =>
    obtain ⟨q, ps, here⟩ := List.exists_cons_of_ne_nil (parts_ne_nil sep cs)
    rw [parts] at member
    split at member
    · rcases List.mem_cons.1 member with rfl | later
      · exact List.not_mem_nil
      · exact ih later
    · rename_i other
      rw [here] at member ih
      rcases List.mem_cons.1 member with rfl | later
      · exact List.not_mem_cons_of_ne_of_not_mem (Ne.symm other) (ih List.mem_cons_self)
      · exact ih (List.mem_cons_of_mem _ later)

theorem parts_intercalate {items : List (List Char)} (some : items ≠ [])
    (none : ∀ item ∈ items, sep ∉ item) : parts sep ([sep].intercalate items) = items := by
  induction items with
  | nil => exact absurd rfl some
  | cons item items ih =>
    obtain ⟨here, later⟩ := List.forall_mem_cons.1 none
    cases items with
    | nil => rw [List.intercalate_singleton, parts_of_notMem here]
    | cons next items =>
      rw [List.intercalate_cons_cons, List.append_assoc, List.singleton_append, parts_append,
        parts_of_notMem here, ih (List.cons_ne_nil _ _) later]
      rfl

theorem trim_append {gap gap' : List Char} (before : ∀ c ∈ gap, isBlank c)
    (after : ∀ c ∈ gap', isBlank c) (nonempty : cs ≠ [])
    (bare : ∀ c, cs.head? = some c ∨ cs.getLast? = some c → isBlank c = false) :
    trim (gap ++ (cs ++ gap')) = cs := by
  have front {ds : List Char} (rest : List Char) (nonempty : ds ≠ [])
      (first : ∀ c, ds.head? = some c → isBlank c = false) :
      (ds ++ rest).dropWhile isBlank = ds ++ rest := by
    cases ds with
    | nil => exact absurd rfl nonempty
    | cons d ds => simpa using first d rfl
  have back := front [] (List.reverse_ne_nil_iff.2 nonempty) fun c last =>
    bare c (.inr (List.head?_reverse.symm.trans last))
  rw [List.append_nil] at back
  rw [trim, List.dropWhile_append_of_pos before, front gap' nonempty fun c first => bare c (.inl first),
    List.reverse_append, List.dropWhile_append_of_pos (by simpa using after), back,
    List.reverse_reverse]

end Text

namespace Ascii

theorem toNat_toUInt8 {c : Char} (ascii : c.toNat < 128) : c.toNat.toUInt8.toNat = c.toNat := by
  have bound : c.toNat < 256 := by omega
  simpa using Nat.mod_eq_of_lt bound

theorem bytes_ofList {cs : List Char} (ascii : ∀ c ∈ cs, c.toNat < 128) :
    (String.ofList cs).toUTF8.data.toList = cs.map fun c => c.toNat.toUInt8 := by
  have one {c : Char} (ascii : c.toNat < 128) : String.utf8EncodeChar c = [c.toNat.toUInt8] := by
    have most : c.val.toNat ≤ 127 := Nat.le_of_lt_succ ascii
    rw [String.utf8EncodeChar, if_pos most]
    rfl
  rw [String.toUTF8, String.toByteArray_ofList, List.utf8Encode, List.data_toByteArray]
  induction cs with
  | nil => rfl
  | cons c cs ih =>
    obtain ⟨here, later⟩ := List.forall_mem_cons.1 ascii
    rw [List.flatMap_cons, one here, List.map_cons, ← ih later]
    rfl

theorem map_ofNat_map {cs : List Char} (ascii : ∀ c ∈ cs, c.toNat < 128) :
    (cs.map fun c => c.toNat.toUInt8).map (fun b => Char.ofNat b.toNat) = cs := by
  have each : ∀ c ∈ cs, Char.ofNat c.toNat.toUInt8.toNat = c := fun c member => by
    rw [toNat_toUInt8 (ascii c member), Char.ofNat_toNat]
  rw [List.map_map]
  exact (List.map_congr_left each).trans (List.map_id cs)

theorem toNat_ofNat {b : UInt8} (ascii : b < 128) : (Char.ofNat b.toNat).toNat = b.toNat := by
  have bound : b.toNat < 128 := UInt8.lt_iff_toNat_lt.1 ascii
  have valid : b.toNat.isValidChar := .inl (by omega)
  rw [Char.ofNat, dif_pos valid]
  rfl

theorem bytes_map_ofNat {bs : List UInt8} (ascii : ∀ b ∈ bs, b < 128) :
    (String.ofList (bs.map fun b => Char.ofNat b.toNat)).toUTF8.data.toList = bs := by
  have each : ∀ b ∈ bs, (Char.ofNat b.toNat).toNat.toUInt8 = b := fun b member => by
    rw [toNat_ofNat (ascii b member)]
    exact UInt8.ofNat_toNat
  have low : ∀ c ∈ bs.map fun b => Char.ofNat b.toNat, c.toNat < 128 := by
    intro c member
    obtain ⟨b, here, rfl⟩ := List.mem_map.1 member
    rw [toNat_ofNat (ascii b here)]
    exact UInt8.lt_iff_toNat_lt.1 (ascii b here)
  rw [bytes_ofList low, List.map_map]
  exact (List.map_congr_left each).trans (List.map_id bs)

end Ascii

end BallotServer
