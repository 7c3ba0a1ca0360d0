import BallotServer.Proofs.Base64Text
import Mathlib.Data.Nat.Digits.Lemmas
import Mathlib.Tactic.Ring

/-! Base64 as arithmetic. The bytes, with two zero bits after them for each sign of padding, are one
number; the symbols are its digits to the base 64. So the standard form writes the canonical text, and
there is no other. -/

namespace BallotServer.Base64

def alphabet : List Char :=
  "ABCDEFGHIJKLMNOPQRSTUVWXYZabcdefghijklmnopqrstuvwxyz0123456789+/".toList

def letter (v : Nat) : Char := alphabet.getD v '='

/-- The number that digits to a base stand for, the highest first. -/
def number (base : Nat) (digits : List Nat) : Nat := Nat.ofDigits base digits.reverse

/-- The canonical padded text of bytes: as many symbols as it takes, and signs of padding that make
whole quads of them, with zero in the bits to spare. -/
def Canonical (bytes : List UInt8) (cs : List Char) : Prop :=
  ∃ (values : List Nat) (pads : Nat),
    pads < 3 ∧ 3 * (values.length + pads) = 4 * (bytes.length + pads) ∧ (∀ v ∈ values, v < 64) ∧
      number 64 values = 4 ^ pads * number 256 (bytes.map UInt8.toNat) ∧
      cs = values.map letter ++ List.replicate pads '='

variable {bytes : List UInt8} {cs cs' : List Char}

theorem number_nil (base : Nat) : number base [] = 0 := rfl

theorem number_cons (base d : Nat) (digits : List Nat) :
    number base (d :: digits) = d * base ^ digits.length + number base digits := by
  rw [number, Nat.ofDigits_reverse_cons, Nat.add_comm, Nat.mul_comm]
  rfl

theorem pow_values {values pads bytes : Nat} (whole : 3 * (values + pads) = 4 * (bytes + pads)) :
    64 ^ values = 4 ^ pads * 256 ^ bytes := by
  rw [show 64 = 4 ^ 3 from rfl, show 256 = 4 ^ 4 from rfl, ← pow_mul, ← pow_mul, ← pow_add]
  congr 1
  omega

theorem quad_eq (a b c : UInt8) :
    a.toNat / 4 * 64 ^ 3 + (a.toNat % 4 * 16 + b.toNat / 16) * 64 ^ 2 +
        (b.toNat % 16 * 4 + c.toNat / 64) * 64 + c.toNat % 64 =
      a.toNat * 256 ^ 2 + b.toNat * 256 + c.toNat := by
  omega

theorem exists_values (bytes : List UInt8) :
    ∃ (values : List Nat) (pads : Nat),
      pads < 3 ∧ 3 * (values.length + pads) = 4 * (bytes.length + pads) ∧ (∀ v ∈ values, v < 64) ∧
        number 64 values = 4 ^ pads * number 256 (bytes.map UInt8.toNat) ∧
        standard.encode bytes = values.map standard.symbol ++ List.replicate pads pad := by
  induction bytes using Form.encode.induct with
  | case1 => exact ⟨[], 0, by decide, rfl, List.forall_mem_nil _, rfl, rfl⟩
  | case2 a =>
    have := a.toNat_lt
    refine ⟨[a.toNat / 4, a.toNat % 4 * 16], 2, by decide, rfl, ?_, ?_, rfl⟩
    · simp
      omega
    · simp [number_cons, number_nil]
      omega
  | case3 a b =>
    have := a.toNat_lt
    have := b.toNat_lt
    refine ⟨[a.toNat / 4, a.toNat % 4 * 16 + b.toNat / 16, b.toNat % 16 * 4], 1, by decide, rfl,
      ?_, ?_, rfl⟩
    · simp
      omega
    · simp [number_cons, number_nil]
      omega
  | case4 a b c rest ih =>
    have := a.toNat_lt
    have := b.toNat_lt
    have := c.toNat_lt
    obtain ⟨values, pads, few, whole, each, same, encoded⟩ := ih
    refine ⟨a.toNat / 4 :: (a.toNat % 4 * 16 + b.toNat / 16) ::
      (b.toNat % 16 * 4 + c.toNat / 64) :: c.toNat % 64 :: values, pads, few, ?_, ?_, ?_, ?_⟩
    · simp only [List.length_cons]
      omega
    · simp only [List.forall_mem_cons]
      exact ⟨by omega, by omega, by omega, by omega, each⟩
    -- What follows shifts the four symbols and the three bytes by as much, the zero bits included.
    · simp only [List.map_cons, number_cons, List.length_cons, List.length_map, same, pow_succ,
        pow_values whole]
      calc
        _ = (a.toNat / 4 * 64 ^ 3 + (a.toNat % 4 * 16 + b.toNat / 16) * 64 ^ 2 +
            (b.toNat % 16 * 4 + c.toNat / 64) * 64 + c.toNat % 64) * (4 ^ pads * 256 ^ rest.length) +
            4 ^ pads * number 256 (rest.map UInt8.toNat) := by ring
        _ = _ := by
          rw [quad_eq]
          ring
    · rw [Form.encode, encoded]
      rfl

theorem Canonical.unique (one : Canonical bytes cs) (other : Canonical bytes cs') : cs = cs' := by
  obtain ⟨values, pads, few, whole, each, same, rfl⟩ := one
  obtain ⟨values', pads', few', whole', each', same', rfl⟩ := other
  obtain rfl : pads = pads' := by omega
  have reversed : values.reverse = values'.reverse := by
    refine Nat.ofDigits_inj_of_len_eq (by decide : 1 < 64) ?_ ?_ ?_ (same.trans same'.symm)
    · simp only [List.length_reverse]
      omega
    · simpa using each
    · simpa using each'
  rw [List.reverse_injective reversed]

theorem letter_eq_symbol : ∀ v < 64, letter v = Char.ofNat (standard.symbol v).toNat := by
  decide

theorem canonical_text (bytes : List UInt8) : Canonical bytes (standard.text bytes).toList := by
  obtain ⟨values, pads, few, whole, each, same, encoded⟩ := exists_values bytes
  refine ⟨values, pads, few, whole, each, same, ?_⟩
  rw [Form.text, String.toList_ofList, encoded, List.map_append, List.map_map, List.map_replicate]
  congr 1
  exact List.map_congr_left fun v member => (letter_eq_symbol v (each v member)).symm

theorem canonical_iff : Canonical bytes cs ↔ cs = (standard.text bytes).toList := by
  constructor
  · intro canonical
    exact canonical.unique (canonical_text bytes)
  · rintro rfl
    exact canonical_text bytes

theorem decode_eq_ok_iff_canonical :
    standard.decode (String.ofList cs).toUTF8.data.toList = .ok bytes ↔ Canonical bytes cs := by
  rw [Form.faithful_standard.decode_utf8_eq_ok_iff, canonical_iff, ← String.toList_inj,
    String.toList_ofList]

theorem Canonical.bytes_unique {bytes' : List UInt8} (one : Canonical bytes cs)
    (other : Canonical bytes' cs) : bytes = bytes' :=
  Except.ok.inj ((decode_eq_ok_iff_canonical.2 one).symm.trans (decode_eq_ok_iff_canonical.2 other))

theorem letter_mem (v : Nat) : letter v ∈ '=' :: alphabet := by
  rw [letter, List.getD_eq_getElem?_getD]
  cases here : alphabet[v]? with
  | none => exact List.mem_cons_self
  | some c => exact List.mem_cons_of_mem _ (List.mem_of_getElem? here)

theorem Canonical.mem {c : Char} (canonical : Canonical bytes cs) (member : c ∈ cs) :
    c ∈ '=' :: alphabet := by
  obtain ⟨values, pads, -, -, -, -, rfl⟩ := canonical
  rcases List.mem_append.1 member with symbol | padding
  · obtain ⟨v, -, rfl⟩ := List.mem_map.1 symbol
    exact letter_mem v
  · rw [List.eq_of_mem_replicate padding]
    exact List.mem_cons_self

end BallotServer.Base64
