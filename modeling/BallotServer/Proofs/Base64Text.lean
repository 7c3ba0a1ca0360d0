import BallotServer.Base64
import BallotServer.Proofs.Texts

/-! Each row of bytes has one text in base64, and no other text is read. Four symbols carry three
bytes; the last symbols of a text carry one byte or two with bits to spare, and a text is read only
if the spare bits are zero and the padding is what the form asks for. -/

namespace BallotServer.Base64.Form

section Values

variable {a b c d : Nat}

theorem toNat_byte0 (ha : a < 64) (hb : b < 64) : (byte0 a b).toNat = a * 4 + b / 16 := by
  have bound : a * 4 + b / 16 < 256 := by omega
  simpa [byte0] using Nat.mod_eq_of_lt bound

theorem toNat_byte1 (hc : c < 64) : (byte1 b c).toNat = b % 16 * 16 + c / 4 := by
  have bound : b % 16 * 16 + c / 4 < 256 := by omega
  simpa [byte1] using Nat.mod_eq_of_lt bound

theorem toNat_byte2 (hd : d < 64) : (byte2 c d).toNat = c % 4 * 64 + d := by
  have bound : c % 4 * 64 + d < 256 := by omega
  simpa [byte2] using Nat.mod_eq_of_lt bound

theorem byte0_values (x y : UInt8) :
    byte0 (x.toNat / 4) (x.toNat % 4 * 16 + y.toNat / 16) = x := by
  have := y.toNat_lt
  have whole : x.toNat / 4 * 4 + (x.toNat % 4 * 16 + y.toNat / 16) / 16 = x.toNat := by omega
  rw [byte0, whole]
  exact UInt8.ofNat_toNat

theorem byte1_values (x y z : UInt8) :
    byte1 (x.toNat % 4 * 16 + y.toNat / 16) (y.toNat % 16 * 4 + z.toNat / 64) = y := by
  have := y.toNat_lt
  have := z.toNat_lt
  have whole : (x.toNat % 4 * 16 + y.toNat / 16) % 16 * 16 +
      (y.toNat % 16 * 4 + z.toNat / 64) / 4 = y.toNat := by omega
  rw [byte1, whole]
  exact UInt8.ofNat_toNat

theorem byte2_values (y z : UInt8) :
    byte2 (y.toNat % 16 * 4 + z.toNat / 64) (z.toNat % 64) = z := by
  have := z.toNat_lt
  have whole : (y.toNat % 16 * 4 + z.toNat / 64) % 4 * 64 + z.toNat % 64 = z.toNat := by omega
  rw [byte2, whole]
  exact UInt8.ofNat_toNat

end Values

variable {f : Form}

/-- The sixty-four symbols are ASCII and told apart, and padding is none of them. -/
structure Faithful (f : Form) : Prop where
  value?_symbol : ∀ v < 64, f.value? (f.symbol v) = some v
  value?_pad : f.value? pad = none
  ascii : ∀ v < 64, f.symbol v < 128

theorem faithful_standard : standard.Faithful := ⟨value?_symbol_standard, by decide, by decide⟩

theorem faithful_urlSafe : urlSafe.Faithful := ⟨value?_symbol_urlSafe, by decide, by decide⟩

theorem symbol_of_value? {b : UInt8} {v : Nat} (h : f.value? b = some v) :
    v < 64 ∧ f.symbol v = b := by
  have back (n : Nat) (same : n = b.toNat) : n.toUInt8 = b := same ▸ UInt8.ofNat_toNat
  simp only [value?, Bool.and_eq_true, decide_eq_true_eq] at h
  unfold symbol
  grind

theorem Faithful.symbol_ne_pad (faithful : f.Faithful) {v : Nat} (most : v < 64) :
    f.symbol v ≠ pad := by
  intro same
  have value := faithful.value?_symbol v most
  rw [same, faithful.value?_pad] at value
  cases value

theorem read_eq_ok {b : UInt8} {offset v : Nat} (h : f.read b offset = .ok v) :
    v < 64 ∧ f.symbol v = b := by
  unfold read at h
  split at h
  · rename_i value
    cases h
    exact symbol_of_value? value
  · cases h

theorem Faithful.read_symbol (faithful : f.Faithful) {v : Nat} (most : v < 64) (offset : Nat) :
    f.read (f.symbol v) offset = .ok v := by
  rw [read, faithful.value?_symbol v most]

theorem encode_quad {a b c d : Nat} (ha : a < 64) (hb : b < 64) (hc : c < 64) (hd : d < 64)
    (rest : List UInt8) :
    f.encode (byte0 a b :: byte1 b c :: byte2 c d :: rest) =
      f.symbol a :: f.symbol b :: f.symbol c :: f.symbol d :: f.encode rest := by
  rw [encode, toNat_byte0 ha hb, toNat_byte1 hc, toNat_byte2 hd]
  congr 4 <;> congr 1 <;> omega

theorem encode_pair {a b c : Nat} (ha : a < 64) (hb : b < 64) (hc : c < 64) (spare : c % 4 = 0) :
    f.encode [byte0 a b, byte1 b c] =
      f.symbol a :: f.symbol b :: f.symbol c :: f.padding 1 := by
  rw [encode, toNat_byte0 ha hb, toNat_byte1 hc]
  congr 3 <;> congr 1 <;> omega

theorem encode_single {a b : Nat} (ha : a < 64) (hb : b < 64) (spare : b % 16 = 0) :
    f.encode [byte0 a b] = f.symbol a :: f.symbol b :: f.padding 2 := by
  rw [encode, toNat_byte0 ha hb]
  congr 2 <;> congr 1 <;> omega

def Complete (f : Form) (values : List Nat) (pads : Nat) : Prop :=
  2 ≤ values.length ∧ values.length ≤ 4 ∧ pads = if f.padded then 4 - values.length else 0

theorem encode_lastBytes {values : List Nat} {pads : Nat} {bytes : List UInt8}
    (complete : f.Complete values pads) (each : ∀ v ∈ values, v < 64)
    (exact : lastBytes values = (bytes, 0)) :
    f.encode bytes = values.map f.symbol ++ List.replicate pads pad := by
  obtain ⟨least, most, rfl⟩ := complete
  match values, each with
  | [a, b], each =>
    simp only [lastBytes, Prod.mk.injEq] at exact
    obtain ⟨rfl, spare⟩ := exact
    rw [encode_single (each a (by simp)) (each b (by simp)) spare]
    cases padded : f.padded <;> simp [padding, padded]
  | [a, b, c], each =>
    simp only [lastBytes, Prod.mk.injEq] at exact
    obtain ⟨rfl, spare⟩ := exact
    rw [encode_pair (each a (by simp)) (each b (by simp)) (each c (by simp)) spare]
    cases padded : f.padded <;> simp [padding, padded]
  | [a, b, c, d], each =>
    simp only [lastBytes, Prod.mk.injEq] at exact
    obtain ⟨rfl, -⟩ := exact
    rw [encode_quad (each a (by simp)) (each b (by simp)) (each c (by simp)) (each d (by simp))]
    cases f.padded <;> simp [encode]

theorem exists_lastBytes (f : Form) {bytes : List UInt8} (some : bytes ≠ [])
    (short : bytes.length ≤ 3) :
    ∃ values pads, f.Complete values pads ∧ (∀ v ∈ values, v < 64) ∧
      lastBytes values = (bytes, 0) := by
  match bytes with
  | [x] =>
    have := x.toNat_lt
    refine ⟨[x.toNat / 4, x.toNat % 4 * 16], _, ⟨by simp, by simp, rfl⟩, ?_, ?_⟩
    · simp
      omega
    · simpa [lastBytes] using byte0_values x 0
  | [x, y] =>
    have := x.toNat_lt
    have := y.toNat_lt
    refine ⟨[x.toNat / 4, x.toNat % 4 * 16 + y.toNat / 16, y.toNat % 16 * 4], _,
      ⟨by simp, by simp, rfl⟩, ?_, ?_⟩
    · simp
      omega
    · simpa [lastBytes, byte0_values] using byte1_values x y 0
  | [x, y, z] =>
    have := x.toNat_lt
    have := y.toNat_lt
    have := z.toNat_lt
    refine ⟨[x.toNat / 4, x.toNat % 4 * 16 + y.toNat / 16, y.toNat % 16 * 4 + z.toNat / 64,
      z.toNat % 64], _, ⟨by simp, by simp, rfl⟩, ?_, ?_⟩
    · simp
      omega
    · simp [lastBytes, byte0_values, byte1_values, byte2_values]

theorem values_of_lastQuad {offset pads pads' : Nat} {values values' : List Nat}
    {text : List UInt8} (h : f.lastQuad offset values pads text = .ok (values', pads')) :
    ∃ new k, text = new.map f.symbol ++ List.replicate k pad ∧ (∀ v ∈ new, v < 64) ∧
      values' = values ++ new ∧ pads' = pads + k ∧ (0 < pads → new = []) := by
  fun_induction lastQuad f offset values pads text with
  | case1 values pads =>
    cases h
    exact ⟨[], 0, rfl, by simp, by simp, rfl, fun _ => rfl⟩
  | case2 => cases h
  | case3 values pads rest _ ih =>
    obtain ⟨new, k, rfl, -, rfl, rfl, none⟩ := ih h
    obtain rfl := none (Nat.succ_pos pads)
    exact ⟨[], k + 1, rfl, by simp, rfl, by omega, fun _ => rfl⟩
  | case4 => cases h
  | case5 => cases h
  | case6 values pads b rest _ first v read ih =>
    obtain ⟨most, rfl⟩ := read_eq_ok read
    obtain ⟨new, k, rfl, each, rfl, rfl, -⟩ := ih h
    refine ⟨v :: new, k, rfl, List.forall_mem_cons.2 ⟨most, each⟩, by simp, by omega, fun some => ?_⟩
    exact absurd some first

theorem Faithful.lastQuad_symbols (faithful : f.Faithful) {new : List Nat}
    (each : ∀ v ∈ new, v < 64) (offset : Nat) (values : List Nat) (rest : List UInt8) :
    f.lastQuad offset values 0 (new.map f.symbol ++ rest) =
      f.lastQuad offset (values ++ new) 0 rest := by
  induction new generalizing values with
  | nil => simp
  | cons v new ih =>
    obtain ⟨most, each⟩ := List.forall_mem_cons.1 each
    rw [List.map_cons, List.cons_append, lastQuad, if_neg (faithful.symbol_ne_pad most),
      if_neg (Nat.lt_irrefl 0), faithful.read_symbol most]
    simp only [ih each, List.append_assoc, List.singleton_append]

theorem lastQuad_replicate {values : List Nat} (least : 2 ≤ values.length) (offset pads k : Nat) :
    f.lastQuad offset values pads (List.replicate k pad) = .ok (values, pads + k) := by
  induction k generalizing pads with
  | zero => rfl
  | succ k ih =>
    rw [List.replicate_succ, lastQuad, if_pos rfl, if_neg (by omega), ih]
    congr 2
    omega

theorem encode_of_finish {offset : Nat} {last bytes : List UInt8} (short : last.length ≤ 4)
    (h : f.finish offset last = .ok bytes) : f.encode bytes = last := by
  unfold finish at h
  split at h
  · cases h
  · rename_i values pads read
    obtain ⟨_, k, rfl, each, rfl, rfl, -⟩ := values_of_lastQuad read
    rw [Nat.zero_add] at h
    simp only [List.length_append, List.length_map, List.length_replicate] at short
    split at h
    · rename_i empty
      cases h
      rw [List.isEmpty_iff.1 empty, encode]
    · split at h
      · cases h
      · rename_i least
        by_cases asked : (if f.padded then (values.length + k) % 4 != 0 else decide (0 < k)) = true
        · rw [if_pos asked] at h
          cases h
        · rw [if_neg asked] at h
          have complete : f.Complete values k := by
            refine ⟨by omega, by omega, ?_⟩
            cases padded : f.padded <;> simp [padded] at asked ⊢ <;> omega
          dsimp only at h
          split at h
          · rename_i exact
            cases h
            exact encode_lastBytes complete each (Prod.ext rfl exact)
          · cases h

theorem Faithful.finish_encode (faithful : f.Faithful) {bytes : List UInt8}
    (short : bytes.length ≤ 3) (offset : Nat) :
    f.finish offset (f.encode bytes) = .ok bytes := by
  by_cases empty : bytes = []
  · subst empty
    rfl
  · obtain ⟨values, pads, complete, each, exact⟩ := exists_lastBytes f empty short
    obtain ⟨least, most, asked⟩ := id complete
    have read : f.lastQuad offset [] 0 (values.map f.symbol ++ List.replicate pads pad) =
        .ok (values, pads) := by
      rw [faithful.lastQuad_symbols each, List.nil_append, lastQuad_replicate least, Nat.zero_add]
    rw [encode_lastBytes complete each exact, finish, read]
    have some : (values.map f.symbol ++ List.replicate pads pad).isEmpty = false := by
      cases values with
      | nil => cases least
      | cons v values => rfl
    have full : (if f.padded then (values.length + pads) % 4 != 0 else decide (0 < pads)) = false := by
      cases padded : f.padded <;> simp [padded] at asked ⊢ <;> omega
    simp [some, full, exact, Nat.not_lt.2 least]

theorem quads_of_short {text : List UInt8} (short : text.length ≤ 4) (offset : Nat)
    (done : List UInt8) :
    f.quads offset done text = (f.finish offset text).map (done.reverse ++ ·) := by
  unfold quads
  split
  · simp only [List.length_cons] at short
    omega
  · rfl

theorem encode_of_quads {offset : Nat} {done text out : List UInt8}
    (h : f.quads offset done text = .ok out) :
    ∃ bytes, out = done.reverse ++ bytes ∧ f.encode bytes = text := by
  fun_induction quads f offset done text with
  | case1 offset done b₁ b₂ b₃ b₄ e rest a b c d read₄ read₃ read₂ read₁ ih =>
    obtain ⟨ha, rfl⟩ := read_eq_ok read₁
    obtain ⟨hb, rfl⟩ := read_eq_ok read₂
    obtain ⟨hc, rfl⟩ := read_eq_ok read₃
    obtain ⟨hd, rfl⟩ := read_eq_ok read₄
    obtain ⟨bytes, rfl, whole⟩ := ih h
    refine ⟨byte0 a b :: byte1 b c :: byte2 c d :: bytes, by simp, ?_⟩
    rw [encode_quad ha hb hc hd, whole]
  | case2 => cases h
  | case3 => cases h
  | case4 => cases h
  | case5 => cases h
  | case6 offset done text long =>
    have short : text.length ≤ 4 := by
      by_contra beyond
      match text with
      | b₁ :: b₂ :: b₃ :: b₄ :: e :: rest => exact long b₁ b₂ b₃ b₄ e rest rfl
      | [] | [_] | [_, _] | [_, _, _] | [_, _, _, _] => simp at beyond
    cases read : f.finish offset text with
    | error fault =>
      rw [read] at h
      cases h
    | ok bytes =>
      rw [read] at h
      exact ⟨bytes, (Except.ok.inj h).symm, encode_of_finish short read⟩

theorem eq_nil_of_encode {bytes : List UInt8} (h : f.encode bytes = []) : bytes = [] := by
  match bytes with
  | [] => rfl
  | [_] | [_, _] | _ :: _ :: _ :: _ => simp [encode] at h

theorem length_encode_le (f : Form) {bytes : List UInt8} (short : bytes.length ≤ 3) :
    (f.encode bytes).length ≤ 4 := by
  match bytes with
  | [] => simp [encode]
  | [a] | [a, b] | [a, b, c] => cases padded : f.padded <;> simp [encode, padding, padded]

theorem length_encode_mod_four (f : Form) (bytes : List UInt8) :
    (f.encode bytes).length % 4 ≠ 1 := by
  fun_induction encode f bytes with
  | case1 => simp
  | case2 a => cases padded : f.padded <;> simp [padding, padded]
  | case3 a b => cases padded : f.padded <;> simp [padding, padded]
  | case4 a b c rest ih => simpa [Nat.add_assoc] using ih

theorem Faithful.quads_encode (faithful : f.Faithful) (bytes : List UInt8) (offset : Nat)
    (done : List UInt8) : f.quads offset done (f.encode bytes) = .ok (done.reverse ++ bytes) := by
  have last {bytes : List UInt8} (short : bytes.length ≤ 3) (offset : Nat) (done : List UInt8) :
      f.quads offset done (f.encode bytes) = .ok (done.reverse ++ bytes) := by
    rw [quads_of_short (f.length_encode_le short), faithful.finish_encode short]
    rfl
  induction bytes using encode.induct generalizing offset done with
  | case1 | case2 a | case3 a b => exact last (by simp) offset done
  | case4 a b c rest ih =>
    cases more : f.encode rest with
    | nil =>
      obtain rfl := eq_nil_of_encode more
      exact last (by simp) offset done
    | cons e text =>
      have := a.toNat_lt
      have := b.toNat_lt
      have := c.toNat_lt
      rw [more] at ih
      rw [encode, more, quads, faithful.read_symbol (by omega), faithful.read_symbol (by omega),
        faithful.read_symbol (by omega), faithful.read_symbol (by omega)]
      simp only [ih, byte0_values, byte1_values, byte2_values, List.reverse_cons, List.append_assoc,
        List.singleton_append]
      rfl

/-- A text is read if and only if it is the one text of the bytes that come out. -/
theorem Faithful.decode_eq_ok_iff (faithful : f.Faithful) {text bytes : List UInt8} :
    f.decode text = .ok bytes ↔ text = f.encode bytes := by
  constructor
  · intro h
    unfold decode at h
    split at h
    · cases h
    · obtain ⟨_, rfl, whole⟩ := encode_of_quads h
      exact whole.symm
  · rintro rfl
    have none : f.overhang? (f.encode bytes) = none := by
      rw [overhang?, if_neg (f.length_encode_mod_four bytes)]
    rw [decode, none]
    exact faithful.quads_encode bytes 0 []

theorem mem_encode {bytes : List UInt8} {b : UInt8} (member : b ∈ f.encode bytes) :
    (∃ v < 64, b = f.symbol v) ∨ f.padded ∧ b = pad := by
  have padding {n : Nat} (here : b ∈ f.padding n) : f.padded ∧ b = pad := by
    unfold Form.padding at here
    split at here
    · rename_i padded
      exact ⟨padded, List.eq_of_mem_replicate here⟩
    · cases here
  fun_induction encode f bytes with
  | case1 => cases member
  | case2 a =>
    have := a.toNat_lt
    simp only [List.mem_cons] at member
    rcases member with rfl | rfl | pads
    · exact .inl ⟨_, by omega, rfl⟩
    · exact .inl ⟨_, by omega, rfl⟩
    · exact .inr (padding pads)
  | case3 a b =>
    have := a.toNat_lt
    have := b.toNat_lt
    simp only [List.mem_cons] at member
    rcases member with rfl | rfl | rfl | pads
    · exact .inl ⟨_, by omega, rfl⟩
    · exact .inl ⟨_, by omega, rfl⟩
    · exact .inl ⟨_, by omega, rfl⟩
    · exact .inr (padding pads)
  | case4 a b c rest ih =>
    have := a.toNat_lt
    have := b.toNat_lt
    have := c.toNat_lt
    simp only [List.mem_cons] at member
    rcases member with rfl | rfl | rfl | rfl | later
    · exact .inl ⟨_, by omega, rfl⟩
    · exact .inl ⟨_, by omega, rfl⟩
    · exact .inl ⟨_, by omega, rfl⟩
    · exact .inl ⟨_, by omega, rfl⟩
    · exact ih later

theorem Faithful.bytes_text (faithful : f.Faithful) (bytes : List UInt8) :
    (f.text bytes).toUTF8.data.toList = f.encode bytes := by
  refine Ascii.bytes_map_ofNat fun b member => ?_
  rcases mem_encode member with ⟨v, most, rfl⟩ | ⟨-, rfl⟩
  · exact faithful.ascii v most
  · decide

theorem Faithful.decode_utf8_eq_ok_iff (faithful : f.Faithful) {text : String}
    {bytes : List UInt8} :
    f.decode text.toUTF8.data.toList = .ok bytes ↔ text = f.text bytes := by
  rw [faithful.decode_eq_ok_iff, ← faithful.bytes_text, Array.toList_inj]
  constructor
  · intro same
    exact String.toByteArray_inj.1 (ByteArray.ext same)
  · rintro rfl
    rfl

end BallotServer.Base64.Form
