import BallotServer.Proofs.CacheAccounting
import BallotServer.Proofs.Outcomes

/-! The cache of a build that checks sums and differences of sizes. An operation either does what it
does where they wrap, or panics; and it panics nowhere if `Exact` holds. As long as nothing has
panicked the count of the bytes in use is exact, whatever the capacity, so no difference is ever
below zero. What is left is the sum of an insertion, which is a word in every cache whose capacity
is below the half of all words. -/

namespace BallotServer.Cache

section Evicting

variable {capacity used used' : UInt64} {l l' : List Entry} {kept : List Entry × UInt64}

theorem eq_fit_of_fitChecked (h : fitChecked capacity l used = .ok kept) :
    kept = fit capacity l used := by
  induction l generalizing used with
  | nil => exact (Except.ok.inj h).symm
  | cons e newer ih =>
    rw [fitChecked] at h
    rw [fit]
    split at h
    case isTrue exceeds =>
      rw [if_pos exceeds]
      split at h
      case isTrue => cases h
      case isFalse => exact ih h
    case isFalse fits =>
      rw [if_neg fits]
      exact (Except.ok.inj h).symm

theorem Evicting.fitChecked_eq (evicting : Evicting capacity l used l' used')
    (h : fitChecked capacity l used = .ok kept) : fitChecked capacity l' used' = .ok kept := by
  induction evicting with
  | start => exact h
  | @dropped e newer used' before exceeds ih =>
    rw [fitChecked, if_pos exceeds] at ih
    split at ih
    case isTrue => cases ih
    case isFalse => exact ih

/-- The states that an eviction passes through decide whether it panics. -/
theorem fitChecked_eq_ok_iff : fitChecked capacity l used = .ok (fit capacity l used) ↔
    ∀ e newer used', Evicting capacity l used (e :: newer) used' → capacity < used' →
      e.size ≤ used' := by
  constructor
  · intro h e newer used' evicting exceeds
    have there := evicting.fitChecked_eq h
    rw [fitChecked, if_pos exceeds] at there
    split at there
    case isTrue => cases there
    case isFalse part => exact UInt64.not_lt.1 part
  · intro parts
    suffices onward : ∀ l' used', Evicting capacity l used l' used' →
        fitChecked capacity l' used' = .ok (fit capacity l' used') from onward l used .start
    intro l'
    induction l' with
    | nil => exact fun _ _ => rfl
    | cons e newer ih =>
      intro used' evicting
      rw [fitChecked, fit]
      split
      case isTrue exceeds =>
        rw [if_neg (UInt64.not_lt.2 (parts e newer used' evicting exceeds))]
        exact ih _ (evicting.dropped exceeds)
      case isFalse => rfl

end Evicting

variable {c next : Cache} {key : String} {value : Artifact} {size : UInt64}

theorem removeChecked_eq_ok (removal : ∀ e, c.find? key = some e → e.size ≤ c.used) :
    c.removeChecked key = .ok (c.remove key) := by
  unfold removeChecked remove
  cases found : c.find? key with
  | none => rfl
  | some e => exact if_neg (UInt64.not_lt.2 (removal e found))

theorem eq_remove_of_removeChecked (h : c.removeChecked key = .ok next) : next = c.remove key := by
  unfold removeChecked at h
  unfold remove
  cases found : c.find? key with
  | none =>
    rw [found] at h
    exact (Except.ok.inj h).symm
  | some e =>
    simp only [found] at h
    split at h
    case isTrue => cases h
    case isFalse => exact (Except.ok.inj h).symm

theorem eq_put_of_putChecked (h : c.putChecked key value size = .ok next) :
    next = c.put key value size := by
  unfold putChecked at h
  cases removed : c.removeChecked key with
  | error left =>
    rw [removed] at h
    cases h
  | ok rest =>
    obtain rfl := eq_remove_of_removeChecked removed
    simp only [removed] at h
    unfold put
    dsimp only
    split at h
    case isTrue large => exact (if_pos large).symm ▸ (Except.ok.inj h).symm
    case isFalse most =>
      rw [if_neg most]
      split at h
      case isTrue => cases h
      case isFalse =>
        split at h
        · cases h
        · rename_i kept fitted
          obtain rfl := eq_fit_of_fitChecked fitted
          exact (Except.ok.inj h).symm

theorem putChecked_eq_ok (removal : ∀ e, c.find? key = some e → e.size ≤ c.used)
    (insertion : size ≤ c.capacity → (c.remove key).used.toNat + size.toNat < 2 ^ 64)
    (eviction : size ≤ c.capacity → ∀ l used,
      Evicting c.capacity (⟨key, value, size⟩ :: (c.remove key).entries).reverse
        ((c.remove key).used + size) l used →
      c.capacity < used → ∃ e newer, l = e :: newer ∧ e.size ≤ used) :
    c.putChecked key value size = .ok (c.put key value size) := by
  unfold putChecked put
  simp only [removeChecked_eq_ok removal, remove_capacity]
  split
  case isTrue => rfl
  case isFalse most =>
    have most := UInt64.not_lt.1 most
    have parts (e : Entry) (newer : List Entry) (used' : UInt64)
        (evicting : Evicting c.capacity (⟨key, value, size⟩ :: (c.remove key).entries).reverse
          ((c.remove key).used + size) (e :: newer) used')
        (exceeds : c.capacity < used') : e.size ≤ used' := by
      obtain ⟨f, rest, same, part⟩ := eviction most _ _ evicting exceeds
      obtain ⟨rfl, -⟩ := List.cons.inj same
      exact part
    have word : (c.remove key).used.toNat + size.toNat < UInt64.size := insertion most
    rw [if_neg (Nat.not_le.2 word), fitChecked_eq_ok_iff.2 parts]

theorem invalidateChecked_eq_ok (removal : ∀ e, c.find? key = some e → e.size ≤ c.used) :
    c.invalidateChecked key = .ok (c.invalidate key) := by
  rw [invalidateChecked, removeChecked_eq_ok removal]
  rfl

theorem Exact.putChecked (exact_next : c.Exact key) (value : Artifact) (size : UInt64) :
    c.putChecked key value size = .ok (c.put key value size) :=
  putChecked_eq_ok exact_next.removal (exact_next.insertion size) (exact_next.eviction value size)

/-- Where the count is exact, an insertion panics if and only if its size and those of the other
keys do not add up to a word. -/
theorem Accounted.putChecked (accounted : c.Accounted) (key : String) (value : Artifact)
    (size : UInt64) :
    c.putChecked key value size =
      if size ≤ c.capacity ∧ 2 ^ 64 ≤ (c.remove key).used.toNat + size.toNat then
        .error { c.remove key with entries := ⟨key, value, size⟩ :: (c.remove key).entries }
      else .ok (c.put key value size) := by
  have removal (e : Entry) (found : c.find? key = some e) := accounted.size_le found
  split
  case isTrue panics =>
    unfold Cache.putChecked
    simp only [removeChecked_eq_ok removal, remove_capacity]
    have beyond : UInt64.size ≤ (c.remove key).used.toNat + size.toNat := panics.2
    rw [if_neg (UInt64.not_lt.2 panics.1), if_pos beyond]
  case isFalse fine =>
    have word (most : size ≤ c.capacity) : (c.remove key).used.toNat + size.toNat < 2 ^ 64 :=
      Nat.lt_of_not_le fun beyond => fine ⟨most, beyond⟩
    exact putChecked_eq_ok removal word fun most _ _ evicting beyond =>
      evicting.exists_oldest (accounted.counted_insert (word most) value) beyond

theorem Accounted.of_putChecked (accounted : c.Accounted)
    (h : c.putChecked key value size = .ok next) : next.Accounted := by
  obtain rfl := eq_put_of_putChecked h
  rw [accounted.putChecked] at h
  refine accounted.put value fun most => Nat.lt_of_not_le fun beyond => ?_
  rw [if_pos ⟨most, beyond⟩] at h
  cases h

def serveChecked (c : Cache) : (call : Call) → Except Cache (call.Answer × Cache)
  | .get key => .ok (c.get key)
  | .put key value size => (c.putChecked key value size).map ((), ·)
  | .putIfCurrent key value size generation => c.putIfCurrentChecked key value size generation
  | .generation key => .ok (c.generation key, c)
  | .invalidate key => (c.invalidateChecked key).map ((), ·)
  | .stats => .ok (c.stats, c)

/-- The replies to a row of calls, and the cache after them, up to the first call that panics. -/
def serveAllChecked (c : Cache) : List Call → Except Cache (List Reply × Cache)
  | [] => .ok ([], c)
  | call :: later =>
    match c.serveChecked call with
    | .error left => .error left
    | .ok (answer, next) =>
      (next.serveAllChecked later).map fun (replies, last) => (⟨call, answer⟩ :: replies, last)

theorem Accounted.of_serveChecked (accounted : c.Accounted) {call : Call}
    {r : call.Answer × Cache} (h : c.serveChecked call = .ok r) :
    r = c.serve call ∧ r.2.Accounted := by
  cases call with
  | get key =>
    cases h
    exact ⟨rfl, accounted.get key⟩
  | put key value size =>
    obtain ⟨next, put, rfl⟩ := exists_of_map_eq_ok h
    exact ⟨congrArg _ (eq_put_of_putChecked put), accounted.of_putChecked put⟩
  | putIfCurrent key value size generation =>
    rw [serveChecked, putIfCurrentChecked] at h
    rw [Cache.serve, putIfCurrent]
    split at h
    case isTrue current =>
      obtain ⟨next, put, rfl⟩ := exists_of_map_eq_ok h
      rw [if_pos current]
      exact ⟨congrArg _ (eq_put_of_putChecked put), accounted.of_putChecked put⟩
    case isFalse stale =>
      cases h
      rw [if_neg stale]
      exact ⟨rfl, accounted⟩
  | invalidate key =>
    obtain ⟨next, invalidated, rfl⟩ := exists_of_map_eq_ok h
    obtain ⟨rest, removed, rfl⟩ := exists_of_map_eq_ok invalidated
    obtain rfl := eq_remove_of_removeChecked removed
    exact ⟨rfl, accounted.invalidate key⟩
  | _ =>
    cases h
    exact ⟨rfl, accounted⟩

/-- A row of calls that did not panic did what it does where sums wrap, and none has wrapped. -/
theorem Accounted.of_serveAllChecked (accounted : c.Accounted) {calls : List Call}
    {r : List Reply × Cache} (h : c.serveAllChecked calls = .ok r) :
    r = c.serveAll calls ∧ r.2.Accounted := by
  induction calls generalizing c r with
  | nil =>
    cases h
    exact ⟨rfl, accounted⟩
  | cons call later ih =>
    rw [serveAllChecked] at h
    cases served : c.serveChecked call with
    | error left =>
      rw [served] at h
      cases h
    | ok first =>
      rw [served] at h
      obtain ⟨rest, followed, rfl⟩ := exists_of_map_eq_ok h
      obtain ⟨rfl, between⟩ := accounted.of_serveChecked served
      obtain ⟨rfl, last⟩ := ih between followed
      exact ⟨rfl, last⟩

theorem serveChecked_eq_ok {call : Call} (exact_next : ∀ key, c.Exact key) :
    c.serveChecked call = .ok (c.serve call) := by
  cases call with
  | put key value size =>
    rw [serveChecked, (exact_next key).putChecked]
    rfl
  | putIfCurrent key value size generation =>
    rw [serveChecked, putIfCurrentChecked, serve, putIfCurrent, (exact_next key).putChecked]
    split <;> rfl
  | invalidate key =>
    rw [serveChecked, invalidateChecked_eq_ok (exact_next key).removal]
    rfl
  | _ => rfl

theorem Accounted.serveAllChecked (accounted : c.Accounted)
    (small : c.capacity.toNat ≤ (2 ^ 64 - 1) / 2) (calls : List Call) :
    c.serveAllChecked calls = .ok (c.serveAll calls) := by
  induction calls generalizing c with
  | nil => rfl
  | cons call later ih =>
    have rest := ih (accounted.serve small call) (by rw [serve_capacity]; exact small)
    rw [Cache.serveAllChecked, serveChecked_eq_ok (accounted.exact small), Cache.serveAll]
    dsimp only
    rw [rest]
    rfl

end BallotServer.Cache
