import BallotServer.Proofs.CacheEntries
import Mathlib.Algebra.GroupWithZero.Nat
import Mathlib.Algebra.Order.BigOperators.Group.Finset

/-! Caches that are large enough. If all that is ever kept under each key would fit in at once, then
nothing has to make room for anything: an insertion leaves all entries of other keys. The recorded
sizes are added up exactly, since no sum comes near the end of a 64-bit word. -/

namespace BallotServer.Cache

def Present (c : Cache) (key : String) : Prop := ∃ e ∈ c.entries, e.key = key

/-- The entries have keys among `keys` and the sizes allowed for them, and the cache has room for
all keys at once. -/
structure Within (keys : Finset String) (allowed : String → ℕ) (c : Cache) : Prop where
  distinct : c.Distinct
  known : ∀ e ∈ c.entries, e.key ∈ keys ∧ e.size.toNat ≤ allowed e.key
  counted : c.used.toNat = (c.entries.map fun e => e.size.toNat).sum
  room : ∑ key ∈ keys, allowed key ≤ c.capacity.toNat

variable {keys : Finset String} {allowed : String → ℕ} {c : Cache} {key : String}
  {artifact : Artifact} {size : UInt64}

theorem sum_sizes_le {l : List Entry} (distinct : (l.map Entry.key).Nodup)
    (known : ∀ e ∈ l, e.key ∈ keys ∧ e.size.toNat ≤ allowed e.key) :
    (l.map fun e => e.size.toNat).sum ≤ ∑ key ∈ keys, allowed key := by
  have subset : (l.map Entry.key).toFinset ⊆ keys := by
    intro key member
    obtain ⟨e, here, rfl⟩ := List.mem_map.1 (List.mem_toFinset.1 member)
    exact (known e here).1
  calc
    (l.map fun e => e.size.toNat).sum ≤ (l.map fun e => allowed e.key).sum :=
      List.sum_le_sum fun e here => (known e here).2
    _ = ((l.map Entry.key).map allowed).sum := by rw [List.map_map]; rfl
    _ = ∑ key ∈ (l.map Entry.key).toFinset, allowed key := (List.sum_toFinset allowed distinct).symm
    _ ≤ ∑ key ∈ keys, allowed key := Finset.sum_le_sum_of_subset subset

theorem sum_eraseP {e : Entry} (found : c.find? key = some e) :
    (c.entries.map fun e => e.size.toNat).sum =
      e.size.toNat + ((c.entries.eraseP fun e => e.key == key).map fun e => e.size.toNat).sum := by
  have perm := c.get_perm key
  simp only [get, found] at perm
  rw [← (perm.map fun e => e.size.toNat).sum_eq, List.map_cons, List.sum_cons]

theorem fit_of_le {capacity used : UInt64} (l : List Entry) (fits : used ≤ capacity) :
    fit capacity l used = (l, used) := by
  cases l with
  | nil => rfl
  | cons e newer => rw [fit, if_neg (UInt64.not_lt.2 fits)]

theorem counted_remove (counted : c.used.toNat = (c.entries.map fun e => e.size.toNat).sum)
    (key : String) :
    (c.remove key).used.toNat = ((c.remove key).entries.map fun e => e.size.toNat).sum := by
  unfold remove
  cases found : c.find? key with
  | none => exact counted
  | some e =>
    rw [sum_eraseP found] at counted
    have below : e.size ≤ c.used := UInt64.le_iff_toNat_le.2 (by omega)
    dsimp only
    rw [UInt64.toNat_sub_of_le _ _ below]
    omega

theorem Within.remove (within : c.Within keys allowed) (key : String) :
    (c.remove key).Within keys allowed where
  distinct := by
    unfold Distinct
    rw [remove_entries]
    exact within.distinct.sublist (List.eraseP_sublist.map Entry.key)
  known := by
    intro e member
    rw [remove_entries] at member
    exact within.known e (List.mem_of_mem_eraseP member)
  counted := counted_remove within.counted key
  room := by
    rw [remove_capacity]
    exact within.room

theorem Within.put (within : c.Within keys allowed) (mem : key ∈ keys)
    (small : size.toNat ≤ allowed key) (artifact : Artifact) :
    (c.put key artifact size).Within keys allowed ∧
      (c.put key artifact size).entries =
        ⟨key, artifact, size⟩ :: c.entries.eraseP fun e => e.key == key := by
  have removed := within.remove key
  have distinct : ((⟨key, artifact, size⟩ :: (c.remove key).entries).map Entry.key).Nodup := by
    rw [List.map_cons, List.nodup_cons]
    refine ⟨fun member => ?_, removed.distinct⟩
    obtain ⟨e, left, same⟩ := List.mem_map.1 member
    rw [remove_entries] at left
    exact ((mem_eraseP within.distinct).1 left).2 same
  have known : ∀ e ∈ (⟨key, artifact, size⟩ :: (c.remove key).entries : List Entry),
      e.key ∈ keys ∧ e.size.toNat ≤ allowed e.key := by
    intro e member
    cases member with
    | head => exact ⟨mem, small⟩
    | tail _ old => exact removed.known e old
  have total := (sum_sizes_le distinct known).trans removed.room
  have counted := removed.counted
  rw [List.map_cons, List.sum_cons] at total
  dsimp only at total
  have word := (c.remove key).capacity.toNat_lt
  have exact_sum : ((c.remove key).used + size).toNat = (c.remove key).used.toNat + size.toNat := by
    rw [UInt64.toNat_add]
    exact Nat.mod_eq_of_lt (by omega)
  have fits : (c.remove key).used + size ≤ (c.remove key).capacity :=
    UInt64.le_iff_toNat_le.2 (by omega)
  have one : ¬(c.remove key).capacity < size := UInt64.not_lt.2 (UInt64.le_iff_toNat_le.2 (by omega))
  have is : c.put key artifact size = { c.remove key with
      entries := ⟨key, artifact, size⟩ :: (c.remove key).entries
      used := (c.remove key).used + size } := by
    simp only [Cache.put, one, if_false, fit_of_le _ fits, List.reverse_reverse]
  rw [is]
  refine ⟨⟨distinct, known, ?_, removed.room⟩, by rw [remove_entries]⟩
  rw [List.map_cons, List.sum_cons]
  dsimp only
  omega

theorem Within.get (within : c.Within keys allowed) (key : String) :
    (c.get key).2.Within keys allowed where
  distinct := within.distinct.get key
  known := fun e member => within.known e ((c.get_perm key).mem_iff.1 member)
  counted := by
    rw [get_used, within.counted]
    exact ((c.get_perm key).map fun e => e.size.toNat).sum_eq.symm
  room := by
    rw [get_capacity]
    exact within.room

theorem Within.invalidate (within : c.Within keys allowed) (key : String) :
    (c.invalidate key).Within keys allowed :=
  ⟨(within.remove key).distinct, (within.remove key).known, (within.remove key).counted,
    (within.remove key).room⟩

theorem present_get (c : Cache) (key k : String) : (c.get key).2.Present k ↔ c.Present k :=
  exists_congr fun _ => and_congr_left fun _ => (c.get_perm key).mem_iff

theorem get_eq_none_iff {c : Cache} : (c.get key).1 = none ↔ ¬c.Present key := by
  unfold get Present
  cases found : c.find? key with
  | none =>
    have absent := find?_eq_none found
    simpa using absent
  | some e =>
    obtain ⟨member, same⟩ := find?_eq_some found
    simpa using ⟨e, member, same⟩

theorem Distinct.present_invalidate (distinct : c.Distinct) (key k : String) :
    (c.invalidate key).Present k ↔ c.Present k ∧ k ≠ key := by
  unfold Present
  rw [invalidate_entries]
  constructor
  · rintro ⟨e, left, rfl⟩
    obtain ⟨member, other⟩ := (mem_eraseP distinct).1 left
    exact ⟨⟨e, member, rfl⟩, other⟩
  · rintro ⟨⟨e, member, rfl⟩, other⟩
    exact ⟨e, (mem_eraseP distinct).2 ⟨member, other⟩, rfl⟩

theorem Within.present_put (within : c.Within keys allowed) (mem : key ∈ keys)
    (small : size.toNat ≤ allowed key) (artifact : Artifact) (k : String) :
    (c.put key artifact size).Present k ↔ c.Present k ∨ k = key := by
  unfold Present
  rw [(within.put mem small artifact).2]
  constructor
  · rintro ⟨e, member, rfl⟩
    cases member with
    | head => exact .inr rfl
    | tail _ old => exact .inl ⟨e, List.mem_of_mem_eraseP old, rfl⟩
  · intro before
    by_cases same : k = key
    · exact ⟨_, .head _, same.symm⟩
    · obtain ⟨e, member, rfl⟩ := before.resolve_right same
      exact ⟨e, .tail _ ((mem_eraseP within.distinct).2 ⟨member, same⟩), rfl⟩

end BallotServer.Cache
