import BallotServer.Cache

/-! What each operation of the cache does to its entries. Keys are distinct, so taking a key away
leaves nothing under it; a lookup only reorders the entries, and an insertion adds its own entry and
takes others away. -/

namespace BallotServer.Cache

def Distinct (c : Cache) : Prop := (c.entries.map Entry.key).Nodup

def Holds (c : Cache) (key : String) (artifact : Artifact) : Prop :=
  ∃ e ∈ c.entries, e.key = key ∧ e.value = artifact

theorem find?_eq_some {c : Cache} {key : String} {e : Entry} (h : c.find? key = some e) :
    e ∈ c.entries ∧ e.key = key :=
  ⟨List.mem_of_find?_eq_some h, by simpa using List.find?_some h⟩

theorem find?_eq_none {c : Cache} {key : String} (h : c.find? key = none) :
    ∀ e ∈ c.entries, ¬(e.key == key) := by
  simpa [find?, List.find?_eq_none] using h

theorem get_perm (c : Cache) (key : String) : (c.get key).2.entries.Perm c.entries := by
  unfold get
  split
  · exact .refl _
  · rename_i e found
    have first : (c.entries.find? fun e => e.key == key) = some e := found
    obtain ⟨-, before, after, all, none⟩ := List.find?_eq_some_iff_append.1 first
    have rest : c.entries.eraseP (fun e => e.key == key) = before ++ after := by
      rw [all, List.eraseP_append_right _ (by simpa using none),
        List.eraseP_cons_of_pos (List.find?_some first)]
    rw [rest, all]
    exact List.perm_middle.symm

theorem holds_of_get {c : Cache} {key : String} {artifact : Artifact}
    (h : (c.get key).1 = some artifact) : c.Holds key artifact := by
  unfold get at h
  split at h
  · cases h
  · rename_i e found
    obtain ⟨member, same⟩ := find?_eq_some found
    exact ⟨e, member, same, Option.some.inj h⟩

theorem get_of_eq_none {c : Cache} {key : String} (h : (c.get key).1 = none) :
    (c.get key).2 = c := by
  unfold get at h ⊢
  split
  · rfl
  · rename_i e found
    rw [found] at h
    cases h

theorem get_generations (c : Cache) (key : String) :
    (c.get key).2.generations = c.generations := by
  unfold get
  split <;> rfl

theorem get_used (c : Cache) (key : String) : (c.get key).2.used = c.used := by
  unfold get
  split <;> rfl

theorem get_capacity (c : Cache) (key : String) : (c.get key).2.capacity = c.capacity := by
  unfold get
  split <;> rfl

theorem remove_capacity (c : Cache) (key : String) : (c.remove key).capacity = c.capacity := by
  unfold remove
  split <;> rfl

theorem put_generations (c : Cache) (key : String) (value : Artifact) (size : UInt64) :
    (c.put key value size).generations = c.generations := by
  unfold put
  dsimp only
  split <;> exact c.remove_generations key

theorem remove_entries (c : Cache) (key : String) :
    (c.remove key).entries = c.entries.eraseP fun e => e.key == key := by
  unfold remove
  split
  · rename_i missing
    exact (List.eraseP_of_forall_not (find?_eq_none missing)).symm
  · rfl

theorem invalidate_entries (c : Cache) (key : String) :
    (c.invalidate key).entries = c.entries.eraseP fun e => e.key == key :=
  remove_entries c key

theorem eraseP_eq_filter {l : List Entry} (distinct : (l.map Entry.key).Nodup) (key : String) :
    l.eraseP (fun e => e.key == key) = l.filter fun e => e.key != key := by
  induction l with
  | nil => rfl
  | cons f l ih =>
    rw [List.map_cons, List.nodup_cons] at distinct
    by_cases same : f.key = key
    · have rest : (l.filter fun e => e.key != key) = l := by
        refine List.filter_eq_self.2 fun e member => bne_iff_ne.2 fun is => distinct.1 ?_
        exact List.mem_map.2 ⟨e, member, is.trans same.symm⟩
      rw [List.eraseP_cons_of_pos (by simpa using same),
        List.filter_cons_of_neg (by simpa using same), rest]
    · rw [List.eraseP_cons_of_neg (by simpa using same),
        List.filter_cons_of_pos (by simpa using same), ih distinct.2]

theorem mem_eraseP {l : List Entry} (distinct : (l.map Entry.key).Nodup) {key : String}
    {e : Entry} : e ∈ l.eraseP (fun e => e.key == key) ↔ e ∈ l ∧ e.key ≠ key := by
  rw [eraseP_eq_filter distinct, List.mem_filter, bne_iff_ne]

theorem fit_suffix (capacity : UInt64) (l : List Entry) (used : UInt64) :
    (fit capacity l used).1 <:+ l := by
  induction l generalizing used with
  | nil => exact List.suffix_refl _
  | cons e newer ih =>
    unfold fit
    split
    · exact (ih _).trans (List.suffix_cons e newer)
    · exact List.suffix_refl _

theorem put_sublist (c : Cache) (key : String) (value : Artifact) (size : UInt64) :
    (c.put key value size).entries.Sublist
      (⟨key, value, size⟩ :: c.entries.eraseP fun e => e.key == key) := by
  rw [← remove_entries]
  unfold put
  dsimp only
  split
  · exact List.sublist_cons_self _ _
  · have kept := (fit_suffix (c.remove key).capacity
      (⟨key, value, size⟩ :: (c.remove key).entries).reverse ((c.remove key).used + size)).reverse
    rw [List.reverse_reverse] at kept
    exact kept.sublist

theorem putIfCurrent_snd (c : Cache) (key : String) (value : Artifact) (size : UInt64)
    (generation : Nat) :
    (c.putIfCurrent key value size generation).2 =
      if c.generation key = generation then c.put key value size else c := by
  unfold putIfCurrent
  split <;> rfl

theorem putIfCurrent_eq_true {c : Cache} {key : String} {value : Artifact} {size : UInt64}
    {generation : Nat} (h : (c.putIfCurrent key value size generation).1 = true) :
    c.generation key = generation ∧
      (c.putIfCurrent key value size generation).2 = c.put key value size := by
  unfold putIfCurrent at h ⊢
  split
  · exact ⟨by assumption, rfl⟩
  · rename_i stale
    rw [if_neg stale] at h
    cases h

theorem Distinct.get {c : Cache} (h : c.Distinct) (key : String) : (c.get key).2.Distinct :=
  ((c.get_perm key).map Entry.key).nodup_iff.2 h

theorem Distinct.invalidate {c : Cache} (h : c.Distinct) (key : String) :
    (c.invalidate key).Distinct := by
  unfold Distinct
  rw [invalidate_entries]
  exact h.sublist (List.eraseP_sublist.map Entry.key)

theorem Distinct.put {c : Cache} (h : c.Distinct) (key : String) (value : Artifact)
    (size : UInt64) : (c.put key value size).Distinct := by
  refine List.Nodup.sublist ((c.put_sublist key value size).map Entry.key) ?_
  rw [List.map_cons, List.nodup_cons]
  refine ⟨fun member => ?_, h.sublist (List.eraseP_sublist.map Entry.key)⟩
  obtain ⟨e, left, same⟩ := List.mem_map.1 member
  exact ((mem_eraseP h).1 left).2 same

end BallotServer.Cache
