import BallotServer.Proofs.CacheChecked

/-! What is evicted. Entries stand in the order in which their keys were last used, by a lookup that
found them or by an insertion that was accepted. An insertion that fits the capacity at all leaves
its own entry in front of the longest row of the others, most recently used first, that fits beside
it. This needs that its size and those of the others add up to a word; where they do not, it panics
and leaves the new entry among the others. They always do if the capacity is below the half of all
words. -/

namespace BallotServer.Cache

def others (c : Cache) (key : String) : List Entry := c.entries.filter fun e => e.key != key

/-- The longest front part of a row that fits beside a new entry. -/
structure Longest (capacity size : Nat) (row kept : List Entry) : Prop where
  front : kept <+: row
  fits : size + sizes kept ≤ capacity
  longest : ∀ m, m <+: row → size + sizes m ≤ capacity → m <+: kept

variable {c : Cache} {key : String} {value : Artifact} {size capacity : UInt64}

theorem Distinct.remove_entries_eq (distinct : c.Distinct) (key : String) :
    (c.remove key).entries = c.others key := by
  rw [remove_entries, eraseP_eq_filter distinct, others]

theorem Accounted.put_longest (accounted : c.Accounted) (most : size ≤ c.capacity)
    (word : (c.remove key).used.toNat + size.toNat < 2 ^ 64) (value : Artifact) :
    ∃ kept, (c.put key value size).entries = ⟨key, value, size⟩ :: kept ∧
      Longest c.capacity.toNat size.toNat (c.others key) kept := by
  have counted := accounted.counted_insert word value
  obtain ⟨fits, longest⟩ := fit_longest c.capacity _ _ counted
  have suffix := fit_suffix c.capacity (⟨key, value, size⟩ :: (c.remove key).entries).reverse
    ((c.remove key).used + size)
  rw [put_of_le most]
  dsimp only
  generalize (fit c.capacity (⟨key, value, size⟩ :: (c.remove key).entries).reverse
    ((c.remove key).used + size)).1 = left at fits longest suffix ⊢
  have front := suffix.reverse
  rw [List.reverse_reverse, accounted.distinct.remove_entries_eq] at front
  have largest (m : List Entry) (here : m <+: ⟨key, value, size⟩ :: c.others key)
      (small : sizes m ≤ c.capacity.toNat) : m <+: left.reverse := by
    rw [← accounted.distinct.remove_entries_eq] at here
    have back := longest m.reverse here.reverse (by rwa [sizes_reverse])
    simpa using back.reverse
  -- The new entry alone fits, so it is kept.
  have own : [⟨key, value, size⟩] <+: left.reverse := by
    refine largest _ (List.prefix_append [_] _) ?_
    rw [sizes_cons, sizes_nil]
    exact UInt64.le_iff_toNat_le.1 most
  obtain ⟨kept, split⟩ := own
  rw [← split] at front largest ⊢
  refine ⟨kept, rfl, ?_, ?_, fun m here small => ?_⟩
  · exact (List.prefix_append_right_inj [_]).1 front
  · rw [← sizes_reverse, ← split] at fits
    exact fits
  · exact (List.prefix_append_right_inj [_]).1
      (largest (⟨key, value, size⟩ :: m) ((List.prefix_append_right_inj [_]).2 here) small)

/-- The key that a call put in front: that of a lookup which found it, or of an insertion that was
accepted. -/
def Reply.used? : Reply → Option String
  | ⟨.get key, some _⟩ | ⟨.put key _ _, _⟩ | ⟨.putIfCurrent key _ _ _, true⟩ => some key
  | _ => none

/-- The key was used, and the other one was not used since. -/
def UsedAfter (replies : List Reply) (key other : String) : Prop :=
  ∃ before r after, replies = before ++ r :: after ∧ r.used? = some key ∧
    ∀ s ∈ r :: after, s.used? ≠ some other

theorem UsedAfter.concat {replies : List Reply} {other : String}
    (h : UsedAfter replies key other) {r : Reply} (unused : r.used? ≠ some other) :
    UsedAfter (replies ++ [r]) key other := by
  obtain ⟨before, use, after, rfl, used, since⟩ := h
  refine ⟨before, use, after ++ [r], by simp, used, fun s member => ?_⟩
  rw [← List.cons_append] at member
  rcases List.mem_append.1 member with old | new
  · exact since s old
  · exact List.mem_singleton.1 new ▸ unused

/-- The keys of a row of entries were used, each after the last use of those behind it. -/
structure Recent (replies : List Reply) (row : List Entry) : Prop where
  used : ∀ e ∈ row, ∃ r ∈ replies, r.used? = some e.key
  ordered : row.Pairwise fun e f => UsedAfter replies e.key f.key

section Recent

variable {replies : List Reply} {row row' : List Entry} {r : Reply}

theorem Recent.sublist (recent : Recent replies row) (sub : row'.Sublist row) :
    Recent replies row' :=
  ⟨fun e member => recent.used e (sub.subset member), recent.ordered.sublist sub⟩

theorem Recent.concat (recent : Recent replies row) (unused : ∀ e ∈ row, r.used? ≠ some e.key) :
    Recent (replies ++ [r]) row where
  used e member :=
    let ⟨s, before, used⟩ := recent.used e member
    ⟨s, List.mem_append_left _ before, used⟩
  ordered := recent.ordered.imp_of_mem fun _ behind after => after.concat (unused _ behind)

theorem Recent.idle (recent : Recent replies row) (idle : r.used? = none) :
    Recent (replies ++ [r]) row := by
  refine recent.concat fun e _ => ?_
  rw [idle]
  exact (Option.some_ne_none e.key).symm

theorem Recent.cons (recent : Recent replies row) {e : Entry} (used : r.used? = some e.key)
    (other : ∀ f ∈ row, f.key ≠ e.key) : Recent (replies ++ [r]) (e :: row) := by
  have unused (f : Entry) (member : f ∈ row) : r.used? ≠ some f.key := by
    rw [used]
    exact fun same => other f member (Option.some.inj same).symm
  have rest := recent.concat unused
  constructor
  · intro f member
    rcases List.mem_cons.1 member with rfl | behind
    · exact ⟨r, List.mem_append_right _ (.head _), used⟩
    · exact rest.used f behind
  · refine List.pairwise_cons.2 ⟨fun f member => ⟨replies, r, [], rfl, used, ?_⟩, rest.ordered⟩
    intro s last
    exact List.mem_singleton.1 last ▸ unused f member

theorem recent_empty (capacity : UInt64) : Recent [] (empty capacity).entries :=
  ⟨fun _ member => (List.not_mem_nil member).elim, .nil⟩

theorem ne_of_mem_others {e : Entry} (member : e ∈ c.others key) : e.key ≠ key :=
  bne_iff_ne.1 (List.mem_filter.1 member).2

theorem Recent.others (recent : Recent replies c.entries) (key : String) :
    Recent replies (c.others key) :=
  recent.sublist List.filter_sublist

theorem Recent.put (recent : Recent replies c.entries) (distinct : c.Distinct)
    (used : r.used? = some key) : Recent (replies ++ [r]) (c.put key value size).entries := by
  have all := (recent.others key).cons (e := ⟨key, value, size⟩) used fun _ => ne_of_mem_others
  rw [← distinct.remove_entries_eq, remove_entries] at all
  exact all.sublist (c.put_sublist key value size)

theorem Distinct.get_of_find? (distinct : c.Distinct) {e : Entry} (found : c.find? key = some e) :
    c.get key = (some e.value, { c with entries := e :: c.others key }) := by
  rw [Cache.get, found, eraseP_eq_filter distinct, Cache.others]

theorem get_of_find?_eq_none (missing : c.find? key = none) : c.get key = (none, c) := by
  rw [get, missing]

theorem Recent.serve (recent : Recent replies c.entries) (distinct : c.Distinct) (call : Call) :
    Recent (replies ++ [⟨call, (c.serve call).1⟩]) (c.serve call).2.entries := by
  cases call with
  | get key =>
    cases found : c.find? key with
    | none =>
      rw [Cache.serve, get_of_find?_eq_none found]
      exact recent.idle rfl
    | some e =>
      rw [Cache.serve, distinct.get_of_find? found]
      obtain rfl := (find?_eq_some found).2
      exact (recent.others e.key).cons rfl fun _ => ne_of_mem_others
  | put key value size => exact recent.put distinct rfl
  | putIfCurrent key value size generation =>
    by_cases current : c.generation key = generation
    · simp only [Cache.serve, putIfCurrent, current, if_true]
      exact recent.put distinct rfl
    · simp only [Cache.serve, putIfCurrent, current, if_false]
      exact recent.idle rfl
  | invalidate key =>
    rw [Cache.serve, invalidate_entries]
    exact (recent.sublist List.eraseP_sublist).idle rfl
  | generation key => exact recent.idle rfl
  | stats => exact recent.idle rfl

theorem Recent.serveAll (recent : Recent replies c.entries) (distinct : c.Distinct)
    (calls : List Call) :
    Recent (replies ++ (c.serveAll calls).1) (c.serveAll calls).2.entries := by
  induction calls generalizing c replies with
  | nil => simpa [Cache.serveAll] using recent
  | cons call later ih =>
    have rest := ih (recent.serve distinct call) (distinct.serve call)
    rwa [List.append_assoc, List.singleton_append] at rest

end Recent

theorem Accounted.counted_others (accounted : c.Accounted) (key : String) :
    (c.remove key).used.toNat = sizes (c.others key) := by
  rw [← accounted.distinct.remove_entries_eq]
  exact (accounted.remove key).counted

/-- After any calls on a new cache none of which has panicked, the entries stand in the order in
which their keys were last used. From there, an insertion that fits the capacity keeps its own entry
in front of the longest row of others that fits beside it, unless its size and those of all others
do not add up to a word: then it panics. One that is larger than the capacity leaves the entries of
the other keys; a lookup that finds its key puts it in front of the other keys; one that finds
nothing, the reading of a generation or of the count and a refused insertion change nothing; an
accepted one is a plain insertion; an invalidation leaves the entries of the other keys. If the
capacity is below the half of all words, then no calls panic, and such sizes always add up to a
word. -/
theorem eviction_exact (capacity : UInt64) (calls : List Call) :
    (capacity.toNat ≤ (2 ^ 64 - 1) / 2 → ∃ r, (empty capacity).serveAllChecked calls = .ok r) ∧
    ∀ replies c, (empty capacity).serveAllChecked calls = .ok (replies, c) →
      Recent replies c.entries ∧ c.capacity = capacity ∧
      ∀ key,
        (∀ value size, size ≤ capacity → sizes (c.others key) + size.toNat < 2 ^ 64 →
          ∃ next kept, c.putChecked key value size = .ok next ∧
            next.entries = ⟨key, value, size⟩ :: kept ∧
            Longest capacity.toNat size.toNat (c.others key) kept) ∧
        (∀ value size, size ≤ capacity → 2 ^ 64 ≤ sizes (c.others key) + size.toNat →
          ∃ left, c.putChecked key value size = .error left ∧
            left.entries = ⟨key, value, size⟩ :: c.others key) ∧
        (capacity.toNat ≤ (2 ^ 64 - 1) / 2 → ∀ size, size ≤ capacity →
          sizes (c.others key) + size.toNat < 2 ^ 64) ∧
        (∀ value size, capacity < size →
          ∃ next, c.putChecked key value size = .ok next ∧ next.entries = c.others key) ∧
        (∀ e, c.find? key = some e →
          c.get key = (some e.value, { c with entries := e :: c.others key })) ∧
        (c.find? key = none → c.get key = (none, c)) ∧
        (c.serve (.generation key)).2 = c ∧ (c.serve .stats).2 = c ∧
        (∀ value size g, c.putIfCurrentChecked key value size g =
          if c.generation key = g then (c.putChecked key value size).map (true, ·)
          else .ok (false, c)) ∧
        ∃ next, c.invalidateChecked key = .ok next ∧ next.entries = c.others key := by
  have fresh : (empty capacity).Accounted := accounted_empty capacity
  refine ⟨fun small => ⟨_, fresh.serveAllChecked small calls⟩, fun replies c run => ?_⟩
  obtain ⟨is, accounted⟩ := fresh.of_serveAllChecked run
  obtain ⟨rfl, rfl⟩ := Prod.mk.inj is
  have same := serveAll_capacity (empty capacity) calls
  have recent := (recent_empty capacity).serveAll fresh.distinct calls
  generalize ((empty capacity).serveAll calls).2 = c at accounted same recent ⊢
  refine ⟨recent, same, fun key => ?_⟩
  have counted := accounted.counted_others key
  obtain rfl : c.capacity = capacity := same
  refine ⟨fun value size most word => ?_, fun value size most beyond => ?_, fun small size most => ?_,
    fun value size large => ?_, fun e => accounted.distinct.get_of_find?, get_of_find?_eq_none,
    rfl, rfl, fun value size g => rfl,
    _, invalidateChecked_eq_ok fun _ => accounted.size_le, accounted.distinct.remove_entries_eq key⟩
  · rw [← counted] at word
    obtain ⟨kept, entries, longest⟩ := accounted.put_longest most word value
    refine ⟨_, kept, ?_, entries, longest⟩
    rw [accounted.putChecked, if_neg fun panics => Nat.not_le.2 word panics.2]
  · rw [← counted] at beyond
    refine ⟨_, by rw [accounted.putChecked, if_pos ⟨most, beyond⟩], ?_⟩
    rw [accounted.distinct.remove_entries_eq]
  · rw [← counted]
    exact accounted.sum_lt small key most
  · refine ⟨_, ?_, accounted.distinct.remove_entries_eq key⟩
    rw [accounted.putChecked, put_of_lt large,
      if_neg fun panics => UInt64.not_lt.2 panics.1 large]

theorem eviction_exact_three :
    let value : Artifact := .preview .empty
    ∃ replies c, (empty 30).serveAllChecked
        [.put "1" value 10, .put "2" value 10, .put "3" value 10, .get "1"] = .ok (replies, c) ∧
      ∃ next kept, c.putChecked "4" value 10 = .ok next ∧
        next.entries = ⟨"4", value, 10⟩ :: kept ∧ Longest 30 10 (c.others "4") kept ∧
        kept = [⟨"1", value, 10⟩, ⟨"3", value, 10⟩] := by
  intro value
  let calls : List Call := [.put "1" value 10, .put "2" value 10, .put "3" value 10, .get "1"]
  obtain ⟨runs, after⟩ := eviction_exact 30 calls
  obtain ⟨⟨replies, c⟩, run⟩ := runs (by decide)
  obtain ⟨-, -, keys⟩ := after replies c run
  have word := (keys "4").2.2.1 (by decide) 10 (by decide)
  obtain ⟨next, kept, put, entries, longest⟩ := (keys "4").1 value 10 (by decide) word
  refine ⟨replies, c, run, next, kept, put, entries, longest, ?_⟩
  have all : (((empty 30).serveAllChecked calls).bind fun r =>
      (r.2.putChecked "4" value 10).map Cache.entries) =
      .ok [⟨"4", value, 10⟩, ⟨"1", value, 10⟩, ⟨"3", value, 10⟩] := by decide +kernel
  rw [run] at all
  dsimp only [Except.bind] at all
  rw [put] at all
  exact (List.cons.inj (entries.symm.trans (Except.ok.inj all))).2

/-- Two values of half of all words each, in a cache of that capacity: the second insertion is
accepted, and instead of dropping the first it panics with both of them in. -/
theorem put_panics_half :
    let half : UInt64 := 0x8000000000000000
    let value : Artifact := .preview .empty
    let c : Cache := ⟨half, [⟨"a", value, half⟩], half, []⟩
    (empty half).serveAllChecked [.put "a" value half] = .ok ([⟨.put "a" value half, ()⟩], c) ∧
      half ≤ c.capacity ∧
      c.putChecked "b" value half =
        .error ⟨half, [⟨"b", value, half⟩, ⟨"a", value, half⟩], half, []⟩ ∧
      ¬∃ next kept, c.putChecked "b" value half = .ok next ∧
        next.entries = ⟨"b", value, half⟩ :: kept ∧
        Longest half.toNat half.toNat (c.others "b") kept := by
  intro half value c
  have first : (empty half).putChecked "a" value half = .ok c := by decide +kernel
  have panics : c.putChecked "b" value half =
      .error ⟨half, [⟨"b", value, half⟩, ⟨"a", value, half⟩], half, []⟩ := by decide +kernel
  refine ⟨?_, UInt64.le_refl half, panics, ?_⟩
  · rw [serveAllChecked, serveChecked, first]
    rfl
  rintro ⟨next, kept, fine, -⟩
  rw [panics] at fine
  cases fine

end BallotServer.Cache
