import BallotServer.Proofs.CacheBudget
import BallotServer.Proofs.CacheCalls
import BallotServer.Proofs.Serving

/-! The count of the bytes in use. It is a 64-bit word that every insertion and removal adjusts, and
in a cache whose capacity is below the half of all words it is always the exact sum of the recorded
sizes: a new size and what was in use before are each at most the capacity, so no sum wraps, and
what is dropped is part of the sum. Between two calls the sum fits the capacity; within an insertion
it may exceed it, until the oldest entries are gone. -/

namespace BallotServer.Cache

def sizes (l : List Entry) : Nat := (l.map fun e => e.size.toNat).sum

@[simp] theorem sizes_nil : sizes [] = 0 := rfl

@[simp] theorem sizes_cons (e : Entry) (l : List Entry) : sizes (e :: l) = e.size.toNat + sizes l :=
  rfl

@[simp] theorem sizes_reverse (l : List Entry) : sizes l.reverse = sizes l := by
  simp [sizes, List.sum_reverse]

/-- What an eviction passes through: as long as too much is in use, the oldest entry goes. -/
inductive Evicting (capacity : UInt64) (l : List Entry) (used : UInt64) :
    List Entry → UInt64 → Prop
  | start : Evicting capacity l used l used
  | dropped {e : Entry} {newer : List Entry} {used' : UInt64}
      (before : Evicting capacity l used (e :: newer) used') (exceeds : capacity < used') :
      Evicting capacity l used newer (used' - e.size)

section Evicting

variable {capacity used used' : UInt64} {l l' : List Entry}

theorem Evicting.counted (evicting : Evicting capacity l used l' used')
    (counted : used.toNat = sizes l) : used'.toNat = sizes l' := by
  induction evicting with
  | start => exact counted
  | @dropped e newer used' before exceeds ih =>
    rw [sizes_cons] at ih
    have part : e.size ≤ used' := UInt64.le_iff_toNat_le.2 (by omega)
    rw [UInt64.toNat_sub_of_le _ _ part]
    omega

theorem Evicting.exists_oldest (evicting : Evicting capacity l used l' used')
    (counted : used.toNat = sizes l) (exceeds : capacity < used') :
    ∃ e newer, l' = e :: newer ∧ e.size ≤ used' := by
  have now := evicting.counted counted
  cases l' with
  | nil =>
    have exceeds := UInt64.lt_iff_toNat_lt.1 exceeds
    rw [sizes_nil] at now
    omega
  | cons e newer =>
    rw [sizes_cons] at now
    exact ⟨e, newer, rfl, UInt64.le_iff_toNat_le.2 (by omega)⟩

theorem Evicting.fit (evicting : Evicting capacity l used l' used') :
    Evicting capacity l used (fit capacity l' used').1 (fit capacity l' used').2 := by
  induction l' generalizing used' with
  | nil => exact evicting
  | cons e newer ih =>
    rw [Cache.fit]
    split
    case isTrue exceeds => exact ih (evicting.dropped exceeds)
    case isFalse => exact evicting

theorem counted_fit (capacity : UInt64) (counted : used.toNat = sizes l) :
    (fit capacity l used).2.toNat = sizes (fit capacity l used).1 :=
  Evicting.start.fit.counted counted

/-- What is left fits, and it is the longest part of the list that does. -/
theorem fit_longest (capacity : UInt64) (l : List Entry) (used : UInt64)
    (counted : used.toNat = sizes l) :
    sizes (fit capacity l used).1 ≤ capacity.toNat ∧
      ∀ m, m <:+ l → sizes m ≤ capacity.toNat → m <:+ (fit capacity l used).1 := by
  induction l generalizing used with
  | nil =>
    rw [fit]
    exact ⟨Nat.zero_le _, fun m suffix _ => suffix⟩
  | cons e newer ih =>
    rw [sizes_cons] at counted
    rw [fit]
    split
    case isTrue exceeds =>
      have exceeds := UInt64.lt_iff_toNat_lt.1 exceeds
      have part : e.size ≤ used := UInt64.le_iff_toNat_le.2 (by omega)
      have rest : (used - e.size).toNat = sizes newer := by
        rw [UInt64.toNat_sub_of_le _ _ part]
        omega
      obtain ⟨fits, longest⟩ := ih (used - e.size) rest
      refine ⟨fits, fun m suffix small => longest m ?_ small⟩
      rcases List.suffix_cons_iff.1 suffix with rfl | shorter
      · rw [sizes_cons] at small
        omega
      · exact shorter
    case isFalse fits =>
      have fits := UInt64.le_iff_toNat_le.1 (UInt64.not_lt.1 fits)
      exact ⟨by rw [sizes_cons]; omega, fun m suffix _ => suffix⟩

end Evicting

/-- The count is the sum of the sizes, and it fits the capacity. -/
structure Accounted (c : Cache) : Prop where
  distinct : c.Distinct
  counted : c.used.toNat = sizes c.entries
  fits : c.used ≤ c.capacity

variable {c : Cache} {key : String} {value : Artifact} {size : UInt64}

theorem accounted_empty (capacity : UInt64) : (empty capacity).Accounted :=
  ⟨List.nodup_nil, rfl, UInt64.le_iff_toNat_le.2 (Nat.zero_le _)⟩

theorem Accounted.size_le (accounted : c.Accounted) {e : Entry} (found : c.find? key = some e) :
    e.size ≤ c.used := by
  have counted := accounted.counted
  have part := sum_eraseP found
  unfold sizes at counted
  exact UInt64.le_iff_toNat_le.2 (by omega)

theorem Accounted.remove (accounted : c.Accounted) (key : String) : (c.remove key).Accounted := by
  refine ⟨?_, counted_remove accounted.counted key, ?_⟩
  · unfold Distinct
    rw [remove_entries]
    exact accounted.distinct.sublist (List.eraseP_sublist.map Entry.key)
  · rw [remove_capacity]
    have less : (c.remove key).used ≤ c.used := by
      cases found : c.find? key with
      | none => simp [Cache.remove, found]
      | some e =>
        have below := UInt64.le_iff_toNat_le.1 (accounted.size_le found)
        rw [Cache.remove, found]
        exact UInt64.le_iff_toNat_le.2 (by rw [UInt64.toNat_sub_of_le _ _ below]; omega)
    exact UInt64.le_trans less accounted.fits

theorem Accounted.invalidate (accounted : c.Accounted) (key : String) :
    (c.invalidate key).Accounted :=
  ⟨(accounted.remove key).distinct, (accounted.remove key).counted, (accounted.remove key).fits⟩

theorem Accounted.get (accounted : c.Accounted) (key : String) : (c.get key).2.Accounted := by
  refine ⟨accounted.distinct.get key, ?_, ?_⟩
  · rw [get_used, accounted.counted]
    exact ((c.get_perm key).map fun e => e.size.toNat).sum_eq.symm
  · rw [get_used, get_capacity]
    exact accounted.fits

theorem Accounted.sum_lt (accounted : c.Accounted) (small : c.capacity.toNat ≤ (2 ^ 64 - 1) / 2)
    (key : String) (most : size ≤ c.capacity) :
    (c.remove key).used.toNat + size.toNat < 2 ^ 64 := by
  have fits := UInt64.le_iff_toNat_le.1 (accounted.remove key).fits
  have most := UInt64.le_iff_toNat_le.1 most
  rw [remove_capacity] at fits
  omega

theorem Accounted.counted_insert (accounted : c.Accounted)
    (word : (c.remove key).used.toNat + size.toNat < 2 ^ 64) (value : Artifact) :
    ((c.remove key).used + size).toNat =
      sizes (⟨key, value, size⟩ :: (c.remove key).entries).reverse := by
  rw [UInt64.toNat_add, Nat.mod_eq_of_lt word, sizes_reverse, sizes_cons,
    (accounted.remove key).counted, Nat.add_comm]

theorem put_of_lt (large : c.capacity < size) : c.put key value size = c.remove key := by
  simp only [put, remove_capacity, large, if_true]

theorem put_of_le (most : size ≤ c.capacity) :
    c.put key value size =
      { c.remove key with
        entries := (fit c.capacity (⟨key, value, size⟩ :: (c.remove key).entries).reverse
          ((c.remove key).used + size)).1.reverse
        used := (fit c.capacity (⟨key, value, size⟩ :: (c.remove key).entries).reverse
          ((c.remove key).used + size)).2 } := by
  simp only [put, remove_capacity, UInt64.not_lt.2 most, if_false]

theorem Accounted.put (accounted : c.Accounted) (value : Artifact)
    (word : size ≤ c.capacity → (c.remove key).used.toNat + size.toNat < 2 ^ 64) :
    (c.put key value size).Accounted := by
  by_cases large : c.capacity < size
  · rw [put_of_lt large]
    exact accounted.remove key
  · have most := UInt64.not_lt.1 large
    have inserted := accounted.counted_insert (word most) value
    have counted := counted_fit c.capacity inserted
    refine ⟨accounted.distinct.put key value size, ?_, ?_⟩
    · rw [put_of_le most]
      exact counted.trans (sizes_reverse _).symm
    · rw [put_of_le most]
      refine UInt64.le_iff_toNat_le.2 ?_
      dsimp only
      rw [counted, remove_capacity]
      exact (fit_longest c.capacity _ _ inserted).1

theorem put_capacity (c : Cache) (key : String) (value : Artifact) (size : UInt64) :
    (c.put key value size).capacity = c.capacity := by
  by_cases large : c.capacity < size
  · rw [put_of_lt large, remove_capacity]
  · rw [put_of_le (UInt64.not_lt.1 large)]
    exact remove_capacity c key

theorem serve_capacity (c : Cache) (call : Call) : (c.serve call).2.capacity = c.capacity := by
  cases call with
  | get key => exact get_capacity c key
  | put key value size => exact put_capacity c key value size
  | putIfCurrent key value size generation =>
    rw [serve, putIfCurrent_snd]
    split
    · exact put_capacity c key value size
    · rfl
  | invalidate key => exact remove_capacity c key
  | _ => rfl

theorem serveAll_capacity (c : Cache) (calls : List Call) :
    (c.serveAll calls).2.capacity = c.capacity := by
  induction calls generalizing c with
  | nil => rfl
  | cons call later ih => rw [serveAll, ih, serve_capacity]

theorem Accounted.serve (accounted : c.Accounted) (small : c.capacity.toNat ≤ (2 ^ 64 - 1) / 2)
    (call : Call) : (c.serve call).2.Accounted := by
  cases call with
  | get key => exact accounted.get key
  | put key value size => exact accounted.put value (accounted.sum_lt small key)
  | putIfCurrent key value size generation =>
    rw [Cache.serve, putIfCurrent_snd]
    split
    · exact accounted.put value (accounted.sum_lt small key)
    · exact accounted
  | invalidate key => exact accounted.invalidate key
  | _ => exact accounted

theorem Accounted.serveAll (accounted : c.Accounted) (small : c.capacity.toNat ≤ (2 ^ 64 - 1) / 2)
    (calls : List Call) : (c.serveAll calls).2.Accounted := by
  induction calls generalizing c with
  | nil => exact accounted
  | cons call later ih =>
    exact ih (accounted.serve small call) (by rw [serve_capacity]; exact small)

/-- An insertion or a removal of the key wraps around nowhere: the size that is taken away is part
of what is in use, the new sum is a word, and each eviction finds an entry whose size is part of
what is in use. -/
structure Exact (c : Cache) (key : String) : Prop where
  removal : ∀ e, c.find? key = some e → e.size ≤ c.used
  insertion : ∀ size, size ≤ c.capacity → (c.remove key).used.toNat + size.toNat < 2 ^ 64
  eviction : ∀ value size, size ≤ c.capacity → ∀ l used,
    Evicting c.capacity (⟨key, value, size⟩ :: (c.remove key).entries).reverse
      ((c.remove key).used + size) l used →
    c.capacity < used → ∃ e newer, l = e :: newer ∧ e.size ≤ used

theorem Accounted.exact (accounted : c.Accounted) (small : c.capacity.toNat ≤ (2 ^ 64 - 1) / 2)
    (key : String) : c.Exact key where
  removal _ found := accounted.size_le found
  insertion _ most := accounted.sum_lt small key most
  eviction value _ most _ _ evicting exceeds :=
    evicting.exists_oldest (accounted.counted_insert (accounted.sum_lt small key most) value)
      exceeds

def Call.IsMeasured : Call → Prop
  | put _ value size | putIfCurrent _ value size _ => size = value.size.toUInt64
  | _ => True

def Measured (c : Cache) : Prop := ∀ e ∈ c.entries, e.size = e.value.size.toUInt64

theorem Measured.put (measured : c.Measured) (key : String) (value : Artifact) :
    (c.put key value value.size.toUInt64).Measured := by
  intro e member
  rcases List.mem_cons.1 ((c.put_sublist ..).subset member) with rfl | old
  · rfl
  · exact measured e (List.mem_of_mem_eraseP old)

theorem Measured.serve (measured : c.Measured) {call : Call} (sized : call.IsMeasured) :
    (c.serve call).2.Measured := by
  cases call with
  | get key => exact fun e member => measured e ((c.get_perm key).mem_iff.1 member)
  | put key value size =>
    obtain rfl : size = value.size.toUInt64 := sized
    exact measured.put key value
  | putIfCurrent key value size generation =>
    obtain rfl : size = value.size.toUInt64 := sized
    rw [Cache.serve, putIfCurrent_snd]
    split
    · exact measured.put key value
    · exact measured
  | invalidate key =>
    intro e member
    rw [Cache.serve, invalidate_entries] at member
    exact measured e (List.mem_of_mem_eraseP member)
  | _ => exact measured

theorem Measured.serveAll (measured : c.Measured) {calls : List Call}
    (sized : ∀ call ∈ calls, call.IsMeasured) : (c.serveAll calls).2.Measured := by
  induction calls generalizing c with
  | nil => exact measured
  | cons call later ih =>
    exact ih (measured.serve (sized call (.head _))) fun other member => sized other (.tail _ member)

theorem Measured.used_eq (measured : c.Measured) (accounted : c.Accounted)
    (short : ∀ e ∈ c.entries, e.value.size < 2 ^ 64) :
    c.used.toNat = (c.entries.map fun e => e.value.size).sum := by
  rw [accounted.counted, sizes]
  refine congrArg List.sum (List.map_congr_left fun e member => ?_)
  rw [measured e member, Nat.toUInt64, UInt64.toNat_ofNat_of_lt' (short e member)]

end BallotServer.Cache

namespace BallotServer

def Step.call? : Step → Option Cache.Call
  | .lookUp key => some (.get key)
  | .generation key => some (.generation key)
  | .keep key artifact g => some (.putIfCurrent key artifact artifact.size.toUInt64 g)
  | .invalidate key => some (.invalidate key)
  | _ => none

theorem Cache.after_eq_serve (c : Cache) (s : Step) :
    c.after s = match s.call? with
      | none => c
      | some call => (c.serve call).2 := by
  cases s <;> rfl

theorem Step.isMeasured_of_call? {s : Step} {call : Cache.Call} (asks : s.call? = some call) :
    call.IsMeasured := by
  cases s with
  | keep key artifact generation =>
    cases asks
    exact rfl
  | lookUp key | generation key | invalidate key =>
    cases asks
    trivial
  | _ => cases asks

namespace System

variable {site : Site} {S T : System} {es : List Event}

theorem Run.accounted (run : Run site S es T) (accounted : S.state.cache.Accounted)
    (measured : S.state.cache.Measured)
    (small : S.state.cache.capacity.toNat ≤ (2 ^ 64 - 1) / 2) :
    T.state.cache.Accounted ∧ T.state.cache.Measured ∧
      T.state.cache.capacity = S.state.cache.capacity := by
  induction run with
  | nil => exact ⟨accounted, measured, rfl⟩
  | @snoc es T U e run next ih =>
    cases e with
    | arrival j request =>
      cases next
      exact ih
    | act j did =>
      rw [next.cache, Cache.after_eq_serve]
      cases asks : did.step.call? with
      | none => exact ih
      | some call =>
        obtain ⟨before, sized, same⟩ := ih
        refine ⟨before.serve (same ▸ small) call, sized.serve (Step.isMeasured_of_call? asks), ?_⟩
        rw [Cache.serve_capacity, same]

end System

namespace Cache

/-- In every cache whose capacity is below the half of all words, after any calls: keys are
distinct, the count of the bytes in use is the exact sum of the recorded sizes and fits the
capacity, and no insertion or removal that may come next wraps around. In the cache of a server the
count is the number of bytes of all the artifacts in it. -/
theorem accounting_exact {capacity : UInt64} (small : capacity.toNat ≤ (2 ^ 64 - 1) / 2) :
    (∀ calls key,
      let c := ((empty capacity).serveAll calls).2
      c.Distinct ∧ c.used.toNat = (c.entries.map fun e => e.size.toNat).sum ∧
        c.used ≤ capacity ∧ c.Exact key) ∧
    ∀ site store archive es S,
      System.Run site (System.start store archive capacity) es S →
      S.state.cache.used ≤ capacity ∧
      ((∀ e ∈ S.state.cache.entries, e.value.size < 2 ^ 64) →
        S.state.cache.used.toNat = (S.state.cache.entries.map fun e => e.value.size).sum) := by
  have fresh : (empty capacity).Accounted := accounted_empty capacity
  constructor
  · intro calls key c
    have accounted : c.Accounted := fresh.serveAll small calls
    have same : c.capacity = capacity := serveAll_capacity (empty capacity) calls
    exact ⟨accounted.distinct, accounted.counted, same ▸ accounted.fits,
      accounted.exact (same ▸ small) key⟩
  · intro site store archive es S run
    obtain ⟨accounted, measured, same⟩ := run.accounted fresh nofun small
    exact ⟨accounted.fits.trans_eq same, measured.used_eq accounted⟩

theorem accounting_exact_drawn :
    let c := ((empty 100).serveAll
      [.put "1" (.preview .empty) 60, .put "2" (.preview .empty) 70]).2
    c.entries = [⟨"2", .preview .empty, 70⟩] ∧
      c.used.toNat = (c.entries.map fun e => e.size.toNat).sum ∧ c.Exact "2" ∧
      ∃ es S, System.Run Sample.site (System.start .fresh .empty 100) es S ∧
        S.state.cache.entries = [⟨"1", .ballot (Sample.draw "\x7b\x7d"), 4⟩] ∧
        S.state.cache.used.toNat = (S.state.cache.entries.map fun e => e.value.size).sum := by
  obtain ⟨calls, servers⟩ := @accounting_exact 100 (by decide)
  obtain ⟨-, counted, -, exact_next⟩ :=
    calls [.put "1" (.preview .empty) 60, .put "2" (.preview .empty) 70] "2"
  have created : System.Run Sample.site (System.start .fresh .empty 100) _ _ :=
    .visit _ Sample.create
  have after : Sample.create.after Sample.site (System.start .fresh .empty 100).state = _ :=
    Sample.create_after 100
  rw [after] at created
  have drawn := created.trans (System.Run.visit _ (Sample.get "/election/1.pdf"))
  refine ⟨rfl, counted, exact_next, _, _, drawn, rfl, (servers _ _ _ _ _ drawn).2 ?_⟩
  intro e member
  obtain rfl := List.mem_singleton.1 member
  decide

end Cache

end BallotServer
