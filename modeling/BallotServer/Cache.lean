import BallotServer.Artifact

/-! The bounded store of rendered artifacts. Entries stand in order of use, the most recent
first; an insertion drops entries from the other end until the recorded sizes fit the capacity.
Sizes are 64-bit words.

Every key has a generation, which only invalidation advances. A value rendered from data that
may have changed since is inserted with `putIfCurrent` under the generation read before the data:
it is refused if the key was invalidated in between.

A sum or difference of sizes that is not a word wraps around, or panics if the build checks
arithmetic. The checked operations are those of such a build. A panic keeps what was done before it:
the lock is taken over from the call that panicked. -/

namespace BallotServer

namespace Cache

structure Entry where
  key : String
  value : Artifact
  size : UInt64
  deriving DecidableEq

/-- How often each key was invalidated; a key without a row never was. -/
abbrev Generations := List (String × Nat)

namespace Generations

def of (g : Generations) (key : String) : Nat := (g.lookup key).getD 0

def advance (g : Generations) (key : String) : Generations :=
  match g with
  | [] => [(key, 1)]
  | (k, n) :: rest => if k = key then (k, n + 1) :: rest else (k, n) :: advance rest key

theorem of_advance (g : Generations) (key k : String) :
    (g.advance key).of k = if k = key then g.of k + 1 else g.of k := by
  induction g with
  | nil => by_cases h : k = key <;> simp [of, advance, List.lookup_cons, h, beq_eq_false_iff_ne.2]
  | cons p rest ih =>
    obtain ⟨q, n⟩ := p
    simp only [of, advance] at ih ⊢
    by_cases hq : q = key
    · subst hq
      by_cases hk : k = q <;> simp [List.lookup_cons, hk, beq_eq_false_iff_ne.2]
    · by_cases hk : k = q
      · subst hk
        simp [hq]
      · simp only [hq, if_false, List.lookup_cons, beq_eq_false_iff_ne.2 hk]
        exact ih

end Generations

end Cache

structure Cache where
  capacity : UInt64
  /-- Most recently used first. -/
  entries : List Cache.Entry
  used : UInt64
  generations : Cache.Generations
  deriving DecidableEq

namespace Cache

def empty (capacity : UInt64) : Cache := ⟨capacity, [], 0, []⟩

def find? (c : Cache) (key : String) : Option Entry := c.entries.find? fun e => e.key == key

def remove (c : Cache) (key : String) : Cache :=
  match c.find? key with
  | none => c
  | some e =>
    { c with entries := c.entries.eraseP fun e => e.key == key, used := c.used - e.size }

/-- Looks a key up; a hit becomes the most recently used entry. -/
def get (c : Cache) (key : String) : Option Artifact × Cache :=
  match c.find? key with
  | none => (none, c)
  | some e =>
    (some e.value, { c with entries := e :: c.entries.eraseP fun e => e.key == key })

/-- Drops entries from the front of a list, oldest first, until the rest fits. -/
def fit (capacity : UInt64) : List Entry → UInt64 → List Entry × UInt64
  | [], used => ([], used)
  | e :: newer, used =>
    if capacity < used then fit capacity newer (used - e.size) else (e :: newer, used)

/-- Inserts a value as the most recently used entry and drops what no longer fits. A value larger
than the capacity only takes the old value of its key away. -/
def put (c : Cache) (key : String) (value : Artifact) (size : UInt64) : Cache :=
  let c := c.remove key
  if c.capacity < size then c
  else
    let kept := fit c.capacity (⟨key, value, size⟩ :: c.entries).reverse (c.used + size)
    { c with entries := kept.1.reverse, used := kept.2 }

def generation (c : Cache) (key : String) : Nat := c.generations.of key

/-- Inserts a value unless its key was invalidated since `generation` was read; says whether it
did. -/
def putIfCurrent (c : Cache) (key : String) (value : Artifact) (size : UInt64)
    (generation : Nat) : Bool × Cache :=
  if c.generation key = generation then (true, c.put key value size) else (false, c)

/-- Takes a key's value away, if there is one, and advances its generation in any case. -/
def invalidate (c : Cache) (key : String) : Cache :=
  let c := c.remove key
  { c with generations := c.generations.advance key }

/-- Like `remove`. The error is the cache that a panic leaves, also in what follows. -/
def removeChecked (c : Cache) (key : String) : Except Cache Cache :=
  match c.find? key with
  | none => .ok c
  | some e =>
    let entries := c.entries.eraseP fun e => e.key == key
    if c.used < e.size then .error { c with entries }
    else .ok { c with entries, used := c.used - e.size }

def fitChecked (capacity : UInt64) :
    List Entry → UInt64 → Except (List Entry × UInt64) (List Entry × UInt64)
  | [], used => .ok ([], used)
  | e :: newer, used =>
    if capacity < used then
      if used < e.size then .error (newer, used) else fitChecked capacity newer (used - e.size)
    else .ok (e :: newer, used)

def putChecked (c : Cache) (key : String) (value : Artifact) (size : UInt64) :
    Except Cache Cache :=
  match c.removeChecked key with
  | .error left => .error left
  | .ok c =>
    if c.capacity < size then .ok c
    -- The entry is in before its size is added.
    else if UInt64.size ≤ c.used.toNat + size.toNat then
      .error { c with entries := ⟨key, value, size⟩ :: c.entries }
    else
      match fitChecked c.capacity (⟨key, value, size⟩ :: c.entries).reverse (c.used + size) with
      | .error left => .error { c with entries := left.1.reverse, used := left.2 }
      | .ok kept => .ok { c with entries := kept.1.reverse, used := kept.2 }

def putIfCurrentChecked (c : Cache) (key : String) (value : Artifact) (size : UInt64)
    (generation : Nat) : Except Cache (Bool × Cache) :=
  if c.generation key = generation then (c.putChecked key value size).map (true, ·)
  else .ok (false, c)

/-- A panic comes before the generation is advanced. -/
def invalidateChecked (c : Cache) (key : String) : Except Cache Cache :=
  (c.removeChecked key).map fun c => { c with generations := c.generations.advance key }

@[simp] theorem remove_generations (c : Cache) (key : String) :
    (c.remove key).generations = c.generations := by
  unfold remove; split <;> rfl

@[simp] theorem get_generation (c : Cache) (key k : String) :
    (c.get key).2.generation k = c.generation k := by
  unfold get; split <;> rfl

@[simp] theorem put_generation (c : Cache) (key k : String) (value : Artifact) (size : UInt64) :
    (c.put key value size).generation k = c.generation k := by
  have h := c.remove_generations key
  unfold put generation
  dsimp only
  split <;> simp

theorem putIfCurrent_generation (c : Cache) (key k : String) (value : Artifact) (size : UInt64)
    (g : Nat) : (c.putIfCurrent key value size g).2.generation k = c.generation k := by
  unfold putIfCurrent; split <;> simp

theorem invalidate_generation (c : Cache) (key k : String) :
    (c.invalidate key).generation k = if k = key then c.generation k + 1 else c.generation k := by
  simp [invalidate, generation, Generations.of_advance]

end Cache

end BallotServer
