import BallotServer.Store

/-! The rows of the election table. Their ids are positive, increase and never exceed the last id
given, so an id names one row at most and the next id names none. A write gives one row its text and
leaves the others alone. -/

namespace BallotServer

structure Tables.Numbered (t : Tables) : Prop where
  increasing : t.elections.Pairwise fun a b => a.id < b.id
  positive : ∀ e ∈ t.elections, 1 ≤ e.id
  counted : ∀ e ∈ t.elections, e.id ≤ t.lastId

namespace Tables

variable {t : Tables}

theorem Numbered.insert (numbered : t.Numbered) (owner : Int) (text : String) :
    (t.insert owner text).Numbered := by
  obtain ⟨increasing, positive, counted⟩ := numbered
  refine ⟨List.pairwise_append.2 ⟨increasing, List.pairwise_singleton _ _, ?_⟩, ?_, ?_⟩
  · intro a old b new
    have last := counted a old
    rw [List.mem_singleton.1 new]
    dsimp only
    omega
  · intro e member
    rcases List.mem_append.1 member with old | new
    · exact positive e old
    · rw [List.mem_singleton.1 new]
      dsimp only
      omega
  · intro e member
    rcases List.mem_append.1 member with old | new
    · have last := counted e old
      simp only [Tables.insert]
      omega
    · rw [List.mem_singleton.1 new]
      exact Int.le_refl _

theorem id_replaced (id : Int) (text : String) (e : Election) :
    (if e.id = id then { e with text := text } else e).id = e.id := by
  split <;> rfl

theorem Numbered.replace (numbered : t.Numbered) (id : Int) (text : String) :
    (t.replace id text).Numbered := by
  obtain ⟨increasing, positive, counted⟩ := numbered
  refine ⟨?_, ?_, ?_⟩
  · simp only [Tables.replace, List.pairwise_map, id_replaced]
    exact increasing
  · simp only [Tables.replace, List.forall_mem_map, id_replaced]
    exact positive
  · simp only [Tables.replace, List.forall_mem_map, id_replaced]
    exact counted

end Tables

namespace Store

def Numbered (s : Store) : Prop := ∀ t, s.tables = some t → t.Numbered

theorem numbered_fresh : fresh.Numbered := by
  intro t is
  cases is
  exact ⟨.nil, nofun, nofun⟩

variable {s s' : Store} {t : Tables} {id id' owner : Int} {text : String} {e : Election}

theorem elections_some (t : Tables) : (⟨some t⟩ : Store).elections = t.elections := rfl

theorem elections_of_tables (tables : s.tables = some t) : s.elections = t.elections := by
  rw [elections, tables]
  rfl

theorem invites_of_tables (tables : s.tables = some t) : s.invites = t.invites := by
  rw [invites, tables]
  rfl

theorem find?_eq_some (h : s.find? id = some e) : e ∈ s.elections ∧ e.id = id :=
  ⟨List.mem_of_find?_eq_some h, by simpa using List.find?_some h⟩

theorem ne_of_find?_eq_none (tables : s.tables = some t) (missing : s.find? id = none)
    (member : e ∈ t.elections) : e.id ≠ id := by
  rw [find?, elections_of_tables tables] at missing
  simpa using List.find?_eq_none.1 missing e member

theorem read_eq_ok : s.read id = .ok e ↔ s.tables.isSome ∧ s.find? id = some e := by
  unfold read
  cases s.tables with
  | none => simp
  | some t => cases s.find? id <;> simp

theorem read_eq_notFound (tables : s.tables.isSome) (missing : s.find? id = none) :
    s.read id = .error (.notFound id) := by
  obtain ⟨t, is⟩ := Option.isSome_iff_exists.1 tables
  simp [read, is, missing]

theorem find?_of_read_notFound (h : s.read id = .error (.notFound id')) : s.find? id = none := by
  unfold read at h
  cases found : s.find? id with
  | none => rfl
  | some e =>
    rw [found] at h
    split at h <;> cases h

theorem write_eq_ok (h : s.write id owner text = .ok (id', s')) :
    ∃ t, s.tables = some t ∧
      (id = 0 ∧ id' = t.lastId + 1 ∧ s' = ⟨some (t.insert owner text)⟩ ∨
        id ≠ 0 ∧ id' = id ∧ (∃ e, s.find? id = some e) ∧ s' = ⟨some (t.replace id text)⟩) := by
  unfold write at h
  cases tables : s.tables with
  | none => simp [tables] at h
  | some t =>
    refine ⟨t, rfl, ?_⟩
    simp only [tables] at h
    by_cases new : id = 0
    · rw [if_pos new] at h
      cases h
      exact .inl ⟨new, rfl, rfl⟩
    · rw [if_neg new] at h
      by_cases found : (s.find? id).isSome
      · rw [if_pos found] at h
        cases h
        exact .inr ⟨new, rfl, Option.isSome_iff_exists.1 found, rfl⟩
      · rw [if_neg found] at h
        cases h

theorem write_new (tables : s.tables = some t) :
    s.write 0 owner text = .ok ((t.lastId : Int) + 1, ⟨some (t.insert owner text)⟩) := by
  simp only [write, tables, if_true]

theorem write_old (tables : s.tables = some t) (old : id ≠ 0) (found : s.find? id = some e) :
    s.write id owner text = .ok (id, ⟨some (t.replace id text)⟩) := by
  simp only [write, tables, old, found, Option.isSome_some, if_true, if_false]

theorem write_missing (tables : s.tables = some t) (old : id ≠ 0) (missing : s.find? id = none) :
    s.write id owner text = .error (.notFound id) := by
  simp only [write, tables, old, missing, Option.isSome_none, Bool.false_eq_true, if_false]

theorem Numbered.positive (numbered : s.Numbered) (member : e ∈ s.elections) : 1 ≤ e.id := by
  cases tables : s.tables with
  | none => simp [elections, tables] at member
  | some t =>
    rw [elections_of_tables tables] at member
    exact (numbered t tables).positive e member

theorem Numbered.find?_of_mem (numbered : s.Numbered) (member : e ∈ s.elections) :
    s.find? e.id = some e := by
  cases tables : s.tables with
  | none => simp [elections, tables] at member
  | some t =>
    have increasing := (numbered t tables).increasing
    rw [find?, elections_of_tables tables]
    rw [elections_of_tables tables] at member
    obtain ⟨before, after, all⟩ := List.append_of_mem member
    rw [all] at increasing ⊢
    refine List.find?_eq_some_iff_append.2 ⟨by simp, before, after, rfl, fun a old => ?_⟩
    have less : a.id < e.id := (List.pairwise_append.1 increasing).2.2 a old e List.mem_cons_self
    simp only [Bool.not_eq_true', beq_eq_false_iff_ne]
    omega

theorem Numbered.find?_next (numbered : s.Numbered) (tables : s.tables = some t) :
    s.find? ((t.lastId : Int) + 1) = none := by
  rw [find?, elections_of_tables tables]
  refine List.find?_eq_none.2 fun e member same => ?_
  have counted := (numbered t tables).counted e member
  simp only [beq_iff_eq] at same
  omega

theorem find?_insert (tables : s.tables = some t) (numbered : s.Numbered) (k : Int) :
    find? ⟨some (t.insert owner text)⟩ k =
      if k = (t.lastId : Int) + 1 then some ⟨k, owner, text⟩ else s.find? k := by
  have old : s.find? k = t.elections.find? fun e => e.id == k := by
    rw [find?, elections_of_tables tables]
  rw [find?, elections_some]
  simp only [Tables.insert]
  rw [List.find?_append, ← old, List.find?_singleton]
  by_cases new : k = (t.lastId : Int) + 1
  · rw [new, numbered.find?_next tables]
    simp
  · simp [Ne.symm new, new]

theorem find?_replace (tables : s.tables = some t) (k : Int) :
    find? ⟨some (t.replace id text)⟩ k =
      if k = id then (s.find? k).map ({ · with text := text }) else s.find? k := by
  have old : s.find? k = t.elections.find? fun e => e.id == k := by
    rw [find?, elections_of_tables tables]
  rw [find?, elections_some]
  simp only [Tables.replace, List.find?_map, Function.comp_def, Tables.id_replaced]
  rw [← old]
  cases found : s.find? k with
  | none => simp
  | some e =>
    have is := (find?_eq_some found).2
    by_cases target : k = id
    · rw [Option.map_some, if_pos (is.trans target), if_pos target]
      rfl
    · rw [Option.map_some, if_neg (fun same => target (is.symm.trans same)), if_neg target]

theorem find?_of_write (numbered : s.Numbered) (h : s.write id owner text = .ok (id', s'))
    (k : Int) :
    s'.find? k =
      if k = id' then some ⟨k, (s.find? k).elim owner Election.owner, text⟩ else s.find? k := by
  obtain ⟨t, tables, ⟨-, rfl, rfl⟩ | ⟨-, rfl, ⟨e, found⟩, rfl⟩⟩ := write_eq_ok h
  · rw [find?_insert tables numbered]
    split
    · rename_i new
      rw [new, numbered.find?_next tables]
      rfl
    · rfl
  · rw [find?_replace tables]
    split
    · rename_i same
      have is := (find?_eq_some found).2
      rw [same, found, Option.map_some, Option.elim_some, is]
    · rfl

theorem Numbered.write (numbered : s.Numbered) (h : s.write id owner text = .ok (id', s')) :
    s'.Numbered := by
  obtain ⟨t, tables, ⟨-, -, rfl⟩ | ⟨-, -, -, rfl⟩⟩ := write_eq_ok h
  · rintro _ ⟨⟩
    exact (numbered t tables).insert owner text
  · rintro _ ⟨⟩
    exact (numbered t tables).replace id text

end Store

end BallotServer
