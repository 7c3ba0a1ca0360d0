import BallotServer.Proofs.StoreCalls

/-! What a store tells about the elections, by its calls alone. The calls that create records number
them from one; a record is owned by the user who created it, and its text is the one put last. -/

namespace BallotServer.Store

def Call.creates : Call → Bool
  | put id _ _ => id == 0
  | _ => false

def Call.textFor? (id : Int) : Call → Option String
  | put target _ text => if id = target then some text else none
  | _ => none

theorem silent_of_old {id : Int} (old : id ≠ 0) (owner : Int) (text : String) :
    (Call.put id owner text).creates = false :=
  beq_false_of_ne old

def created (calls : List Call) : Nat := calls.countP Call.creates

def textsFor (id : Int) (calls : List Call) : List String := calls.filterMap (Call.textFor? id)

/-- The calls leave this record: one of them created it under its number, and the text is the one
put last under its id. -/
def Row (calls : List Call) (id owner : Int) (text : String) : Prop :=
  ∃ before first after, calls = before ++ .put 0 owner first :: after ∧
    id = (created before : Int) + 1 ∧ text = (textsFor id after).getLastD first

variable {calls : List Call} {call : Call} {e : Election} {s : Store} {t : Tables}
  {id owner target : Int} {text text' : String}

theorem created_concat (calls : List Call) (call : Call) :
    created (calls ++ [call]) = created calls + if call.creates then 1 else 0 := by
  rw [created, List.countP_append, List.countP_singleton]
  rfl

theorem getLastD_textsFor_concat (id : Int) (calls : List Call) (call : Call) (first : String) :
    (textsFor id (calls ++ [call])).getLastD first =
      (call.textFor? id).getD ((textsFor id calls).getLastD first) := by
  rw [textsFor, List.filterMap_append, List.filterMap_cons, List.filterMap_nil]
  cases call.textFor? id with
  | none => rw [List.append_nil, textsFor, Option.getD_none]
  | some text => rw [List.getLastD_concat, Option.getD_some]

theorem Row.id_pos (row : Row calls id owner text) : 0 < id := by
  obtain ⟨before, -, -, -, is, -⟩ := row
  omega

theorem row_concat :
    Row (calls ++ [call]) id owner text ↔
      call = .put 0 owner text ∧ id = (created calls : Int) + 1 ∨
        ∃ earlier, Row calls id owner earlier ∧ text = (call.textFor? id).getD earlier := by
  constructor
  · rintro ⟨before, first, after, split, number, last⟩
    rcases append_singleton_eq_append_cons.1 split with ⟨rfl, rfl, rfl⟩ | ⟨later, rfl, rfl⟩
    · obtain rfl : text = first := last
      exact .inl ⟨rfl, number⟩
    · rw [getLastD_textsFor_concat] at last
      exact .inr ⟨_, ⟨before, first, later, rfl, number, rfl⟩, last⟩
  · rintro (⟨rfl, number⟩ | ⟨earlier, ⟨before, first, after, rfl, number, rfl⟩, rfl⟩)
    · exact ⟨calls, text, [], rfl, number, rfl⟩
    · rw [← getLastD_textsFor_concat]
      refine ⟨before, first, after ++ [call], ?_, number, rfl⟩
      exact append_singleton_eq_append_cons.2 (.inr ⟨after, rfl, rfl⟩)

theorem earlier_of_unseen
    (unseen : ∀ earlier, Row calls id owner earlier → call.textFor? id = none) :
    (∃ earlier, Row calls id owner earlier ∧ text = (call.textFor? id).getD earlier) ↔
      Row calls id owner text := by
  constructor
  · rintro ⟨earlier, row, is⟩
    rw [unseen earlier row, Option.getD_none] at is
    rwa [is]
  · intro row
    exact ⟨text, row, by rw [unseen text row, Option.getD_none]⟩

theorem row_concat_creation (owner' : Int) :
    Row (calls ++ [.put 0 owner' text']) id owner text ↔
      (id = (created calls : Int) + 1 ∧ owner = owner' ∧ text = text') ∨
        Row calls id owner text := by
  have unseen : ∀ earlier, Row calls id owner earlier →
      (Call.put 0 owner' text').textFor? id = none :=
    fun earlier row => if_neg (Int.ne_of_gt row.id_pos)
  rw [row_concat, earlier_of_unseen unseen, Call.put.injEq]
  refine or_congr_left ⟨?_, ?_⟩
  · rintro ⟨⟨-, rfl, rfl⟩, number⟩
    exact ⟨number, rfl, rfl⟩
  · rintro ⟨number, rfl, rfl⟩
    exact ⟨⟨rfl, rfl, rfl⟩, number⟩

theorem row_concat_revision (old : target ≠ 0) (owner' : Int) :
    Row (calls ++ [.put target owner' text']) id owner text ↔
      ∃ earlier, Row calls id owner earlier ∧ text = if id = target then text' else earlier := by
  have offered (earlier : String) : ((Call.put target owner' text').textFor? id).getD earlier =
      if id = target then text' else earlier := by
    rw [Call.textFor?]
    split <;> rfl
  simp only [row_concat, offered, Call.put.injEq, old, false_and, false_or]

theorem row_concat_of_quiet (silent : call.creates = false)
    (unseen : ∀ earlier, Row calls id owner earlier → call.textFor? id = none) :
    Row (calls ++ [call]) id owner text ↔ Row calls id owner text := by
  rw [row_concat, earlier_of_unseen unseen, or_iff_right]
  rintro ⟨rfl, -⟩
  cases silent

theorem mem_replace :
    e ∈ (t.replace target text).elections ↔
      ∃ earlier, { e with text := earlier } ∈ t.elections ∧
        e.text = if e.id = target then text else earlier := by
  rw [Tables.replace, List.mem_map]
  constructor
  · rintro ⟨a, member, rfl⟩
    refine ⟨a.text, ?_, ?_⟩
    · split <;> exact member
    · split <;> rfl
  · rintro ⟨earlier, member, is⟩
    refine ⟨_, member, ?_⟩
    obtain ⟨id, owner, text'⟩ := e
    dsimp only at is
    rw [is]
    exact (apply_ite (Election.mk id owner) (id = target) text earlier).symm

/-- The tables hold the records that the calls leave. -/
structure Told (calls : List Call) (t : Tables) : Prop where
  counted : t.lastId = created calls
  numbered : t.Numbered
  rows : ∀ e, e ∈ t.elections ↔ Row calls e.id e.owner e.text

namespace Told

theorem nil : Told [] ⟨[], 0, []⟩ := by
  refine ⟨rfl, ⟨.nil, nofun, nofun⟩, fun e => ⟨nofun, ?_⟩⟩
  rintro ⟨before, first, after, split, -⟩
  exact absurd split.symm (List.append_ne_nil_of_right_ne_nil _ (List.cons_ne_nil _ _))

theorem insert (told : Told calls t) (owner : Int) (text : String) :
    Told (calls ++ [.put 0 owner text]) (t.insert owner text) := by
  refine ⟨?_, told.numbered.insert owner text, fun e => ?_⟩
  · rw [created_concat]
    exact congrArg (· + 1) told.counted
  · rw [row_concat_creation, Tables.insert, List.mem_append, List.mem_singleton, told.rows,
      ← told.counted, or_comm]
    cases e
    rw [Election.mk.injEq]

theorem replace (told : Told calls t) (old : id ≠ 0) (owner : Int) (text : String) :
    Told (calls ++ [.put id owner text]) (t.replace id text) := by
  refine ⟨?_, told.numbered.replace id text, fun e => ?_⟩
  · rw [created_concat, silent_of_old old owner text]
    exact told.counted
  · simp only [row_concat_revision old, mem_replace, told.rows]

theorem quiet (told : Told calls t) (silent : call.creates = false)
    (unseen : ∀ e ∈ t.elections, call.textFor? e.id = none) (invites : List Invite) :
    Told (calls ++ [call]) { t with invites := invites } := by
  obtain ⟨counted, ⟨increasing, positive, bounded⟩, rows⟩ := told
  refine ⟨?_, ⟨increasing, positive, bounded⟩, fun e => ?_⟩
  · rw [created_concat, silent]
    exact counted
  · rw [row_concat_of_quiet silent]
    · exact rows e
    · exact fun earlier row => unseen ⟨e.id, e.owner, earlier⟩ ((rows _).2 row)

theorem serve (told : Told calls t) (tables : s.tables = some t) (call : Call) :
    ∃ t', (s.serve call).2.tables = some t' ∧ Told (calls ++ [call]) t' := by
  cases call with
  | connect => exact ⟨t, tables, told.quiet rfl (fun _ _ => rfl) t.invites⟩
  | reopen | setup =>
    rw [serve_idle tables (by decide)]
    exact ⟨t, tables, told.quiet rfl (fun _ _ => rfl) t.invites⟩
  | get id => exact ⟨t, tables, told.quiet rfl (fun _ _ => rfl) t.invites⟩
  | put id owner text =>
    by_cases new : id = 0
    · rw [new, serve_put_new tables]
      exact ⟨_, rfl, told.insert owner text⟩
    · cases found : s.find? id with
      | some e =>
        rw [serve_put_old tables new found]
        exact ⟨_, rfl, told.replace new owner text⟩
      | none =>
        rw [serve_put_missing tables new found]
        have unseen : ∀ e ∈ t.elections, (Call.put id owner text).textFor? e.id = none :=
          fun e member => if_neg (ne_of_find?_eq_none tables found member)
        exact ⟨t, tables, told.quiet (silent_of_old new owner text) unseen t.invites⟩
  | invite token expires =>
    by_cases taken : ∃ i ∈ t.invites, i.token = token
    · rw [serve_invite_taken tables taken]
      exact ⟨t, tables, told.quiet rfl (fun _ _ => rfl) t.invites⟩
    · rw [serve_invite_new tables (by simpa using taken)]
      exact ⟨_, rfl, told.quiet rfl (fun _ _ => rfl) _⟩
  | purge now =>
    rw [serve_purge tables]
    exact ⟨_, rfl, told.quiet rfl (fun _ _ => rfl) _⟩

end Told

theorem told_serveAll (calls : List Call) :
    ∃ t, (fresh.serveAll calls).2.tables = some t ∧ Told calls t := by
  have told : ∃ t, (fresh.serveAll calls).2.tables = some t ∧
      Told ((fresh.serveAll calls).1.map Reply.call) t := by
    refine serveAll_induction (P := fun replies s =>
      ∃ t, s.tables = some t ∧ Told (replies.map Reply.call) t) ⟨_, rfl, .nil⟩ ?_ calls
    rintro replies s call ⟨t, tables, told⟩
    rw [List.map_append]
    exact told.serve tables call
  rwa [map_call_serveAll] at told

theorem Told.find?_eq_some (told : Told calls t) (tables : s.tables = some t) :
    s.find? id = some ⟨id, owner, text⟩ ↔ Row calls id owner text := by
  have numbered : s.Numbered := fun t' is => by
    cases tables.symm.trans is
    exact told.numbered
  rw [← told.rows ⟨id, owner, text⟩, ← elections_of_tables tables]
  exact ⟨fun found => (Store.find?_eq_some found).1, numbered.find?_of_mem⟩

theorem Told.find?_eq_none (told : Told calls t) (tables : s.tables = some t)
    (unknown : ¬ ∃ owner text, Row calls id owner text) : s.find? id = none := by
  cases found : s.find? id with
  | none => rfl
  | some e =>
    obtain ⟨-, rfl⟩ := Store.find?_eq_some found
    exact absurd ⟨e.owner, e.text, (told.find?_eq_some tables).1 found⟩ unknown

/-- After any calls on a new store: its records are those that the calls leave. A record that is
created is answered with its number, and added. A text put under another id is answered with that
id, and changes the text of its record alone, or, if there is none, is refused and changes nothing.
Reading shows the record that the calls leave under the id, and fails if there is none; reading,
connecting, reopening and setting up change nothing. -/
theorem elections_told (calls : List Call) :
    let s := (fresh.serveAll calls).2
    (∀ e, e ∈ s.elections ↔ Row calls e.id e.owner e.text) ∧
    (∀ owner text, ∃ s', s.serve (.put 0 owner text) = (.ok ((created calls : Int) + 1), s') ∧
      s'.elections = s.elections ++ [⟨(created calls : Int) + 1, owner, text⟩] ∧
      s'.invites = s.invites) ∧
    (∀ id, id ≠ 0 → ∀ owner text,
      ((∃ owner text, Row calls id owner text) →
        ∃ s', s.serve (.put id owner text) = (.ok id, s') ∧
          s'.elections =
            s.elections.map (fun e => if e.id = id then { e with text := text } else e) ∧
          s'.invites = s.invites) ∧
      ((¬ ∃ owner text, Row calls id owner text) →
        s.serve (.put id owner text) = (.error (.notFound id), s))) ∧
    (∀ id,
      (∀ owner text, Row calls id owner text → s.serve (.get id) = (.ok ⟨id, owner, text⟩, s)) ∧
      ((¬ ∃ owner text, Row calls id owner text) →
        s.serve (.get id) = (.error (.notFound id), s))) ∧
    ∀ call ∈ [Call.connect, .reopen, .setup], (s.serve call).2 = s := by
  intro s
  obtain ⟨t, tables, told⟩ := told_serveAll calls
  have elections : s.elections = t.elections := elections_of_tables tables
  have invites : s.invites = t.invites := invites_of_tables tables
  refine ⟨?_, ?_, ?_, ?_, fun call => serve_idle tables⟩
  · rw [elections]
    exact told.rows
  · intro owner text
    rw [serve_put_new tables, elections, invites, ← told.counted]
    exact ⟨_, rfl, rfl, rfl⟩
  · intro id old owner text
    constructor
    · rintro ⟨owner', text', row⟩
      rw [serve_put_old tables old ((told.find?_eq_some tables).2 row), elections, invites]
      exact ⟨_, rfl, rfl, rfl⟩
    · intro unknown
      exact serve_put_missing tables old (told.find?_eq_none tables unknown)
  · intro id
    constructor
    · intro owner text row
      have found := (told.find?_eq_some tables).2 row
      exact congrArg (·, s) (read_eq_ok.2 ⟨Option.isSome_of_eq_some tables, found⟩)
    · intro unknown
      have missing := told.find?_eq_none tables unknown
      exact congrArg (·, s) (read_eq_notFound (Option.isSome_of_eq_some tables) missing)

theorem elections_told_revised :
    let calls := [Call.put 0 7 "old", .put 0 9 "null", .setup, .put 1 8 "new", .reopen]
    let s := (fresh.serveAll calls).2
    s.serve (.put 0 5 "null") = (.ok 3, ⟨some ⟨s.elections ++ [⟨3, 5, "null"⟩], 3, []⟩⟩) ∧
      s.serve (.get 1) = (.ok ⟨1, 7, "new"⟩, s) ∧
      s.serve (.put 42 7 "new") = (.error (.notFound 42), s) := by
  intro calls s
  obtain ⟨rows, -, revised, read, -⟩ := elections_told calls
  have first : Row calls 1 7 "new" := ⟨[], "old", calls.tail, rfl, rfl, rfl⟩
  have unknown : ¬ ∃ owner text, Row calls 42 owner text := by
    rintro ⟨owner, text, row⟩
    have member : ⟨42, owner, text⟩ ∈ [Election.mk 1 7 "new", ⟨2, 9, "null"⟩] := (rows _).2 row
    simp at member
  exact ⟨rfl, (read 1).1 7 "new" first, (revised 42 (by decide) 7 "new").2 unknown⟩

end BallotServer.Store
