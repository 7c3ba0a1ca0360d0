import BallotServer.Proofs.Rendered

/-! Requests to update an election that are given up on the way. An update has three effects, in
this order: the record is written, the ballot is dropped, the preview is dropped. Given up before
the first it has changed nothing. Given up after it, each artifact is dropped or stands as it stood,
as far as the request came; and nothing drops it later. -/

namespace BallotServer

namespace Cache

/-- A key with nothing under it, and past all that was read for it. -/
structure Dropped (c c' : Cache) (key : String) : Prop where
  empty : ∀ artifact, ¬c'.Holds key artifact
  advanced : c'.generation key = c.generation key + 1

structure Kept (c c' : Cache) (key : String) : Prop where
  same : ∀ artifact, c'.Holds key artifact ↔ c.Holds key artifact
  current : c'.generation key = c.generation key

variable {c : Cache} {key : String} {artifact : Artifact}

theorem holds_invalidate (distinct : c.Distinct) (k : String) :
    (c.invalidate k).Holds key artifact ↔ c.Holds key artifact ∧ key ≠ k := by
  unfold Holds
  simp only [invalidate_entries, mem_eraseP distinct]
  constructor
  · rintro ⟨e, ⟨member, other⟩, rfl, is⟩
    exact ⟨⟨e, member, rfl, is⟩, other⟩
  · rintro ⟨⟨e, member, rfl, is⟩, other⟩
    exact ⟨e, ⟨member, other⟩, rfl, is⟩

theorem holds_foldl_invalidate (distinct : c.Distinct) (keys : List String) :
    (keys.foldl invalidate c).Holds key artifact ↔ c.Holds key artifact ∧ key ∉ keys := by
  induction keys generalizing c with
  | nil => simp
  | cons k keys ih =>
    rw [List.foldl_cons, ih (distinct.invalidate k), holds_invalidate distinct, List.mem_cons,
      not_or, and_assoc]

theorem generation_foldl_invalidate (keys : List String) :
    (keys.foldl invalidate c).generation key = c.generation key + keys.count key := by
  induction keys generalizing c with
  | nil => rfl
  | cons k keys ih =>
    rw [List.foldl_cons, ih, invalidate_generation, List.count_cons]
    by_cases same : key = k
    · rw [if_pos same, if_pos (by simp [same])]
      omega
    · rw [if_neg same, if_neg (by simpa using Ne.symm same)]
      omega

/-- Of distinct keys that are invalidated, each is dropped, and every other key is kept. -/
theorem dropped_or_kept (distinct : c.Distinct) {keys : List String} (nodup : keys.Nodup) :
    (key ∈ keys → c.Dropped (keys.foldl invalidate c) key) ∧
      (key ∉ keys → c.Kept (keys.foldl invalidate c) key) := by
  refine ⟨fun among => ⟨fun artifact holds => ?_, ?_⟩, fun other => ⟨fun artifact => ?_, ?_⟩⟩
  · exact ((holds_foldl_invalidate distinct keys).1 holds).2 among
  · rw [generation_foldl_invalidate, nodup.count, if_pos among]
  · exact (holds_foldl_invalidate distinct keys).trans (and_iff_left other)
  · rw [generation_foldl_invalidate, nodup.count, if_neg other, Nat.add_zero]

end Cache

def effectsOf (past : List Exchange) : List Exchange := past.filter fun x => !x.idle

def Wrote (past : List Exchange) : Prop := ∃ x ∈ past, x.step.isWrite ∧ x.idle = false

def Exchange.drop (key : String) : Exchange := ⟨.invalidate key, ()⟩

section Effects

variable {past : List Exchange} {x : Exchange} {st st' : State}

theorem mem_effectsOf : x ∈ effectsOf past ↔ x ∈ past ∧ x.idle = false := by
  simp [effectsOf]

theorem effectsOf_append (past later : List Exchange) :
    effectsOf (past ++ later) = effectsOf past ++ effectsOf later := List.filter_append ..

theorem effectsOf_snoc_idle (idle : x.idle) : effectsOf (past ++ [x]) = effectsOf past := by
  simp [effectsOf, idle]

theorem effectsOf_snoc (active : x.idle = false) :
    effectsOf (past ++ [x]) = effectsOf past ++ [x] := by
  simp [effectsOf, active]

theorem effectsOf_drops (keys : List String) :
    effectsOf (keys.map .drop) = keys.map .drop := by
  simp [effectsOf, Exchange.drop, Exchange.idle]

theorem effectsOf_written {target owner id : Int} {text : String} (before : List Exchange)
    (keys : List String) :
    effectsOf (before ++ ⟨.writeElection target owner text, .ok id⟩ :: keys.map .drop) =
      effectsOf before ++ ⟨.writeElection target owner text, .ok id⟩ :: keys.map .drop := by
  rw [effectsOf_append]
  exact congrArg (effectsOf before ++ _ :: ·) (effectsOf_drops keys)

theorem State.goes_effectsOf (goes : st.Goes past st') : st.Goes (effectsOf past) st' := by
  induction past generalizing st with
  | nil => exact goes
  | cons x past ih =>
    obtain ⟨outcome, answer, rest⟩ := goes
    by_cases idle : x.idle
    · rw [perform_idle idle outcome answer] at rest
      simpa [effectsOf, idle] using ih rest
    · have split : effectsOf (x :: past) = x :: effectsOf past := by simp [effectsOf, idle]
      rw [split]
      exact ⟨outcome, answer, ih rest⟩

theorem State.goes_drops {keys : List String} (goes : st.Goes (keys.map Exchange.drop) st') :
    st' = { st with cache := keys.foldl Cache.invalidate st.cache } := by
  induction keys generalizing st with
  | nil => exact goes
  | cons key keys ih =>
    obtain ⟨_, -, rest⟩ := goes
    exact ih rest

theorem State.goes_written {id id' owner : Int} {text : String} {keys : List String} (old : id ≠ 0)
    (goes : st.Goes (⟨.writeElection id owner text, .ok id'⟩ :: keys.map .drop) st') :
    ∃ s', st.store.write id owner text = .ok (id, s') ∧ id' = id ∧
      st' = ⟨s', keys.foldl Cache.invalidate st.cache, st.archive⟩ := by
  obtain ⟨outcome, answer, rest⟩ := goes
  cases outcome with
  | some e => cases answer
  | none =>
    dsimp only [perform] at answer rest
    cases wrote : st.store.write id owner text with
    | error e =>
      rw [wrote] at answer
      cases answer
    | ok result =>
      obtain ⟨k, s'⟩ := result
      rw [wrote] at answer rest
      cases answer
      obtain ⟨-, -, ⟨new, -⟩ | ⟨-, rfl, -⟩⟩ := Store.write_eq_ok wrote
      · exact absurd new old
      · exact ⟨s', rfl, rfl, goes_drops rest⟩

end Effects

namespace Server

variable {site : Site} {request : Http.Request} {id : Int} {past : List Exchange}
  {left : Script Http.Response} {st st' : State}

/-- The effects of an update, as far as it came: none, or the record was written, and then some of
the artifacts were dropped. -/
def Updated (id : Int) (past : List Exchange) : Prop :=
  effectsOf past = [] ∨ ∃ owner text id' keys, keys <+: Artifact.keysOf id' ∧
    effectsOf past = ⟨.writeElection id owner text, .ok id'⟩ :: keys.map .drop

theorem Updated.effectsOf_eq_nil (updated : Updated id past)
    (unwritten : ∀ x ∈ past, x.step.isWrite = false) : effectsOf past = [] := by
  rcases updated with none | ⟨owner, text, id', keys, -, are⟩
  · exact none
  · have member : ⟨.writeElection id owner text, .ok id'⟩ ∈ effectsOf past := by
      rw [are]
      exact List.mem_cons_self
    cases unwritten _ (mem_effectsOf.1 member).1

theorem Updated.drop {before : List Exchange} {target owner id' : Int} {text key : String}
    (done : List String)
    (updated : Updated id
      (before ++ ⟨.writeElection target owner text, .ok id'⟩ :: done.map .drop))
    (unwritten : ∀ x ∈ before, x.step.isWrite = false)
    (next : done ++ [key] <+: Artifact.keysOf id') :
    Updated id
      (before ++ ⟨.writeElection target owner text, .ok id'⟩ :: done.map .drop ++ [.drop key]) := by
  rcases updated with none | ⟨owner', text', id'', keys, -, are⟩
  · rw [effectsOf_written] at none
    exact absurd none (by simp)
  · rw [effectsOf_written] at are
    -- The first effect is a write, and there is none before this one.
    cases first : effectsOf before with
    | cons x rest =>
      rw [first] at are
      obtain ⟨rfl, -⟩ := List.cons.inj are
      have member : _ ∈ effectsOf before := first ▸ List.mem_cons_self
      cases unwritten _ (mem_effectsOf.1 member).1
    | nil =>
      rw [first] at are
      obtain ⟨write, -⟩ := List.cons.inj are
      cases write
      refine .inr ⟨owner, text, id', done ++ [key], next, ?_⟩
      rw [effectsOf_snoc rfl, effectsOf_written, first, List.map_append]
      rfl

variable (asked : Operation.ofRequest request.method request.path = .updateElection id)
include asked

theorem Updated.snoc {x : Exchange} (updated : Updated id past)
    (may : Conduct site request past x.step) : Updated id (past ++ [x]) := by
  by_cases idle : x.idle
  · unfold Updated
    rw [effectsOf_snoc_idle idle]
    exact updated
  · obtain ⟨step, answer⟩ := x
    cases step with
    | writeElection target owner text =>
      obtain ⟨unwritten, -, -, ⟨-, create⟩ | ⟨update, -⟩⟩ := may
      · cases asked.symm.trans create
      · cases asked.symm.trans update
        cases answer with
        | error e => exact absurd rfl idle
        | ok id' =>
          refine .inr ⟨owner, text, id', [], List.nil_prefix, ?_⟩
          rw [effectsOf_snoc rfl, updated.effectsOf_eq_nil unwritten]
          rfl
    | invalidate key =>
      obtain ⟨before, target, owner, text, id', unwritten, ⟨rfl, rfl⟩ | ⟨rfl, rfl⟩⟩ := may
      · exact Updated.drop [] updated unwritten ⟨[_], rfl⟩
      · exact Updated.drop [_] updated unwritten ⟨[], rfl⟩
    | lookUp key =>
      rw [Conduct, asked] at may
      cases may
    | keep key artifact generation =>
      obtain ⟨_, _, _, -, -, -, rendering⟩ := may
      rw [asked] at rendering
      cases rendering
    | archive election mediaType image => cases asked.symm.trans may
    | _ => exact absurd rfl idle

variable (course : (respond site request).Course past left)
include course

theorem updated_of_course : Updated id past := by
  induction course with
  | start => exact .inl rfl
  | answered before answer ih =>
    exact ih.snoc asked ((respond_keeps site request).along before).1

theorem written_of_course {owner id' : Int} {text : String}
    (goes : st.Goes past st') (numbered : st.store.Numbered)
    (wrote : ⟨.writeElection id owner text, .ok id'⟩ ∈ past) :
    Session.caller? site.sessionKey request.cookies = some owner ∧
      Document.ofBody request.body = .ok text ∧ 1 ≤ id ∧
      ∃ e, st.store.find? id = some e ∧ e.owner = owner := by
  obtain ⟨before, after, rfl⟩ := List.append_of_mem wrote
  obtain ⟨unwritten, known, accepted, ⟨-, create⟩ | ⟨-, e, owns, read⟩⟩ :=
    (respond_keeps site request).may_of_course course
  · cases asked.symm.trans create
  · obtain ⟨mid, first, -⟩ := State.goes_append.1 goes
    rcases (State.goes_reads first unwritten).2 id _ read with same | ⟨error, failed⟩
    · obtain ⟨-, found⟩ := Store.read_eq_ok.1 same.symm
      have row := Store.find?_eq_some found
      exact ⟨known, accepted, row.2 ▸ numbered.positive row.1, e, found, owns⟩
    · cases failed

theorem drop_of_answered {owner id' : Int} {text : String} {response : Http.Response}
    (answered : left = .done response)
    (wrote : ⟨.writeElection id owner text, .ok id'⟩ ∈ past) :
    .drop (Artifact.previewKey id') ∈ past := by
  subst answered
  have ends : Ends past response _ := (respond_keeps site request).along course
  rw [asked] at ends
  rcases ends with ⟨-, settled⟩ | unchanged
  · obtain ⟨before, after, rfl⟩ := List.append_of_mem wrote
    exact List.mem_append_right _ (.tail _ settled.mem)
  · rcases unchanged _ wrote with idle | ⟨-, archives⟩
    · cases idle
    · cases archives

/-- An update may be given up after any row of its exchanges. If it has not written by then, it has
changed nothing. If it has, then each key that it came to drop is dropped and every other key is as
it was; so both artifacts of the record are gone exactly if it came to drop the preview, as it has
whenever it is answered. -/
theorem update_abandoned (goes : st.Goes past st') (numbered : st.store.Numbered)
    (distinct : st.cache.Distinct) :
    (¬Wrote past → st' = st) ∧
      (Wrote past →
        (∃ owner text, Session.caller? site.sessionKey request.cookies = some owner ∧
          Document.ofBody request.body = .ok text ∧
          (∃ e, st.store.find? id = some e ∧ e.owner = owner) ∧
          st.store.write id owner text = .ok (id, st'.store)) ∧
        st'.archive = st.archive ∧
        (∀ key, (.drop key ∈ past → st.cache.Dropped st'.cache key) ∧
          (.drop key ∉ past → st.cache.Kept st'.cache key)) ∧
        ((∀ key ∈ Artifact.keysOf id, st.cache.Dropped st'.cache key) ↔
          .drop (Artifact.previewKey id) ∈ past) ∧
        ∀ response, left = .done response → .drop (Artifact.previewKey id) ∈ past) := by
  rcases updated_of_course asked course with none | ⟨owner, text, id', keys, more, are⟩
  · have unwritten : ¬Wrote past := by
      rintro ⟨x, member, -, active⟩
      exact absurd (mem_effectsOf.2 ⟨member, active⟩) (by simp [none])
    have same := State.goes_effectsOf goes
    rw [none] at same
    exact ⟨fun _ => same, fun wrote => absurd wrote unwritten⟩
  · have wrote : ⟨.writeElection id owner text, .ok id'⟩ ∈ past :=
      (mem_effectsOf.1 (are ▸ List.mem_cons_self)).1
    obtain ⟨known, accepted, positive, owned⟩ :=
      written_of_course asked course goes numbered wrote
    have all := State.goes_effectsOf goes
    rw [are] at all
    obtain ⟨s', stored, rfl, rfl⟩ := State.goes_written (by omega) all
    have dropped (key : String) : .drop key ∈ past ↔ key ∈ keys := by
      have effect : .drop key ∈ past ↔ .drop key ∈ effectsOf past :=
        mem_effectsOf.trans (and_iff_left rfl) |>.symm
      rw [effect, are]
      simp [Exchange.drop]
    have nodup : keys.Nodup := (Artifact.nodup_keysOf id').sublist more.sublist
    have each (key : String) :
        (.drop key ∈ past → st.cache.Dropped (keys.foldl Cache.invalidate st.cache) key) ∧
          (.drop key ∉ past → st.cache.Kept (keys.foldl Cache.invalidate st.cache) key) := by
      rw [dropped]
      exact Cache.dropped_or_kept distinct nodup
    refine ⟨fun unwritten => absurd ⟨_, wrote, rfl, rfl⟩ unwritten, fun _ => ⟨⟨owner, text, known,
      accepted, owned, stored⟩, rfl, each, ⟨fun gone => ?_, fun last key among => ?_⟩, ?_⟩⟩
    · refine Classical.byContradiction fun standing => ?_
      have advanced := (gone (Artifact.previewKey id') (by simp [Artifact.keysOf])).advanced
      rw [((each _).2 standing).current] at advanced
      omega
    · rw [← Artifact.keysOf_eq_of_mem more ((dropped _).1 last)] at among
      exact (each key).1 ((dropped key).2 among)
    · exact fun response answered => drop_of_answered asked course answered wrote

end Server

namespace Sample

def edit : Visit Unit :=
  visit { create.request with path := "/election/1", body := .ofBytes "null".toUTF8 }

def shown : State :=
  ⟨⟨some ⟨[⟨1, 7, "\x7b\x7d"⟩], 1, []⟩⟩,
    ⟨100, [⟨"1.png", .preview "\x7b\x7d".toUTF8, 2⟩, ⟨"1", .ballot (draw "\x7b\x7d"), 4⟩], 6,
      [("1", 1), ("1.png", 1)]⟩, .empty⟩

theorem get_after : (get "/election/1.png").after site (created 100) = shown := rfl

def editing : List Exchange :=
  [⟨.awaitBody, ()⟩, ⟨.connect, .ok ()⟩, ⟨.readElection 1, .ok ⟨1, 7, "\x7b\x7d"⟩⟩,
    ⟨.writeElection 1 7 "null", .ok 1⟩, .drop "1", .drop "1.png", ⟨.release, ()⟩]

theorem exchanges_edit : edit.exchanges site shown = editing := by
  unfold Visit.exchanges Server.respond
  rw [show Session.caller? site.sessionKey edit.request.cookies = some 7 from caller_create]
  rfl

theorem course_edit (n : Nat) :
    ∃ left, (Server.respond site edit.request).Course (editing.take n) left :=
  Script.course_of_exchanges (exchanges_edit ▸ List.take_prefix n editing :
    editing.take n <+: edit.exchanges site shown)

def edited : Store := ⟨some ⟨[⟨1, 7, "null"⟩], 1, []⟩⟩

theorem update_abandoned_half :
    let half : State := ⟨edited, shown.cache.invalidate "1", .empty⟩
    shown.Goes (editing.take 5) half ∧ Wrote (editing.take 5) ∧
      shown.cache.Dropped half.cache "1" ∧ shown.cache.Kept half.cache "1.png" := by
  obtain ⟨left, course⟩ := course_edit 5
  have goes : shown.Goes (editing.take 5) ⟨edited, shown.cache.invalidate "1", .empty⟩ :=
    ⟨(), rfl, none, rfl, none, rfl, none, rfl, (), rfl, rfl⟩
  have wrote : Wrote (editing.take 5) :=
    ⟨_, .tail _ (.tail _ (.tail _ (.head _))), rfl, rfl⟩
  have numbered : shown.store.Numbered := by
    rintro _ ⟨⟩
    exact ⟨by decide, by decide, by decide⟩
  have distinct : shown.cache.Distinct := by
    unfold Cache.Distinct
    decide
  have asked : Operation.ofRequest edit.request.method edit.request.path = .updateElection 1 := by
    decide
  obtain ⟨-, -, each, -⟩ :=
    (Server.update_abandoned asked course goes numbered distinct).2 wrote
  have standing : .drop "1.png" ∉ editing.take 5 := by simp [editing, Exchange.drop]
  exact ⟨goes, wrote, (each _).1 (.tail _ (.tail _ (.tail _ (.tail _ (.head _))))),
    (each _).2 standing⟩

/-- The edit is given up once it has written: the record is new, nothing is dropped, and the old
ballot is shown. -/
theorem stale_ballot :
    let stale : State := ⟨edited, shown.cache, .empty⟩
    shown.Reachable site ∧
      (∃ left, (Server.respond site edit.request).Course (editing.take 4) left) ∧
      shown.Goes (editing.take 4) stale ∧ Wrote (editing.take 4) ∧
      ¬shown.cache.Dropped stale.cache "1" ∧ ¬shown.cache.Dropped stale.cache "1.png" ∧
      (get "/election/1").answer site stale = .json "null" ∧
      (get "/election/1.pdf").answer site stale = .ok .pdf (draw "\x7b\x7d").pdf := by
  refine ⟨?_, course_edit 4, ⟨(), rfl, none, rfl, none, rfl, none, rfl, rfl⟩,
    ⟨_, .tail _ (.tail _ (.tail _ (.head _))), rfl, rfl⟩, fun gone => ?_, fun gone => ?_, rfl, rfl⟩
  · exact get_after ▸ (reachable_created 100).after (get "/election/1.png")
  · exact absurd gone.advanced (by decide)
  · exact absurd gone.advanced (by decide)

end Sample

end BallotServer
