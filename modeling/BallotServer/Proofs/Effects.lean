import BallotServer.Proofs.Serving
import BallotServer.Proofs.StoreRows

/-! What requests without success leave behind. An answer to a client's mistake is given before
anything is changed, so such requests can be left out of a row of requests without a trace. A fault
behind the server may follow a successful part of the work: an upload that took its number, or,
where a preview could not be converted, the look-up of the ballot. -/

namespace BallotServer

/-- Every artifact found was found under a key of its kind. -/
def Keyed (past : List Exchange) : Prop :=
  ∀ key artifact, ⟨.lookUp key, some artifact⟩ ∈ past → ∃ id, key = artifact.keyFor id

theorem Keyed.mono {past past' : List Exchange} (keyed : Keyed past') (subset : past ⊆ past') :
    Keyed past :=
  fun key artifact member => keyed key artifact (subset member)

namespace State

variable {st st' : State} {x : Exchange} {xs : List Exchange}

theorem perform_idle (idle : x.idle) (outcome : x.step.Outcome)
    (answer : x.answer = (st.perform x.step outcome).1) :
    (st.perform x.step outcome).2 = st := by
  obtain ⟨step, given⟩ := x
  cases step with
  | connect | readElection id => cases outcome <;> rfl
  | writeElection id owner text =>
    cases outcome with
    | some e => rfl
    | none =>
      dsimp only [perform] at answer ⊢
      cases written : st.store.write id owner text with
      | error e => rfl
      | ok result =>
        rw [written] at answer
        subst answer
        cases idle
  | lookUp key =>
    cases given with
    | some artifact => cases idle
    | none => exact congrArg (fun c => { st with cache := c }) (Cache.get_of_eq_none answer.symm)
  | keep key artifact generation => cases idle
  | invalidate key => cases idle
  | archive election mediaType image => cases idle
  | _ => rfl

theorem goes_idle (idle : xs.all Exchange.idle) (goes : st.Goes xs st') :
    st' = st ∧ ∀ x ∈ xs, ∃ outcome, x.answer = (st.perform x.step outcome).1 := by
  induction xs generalizing st with
  | nil => exact ⟨goes, nofun⟩
  | cons x xs ih =>
    obtain ⟨outcome, answer, rest⟩ := goes
    rw [List.all_cons, Bool.and_eq_true] at idle
    rw [perform_idle idle.1 outcome answer] at rest
    obtain ⟨same, answers⟩ := ih idle.2 rest
    refine ⟨same, fun y member => ?_⟩
    rcases List.mem_cons.1 member with rfl | later
    · exact ⟨outcome, answer⟩
    · exact answers y later

theorem goes_archive (idle : ∀ x ∈ xs, x.idle ∨ x.step.isArchive) (goes : st.Goes xs st') :
    st'.store = st.store ∧ st'.cache = st.cache := by
  induction xs generalizing st with
  | nil =>
    obtain rfl : st' = st := goes
    exact ⟨rfl, rfl⟩
  | cons x xs ih =>
    obtain ⟨outcome, answer, rest⟩ := goes
    obtain ⟨store, cache⟩ := ih (fun y member => idle y (.tail _ member)) rest
    rcases idle x List.mem_cons_self with still | archives
    · rw [perform_idle still outcome answer] at store cache
      exact ⟨store, cache⟩
    · obtain ⟨step, given⟩ := x
      cases step with
      | archive election mediaType image => exact ⟨store, cache⟩
      | _ => cases archives

end State

namespace Rendering

variable {id : Int} {g : Nat} {past : List Exchange} {fault : Fault} {b : Ballot}
  {found : Option Artifact}

theorem DrawnCourse.idle (course : DrawnCourse id g past (.error fault)) :
    past.all Exchange.idle := by
  cases course <;> rfl

theorem found_eq_none {key : String} (keyed : Keyed (⟨.lookUp key, found⟩ :: past))
    (other : ∀ (id' : Int) artifact, found = some artifact → artifact.keyFor id' ≠ key) :
    found = none := by
  cases found with
  | none => rfl
  | some artifact =>
    obtain ⟨id', under⟩ := keyed key artifact List.mem_cons_self
    exact absurd under.symm (other id' artifact rfl)

theorem ballot_not_found (keyed : Keyed (⟨.lookUp (Artifact.ballotKey id), found⟩ :: past))
    (other : ∀ b, found ≠ some (.ballot b)) : found = none :=
  found_eq_none keyed fun id' artifact is under => by
    obtain ⟨-, b, rfl⟩ := Artifact.of_keyFor_eq_ballotKey under
    exact other b is

theorem preview_not_found (keyed : Keyed (⟨.lookUp (Artifact.previewKey id), found⟩ :: past))
    (other : ∀ png, found ≠ some (.preview png)) : found = none :=
  found_eq_none keyed fun id' artifact is under => by
    obtain ⟨-, png, rfl⟩ := Artifact.of_keyFor_eq_previewKey under
    exact other png is

theorem BallotCourse.idle (course : BallotCourse id past (.error fault)) (keyed : Keyed past) :
    past.all Exchange.idle := by
  cases course with
  | miss other drawn =>
    obtain rfl := ballot_not_found keyed other
    rw [List.all_cons, List.all_cons, drawn.idle]
    rfl

/-- What a ballot looked up with success does to a state: the cached ballot is used, or a new one is
kept. -/
def LookedUp (id : Int) (past : List Exchange) (b : Ballot) (st st' : State) : Prop :=
  st'.store = st.store ∧ st'.archive = st.archive ∧
    ((st.cache.get (Artifact.ballotKey id)).1 = some (.ballot b) ∧
        st'.cache = (st.cache.get (Artifact.ballotKey id)).2 ∨
      (st.cache.get (Artifact.ballotKey id)).1 = none ∧
        (∃ e, st.store.find? id = some e ∧ ⟨.draw e.text, .ok b⟩ ∈ past) ∧
        st'.cache = st.cache.put (Artifact.ballotKey id) (.ballot b) b.size.toUInt64)

theorem LookedUp.mono {past' : List Exchange} {st st' : State}
    (looked : LookedUp id past b st st') (subset : past ⊆ past') : LookedUp id past' b st st' := by
  obtain ⟨store, archive, cache⟩ := looked
  refine ⟨store, archive, cache.imp_right ?_⟩
  rintro ⟨missed, ⟨e, found, drew⟩, kept⟩
  exact ⟨missed, ⟨e, found, subset drew⟩, kept⟩

theorem LookedUp.generations {st st' : State} (looked : LookedUp id past b st st') :
    st'.cache.generations = st.cache.generations := by
  obtain ⟨-, -, ⟨-, cache⟩ | ⟨-, -, cache⟩⟩ := looked
  · rw [cache, Cache.get_generations]
  · rw [cache, Cache.put_generations]

theorem BallotCourse.lookedUp {st st' : State} (course : BallotCourse id past (.ok b))
    (keyed : Keyed past) (goes : st.Goes past st') : LookedUp id past b st st' := by
  cases course with
  | hit =>
    obtain ⟨_, found, rfl⟩ := goes
    exact ⟨rfl, rfl, .inl ⟨found.symm, rfl⟩⟩
  | @miss _ g new _ other drawn =>
    obtain rfl := ballot_not_found keyed other
    cases drawn with
    | drawn e _ kept =>
      -- All exchanges before the last are idle, so each is answered from the same state.
      have split : st.Goes ([⟨.lookUp (Artifact.ballotKey id), none⟩,
          ⟨.generation (Artifact.ballotKey id), g⟩, ⟨.connect, .ok ()⟩,
          ⟨.readElection id, .ok e⟩, ⟨.release, ()⟩, ⟨.draw e.text, .ok b⟩] ++
          [⟨.keep (Artifact.ballotKey id) (.ballot b) g, kept⟩]) st' := goes
      obtain ⟨mid, quiet, last⟩ := State.goes_append.1 split
      obtain ⟨rfl, answers⟩ := State.goes_idle rfl quiet
      obtain ⟨_, -, rfl⟩ := last
      obtain ⟨_, missed⟩ := answers _ (.head _)
      obtain ⟨_, read⟩ := answers _ (.tail _ (.head _))
      obtain ⟨outcome, row⟩ := answers _ (.tail _ (.tail _ (.tail _ (.head _))))
      have current : mid.cache.generation (Artifact.ballotKey id) = g := read.symm
      refine ⟨rfl, rfl, .inr ⟨missed.symm, ⟨e, ?_, by simp⟩, ?_⟩⟩
      · cases outcome with
        | some failure => exact nomatch row
        | none => exact (Store.read_eq_ok.1 row.symm).2
      · dsimp only [State.perform, Cache.putIfCurrent]
        rw [if_pos current]
        rfl

theorem PreviewCourse.unmade (course : PreviewCourse id past (.error fault)) (keyed : Keyed past) :
    past.all Exchange.idle ∨ fault.status = 500 ∧
      ∃ before new last b, past = before ++ new ++ [last] ∧ before.all Exchange.idle ∧
        last.idle ∧ BallotCourse id new (.ok b) := by
  cases course with
  | miss unlike converted =>
    obtain rfl := preview_not_found keyed unlike
    have keyed' := keyed.mono (List.subset_append_right [_, _] _)
    cases converted with
    | unmade ballot =>
      refine .inl ?_
      rw [List.all_cons, List.all_cons, ballot.idle keyed']
      rfl
    | unconverted ballot e => exact .inr ⟨rfl, [_, _], _, _, _, rfl, rfl, rfl, ballot⟩

end Rendering

theorem Server.effects_of_plain {past : List Exchange} {response : Http.Response}
    (ends : response.status = 200 ∧ Settled past ∨
      ∀ x ∈ past, x.idle ∨ response.status = 500 ∧ x.step.isArchive) :
    response.status = 200 ∨ past.all Exchange.idle ∨
      response.status = 500 ∧ ∀ x ∈ past, x.idle ∨ x.step.isArchive := by
  rcases ends with ⟨success, -⟩ | refused
  · exact .inl success
  · by_cases failed : response.status = 500
    · exact .inr (.inr ⟨failed, fun x member => (refused x member).imp_right And.right⟩)
    · refine .inr (.inl (List.all_eq_true.2 fun x member => ?_))
      exact (refused x member).resolve_right fun archives => failed archives.1

theorem Server.Ends.effects {past : List Exchange} {response : Http.Response}
    {operation : Operation} (ends : Ends past response operation) (keyed : Keyed past) :
    response.status = 200 ∨ past.all Exchange.idle ∨ response.status = 500 ∧
      ((∀ x ∈ past, x.idle ∨ x.step.isArchive) ∨
        ∃ id before new last b, operation = .preview id ∧ past = before ++ new ++ [last] ∧
          before.all Exchange.idle ∧ last.idle ∧ Rendering.BallotCourse id new (.ok b)) := by
  cases operation with
  | ballotPdf id | ballotBubbles id =>
    obtain ⟨fault | b, course, rfl⟩ := ends
    · exact .inr (.inl (course.idle keyed))
    · exact .inl rfl
  | preview id =>
    obtain ⟨fault | png, course, rfl⟩ := ends
    · refine .inr ((course.unmade keyed).imp_right ?_)
      rintro ⟨failed, before, new, last, b, looked⟩
      exact ⟨failed, .inr ⟨id, before, new, last, b, rfl, looked⟩⟩
    · exact .inl rfl
  | _ => exact (effects_of_plain ends).imp_right (.imp_right (.imp_right .inl))

variable {σ : Type} {site : Site} {st : State}

theorem State.Reachable.keyed (reachable : st.Reachable site) (v : Visit σ) :
    Keyed (v.exchanges site st) := by
  obtain ⟨store, archive, cacheBytes, es, S, run, rfl⟩ := reachable
  intro key artifact member
  obtain ⟨x, y, split⟩ := List.append_of_mem member
  have all := run.trans (System.Run.visit S v)
  rw [split, List.map_append, List.map_cons, ← List.cons_append, ← List.append_assoc] at all
  obtain ⟨T, before, holds⟩ := all.holds_of_hit
  exact before.keyed rfl rfl holds

def without {α : Type} (gone : Nat → Bool) : List α → List α
  | [] => []
  | a :: l => if gone 0 then without (fun n => gone (n + 1)) l
    else a :: without (fun n => gone (n + 1)) l

namespace Visit

theorem after_of_refused (reachable : st.Reachable site) (v : Visit σ)
    (refused : 400 ≤ (v.answer site st).status ∧ (v.answer site st).status < 500) :
    v.after site st = st := by
  rcases (v.ends site st).effects (reachable.keyed v) with success | idle | ⟨failed, -⟩
  · omega
  · exact (State.goes_idle idle (v.goes site st)).1
  · omega

theorem serveAll_without (reachable : st.Reachable site) (visits : List (Visit σ))
    (gone : Nat → Bool)
    (refused : ∀ n response, gone n → (serveAll site st visits).1[n]? = some response →
      400 ≤ response.status ∧ response.status < 500) :
    serveAll site st (without gone visits) =
      (without gone (serveAll site st visits).1, (serveAll site st visits).2) := by
  induction visits generalizing st gone with
  | nil => rfl
  | cons v later ih =>
    have rest := ih (reachable.after v) (fun n => gone (n + 1))
      fun n response out at' => refused (n + 1) response out at'
    simp only [without, serveAll]
    by_cases out : gone 0
    · rw [if_pos out, if_pos out, ← rest,
        v.after_of_refused reachable (refused 0 _ out rfl)]
    · rw [if_neg out, if_neg out]
      simp only [serveAll]
      rw [rest]

theorem after_of_failed (reachable : st.Reachable site) (v : Visit σ)
    (failed : (v.answer site st).status = 500) :
    (v.after site st).store = st.store ∧ (v.after site st).cache = st.cache ∨
      ∃ id b, v.operation = .preview id ∧
        Rendering.LookedUp id (v.exchanges site st) b st (v.after site st) := by
  have keyed := reachable.keyed v
  have goes := v.goes site st
  rcases (v.ends site st).effects keyed with success | idle | ⟨-, archived | preview⟩
  · omega
  · rw [(State.goes_idle idle goes).1]
    exact .inl ⟨rfl, rfl⟩
  · exact .inl (State.goes_archive archived goes)
  · obtain ⟨id, before, new, last, b, asked, split, idle, idle', course⟩ := preview
    rw [split] at goes keyed ⊢
    obtain ⟨mid, first, rest⟩ := State.goes_append.1 goes
    obtain ⟨mid', quiet, made⟩ := State.goes_append.1 first
    obtain ⟨rfl, -⟩ := State.goes_idle idle quiet
    obtain ⟨same, -⟩ := State.goes_idle (by simpa using idle') rest
    have subset : new ⊆ before ++ new ++ [last] := fun x member =>
      List.mem_append_left _ (List.mem_append_right _ member)
    rw [same]
    exact .inr ⟨id, b, asked, (course.lookedUp (keyed.mono subset) made).mono subset⟩

/-- In every reachable state: a request that is answered with a client's mistake leaves the state as
it was, and so such requests can be left out of any row of requests; one that is answered with a
fault behind the server leaves the records and all generations, and the cache too unless it asked
for a preview, where it may have looked up the ballot with success. -/
theorem unsuccessful_effects (reachable : st.Reachable site) :
    (∀ v : Visit σ, 400 ≤ (v.answer site st).status ∧ (v.answer site st).status < 500 →
      v.after site st = st) ∧
    (∀ (visits : List (Visit σ)) (gone : Nat → Bool),
      (∀ n response, gone n → (serveAll site st visits).1[n]? = some response →
        400 ≤ response.status ∧ response.status < 500) →
      serveAll site st (without gone visits) =
        (without gone (serveAll site st visits).1, (serveAll site st visits).2)) ∧
    ∀ v : Visit σ, (v.answer site st).status = 500 →
      (v.after site st).store = st.store ∧
        (v.after site st).cache.generations = st.cache.generations ∧
        ((v.after site st).cache = st.cache ∨ ∃ id b, v.operation = .preview id ∧
          Rendering.LookedUp id (v.exchanges site st) b st (v.after site st)) := by
  refine ⟨after_of_refused reachable, serveAll_without reachable, fun v failed => ?_⟩
  rcases v.after_of_failed reachable failed with ⟨store, cache⟩ | ⟨id, b, asked, looked⟩
  · exact ⟨store, congrArg Cache.generations cache, .inl cache⟩
  · exact ⟨looked.1, looked.generations, .inr ⟨id, b, asked, looked⟩⟩

def unconvertible : Visit Unit :=
  ⟨(Sample.get "/election/1.png").request,
    ⟨fun s _ => (match s with
      | .convert _ => .error .emptyOutput
      | s => s.calm Sample.draw id, ())⟩, ()⟩

theorem unsuccessful_effects_created :
    let st := Sample.created 100
    let lost := Sample.get "/election/9.pdf"
    let other := Sample.get "/election/1"
    (lost.answer Sample.site st).status = 400 ∧ lost.after Sample.site st = st ∧
      serveAll Sample.site st [other] =
        (without (· == 0) (serveAll Sample.site st [lost, other]).1,
          (serveAll Sample.site st [lost, other]).2) ∧
      (unconvertible.answer Sample.site st).status = 500 ∧
      ∃ id b, unconvertible.operation = .preview id ∧
        Rendering.LookedUp id (unconvertible.exchanges Sample.site st) b st
          (unconvertible.after Sample.site st) := by
  obtain ⟨refused, left, failed⟩ :=
    @unsuccessful_effects Unit Sample.site _ (Sample.reachable_created 100)
  have status : ((Sample.get "/election/9.pdf").answer Sample.site (Sample.created 100)).status =
      400 := rfl
  have status' : (unconvertible.answer Sample.site (Sample.created 100)).status = 500 := rfl
  refine ⟨status, refused _ (by omega), ?_, status', ?_⟩
  · refine left [Sample.get "/election/9.pdf", Sample.get "/election/1"] (· == 0) ?_
    rintro n response first out
    obtain rfl : n = 0 := by simpa using first
    cases out
    omega
  · obtain ⟨-, -, same | looked⟩ := failed unconvertible status'
    · have kept : (unconvertible.after Sample.site (Sample.created 100)).cache.entries.length = 1 :=
        rfl
      rw [same] at kept
      exact absurd kept (by decide)
    · exact looked

end Visit

end BallotServer
