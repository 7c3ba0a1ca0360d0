import BallotServer.Proofs.Serving

/-! The kinds of artifact in the cache. The service that keeps artifacts is asked for ballots and for
previews, and to drop what it has of an election; its calls are under way side by side, each taking
its steps one by one, while anything may happen to the records. Every artifact stands under the key
for its kind, so what a call finds under a key is what it looks for there. A call that drops the
artifacts of one election leaves those of the others where they stand. -/

namespace BallotServer

theorem Artifact.keyFor_mem (id : Int) (artifact : Artifact) : artifact.keyFor id ∈ keysOf id := by
  cases artifact with
  | ballot b => exact ballotKey_mem id
  | preview png => exact previewKey_mem id

namespace Cache

variable {c c' c'' : Cache} {id : Int} {key : String}

/-- Whether a key is one of another election's, or of none. -/
def isBeside (id : Int) (key : String) : Bool := key ∉ Artifact.keysOf id

/-- What stands under the keys beside those of an election still does, in the same order and under the
same generations. -/
structure Spares (id : Int) (c c' : Cache) : Prop where
  entries : (c'.entries.filter fun e => isBeside id e.key) =
    c.entries.filter fun e => isBeside id e.key
  generation : ∀ key, isBeside id key → c'.generation key = c.generation key

theorem Spares.trans (first : Spares id c c') (second : Spares id c' c'') : Spares id c c'' :=
  ⟨second.entries.trans first.entries,
    fun key beside => (second.generation key beside).trans (first.generation key beside)⟩

theorem ne_of_isBeside {k : String} (own : k ∈ Artifact.keysOf id) (beside : isBeside id key) :
    key ≠ k := by
  rintro rfl
  exact of_decide_eq_true beside own

theorem spares_invalidate (distinct : c.Distinct) (own : key ∈ Artifact.keysOf id) :
    Spares id c (c.invalidate key) := by
  constructor
  · rw [invalidate_entries, eraseP_eq_filter distinct, List.filter_filter]
    refine List.filter_congr fun e _ => ?_
    by_cases beside : isBeside id e.key
    · simp [beside, ne_of_isBeside own beside]
    · simp [beside]
  · intro k beside
    rw [invalidate_generation, if_neg (ne_of_isBeside own beside)]

end Cache

namespace Rendering

open Handler

/-- A step that is about the keys of the election only: an artifact is kept under the key for its
kind, and a generation is read after the key was looked up, and not found to hold that kind. -/
def Proper (id : Int) (past : List Exchange) : Step → Prop
  | .lookUp key | .invalidate key => key ∈ Artifact.keysOf id
  | .generation key => key ∈ Artifact.keysOf id ∧
    ∃ before found, past = before ++ [⟨.lookUp key, found⟩] ∧
      ∀ artifact, found = some artifact → key ≠ artifact.keyFor id
  | .keep key artifact _ => key = artifact.keyFor id
  | _ => True

variable {id : Int} {past : List Exchange}

theorem drawn_proper (generation : Nat) :
    (drawn id generation).Keeps (Proper id) (fun _ _ => True) (fun _ _ => True) past := by
  unfold drawn
  refine keeps_bind.2 (keeps_connected.2 ⟨trivial, fun _ => trivial, keeps_readElection.2 ⟨trivial,
    fun e => ⟨trivial, ?_⟩, fun _ => ⟨trivial, trivial⟩⟩⟩)
  refine keeps_bind.2 (keeps_ask.2 ⟨trivial, fun _ => keeps_bind.2 (keeps_orFault.2
    ⟨fun b _ => ?_, fun _ _ => trivial⟩)⟩)
  exact keeps_bind.2 (keeps_ask.2 ⟨rfl, fun _ => keeps_pure.2 trivial⟩)

theorem ballot_proper :
    (ballot id).Keeps (Proper id) (fun _ _ => True) (fun _ _ => True) past := by
  unfold ballot
  refine keeps_bind.2 (keeps_ask.2 ⟨Artifact.ballotKey_mem id, fun found => ?_⟩)
  split
  · exact keeps_pure.2 trivial
  · rename_i other
    refine keeps_bind.2 (keeps_ask.2 ⟨⟨Artifact.ballotKey_mem id, past, found, rfl, ?_⟩,
      fun _ => drawn_proper _⟩)
    rintro artifact rfl same
    obtain ⟨-, b, rfl⟩ := Artifact.of_keyFor_eq_ballotKey same.symm
    exact other b rfl

theorem preview_proper :
    (preview id).Keeps (Proper id) (fun _ _ => True) (fun _ _ => True) past := by
  unfold preview converted
  refine keeps_bind.2 (keeps_ask.2 ⟨Artifact.previewKey_mem id, fun found => ?_⟩)
  split
  · exact keeps_pure.2 trivial
  · rename_i other
    refine keeps_bind.2 (keeps_ask.2 ⟨⟨Artifact.previewKey_mem id, past, found, rfl, ?_⟩,
      fun _ => keeps_bind.2 ?_⟩)
    · rintro artifact rfl same
      obtain ⟨-, png, rfl⟩ := Artifact.of_keyFor_eq_previewKey same.symm
      exact other png rfl
    · refine ballot_proper.mono (fun past b _ => ?_) fun _ _ _ => trivial
      refine keeps_bind.2 (keeps_ask.2 ⟨trivial, fun _ => keeps_bind.2 (keeps_orFault.2
        ⟨fun png _ => ?_, fun _ _ => trivial⟩)⟩)
      exact keeps_bind.2 (keeps_ask.2 ⟨rfl, fun _ => keeps_pure.2 trivial⟩)

end Rendering

inductive ArtifactCall
  | ballot (id : Int)
  | preview (id : Int)
  | invalidate (id : Int)
  deriving DecidableEq

namespace ArtifactCall

def election : ArtifactCall → Int
  | ballot id | preview id | invalidate id => id

@[reducible]
def Result : ArtifactCall → Type
  | ballot _ => Ballot
  | preview _ => ByteArray
  | invalidate _ => Unit

def handler : (call : ArtifactCall) → Handler call.Result
  | ballot id => Rendering.ballot id
  | preview id => Rendering.preview id
  | invalidate id => Rendering.invalidate id

/-- What a call may do next; one that drops artifacts does nothing else. -/
def May (call : ArtifactCall) (past : List Exchange) (step : Step) : Prop :=
  Rendering.Proper call.election past step ∧
    (call = invalidate call.election → ∃ key, step = .invalidate key)

theorem handler_keeps (call : ArtifactCall) :
    call.handler.Keeps call.May (fun _ _ => True) (fun _ _ => True) [] := by
  cases call with
  | ballot id => exact Script.Keeps.weaken Rendering.ballot_proper fun _ _ proper => ⟨proper, nofun⟩
  | preview id => exact Script.Keeps.weaken Rendering.preview_proper fun _ _ proper => ⟨proper, nofun⟩
  | invalidate id =>
    refine Handler.keeps_bind.2 (Handler.keeps_ask.2 ⟨?_, fun _ => Handler.keeps_ask.2 ⟨?_, ?_⟩⟩)
    · exact ⟨Artifact.ballotKey_mem id, fun _ => ⟨_, rfl⟩⟩
    · exact ⟨Artifact.previewKey_mem id, fun _ => ⟨_, rfl⟩⟩
    · exact fun _ => trivial

end ArtifactCall

namespace ArtifactService

structure Task where
  call : ArtifactCall
  past : List Exchange
  left : Script (Except Fault call.Result)

end ArtifactService

structure ArtifactService where
  state : State
  tasks : List ArtifactService.Task

namespace ArtifactService

inductive Event
  | called (call : ArtifactCall)
  | acted (call : ArtifactCall) (did : Exchange)
  | beside

/-- One event: a call is made, or one that is under way takes its next step, with any outcome, or
something happens to the records or the archive. A call that is given up takes no more steps. -/
inductive Next : ArtifactService → Event → ArtifactService → Prop
  | called (S : ArtifactService) (call : ArtifactCall) :
    Next S (.called call) ⟨S.state, S.tasks ++ [⟨call, [], call.handler.run⟩]⟩
  | acted {S : ArtifactService} {i : Nat} {call : ArtifactCall} {past : List Exchange} {step : Step}
      {next : step.Answer → Script (Except Fault call.Result)}
      (waits : S.tasks[i]? = some ⟨call, past, .call step next⟩) (outcome : step.Outcome) :
    Next S (.acted call ⟨step, (S.state.perform step outcome).1⟩)
      ⟨(S.state.perform step outcome).2,
        S.tasks.set i ⟨call, past ++ [⟨step, (S.state.perform step outcome).1⟩],
          next (S.state.perform step outcome).1⟩⟩
  | beside (S : ArtifactService) (store : Store) (archive : Archive) :
    Next S .beside ⟨{ S.state with store, archive }, S.tasks⟩

/-- What a service comes to that began with an empty cache. -/
inductive Reached (cacheBytes : UInt64) : ArtifactService → Prop
  | start (store : Store) (archive : Archive) :
    Reached cacheBytes ⟨⟨store, .empty cacheBytes, archive⟩, []⟩
  | next {S T : ArtifactService} {e : Event} (before : Reached cacheBytes S) (next : Next S e T) :
    Reached cacheBytes T

/-- What a call has found is of the kind it looked for, and where it goes on to make an artifact it had
found nothing. -/
structure Task.Sound (task : Task) : Prop where
  keeps : task.left.Keeps task.call.May (fun _ _ => True) task.past
  hits : ∀ key artifact, ⟨.lookUp key, some artifact⟩ ∈ task.past →
    key = artifact.keyFor task.call.election
  misses : ∀ before key g after, task.past = before ++ ⟨.generation key, g⟩ :: after →
    ∃ earlier, before = earlier ++ [⟨.lookUp key, none⟩]

structure Ordered (S : ArtifactService) : Prop where
  distinct : S.state.cache.Distinct
  kinds : ∀ e ∈ S.state.cache.entries, ∃ id, e.key = e.value.keyFor id
  tasks : ∀ task ∈ S.tasks, task.Sound

variable {S T : ArtifactService} {e : Event} {cacheBytes : UInt64}

theorem sound_called (call : ArtifactCall) : Task.Sound ⟨call, [], call.handler.run⟩ := by
  refine ⟨?_, nofun, fun before key g after split => ?_⟩
  · refine Script.Keeps.mono call.handler_keeps ?_
    rintro past (fault | result) _ <;> trivial
  · exact absurd split.symm (by simp)

theorem Ordered.keyFor_of_hit (ordered : S.Ordered) {id : Int} {key : String} {artifact : Artifact}
    (own : key ∈ Artifact.keysOf id) (hit : (S.state.cache.get key).1 = some artifact) :
    key = artifact.keyFor id := by
  obtain ⟨e, member, rfl, rfl⟩ := Cache.holds_of_get hit
  obtain ⟨id', under⟩ := ordered.kinds e member
  have same := Artifact.eq_of_keysOf own (under ▸ Artifact.keyFor_mem id' e.value)
  rw [same, under]

theorem Ordered.sound_acted (ordered : S.Ordered) {call : ArtifactCall} {past : List Exchange}
    {step : Step} {next : step.Answer → Script (Except Fault call.Result)}
    (sound : Task.Sound ⟨call, past, .call step next⟩) (outcome : step.Outcome) :
    Task.Sound ⟨call, past ++ [⟨step, (S.state.perform step outcome).1⟩],
      next (S.state.perform step outcome).1⟩ := by
  obtain ⟨⟨⟨proper, -⟩, kept⟩, hits, misses⟩ := sound
  refine ⟨kept _, fun key artifact found => ?_, fun before key g after split => ?_⟩
  · rcases List.mem_append.1 found with old | new
    · exact hits key artifact old
    · have last := List.mem_singleton.1 new
      obtain rfl : Step.lookUp key = step := congrArg Exchange.step last
      have hit : some artifact = (S.state.cache.get key).1 := eq_of_heq (Exchange.mk.inj last).2
      exact ordered.keyFor_of_hit proper hit.symm
  · rcases List.eq_nil_or_concat after with rfl | ⟨after, last, rfl⟩
    -- The step read the generation: a hit just before it would have been of the kind that ends
    -- the call.
    · obtain ⟨rfl, same⟩ := List.append_inj' split rfl
      obtain rfl : step = .generation key := congrArg Exchange.step (List.singleton_inj.1 same)
      obtain ⟨-, earlier, found, rfl, other⟩ := proper
      cases found with
      | none => exact ⟨earlier, rfl⟩
      | some artifact =>
        have here : ⟨.lookUp key, some artifact⟩ ∈ earlier ++
            [(⟨.lookUp key, some artifact⟩ : Exchange)] := List.mem_append_right _ (.head _)
        exact absurd (hits key artifact here) (other artifact rfl)
    · rw [List.concat_eq_append, ← List.cons_append, ← List.append_assoc] at split
      exact misses before key g after (List.append_inj' split rfl).1

theorem Ordered.next (ordered : S.Ordered) (next : Next S e T) : T.Ordered := by
  cases next with
  | called call =>
    refine ⟨ordered.distinct, ordered.kinds, fun task member => ?_⟩
    rcases List.mem_append.1 member with old | new
    · exact ordered.tasks task old
    · obtain rfl := List.mem_singleton.1 new
      exact sound_called call
  | @acted i call past step next waits outcome =>
    have sound := ordered.tasks _ (List.mem_of_getElem? waits)
    refine ⟨?_, fun e member => ?_, fun task member => ?_⟩
    · rw [State.perform_cache]
      exact ordered.distinct.after step
    · rw [State.perform_cache] at member
      rcases Cache.mem_entries_after ordered.distinct member with ⟨old, -⟩ | ⟨g, rfl, -⟩
      · exact ordered.kinds e old
      · exact ⟨call.election, sound.keeps.1.1⟩
    · rcases List.mem_or_eq_of_mem_set member with old | rfl
      · exact ordered.tasks task old
      · exact ordered.sound_acted sound outcome
  | beside store archive => exact ⟨ordered.distinct, ordered.kinds, ordered.tasks⟩

theorem Reached.ordered (reached : Reached cacheBytes S) : S.Ordered := by
  induction reached with
  | start store archive => exact ⟨List.nodup_nil, nofun, nofun⟩
  | next before next ih => exact ih.next next

theorem Ordered.spares (ordered : S.Ordered) {id : Int} {did : Exchange}
    (next : Next S (.acted (.invalidate id) did) T) :
    Cache.Spares id S.state.cache T.state.cache := by
  generalize acted : Event.acted (.invalidate id) did = e at next
  cases next with
  | called call => cases acted
  | @acted i call past step rest waits outcome =>
    cases acted
    obtain ⟨own, drops⟩ := (ordered.tasks _ (List.mem_of_getElem? waits)).keeps.1
    obtain ⟨key, rfl⟩ := drops rfl
    exact Cache.spares_invalidate ordered.distinct own
  | beside store archive => cases acted

theorem run_invalidate {σ : Type} (w : Script.World σ) (st : State) (outside : σ)
    (distinct : st.cache.Distinct) (id : Int) :
    let c := ((Rendering.invalidate id).run.run w st outside).2.1.cache
    Cache.Spares id st.cache c ∧
      c.entries = st.cache.entries.filter fun e => Cache.isBeside id e.key := by
  have distinct' := distinct.invalidate (Artifact.ballotKey id)
  have first := Cache.spares_invalidate distinct (Artifact.ballotKey_mem id)
  have second := Cache.spares_invalidate distinct' (Artifact.previewKey_mem id)
  refine ⟨first.trans second, ?_⟩
  change ((st.cache.invalidate (Artifact.ballotKey id)).invalidate (Artifact.previewKey id)).entries = _
  rw [Cache.invalidate_entries, Cache.eraseP_eq_filter distinct', Cache.invalidate_entries,
    Cache.eraseP_eq_filter distinct, List.filter_filter]
  refine List.filter_congr fun e _ => ?_
  exact Bool.eq_iff_iff.2 (by simp [Cache.isBeside, Artifact.keysOf, and_comm])

/-- The keys tell elections and kinds apart. So whatever calls have been made of the service, a key
holds artifacts of its own kind only; a call goes on to make an artifact only if it found nothing; and
a call that drops the artifacts of an election leaves all others, in their order, and their
generations, at each of its steps and as a whole. -/
theorem kinds_apart :
    (∀ a b : Int,
      (Artifact.ballotKey a = Artifact.ballotKey b → a = b) ∧
      (Artifact.previewKey a = Artifact.previewKey b → a = b) ∧
      Artifact.ballotKey a ≠ Artifact.previewKey b ∧
      (a ≠ b → ∀ key ∈ Artifact.keysOf b, Cache.isBeside a key)) ∧
    ∀ cacheBytes S, Reached cacheBytes S →
      (∀ id artifact,
        (S.state.cache.Holds (Artifact.ballotKey id) artifact → ∃ b, artifact = .ballot b) ∧
        (S.state.cache.Holds (Artifact.previewKey id) artifact → ∃ png, artifact = .preview png)) ∧
      (∀ task ∈ S.tasks, ∀ before key g after,
        task.past = before ++ ⟨.generation key, g⟩ :: after →
          ∃ earlier, before = earlier ++ [⟨.lookUp key, none⟩]) ∧
      ∀ id,
        (∀ did T, Next S (.acted (.invalidate id) did) T →
          Cache.Spares id S.state.cache T.state.cache) ∧
        ∀ {σ : Type} (w : Script.World σ) (outside : σ),
          let c := ((Rendering.invalidate id).run.run w S.state outside).2.1.cache
          Cache.Spares id S.state.cache c ∧
            c.entries = S.state.cache.entries.filter fun e => Cache.isBeside id e.key := by
  refine ⟨fun a b => ⟨Artifact.ballotKey_injective, Artifact.previewKey_injective,
    Artifact.ballotKey_ne_previewKey a b, fun other key of => ?_⟩, fun cacheBytes S reached => ?_⟩
  · exact decide_eq_true fun own => other (Artifact.eq_of_keysOf own of)
  · have ordered := reached.ordered
    refine ⟨fun id artifact => ⟨?_, ?_⟩, fun task member => (ordered.tasks task member).misses,
      fun id => ⟨fun did T => ordered.spares, fun w outside => ?_⟩⟩
    · rintro ⟨e, member, is, rfl⟩
      obtain ⟨id', under⟩ := ordered.kinds e member
      exact (Artifact.of_keyFor_eq_ballotKey (under.symm.trans is)).2
    · rintro ⟨e, member, is, rfl⟩
      obtain ⟨id', under⟩ := ordered.kinds e member
      exact (Artifact.of_keyFor_eq_previewKey (under.symm.trans is)).2
    · exact run_invalidate w S.state outside ordered.distinct id

theorem Reached.finish {σ : Type} {call : ArtifactCall} {past : List Exchange}
    {left : Script (Except Fault call.Result)} {i : Nat} (reached : Reached cacheBytes S)
    (waits : S.tasks[i]? = some ⟨call, past, left⟩) (w : Script.World σ) (outside : σ) :
    Reached cacheBytes ⟨(left.run w S.state outside).2.1,
      S.tasks.set i ⟨call, past ++ left.exchanges w S.state outside,
        .done (left.run w S.state outside).1⟩⟩ := by
  induction left generalizing S past outside with
  | done result =>
    obtain ⟨known, same⟩ := List.getElem?_eq_some_iff.1 waits
    have unchanged : S.tasks.set i ⟨call, past, .done result⟩ = S.tasks := by
      rw [← same, List.set_getElem_self]
    rw [Script.exchanges, List.append_nil]
    simp only [Script.run]
    rwa [unchanged]
  | call step next ih =>
    have after := reached.next (.acted waits (w.decide step outside).1)
    obtain ⟨known, -⟩ := List.getElem?_eq_some_iff.1 waits
    have rest := ih _ after (List.getElem?_set_self known) (w.decide step outside).2
    rwa [List.set_set, List.append_assoc] at rest

theorem kinds_apart_previewed :
    let ballot := Sample.draw "\x7b\x7d"
    ∃ S T, Reached 100 S ∧ Next S (.acted (.invalidate 1) ⟨.invalidate "1", ()⟩) T ∧
      S.state.cache.entries =
        [⟨"1.png", .preview ballot.pdf, 2⟩, ⟨"1", .ballot ballot, 4⟩] ∧
      S.state.cache.Holds (Artifact.ballotKey 1) (.ballot ballot) ∧
      (∃ b, Artifact.ballot ballot = .ballot b) ∧
      T.state.cache.entries = [⟨"1.png", .preview ballot.pdf, 2⟩] ∧
      Cache.Spares 1 S.state.cache T.state.cache := by
  intro ballot
  let w : Script.World Unit := ⟨fun s _ => (s.calm Sample.draw id, ())⟩
  have start : Reached 100 _ := .start (Sample.created 100).store .empty
  have called := start.next (.called _ (.preview 1))
  have made := called.finish (i := 0) rfl w ()
  obtain ⟨S, T, dropping, acted, before, after⟩ : ∃ S T, Reached 100 S ∧
      Next S (.acted (.invalidate 1) ⟨.invalidate "1", ()⟩) T ∧
      S.state.cache.entries =
        [⟨"1.png", .preview ballot.pdf, 2⟩, ⟨"1", .ballot ballot, 4⟩] ∧
      T.state.cache.entries = [⟨"1.png", .preview ballot.pdf, 2⟩] :=
    ⟨_, _, made.next (.called _ (.invalidate 1)),
      @Next.acted _ 1 (.invalidate 1) [] (.invalidate "1") _ rfl (), rfl, rfl⟩
  obtain ⟨kinds, -, spares⟩ := kinds_apart.2 100 S dropping
  have holds : S.state.cache.Holds (Artifact.ballotKey 1) (.ballot ballot) :=
    ⟨⟨"1", .ballot ballot, 4⟩, by simp [before], rfl, rfl⟩
  exact ⟨S, T, dropping, acted, before, holds, (kinds 1 (.ballot ballot)).1 holds, after,
    (spares 1).1 _ T acted⟩

end ArtifactService

end BallotServer
