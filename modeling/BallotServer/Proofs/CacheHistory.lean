import BallotServer.Proofs.CacheEntries
import BallotServer.Proofs.System

/-! What a run leaves in the cache. A key's generation counts the invalidations of the key, and an
artifact that stands in the cache was kept by one of the requests, under the generation of that
moment, with no invalidation of its key since. -/

namespace BallotServer

def Cache.after (c : Cache) : Step → Cache
  | .lookUp key => (c.get key).2
  | .keep key artifact generation =>
    (c.putIfCurrent key artifact artifact.size.toUInt64 generation).2
  | .invalidate key => c.invalidate key
  | _ => c

theorem State.perform_cache (st : State) (s : Step) (outcome : s.Outcome) :
    (st.perform s outcome).2.cache = st.cache.after s := by
  cases s with
  | connect => cases outcome <;> rfl
  | readElection id => cases outcome <;> rfl
  | writeElection id owner text =>
    cases outcome with
    | some e => rfl
    | none => simp only [perform]; split <;> rfl
  | _ => rfl

theorem Cache.generation_after (c : Cache) (s : Step) (key : String) :
    (c.after s).generation key = c.generation key + if s = .invalidate key then 1 else 0 := by
  cases s with
  | lookUp k => simp [after]
  | keep k artifact generation => simp [after, putIfCurrent_generation]
  | invalidate k =>
    rw [after, invalidate_generation]
    by_cases same : k = key
    · simp [same]
    · simp [same, Ne.symm same]
  | _ => rfl

theorem Cache.Distinct.after {c : Cache} (h : c.Distinct) (s : Step) : (c.after s).Distinct := by
  cases s with
  | lookUp key => exact h.get key
  | keep key artifact generation =>
    by_cases current : c.generation key = generation
    · rw [Cache.after, putIfCurrent, if_pos current]
      exact h.put ..
    · rw [Cache.after, putIfCurrent, if_neg current]
      exact h
  | invalidate key => exact h.invalidate key
  | _ => exact h

theorem Cache.mem_entries_after {c : Cache} (h : c.Distinct) {s : Step} {e : Cache.Entry}
    (member : e ∈ (c.after s).entries) :
    e ∈ c.entries ∧ s ≠ .invalidate e.key ∨
      ∃ generation, s = .keep e.key e.value generation ∧ c.generation e.key = generation := by
  cases s with
  | lookUp key => exact .inl ⟨(c.get_perm key).mem_iff.1 member, nofun⟩
  | keep key artifact generation =>
    by_cases current : c.generation key = generation
    · rw [Cache.after, putIfCurrent, if_pos current] at member
      rcases List.mem_cons.1 ((c.put_sublist ..).subset member) with rfl | old
      · exact .inr ⟨generation, rfl, current⟩
      · exact .inl ⟨List.mem_of_mem_eraseP old, nofun⟩
    · rw [Cache.after, putIfCurrent, if_neg current] at member
      exact .inl ⟨member, nofun⟩
  | invalidate key =>
    rw [Cache.after, invalidate_entries] at member
    obtain ⟨old, other⟩ := (mem_eraseP h).1 member
    exact .inl ⟨old, fun same => other (Step.invalidate.inj same).symm⟩
  | _ => exact .inl ⟨member, nofun⟩

def Event.invalidates (key : String) : Event → Bool
  | arrival _ _ => false
  | act _ did => did.step = .invalidate key

def invalidations (key : String) (es : List Event) : Nat := es.countP (Event.invalidates key)

theorem invalidations_append (key : String) (es es' : List Event) :
    invalidations key (es ++ es') = invalidations key es + invalidations key es' :=
  List.countP_append

theorem invalidations_singleton (key : String) (i : Nat) (did : Exchange) :
    invalidations key [.act i did] = if did.step = .invalidate key then 1 else 0 := by
  simp [invalidations, Event.invalidates, List.countP_cons]

theorem invalidations_pos {key : String} {i : Nat} {es : List Event}
    (member : .act i ⟨.invalidate key, ()⟩ ∈ es) : 0 < invalidations key es :=
  List.countP_pos_iff.2 ⟨_, member, by simp [Event.invalidates]⟩

namespace System

variable {site : Site} {S T U : System} {es es' : List Event} {i : Nat}

theorem Next.cache {did : Exchange} (next : Next site T (.act i did) U) :
    U.state.cache = T.state.cache.after did.step := by
  obtain ⟨outcome, -, after⟩ := next.performs
  rw [after, State.perform_cache]

theorem Run.generation (run : Run site S es T) (key : String) :
    T.state.cache.generation key = S.state.cache.generation key + invalidations key es := by
  induction run with
  | nil => rfl
  | @snoc es T U e run next ih =>
    rw [invalidations_append]
    cases e with
    | arrival j request =>
      cases next
      exact ih
    | act j did =>
      rw [next.cache, Cache.generation_after, invalidations_singleton, ih, Nat.add_assoc]

theorem Run.invalidations_eq_zero {before after : List Event} {key : String} {artifact : Artifact}
    {g : Nat} {j : Nat}
    (run : Run site S (before ++ .act i ⟨.generation key, g⟩ :: after ++
      .act j ⟨.keep key artifact g, true⟩ :: es) T) : invalidations key after = 0 := by
  obtain ⟨V, W, toKeep, keep, -⟩ := run.at
  obtain ⟨P, Q, toRead, read, between⟩ := toKeep.at
  obtain ⟨outcome, answer, -⟩ := read.performs
  obtain ⟨outcome', kept, -⟩ := keep.performs
  have token : g = P.state.cache.generation key := answer
  have current := (Cache.putIfCurrent_eq_true kept.symm).1
  have counted := between.generation key
  rw [read.cache, Cache.generation_after, if_neg nofun] at counted
  omega

theorem Run.distinct (run : Run site S es T) (distinct : S.state.cache.Distinct) :
    T.state.cache.Distinct := by
  induction run with
  | nil => exact distinct
  | @snoc es T U e run next ih =>
    cases e with
    | arrival j request =>
      cases next
      exact ih
    | act j did =>
      rw [next.cache]
      exact ih.after did.step

theorem Next.kept {event : Event} (next : Next site T event U) (distinct : T.state.cache.Distinct)
    {e : Cache.Entry} (member : e ∈ U.state.cache.entries) :
    e ∈ T.state.cache.entries ∧ invalidations e.key [event] = 0 ∨
      ∃ j g, event = .act j ⟨.keep e.key e.value g, true⟩ := by
  cases event with
  | arrival j request =>
    cases next
    exact .inl ⟨member, rfl⟩
  | act j did =>
    rw [next.cache] at member
    rcases Cache.mem_entries_after distinct member with ⟨old, other⟩ | ⟨g, is, current⟩
    · refine .inl ⟨old, ?_⟩
      rw [invalidations_singleton, if_neg other]
    · obtain ⟨step, answer⟩ := did
      subst is
      obtain ⟨outcome, kept, -⟩ := next.performs
      have accepted : answer = true := by
        change answer = (T.state.cache.putIfCurrent e.key e.value _ g).1 at kept
        rw [kept, Cache.putIfCurrent, if_pos current]
      rw [accepted]
      exact .inr ⟨j, g, rfl⟩

/-- Whatever stands in the cache was kept in the run, and its key was not invalidated since. -/
theorem Run.kept (run : Run site S es T) (empty : S.state.cache.entries = []) {e : Cache.Entry}
    (member : e ∈ T.state.cache.entries) :
    ∃ before j g after, es = before ++ .act j ⟨.keep e.key e.value g, true⟩ :: after ∧
      invalidations e.key after = 0 := by
  have distinct : S.state.cache.Distinct := by
    unfold Cache.Distinct
    rw [empty]
    exact List.nodup_nil
  induction run with
  | nil => simp [empty] at member
  | @snoc es T U event run next ih =>
    rcases next.kept (run.distinct distinct) member with ⟨old, none⟩ | ⟨j, g, rfl⟩
    · obtain ⟨before, j, g, after, rfl, none'⟩ := ih old
      refine ⟨before, j, g, after ++ [event], List.append_assoc .., ?_⟩
      rw [invalidations_append, none, none']
    · exact ⟨es, j, g, [], rfl, rfl⟩

theorem Run.keyed (run : Run site S es T) (idle : S.tasks = [])
    (empty : S.state.cache.entries = []) {key : String} {artifact : Artifact}
    (holds : T.state.cache.Holds key artifact) : ∃ id, key = artifact.keyFor id := by
  obtain ⟨e, member, rfl, rfl⟩ := holds
  obtain ⟨before, j, g, after, rfl, -⟩ := run.kept empty member
  obtain ⟨request, -, id, -, -, -, under, -, -⟩ := run.conduct idle
  exact ⟨id, under⟩

theorem Run.holds_of_hit {key : String} {artifact : Artifact}
    (run : Run site S (es ++ .act i ⟨.lookUp key, some artifact⟩ :: es') U) :
    ∃ T, Run site S es T ∧ T.state.cache.Holds key artifact := by
  obtain ⟨T, T', first, next, -⟩ := run.at
  obtain ⟨outcome, answer, -⟩ := next.performs
  exact ⟨T, first, Cache.holds_of_get answer.symm⟩

end System

end BallotServer
