import BallotServer.Proofs.Turns

/-! Each version of an election is rendered once. Under a cache that has room for the largest
artifacts of all elections that are asked for, an artifact stands in the cache exactly if it was made
since the election was last written; so it is made at most once until the next write, and after that
neither the store nor its backend is asked again. What failed is not remembered. -/

namespace BallotServer

/-- How often something was made for a key since the last write of an election. -/
def Turn.times (id : Int) (key : String) (turns : List Turn) : ℕ :=
  (madeFor key (since id turns)).length

/-- What the cache knows of the turns so far: an artifact is there if and only if it was made since
the last write, and that was once at most. -/
structure Remembers (keys : Finset String) (allowed : String → ℕ) (turns : List Turn)
    (c : Cache) : Prop where
  within : c.Within keys allowed
  present : ∀ id, ∀ key ∈ Artifact.keysOf id, (c.Present key ↔ 0 < Turn.times id key turns)
  once : ∀ id, ∀ key ∈ Artifact.keysOf id, Turn.times id key turns ≤ 1
  paired : ∀ id, c.Present (Artifact.previewKey id) → c.Present (Artifact.ballotKey id)

variable {σ : Type} {site : Site} {st : State} {v : Visit σ} {keys : Finset String}
  {allowed : String → ℕ} {served : List Turn}

theorem Turn.times_concat (id : Int) (key : String) (turns : List Turn) (t : Turn) :
    times id key (turns ++ [t]) =
      if t.writes id then 0 else times id key turns + (t.makes key).length := by
  unfold times
  rw [since_concat]
  split
  · rfl
  · rw [madeFor_concat, List.length_append]

namespace Remembers

theorem drops (remembers : Remembers keys allowed served st.cache)
    (unasked : v.operation.rendering? = none) :
    Remembers keys allowed (served ++ [v.turn site st]) (v.after site st).cache := by
  obtain ⟨within, present⟩ := v.drops unasked remembers.within
  have times (id : Int) (key : String) : Turn.times id key (served ++ [v.turn site st]) =
      if (v.turn site st).writes id then 0 else Turn.times id key served := by
    rw [Turn.times_concat, Turn.makes_of_plain unasked]
    rfl
  refine ⟨within, fun id key of => ?_, fun id key of => ?_, fun id there => ?_⟩
  · rw [present id key of, remembers.present id key of, times]
    cases (v.turn site st).writes id <;> simp
  · have once := remembers.once id key of
    rw [times]
    split <;> omega
  · obtain ⟨before, unwritten⟩ := (present id _ (Artifact.previewKey_mem id)).1 there
    exact (present id _ (Artifact.ballotKey_mem id)).2 ⟨remembers.paired id before, unwritten⟩

theorem grows (remembers : Remembers keys allowed served st.cache) (reachable : st.Reachable site)
    {id : Int} (asked : v.operation.rendering? = some id)
    (affordable : Affordable keys allowed id (artifactsOf (v.exchanges site st))) :
    Remembers keys allowed (served ++ [v.turn site st]) (v.after site st).cache := by
  have grown := v.grows reachable asked remembers.within affordable
  have times (k : Int) (key : String) : Turn.times k key (served ++ [v.turn site st]) =
      Turn.times k key served + ((v.turn site st).makes key).length := by
    rw [Turn.times_concat, Visit.unwritten (Option.isSome_of_eq_some asked)]
    rfl
  have makes (key : String) : 0 < ((v.turn site st).makes key).length ↔
      ∃ a ∈ artifactsOf (v.exchanges site st), a.keyFor id = key := by
    rw [List.length_pos_iff_exists_mem]
    exact exists_congr fun a => Turn.mem_makes asked
  refine ⟨grown.within, fun k key of => ?_, fun k key of => ?_, fun k there => ?_⟩
  · rw [grown.present, remembers.present k key of, times, ← makes]
    omega
  · have once := remembers.once k key of
    have made : ((v.turn site st).makes key).length ≤ 1 :=
      Turn.length_makes_le asked grown.once key
    rw [times]
    by_cases some : 0 < ((v.turn site st).makes key).length
    · obtain ⟨a, member, rfl⟩ := (makes key).1 some
      have absent := (remembers.present k _ of).not.1 (grown.absent a member)
      omega
    · omega
  · rcases (grown.present _).1 there with before | ⟨a, member, same⟩
    · exact (grown.present _).2 (.inl (remembers.paired k before))
    · obtain ⟨rfl, png, rfl⟩ := Artifact.of_keyFor_eq_previewKey same
      rcases v.course site st asked with ⟨-, result, course⟩ | ⟨-, result, course⟩
      · obtain ⟨b, is⟩ := course.made_ballot member
        cases is
      · have absent := grown.absent _ member
        rcases course.ballot_of_made (v.goes site st) absent member with before | ⟨b, made⟩
        · exact (grown.present _).2 (.inl before)
        · exact (grown.present _).2 (.inr ⟨_, made, rfl⟩)

theorem visit (remembers : Remembers keys allowed served st.cache) (reachable : st.Reachable site)
    (affordable : ∀ id, v.operation.rendering? = some id →
      Affordable keys allowed id (artifactsOf (v.exchanges site st))) :
    Remembers keys allowed (served ++ [v.turn site st]) (v.after site st).cache := by
  cases asked : v.operation.rendering? with
  | none => exact remembers.drops asked
  | some id => exact remembers.grows reachable asked (affordable id asked)

end Remembers

namespace Visit

def turns (site : Site) : State → List (Visit σ) → List Turn
  | _, [] => []
  | st, v :: later => v.turn site st :: turns site (v.after site st) later

theorem remembers_turns {visits : List (Visit σ)} {past before after : List Turn}
    (split : turns site st visits = before ++ after) (reachable : st.Reachable site)
    (affordable : ∀ t ∈ turns site st visits, ∀ id, t.operation.rendering? = some id →
      Affordable keys allowed id (artifactsOf t.past))
    (remembers : Remembers keys allowed past st.cache) :
    ∃ (st' : State) (later : List (Visit σ)), st'.Reachable site ∧ after = turns site st' later ∧
      Remembers keys allowed (past ++ before) st'.cache := by
  induction before generalizing visits st past with
  | nil => exact ⟨st, visits, reachable, split.symm, by rwa [List.append_nil]⟩
  | cons t before ih =>
    cases visits with
    | nil => cases split
    | cons v later =>
      obtain ⟨rfl, rest⟩ := List.cons.inj split
      rw [List.append_cons]
      exact ih rest (reachable.after v) (fun t member => affordable t (.tail _ member))
        (remembers.visit reachable (affordable _ (.head _)))

variable {id : Int}

theorem spared_of_ballot (reachable : st.Reachable site) (asked : v.operation.rendering? = some id)
    (there : st.cache.Present (Artifact.ballotKey id)) :
    ∀ x ∈ v.exchanges site st, x.step.isStorage = false ∧ x.step.isDraw = false := by
  have keyed := reachable.keyed v
  have goes := v.goes site st
  rcases v.course site st asked with ⟨-, result, course⟩ | ⟨-, result, course⟩
  · obtain ⟨b, is⟩ := course.hit_of_present goes keyed there
    simp [is, Step.isStorage, Step.isDraw]
  · by_cases preview : st.cache.Present (Artifact.previewKey id)
    · obtain ⟨png, is⟩ := course.hit_of_present goes keyed preview
      simp [is, Step.isStorage, Step.isDraw]
    · obtain ⟨before, new, after, ballot, mid, split, drew, inner, -, quiet, -⟩ :=
        course.ballot_of_absent goes preview
      rw [split] at keyed ⊢
      obtain ⟨b, rfl⟩ := inner.hit_of_present drew (keyed.mono (by simp)) there
      intro x member
      rcases List.mem_append.1 member with first | last
      · rcases List.mem_append.1 first with early | look
        · exact quiet x (List.mem_append_left _ early)
        · rw [List.mem_singleton.1 look]
          exact ⟨rfl, rfl⟩
      · exact quiet x (List.mem_append_right _ last)

theorem spared_of_preview (reachable : st.Reachable site) (asked : v.operation = .preview id)
    (there : st.cache.Present (Artifact.previewKey id)) :
    ∀ x ∈ v.exchanges site st, x.step.isStorage = false ∧ x.step.isBackend = false := by
  have ends := v.ends site st
  rw [asked] at ends
  obtain ⟨result, course, -⟩ := ends
  obtain ⟨png, is⟩ := course.hit_of_present (v.goes site st) (reachable.keyed v) there
  simp [is, Step.isStorage, Step.isBackend]

theorem drawn_of_absent (asked : v.operation.rendering? = some id)
    (absent : ¬st.cache.Present (Artifact.ballotKey id))
    (absent' : ¬st.cache.Present (Artifact.previewKey id)) :
    ∃ x ∈ v.exchanges site st, x.step.isDraw ∨ x.unread := by
  have goes := v.goes site st
  rcases v.course site st asked with ⟨-, result, course⟩ | ⟨-, result, course⟩
  · exact course.drawn_of_absent goes absent
  · obtain ⟨before, new, after, ballot, mid, split, drew, inner, -⟩ :=
      course.ballot_of_absent goes absent'
    obtain ⟨x, member, called⟩ := inner.drawn_of_absent drew absent
    exact ⟨x, by simp [split, member], called⟩

theorem converted_of_absent (asked : v.operation = .preview id)
    (absent : ¬st.cache.Present (Artifact.previewKey id)) :
    ∃ x ∈ v.exchanges site st, x.step.isConvert ∨ x.unread ∨ x.backendFailed := by
  have ends := v.ends site st
  rw [asked] at ends
  obtain ⟨result, course, -⟩ := ends
  obtain ⟨before, new, after, ballot, mid, split, drew, inner, -, -, ends⟩ :=
    course.ballot_of_absent (v.goes site st) absent
  rcases ends with ⟨⟨fault, rfl⟩, -⟩ | ⟨-, x, member, converts⟩
  · obtain ⟨x, member, failed⟩ := inner.failed_of_error
    exact ⟨x, by simp [split, member], .inr failed⟩
  · exact ⟨x, by simp [split, member], .inl converts⟩

end Visit

namespace Turn

def largest (key : String) (turns : List Turn) : ℕ :=
  ((madeFor key turns).map Artifact.size).max?.getD 0

def rendered (turns : List Turn) : Finset Int :=
  (turns.filterMap fun t => t.operation.rendering?).toFinset

def keysOf (turns : List Turn) : Finset String :=
  (rendered turns).biUnion fun id => (Artifact.keysOf id).toFinset

theorem affordable {turns : List Turn} {t : Turn} (member : t ∈ turns) {id : Int}
    (asked : t.operation.rendering? = some id) :
    Affordable (keysOf turns) (fun key => largest key turns) id (artifactsOf t.past) := by
  intro a made
  constructor
  · refine Finset.mem_biUnion.2 ⟨id, ?_, List.mem_toFinset.2 ?_⟩
    · exact List.mem_toFinset.2 (List.mem_filterMap.2 ⟨t, member, asked⟩)
    · cases a with
      | ballot b => exact Artifact.ballotKey_mem id
      | preview png => exact Artifact.previewKey_mem id
  · have mine : a ∈ madeFor (a.keyFor id) turns :=
      List.mem_flatMap.2 ⟨t, member, (mem_makes asked).2 ⟨made, rfl⟩⟩
    exact List.le_max?_getD_of_mem (List.mem_map_of_mem mine)

theorem sum_keysOf (turns : List Turn) (allowed : String → ℕ) :
    ∑ key ∈ keysOf turns, allowed key =
      ∑ id ∈ rendered turns, (allowed (Artifact.ballotKey id) + allowed (Artifact.previewKey id)) := by
  have separate : (rendered turns : Set Int).PairwiseDisjoint
      fun id => (Artifact.keysOf id).toFinset := by
    intro a _ b _ other
    refine Finset.disjoint_left.2 fun key of of' => other ?_
    exact Artifact.eq_of_keysOf (List.mem_toFinset.1 of) (List.mem_toFinset.1 of')
  rw [keysOf, Finset.sum_biUnion separate]
  refine Finset.sum_congr rfl fun id _ => ?_
  rw [List.sum_toFinset allowed (Artifact.nodup_keysOf id)]
  simp [Artifact.keysOf]

end Turn

theorem remembers_start (keys : Finset String) (allowed : String → ℕ) (cacheBytes : UInt64)
    (room : ∑ key ∈ keys, allowed key ≤ cacheBytes.toNat) :
    Remembers keys allowed [] (.empty cacheBytes) where
  within := ⟨List.nodup_nil, nofun, rfl, room⟩
  present := by
    intro id key _
    simp [Cache.Present, Cache.empty, Turn.times, Turn.since, Turn.madeFor]
  once := fun id key _ => Nat.zero_le 1
  paired := by
    rintro id ⟨e, member, -⟩
    cases member

/-- From an empty cache on, for any row of requests over any store: if the cache has room for the
largest ballot and the largest preview made of each election asked for, all at once, then since the
last write of an election its ballot is drawn at most once with success, and its preview converted
at most once. After that neither the store nor the drawing is asked for the election again, and no
backend at all for the preview. Before that, each request tries again: it calls the backend, or it
cannot read the record or, for a preview, not draw the ballot. -/
theorem Visit.rendered_once (site : Site) (store : Store) (archive : Archive) (cacheBytes : UInt64)
    (visits : List (Visit σ)) (row : List Turn)
    (is : row = turns site ⟨store, .empty cacheBytes, archive⟩ visits)
    (room : ∑ id ∈ Turn.rendered row, (Turn.largest (Artifact.ballotKey id) row +
      Turn.largest (Artifact.previewKey id) row) ≤ cacheBytes.toNat) (id : Int) :
    (∀ before after, row = before ++ after →
      Turn.times id (Artifact.ballotKey id) before ≤ 1 ∧
        Turn.times id (Artifact.previewKey id) before ≤ 1) ∧
    ∀ before t after, row = before ++ t :: after → t.operation.rendering? = some id →
      (0 < Turn.times id (Artifact.ballotKey id) before →
        ∀ x ∈ t.past, x.step.isStorage = false ∧ x.step.isDraw = false) ∧
      (t.operation = .preview id → 0 < Turn.times id (Artifact.previewKey id) before →
        ∀ x ∈ t.past, x.step.isStorage = false ∧ x.step.isBackend = false) ∧
      (Turn.times id (Artifact.ballotKey id) before = 0 →
        ∃ x ∈ t.past, x.step.isDraw ∨ x.unread) ∧
      (t.operation = .preview id → Turn.times id (Artifact.previewKey id) before = 0 →
        ∃ x ∈ t.past, x.step.isConvert ∨ x.unread ∨ x.backendFailed) := by
  subst is
  rw [← Turn.sum_keysOf _ fun key => Turn.largest key _] at room
  have ready := remembers_start _ _ cacheBytes room
  have reachable : State.Reachable site ⟨store, .empty cacheBytes, archive⟩ :=
    ⟨store, archive, cacheBytes, [], _, .nil, rfl⟩
  have ballot := Artifact.ballotKey_mem id
  have preview := Artifact.previewKey_mem id
  constructor
  · intro before after split
    obtain ⟨st, later, -, -, known⟩ := remembers_turns split reachable
      (fun t member id asked => Turn.affordable member asked) ready
    exact ⟨known.once id _ ballot, known.once id _ preview⟩
  · intro before t after split asked
    obtain ⟨st, later, reachable', rest, known⟩ := remembers_turns split reachable
      (fun t member id asked => Turn.affordable member asked) ready
    cases later with
    | nil => cases rest
    | cons v later =>
      obtain ⟨rfl, -⟩ := List.cons.inj rest
      have here := known.present id _ ballot
      have here' := known.present id _ preview
      rw [List.nil_append] at here here'
      refine ⟨fun made => ?_, fun is made => ?_, fun unmade => ?_, fun is unmade => ?_⟩
      · exact spared_of_ballot reachable' asked (here.2 made)
      · exact spared_of_preview reachable' is (here'.2 made)
      · have absent : ¬st.cache.Present (Artifact.ballotKey id) := by
          rw [here]
          omega
        exact drawn_of_absent asked absent fun there => absent (known.paired id there)
      · have absent : ¬st.cache.Present (Artifact.previewKey id) := by
          rw [here']
          omega
        exact converted_of_absent is absent

namespace Sample

def previews : List (Visit Unit) :=
  [get "/election/1.pdf", get "/election/1.png", get "/election/1.png"]

def previewTurns : List Turn :=
  Visit.turns Sample.site ⟨(created 100).store, .empty 100, .empty⟩ previews

theorem previewTurns_room : ∑ id ∈ Turn.rendered previewTurns,
    (Turn.largest (Artifact.ballotKey id) previewTurns +
      Turn.largest (Artifact.previewKey id) previewTurns) ≤ (100 : UInt64).toNat := by
  decide +kernel

end Sample

theorem Visit.rendered_once_created :
    Turn.times 1 (Artifact.ballotKey 1) Sample.previewTurns = 1 ∧
      ∃ t, Sample.previewTurns = Sample.previewTurns.take 2 ++ [t] ∧
        0 < Turn.times 1 (Artifact.previewKey 1) (Sample.previewTurns.take 2) ∧
        ∀ x ∈ t.past, x.step.isStorage = false ∧ x.step.isBackend = false := by
  obtain ⟨once, called⟩ := rendered_once Sample.site (Sample.created 100).store .empty 100
    Sample.previews Sample.previewTurns rfl Sample.previewTurns_room 1
  have drawn : 0 < Turn.times 1 (Artifact.ballotKey 1) Sample.previewTurns := by decide +kernel
  have converted : 0 < Turn.times 1 (Artifact.previewKey 1) (Sample.previewTurns.take 2) := by
    decide +kernel
  refine ⟨Nat.le_antisymm (once _ [] (List.append_nil _).symm).1 drawn, _, rfl, converted, ?_⟩
  exact (called _ _ [] rfl rfl).2.1 rfl converted

end BallotServer
