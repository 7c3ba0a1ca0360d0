import BallotServer.Proofs.CacheHistory
import BallotServer.Proofs.StoreHistory

/-! Where artifacts come from. A ballot is drawn from a text that was read before, and a preview is
converted from a ballot that was drawn before; what is in the cache, or is shown, was made by such
steps of the run, if not of one request then of several. If a run is cut in two and both keys of an
election are invalidated after the cut, the ballot's first, then all these steps lie after the cut.
That is so because a generation is read before the record: a ballot from before the cut cannot be
kept after the first invalidation, and a preview made from such a ballot had its own generation read
before the second. -/

namespace BallotServer

/-- The artifact was made in these events from this text of the election. -/
def Derived (id : Int) (text : String) (es : List Event) : Artifact → Prop
  | .ballot b => ∃ (i : Nat) (e : Election), e.text = text ∧
    [Event.act i ⟨.readElection id, .ok e⟩, .act i ⟨.draw text, .ok b⟩].Sublist es
  | .preview png => ∃ (i j : Nat) (e : Election) (b : Ballot), e.text = text ∧
    [Event.act i ⟨.readElection id, .ok e⟩, .act i ⟨.draw text, .ok b⟩,
      .act j ⟨.convert b.pdf, .ok png⟩].Sublist es

section Derived

variable {id : Int} {text : String} {es es' : List Event} {artifact : Artifact} {b : Ballot}
  {png : ByteArray} {i j : Nat}

theorem Derived.mono (derived : Derived id text es artifact) (sublist : es.Sublist es') :
    Derived id text es' artifact := by
  cases artifact with
  | ballot b =>
    obtain ⟨i, e, of, steps⟩ := derived
    exact ⟨i, e, of, steps.trans sublist⟩
  | preview png =>
    obtain ⟨i, j, e, b, of, steps⟩ := derived
    exact ⟨i, j, e, b, of, steps.trans sublist⟩

theorem Derived.read (derived : Derived id text es artifact) :
    ∃ (i : Nat) (e : Election), e.text = text ∧ .act i ⟨.readElection id, .ok e⟩ ∈ es := by
  cases artifact with
  | ballot b =>
    obtain ⟨i, e, of, steps⟩ := derived
    exact ⟨i, e, of, steps.subset List.mem_cons_self⟩
  | preview png =>
    obtain ⟨i, j, e, b, of, steps⟩ := derived
    exact ⟨i, e, of, steps.subset List.mem_cons_self⟩

theorem derived_of_drew (drew : Rendering.Drew id (exchangesOf i es) b) :
    ∃ text, Derived id text es (.ballot b) := by
  obtain ⟨e, order⟩ := drew
  exact ⟨e.text, i, e, rfl, (order.map (Event.act i)).trans (map_act_sublist i es)⟩

theorem Derived.convert (derived : Derived id text es (.ballot b))
    (converted : .act j ⟨.convert b.pdf, .ok png⟩ ∈ es') :
    Derived id text (es ++ es') (.preview png) := by
  obtain ⟨i, e, of, steps⟩ := derived
  exact ⟨i, j, e, b, of, steps.append (List.singleton_sublist.2 converted)⟩

end Derived

theorem suffix_of_invalidations {x y z w : List Event} {key : String} (same : x ++ y = z ++ w)
    (fewer : invalidations key w < invalidations key y) : ∃ u, y = u ++ w := by
  rcases List.append_eq_append_iff.1 same with ⟨u, -, rest⟩ | ⟨u, -, rest⟩
  · exact ⟨u, rest⟩
  · rw [rest, invalidations_append] at fewer
    omega

/-- Nothing that was begun in the first events is kept after the second. -/
def Cleared (id : Int) (first second : List Event) : Prop :=
  first = [] ∨ ∃ y z, second = y ++ z ∧ 0 < invalidations (Artifact.ballotKey id) y ∧
    0 < invalidations (Artifact.previewKey id) z

theorem Cleared.append {id : Int} {x y : List Event} (cleared : Cleared id x y) (z : List Event) :
    Cleared id x (y ++ z) := by
  refine cleared.imp_right ?_
  rintro ⟨u, v, rfl, ballot, preview⟩
  refine ⟨u, v ++ z, List.append_assoc .., ballot, ?_⟩
  rw [invalidations_append]
  omega

theorem Cleared.ballot {id : Int} {x y : List Event} (cleared : Cleared id x y) :
    x = [] ∨ 0 < invalidations (Artifact.ballotKey id) y := by
  refine cleared.imp_right ?_
  rintro ⟨u, v, rfl, ballot, -⟩
  rw [invalidations_append]
  omega

namespace System

variable {site : Site} {S T : System} {x y u v w : List Event} {id : Int} {j : Nat}
  {artifact : Artifact}

theorem Run.made_since (run : Run site S (x ++ y) T) (idle : S.tasks = [])
    (empty : S.state.cache.entries = []) {key : String}
    (cut : x = [] ∨ 0 < invalidations key y) (holds : T.state.cache.Holds key artifact) :
    ∃ id j u v w, y = u ++ v ++ w ∧ key = artifact.keyFor id ∧
      Rendering.Made id (exchangesOf j v) artifact := by
  obtain ⟨e, member, rfl, rfl⟩ := holds
  obtain ⟨before, j, g, after, all, dry⟩ := run.kept empty member
  rw [all] at run
  obtain ⟨request, -, id, p, q, past, under, made, -⟩ := run.conduct idle
  obtain ⟨a, b, rfl, -, rfl⟩ := split_exchangesOf past
  have dry' : invalidations e.key b = 0 := run.invalidations_eq_zero
  have tail : ∃ u, y = u ++ (b ++ .act j ⟨.keep e.key e.value g, true⟩ :: after) := by
    rcases cut with rfl | dropped
    · refine ⟨a ++ [.act j ⟨.generation e.key, g⟩], ?_⟩
      rw [← List.nil_append y, all]
      simp only [List.append_assoc, List.cons_append, List.nil_append]
    · have fewer : invalidations e.key (b ++ .act j ⟨.keep e.key e.value g, true⟩ :: after) <
          invalidations e.key y := by
        rw [invalidations_append, dry', ← List.singleton_append, invalidations_append, dry,
          invalidations_singleton, if_neg nofun]
        exact dropped
      refine suffix_of_invalidations (x := x) (z := a ++ [.act j ⟨.generation e.key, g⟩]) ?_ fewer
      rw [all]
      simp only [List.append_assoc, List.cons_append, List.nil_append]
  obtain ⟨u, rfl⟩ := tail
  exact ⟨id, j, u, b, _, (List.append_assoc ..).symm, under, made⟩

theorem Run.ballot_since (run : Run site S (x ++ y) T) (idle : S.tasks = [])
    (empty : S.state.cache.entries = [])
    (cut : x = [] ∨ 0 < invalidations (Artifact.ballotKey id) y)
    (holds : T.state.cache.Holds (Artifact.ballotKey id) artifact) :
    ∃ text, Derived id text y artifact := by
  obtain ⟨id', j, u, v, w, rfl, under, made⟩ := run.made_since idle empty cut holds
  obtain ⟨rfl, b, rfl⟩ := Artifact.of_keyFor_eq_ballotKey under.symm
  obtain ⟨text, derived⟩ := derived_of_drew made
  refine ⟨text, derived.mono ?_⟩
  rw [List.append_assoc]
  exact (List.sublist_append_left v w).trans (List.sublist_append_right u _)

theorem Run.found_since {b : Ballot}
    (run : Run site S
      (x ++ (u ++ .act j ⟨.lookUp (Artifact.ballotKey id), some (.ballot b)⟩ :: v)) T)
    (idle : S.tasks = []) (empty : S.state.cache.entries = [])
    (cut : x = [] ∨ 0 < invalidations (Artifact.ballotKey id) u) :
    ∃ text, Derived id text u (.ballot b) := by
  rw [← List.append_assoc] at run
  obtain ⟨U, before, holds⟩ := run.holds_of_hit
  exact before.ballot_since idle empty cut holds

theorem Run.derived_of_made (run : Run site S (x ++ (u ++ v)) T) (idle : S.tasks = [])
    (empty : S.state.cache.entries = [])
    (cut : x = [] ∨ 0 < invalidations (Artifact.ballotKey id) u)
    (made : Rendering.Made id (exchangesOf j v) artifact) :
    ∃ text, Derived id text (u ++ v) artifact := by
  cases artifact with
  | ballot b =>
    obtain ⟨text, derived⟩ := derived_of_drew made
    exact ⟨text, derived.mono (List.sublist_append_right u v)⟩
  | preview png =>
    obtain ⟨b, p, q, past, had⟩ := made
    obtain ⟨c, d, rfl, rfl, rfl⟩ := split_exchangesOf past
    have converted : .act j ⟨.convert b.pdf, .ok png⟩ ∈
        .act j ⟨.convert b.pdf, .ok png⟩ :: d := List.mem_cons_self
    rcases had with found | drew
    · obtain ⟨c₁, c₂, rfl⟩ := List.append_of_mem (mem_exchangesOf.1 found)
      have cut' : x = [] ∨ 0 < invalidations (Artifact.ballotKey id) (u ++ c₁) := by
        refine cut.imp_right fun dropped => ?_
        rw [invalidations_append]
        omega
      have split : u ++ (c₁ ++ .act j ⟨.lookUp (Artifact.ballotKey id), some (.ballot b)⟩ :: c₂ ++
          .act j ⟨.convert b.pdf, .ok png⟩ :: d) =
          u ++ c₁ ++ .act j ⟨.lookUp (Artifact.ballotKey id), some (.ballot b)⟩ ::
            (c₂ ++ .act j ⟨.convert b.pdf, .ok png⟩ :: d) := by
        simp only [List.append_assoc, List.cons_append]
      rw [Artifact.keyFor, split] at run ⊢
      obtain ⟨text, derived⟩ := run.found_since idle empty cut'
      exact ⟨text, derived.convert (.tail _ (List.mem_append_right c₂ converted))⟩
    · obtain ⟨text, derived⟩ := derived_of_drew drew
      exact ⟨text, (derived.convert converted).mono (List.sublist_append_right u _)⟩

theorem Run.preview_since (run : Run site S (x ++ (y ++ w)) T) (idle : S.tasks = [])
    (empty : S.state.cache.entries = [])
    (ballot : x = [] ∨ 0 < invalidations (Artifact.ballotKey id) y)
    (preview : x ++ y = [] ∨ 0 < invalidations (Artifact.previewKey id) w)
    (holds : T.state.cache.Holds (Artifact.previewKey id) artifact) :
    ∃ text, Derived id text (y ++ w) artifact := by
  rw [← List.append_assoc] at run
  obtain ⟨id', j, u, v, rest, rfl, under, made⟩ := run.made_since idle empty preview holds
  obtain ⟨rfl, -⟩ := Artifact.of_keyFor_eq_previewKey under.symm
  have split : x ++ y ++ (u ++ v ++ rest) = x ++ (y ++ u ++ v) ++ rest := by
    simp only [List.append_assoc]
  rw [split] at run
  obtain ⟨V, before, -⟩ := run.split
  have cut : x = [] ∨ 0 < invalidations (Artifact.ballotKey id') (y ++ u) := by
    refine ballot.imp_right fun dropped => ?_
    rw [invalidations_append]
    omega
  obtain ⟨text, derived⟩ := before.derived_of_made idle empty cut made
  refine ⟨text, derived.mono ?_⟩
  simp only [List.append_assoc]
  exact ((List.sublist_append_left v rest).append_left u).append_left y

theorem Run.held_since (run : Run site S (x ++ y) T) (idle : S.tasks = [])
    (empty : S.state.cache.entries = []) (cleared : Cleared id x y)
    (holds : T.state.cache.Holds (artifact.keyFor id) artifact) :
    ∃ text, Derived id text y artifact := by
  cases artifact with
  | ballot b => exact run.ballot_since idle empty cleared.ballot holds
  | preview png =>
    rcases cleared with rfl | ⟨y, z, rfl, ballot, preview⟩
    · rw [← List.nil_append y] at run ⊢
      exact run.preview_since idle empty (.inl rfl) (.inl rfl) holds
    · exact run.preview_since idle empty (.inr ballot) (.inr preview) holds

theorem Run.had_since (run : Run site S (x ++ (u ++ v)) T) (idle : S.tasks = [])
    (empty : S.state.cache.entries = []) (cleared : Cleared id x u)
    (has : Rendering.Has id (exchangesOf j v) artifact) :
    ∃ text, Derived id text (u ++ v) artifact := by
  rcases has with found | made
  · obtain ⟨c, d, rfl⟩ := List.append_of_mem (mem_exchangesOf.1 found)
    rw [← List.append_assoc u, ← List.append_assoc x] at run
    obtain ⟨U, before, holds⟩ := run.holds_of_hit
    obtain ⟨text, derived⟩ := before.held_since idle empty (cleared.append c) holds
    refine ⟨text, derived.mono ?_⟩
    rw [← List.append_assoc u]
    exact List.sublist_append_left _ _
  · exact run.derived_of_made idle empty cleared.ballot made

end System

end BallotServer
