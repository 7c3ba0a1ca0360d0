import BallotServer.Proofs.Derivation
import BallotServer.Proofs.Serving

/-! No stale artifact is kept or shown. Once a write of an election has invalidated its two keys,
what is in the cache, and what a request shows that takes its first step from then on, was derived
after the write. While no write of the election lacks its invalidations, it was derived from the
text that the record has now. -/

namespace BallotServer

/-- Made, since a text was written, from that text or from one written later. -/
def Fresh (id : Int) (text : String) (since : List Event) (artifact : Artifact) : Prop :=
  ∃ t ∈ text :: textsWritten id since, Derived id t since artifact

/-- No write of the election is between its storage write and its second invalidation. -/
def Quiescent (id : Int) (es : List Event) : Prop :=
  ∀ before i target owner text since,
    es = before ++ .act i ⟨.writeElection target owner text, .ok id⟩ :: since →
      .act i ⟨.invalidate (Artifact.previewKey id), ()⟩ ∈ since

theorem Event.wrote?_eq_some {id : Int} {text : String} {e : Event} (h : e.wrote? id = some text) :
    ∃ i target owner, e = .act i ⟨.writeElection target owner text, .ok id⟩ := by
  cases e with
  | arrival i request => cases h
  | act i did =>
    obtain ⟨target, owner, rfl⟩ := Exchange.wrote?_eq_some h
    exact ⟨i, target, owner, rfl⟩

theorem last_write (id : Int) (es : List Event) :
    textsWritten id es = [] ∨ ∃ before i target owner text since,
      es = before ++ .act i ⟨.writeElection target owner text, .ok id⟩ :: since ∧
        textsWritten id since = [] := by
  induction es with
  | nil => exact .inl rfl
  | cons e es ih =>
    rcases ih with silent | ⟨before, i, target, owner, text, since, rfl, silent⟩
    · cases wrote : e.wrote? id with
      | none =>
        refine .inl ?_
        rwa [textsWritten, List.filterMap_cons_none wrote]
      | some text =>
        obtain ⟨i, target, owner, rfl⟩ := Event.wrote?_eq_some wrote
        exact .inr ⟨[], i, target, owner, text, es, rfl, silent⟩
    · exact .inr ⟨e :: before, i, target, owner, text, since, rfl, silent⟩

theorem tail_of_append_eq {α : Type} {p : α → Bool} {xs ys zs : List α} {a b c : α}
    (same : xs ++ a :: ys = zs ++ [b, c]) (here : p a) (before : ∀ x ∈ zs, p x = false)
    (last : p c = false) : ys = [c] := by
  rcases List.append_eq_append_iff.1 same with ⟨u, split, rest⟩ | ⟨u, -, rest⟩
  · cases u with
    | nil =>
      rw [List.nil_append] at rest
      exact (List.cons.inj rest).2
    | cons x u =>
      have is : a = x := (List.cons.inj rest).1
      have not := before x (by rw [split]; exact List.mem_append_right _ List.mem_cons_self)
      rw [← is, here] at not
      cases not
  · match u with
    | [] =>
      rw [List.nil_append] at rest
      exact (List.cons.inj rest).2.symm
    | [x] =>
      have is : c = a := (List.cons.inj (List.cons.inj rest).2).1
      rw [is, here] at last
      cases last
    | x :: y :: u =>
      have length := congrArg List.length rest
      simp only [List.length_cons, List.length_append, List.length_nil] at length
      omega

namespace System

variable {site : Site} {S T : System} {before since es : List Event} {id target owner : Int}
  {text key : String} {i : Nat} {artifact : Artifact}

theorem Run.cleared_of_dropped
    (run : Run site S
      (before ++ .act i ⟨.writeElection target owner text, .ok id⟩ :: since) T)
    (idle : S.tasks = []) (dropped : .act i ⟨.invalidate (Artifact.previewKey id), ()⟩ ∈ since) :
    Cleared id (before ++ [.act i ⟨.writeElection target owner text, .ok id⟩]) since := by
  obtain ⟨y, z, rfl⟩ := List.append_of_mem dropped
  refine .inr ⟨y, _, rfl, ?_, invalidations_pos List.mem_cons_self⟩
  rw [← List.cons_append, ← List.append_assoc] at run
  obtain ⟨request, -, earlier, target', owner', text', id', unwritten, case⟩ := run.conduct idle
  rcases case with ⟨key, -⟩ | ⟨key, past⟩
  · exact absurd key.symm (Artifact.ballotKey_ne_previewKey id' id)
  · obtain rfl := Artifact.previewKey_injective key
    rw [← List.singleton_append, exchangesOf_append, exchangesOf_append, exchangesOf_act,
      if_pos rfl, List.singleton_append] at past
    have ballot := tail_of_append_eq (p := fun x => x.step.isWrite) past rfl unwritten rfl
    have member : ⟨.invalidate (Artifact.ballotKey id), ()⟩ ∈ exchangesOf i y := by
      rw [ballot]
      exact List.mem_cons_self
    exact invalidations_pos (mem_exchangesOf.1 member)

theorem Run.fresh (run : Run site S es T) (numbered : S.state.store.Numbered) {e : Election}
    (found : S.state.store.find? id = some e) (derived : Derived id text es artifact) :
    Fresh id e.text es artifact := by
  refine ⟨text, ?_, derived⟩
  obtain ⟨j, r, rfl, read⟩ := derived.read
  obtain ⟨x, y, rfl⟩ := List.append_of_mem read
  obtain ⟨U, V, first, next, -⟩ := run.at
  have then' := (first.find? numbered found).symm.trans next.find?_of_read.1
  rw [← Option.some.inj then', textsWritten_append, ← List.cons_append]
  refine List.mem_append_left _ ?_
  exact List.getLastD_mem_cons

theorem Run.derived_from_current (run : Run site S es T) (numbered : S.state.store.Numbered)
    (silent : textsWritten id es = []) (derived : Derived id text es artifact) :
    ∃ e, T.state.store.find? id = some e ∧ e.text = text := by
  obtain ⟨j, e, rfl, read⟩ := derived.read
  obtain ⟨x, y, rfl⟩ := List.append_of_mem read
  obtain ⟨U, V, first, next, rest⟩ := run.at
  obtain ⟨found, same⟩ := next.find?_of_read
  have numbered' : V.state.store.Numbered := by
    rw [same]
    exact first.numbered numbered
  rw [textsWritten_append, ← List.singleton_append, textsWritten_append] at silent
  have silent' := (List.append_eq_nil_iff.1 (List.append_eq_nil_iff.1 silent).2).2
  have now := rest.find? numbered' (same ▸ found)
  rw [silent'] at now
  exact ⟨e, now, rfl⟩

theorem Run.after_write
    (run : Run site S
      (before ++ .act i ⟨.writeElection target owner text, .ok id⟩ :: since) T)
    (numbered : S.state.store.Numbered) :
    ∃ U e, Run site U since T ∧ U.state.store.Numbered ∧
      U.state.store.find? id = some e ∧ e.text = text := by
  obtain ⟨V, U, first, next, rest⟩ := run.at
  obtain ⟨e, found, wrote⟩ := next.find?_of_write (first.numbered numbered)
  exact ⟨U, e, rest, next.numbered (first.numbered numbered), found, wrote⟩

theorem Run.keyFor_of_holds (run : Run site S es T) (idle : S.tasks = [])
    (empty : S.state.cache.entries = [])
    (of : key = Artifact.ballotKey id ∨ key = Artifact.previewKey id)
    (holds : T.state.cache.Holds key artifact) : key = artifact.keyFor id := by
  obtain ⟨id', rfl⟩ := run.keyed idle empty holds
  rcases of with same | same
  · rw [(Artifact.of_keyFor_eq_ballotKey same).1]
  · rw [(Artifact.of_keyFor_eq_previewKey same).1]

theorem Run.fresh_of_holds
    (run : Run site S
      (before ++ .act i ⟨.writeElection target owner text, .ok id⟩ :: since) T)
    (numbered : S.state.store.Numbered) (idle : S.tasks = [])
    (empty : S.state.cache.entries = [])
    (dropped : .act i ⟨.invalidate (Artifact.previewKey id), ()⟩ ∈ since)
    (holds : T.state.cache.Holds (artifact.keyFor id) artifact) :
    Fresh id text since artifact := by
  obtain ⟨U, e, rest, numbered', found, rfl⟩ := run.after_write numbered
  have cleared := run.cleared_of_dropped idle dropped
  rw [List.append_cons] at run
  obtain ⟨t, derived⟩ := run.held_since idle empty cleared holds
  exact rest.fresh numbered' found derived

theorem Run.fresh_of_shown {later : List Event} {j : Nat} {request : Http.Request}
    {response : Http.Response}
    (run : Run site S
      (before ++ .act i ⟨.writeElection target owner text, .ok id⟩ :: (since ++ later)) T)
    (numbered : S.state.store.Numbered) (idle : S.tasks = [])
    (empty : S.state.cache.entries = [])
    (dropped : .act i ⟨.invalidate (Artifact.previewKey id), ()⟩ ∈ since)
    (new : exchangesOf j
      (before ++ .act i ⟨.writeElection target owner text, .ok id⟩ :: since) = [])
    (answered : T.tasks[j]? = some ⟨request, .done response⟩)
    (asked : (Operation.ofRequest request.method request.path).rendering? = some id)
    (success : response.status = 200) :
    ∃ artifact, (Operation.ofRequest request.method request.path).show? artifact = some response ∧
      Fresh id text (since ++ later) artifact := by
  obtain ⟨U, e, rest, numbered', found, rfl⟩ := run.after_write numbered
  have ends := run.ends idle answered
  rw [← List.cons_append, ← List.append_assoc] at run ends
  rw [exchangesOf_append, new, List.nil_append] at ends
  obtain ⟨V, first, -⟩ := run.split
  have cleared := first.cleared_of_dropped idle dropped
  rcases ends.shows asked with ⟨artifact, shown, has⟩ | ⟨fault, rfl, faulty⟩
  · rw [List.append_cons, List.append_assoc] at run
    obtain ⟨t, derived⟩ := run.had_since idle empty cleared has
    exact ⟨artifact, shown, rest.fresh numbered' found derived⟩
  · exact absurd success faulty.status_ne

theorem Run.current_of_holds (run : Run site S es T) (numbered : S.state.store.Numbered)
    (idle : S.tasks = []) (empty : S.state.cache.entries = []) (quiescent : Quiescent id es)
    (holds : T.state.cache.Holds (artifact.keyFor id) artifact) :
    ∃ e since, T.state.store.find? id = some e ∧ since <:+ es ∧ textsWritten id since = [] ∧
      Derived id e.text since artifact := by
  rcases last_write id es with silent | ⟨before, i, target, owner, text, since, rfl, silent⟩
  · rw [← List.nil_append es] at run
    obtain ⟨t, derived⟩ := run.held_since idle empty (.inl rfl) holds
    obtain ⟨e, found, rfl⟩ := run.derived_from_current numbered silent derived
    exact ⟨e, es, found, List.suffix_refl es, silent, derived⟩
  · obtain ⟨U, -, rest, numbered', -⟩ := run.after_write numbered
    have cleared := run.cleared_of_dropped idle
      (quiescent before i target owner text since rfl)
    rw [List.append_cons] at run
    obtain ⟨t, derived⟩ := run.held_since idle empty cleared holds
    obtain ⟨e, found, rfl⟩ := rest.derived_from_current numbered' silent derived
    exact ⟨e, since, found, (List.suffix_cons _ since).trans (List.suffix_append before _),
      silent, derived⟩

/-- In every run of any number of requests from a start over any store: after a write of an election
has invalidated both its keys, whatever is in the cache for the election is of the key's kind and
fresh, and so is what any request shows of it that had not taken a step by then. And as long as no
write of the election lacks its invalidations, what is in the cache for it comes from the text that
its record has now. -/
theorem artifacts_fresh {store : Store} (numbered : store.Numbered) {archive : Archive}
    {cacheBytes : UInt64} (run : Run site (start store archive cacheBytes) es S) (id : Int) :
    (∀ before i target owner text since later,
      es = before ++ .act i ⟨.writeElection target owner text, .ok id⟩ :: (since ++ later) →
      .act i ⟨.invalidate (Artifact.ballotKey id), ()⟩ ∈ since →
      .act i ⟨.invalidate (Artifact.previewKey id), ()⟩ ∈ since →
      (∀ key artifact, key = Artifact.ballotKey id ∨ key = Artifact.previewKey id →
        S.state.cache.Holds key artifact →
        key = artifact.keyFor id ∧ Fresh id text (since ++ later) artifact) ∧
      ∀ j request response,
        exchangesOf j
          (before ++ .act i ⟨.writeElection target owner text, .ok id⟩ :: since) = [] →
        S.tasks[j]? = some ⟨request, .done response⟩ →
        (Operation.ofRequest request.method request.path).rendering? = some id →
        response.status = 200 →
        ∃ artifact,
          (Operation.ofRequest request.method request.path).show? artifact = some response ∧
            Fresh id text (since ++ later) artifact) ∧
    (Quiescent id es → ∀ key artifact,
      key = Artifact.ballotKey id ∨ key = Artifact.previewKey id →
      S.state.cache.Holds key artifact →
      key = artifact.keyFor id ∧ ∃ e since, S.state.store.find? id = some e ∧ since <:+ es ∧
        textsWritten id since = [] ∧ Derived id e.text since artifact) := by
  constructor
  · rintro before i target owner text since later rfl - dropped
    constructor
    · intro key artifact of holds
      obtain rfl := run.keyFor_of_holds rfl rfl of holds
      exact ⟨rfl, run.fresh_of_holds numbered rfl rfl (List.mem_append_left _ dropped) holds⟩
    · intro j request response new answered asked success
      exact run.fresh_of_shown numbered rfl rfl dropped new answered asked success
  · intro quiescent key artifact of holds
    obtain rfl := run.keyFor_of_holds rfl rfl of holds
    exact ⟨rfl, run.current_of_holds numbered rfl rfl quiescent holds⟩

theorem pdf_exchanges :
    (Sample.get "/election/1.pdf").exchanges Sample.site (Sample.created 100) =
      [⟨.lookUp "1", none⟩, ⟨.generation "1", 1⟩, ⟨.connect, .ok ()⟩,
        ⟨.readElection 1, .ok ⟨1, 7, "\x7b\x7d"⟩⟩, ⟨.release, ()⟩,
        ⟨.draw "\x7b\x7d", .ok (Sample.draw "\x7b\x7d")⟩,
        ⟨.keep "1" (.ballot (Sample.draw "\x7b\x7d")) 1, true⟩] := rfl

theorem artifacts_fresh_created :
    ∃ es S since later artifact,
      Run Sample.site (start .fresh .empty 100) es S ∧
        es = [.arrival 0 Sample.create.request, .act 0 ⟨.awaitBody, ()⟩,
          .act 0 ⟨.connect, .ok ()⟩] ++
          .act 0 ⟨.writeElection 0 7 "\x7b\x7d", .ok 1⟩ :: (since ++ later) ∧
        S.state.cache.Holds (Artifact.ballotKey 1) artifact ∧
        Fresh 1 "\x7b\x7d" (since ++ later) artifact ∧
        ∃ shown response,
          S.tasks[1]? = some ⟨(Sample.get "/election/1.pdf").request, .done response⟩ ∧
          (Operation.ballotPdf 1).show? shown = some response ∧
            Fresh 1 "\x7b\x7d" (since ++ later) shown := by
  have created : Run Sample.site (start .fresh .empty 100) _ _ := .visit _ Sample.create
  have exchanges : Sample.create.exchanges Sample.site (start .fresh .empty 100).state = _ :=
    Sample.create_exchanges 100
  have after : Sample.create.after Sample.site (start .fresh .empty 100).state = _ :=
    Sample.create_after 100
  rw [exchanges, after] at created
  have shown := created.trans (Run.visit _ (Sample.get "/election/1.pdf"))
  rw [pdf_exchanges] at shown
  have fresh := (artifacts_fresh Store.numbered_fresh shown 1).1
    [.arrival 0 Sample.create.request, .act 0 ⟨.awaitBody, ()⟩, .act 0 ⟨.connect, .ok ()⟩]
    0 0 7 "\x7b\x7d"
    [.act 0 ⟨.invalidate "1", ()⟩, .act 0 ⟨.invalidate "1.png", ()⟩, .act 0 ⟨.release, ()⟩]
    _ rfl (.head _) (.tail _ (.head _))
  have holds : (Sample.get "/election/1.pdf").after Sample.site (Sample.created 100) |>.cache.Holds
      (Artifact.ballotKey 1) (.ballot (Sample.draw "\x7b\x7d")) := ⟨_, .head _, rfl, rfl⟩
  refine ⟨_, _, _, _, _, shown, rfl, holds, (fresh.1 _ _ (.inl rfl) holds).2, ?_⟩
  obtain ⟨artifact, is, derived⟩ := fresh.2 1 _ _ rfl rfl rfl rfl
  exact ⟨artifact, _, rfl, is, derived⟩

end System

end BallotServer
