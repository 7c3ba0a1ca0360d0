import BallotServer.Proofs.CacheBudget
import BallotServer.Proofs.Rendered

/-! What renderings leave in a cache that has room for all. Each artifact that is made was missing
and is kept, and nothing goes away: `Cache.Grows` says so of a row of exchanges, and rows of
exchanges that grow one after the other grow together. -/

namespace BallotServer

def Exchange.made? : Exchange → Option Artifact
  | ⟨.draw _, .ok b⟩ => some (.ballot b)
  | ⟨.convert _, .ok png⟩ => some (.preview png)
  | _ => none

def Step.isStorage : Step → Bool
  | connect | release | readElection _ | writeElection _ _ _ => true
  | _ => false

def Step.isDraw : Step → Bool
  | draw _ => true
  | _ => false

def Step.isConvert : Step → Bool
  | convert _ => true
  | _ => false

def Exchange.unread : Exchange → Bool
  | ⟨.connect, .error _⟩ | ⟨.readElection _, .error _⟩ => true
  | _ => false

def artifactsOf (past : List Exchange) : List Artifact := past.filterMap Exchange.made?

theorem artifactsOf_append (past new : List Exchange) :
    artifactsOf (past ++ new) = artifactsOf past ++ artifactsOf new :=
  List.filterMap_append

section Growth

variable (keys : Finset String) (allowed : String → ℕ) (id : Int) (artifacts : List Artifact)

/-- The artifacts of an election are small enough for what is allowed. -/
def Affordable : Prop := ∀ a ∈ artifacts, a.keyFor id ∈ keys ∧ a.size ≤ allowed (a.keyFor id)

/-- From one cache to another the artifacts were added, once each, and nothing went away. -/
structure Cache.Grows (c c' : Cache) : Prop where
  within : c'.Within keys allowed
  generations : c'.generations = c.generations
  present : ∀ key, c'.Present key ↔ c.Present key ∨ ∃ a ∈ artifacts, a.keyFor id = key
  absent : ∀ a ∈ artifacts, ¬c.Present (a.keyFor id)
  once : (artifacts.map (Artifact.keyFor id)).Nodup

end Growth

variable {keys : Finset String} {allowed : String → ℕ} {id : Int} {past : List Exchange}
  {first second : List Artifact} {c c' c'' : Cache}

namespace Cache

theorem grows_refl (within : c.Within keys allowed) : c.Grows keys allowed id [] c where
  within := within
  generations := rfl
  present := by simp
  absent := by simp
  once := by simp

theorem grows_get (within : c.Within keys allowed) (key : String) :
    c.Grows keys allowed id [] (c.get key).2 where
  within := within.get key
  generations := c.get_generations key
  present := by simp [present_get]
  absent := by simp
  once := by simp

theorem grows_put (within : c.Within keys allowed) {a : Artifact}
    (affordable : Affordable keys allowed id [a]) (absent : ¬c.Present (a.keyFor id)) :
    c.Grows keys allowed id [a] (c.put (a.keyFor id) a a.size.toUInt64) := by
  obtain ⟨mem, small⟩ := affordable a List.mem_cons_self
  have bounded : a.size.toUInt64.toNat ≤ allowed (a.keyFor id) :=
    (Nat.mod_le a.size _).trans small
  refine ⟨(within.put mem bounded a).1, c.put_generations .., fun key => ?_, ?_, ?_⟩
  · rw [within.present_put mem bounded a]
    simp [eq_comm]
  · simpa using absent
  · simp

theorem Grows.append (early : c.Grows keys allowed id first c')
    (late : c'.Grows keys allowed id second c'') :
    c.Grows keys allowed id (first ++ second) c'' where
  within := late.within
  generations := late.generations.trans early.generations
  present := by
    intro key
    rw [late.present, early.present, or_assoc]
    simp only [List.mem_append, or_and_right, exists_or]
  absent := by
    intro a member
    rcases List.mem_append.1 member with old | new
    · exact early.absent a old
    · exact fun before => late.absent a new ((early.present _).2 (.inl before))
  once := by
    rw [List.map_append, List.nodup_append]
    refine ⟨early.once, late.once, fun key old key' new same => ?_⟩
    obtain ⟨a, member, rfl⟩ := List.mem_map.1 old
    obtain ⟨b, member', rfl⟩ := List.mem_map.1 new
    exact late.absent b member' ((early.present _).2 (.inr ⟨a, member, same⟩))

end Cache

namespace Rendering

variable {g : Nat} {st st' : State}

theorem BallotCourse.made_ballot {result : Except Fault Ballot}
    (course : BallotCourse id past result) {a : Artifact} (member : a ∈ artifactsOf past) :
    ∃ b, a = .ballot b := by
  cases course with
  | hit b => cases member
  | miss other drawn =>
    cases drawn with
    | unconnected e => cases member
    | unread e => cases member
    | undrawn e error => cases member
    | drawn e b kept => exact ⟨b, List.mem_singleton.1 member⟩

theorem BallotCourse.grows {result : Except Fault Ballot} (course : BallotCourse id past result)
    (goes : st.Goes past st') (keyed : Keyed past) (within : st.cache.Within keys allowed)
    (affordable : Affordable keys allowed id (artifactsOf past)) :
    st.cache.Grows keys allowed id (artifactsOf past) st'.cache := by
  cases result with
  | error fault =>
    have quiet : artifactsOf past = [] := by
      cases course with
      | miss other drawn => cases drawn <;> rfl
    rw [(State.goes_idle (course.idle keyed) goes).1, quiet]
    exact Cache.grows_refl within
  | ok b =>
    obtain ⟨-, -, ⟨hit, same⟩ | ⟨missed, -, kept⟩⟩ := course.lookedUp keyed goes
    · have quiet : artifactsOf past = [] := by
        cases course with
        | hit => rfl
        | miss other drawn =>
          obtain ⟨_, found, -⟩ := goes
          exact absurd (found.trans hit) (other b)
      rw [same, quiet]
      exact Cache.grows_get within _
    · have one : artifactsOf past = [.ballot b] := by
        cases course with
        | hit =>
          obtain ⟨_, found, -⟩ := goes
          cases found.trans missed
        | miss other drawn =>
          cases drawn with
          | drawn e _ kept => rfl
      rw [one] at affordable ⊢
      rw [kept]
      exact Cache.grows_put within affordable (Cache.get_eq_none_iff.1 missed)

theorem ConvertedCourse.grows {result : Except Fault ByteArray}
    (course : ConvertedCourse id g past result) (goes : st.Goes past st') (keyed : Keyed past)
    (within : st.cache.Within keys allowed) (affordable : Affordable keys allowed id (artifactsOf past))
    (missed : ¬st.cache.Present (Artifact.previewKey id))
    (token : st.cache.generation (Artifact.previewKey id) = g) :
    st.cache.Grows keys allowed id (artifactsOf past) st'.cache := by
  cases course with
  | unmade ballot => exact ballot.grows goes keyed within affordable
  | @unconverted new b ballot e =>
    rw [artifactsOf_append] at affordable ⊢
    obtain ⟨after, drew, last⟩ := State.goes_append.1 goes
    obtain ⟨rfl, -⟩ := State.goes_idle rfl last
    have early := ballot.grows drew (keyed.mono (List.subset_append_left new _)) within
      fun a member => affordable a (List.mem_append_left _ member)
    exact early.append (Cache.grows_refl early.within)
  | @converted new b ballot png kept =>
    rw [artifactsOf_append] at affordable ⊢
    obtain ⟨after, drew, _, -, _, -, rfl⟩ := State.goes_append.1 goes
    have early := ballot.grows drew (keyed.mono (List.subset_append_left new _)) within
      fun a member => affordable a (List.mem_append_left _ member)
    have current : after.cache.generation (Artifact.previewKey id) = g := by
      rw [Cache.generation, early.generations]
      exact token
    have absent : ¬after.cache.Present (Artifact.previewKey id) := by
      intro there
      rcases (early.present _).1 there with before | ⟨a, member, same⟩
      · exact missed before
      · obtain ⟨b', rfl⟩ := ballot.made_ballot member
        exact Artifact.ballotKey_ne_previewKey _ _ same
    have late := @Cache.grows_put _ _ id _ early.within (.preview png)
      (fun a member => affordable a (List.mem_append_right _ member)) absent
    refine early.append ?_
    change Cache.Grows _ _ _ _ _ (after.cache.putIfCurrent _ _ _ g).2
    rw [Cache.putIfCurrent, if_pos current]
    exact late

theorem PreviewCourse.grows {result : Except Fault ByteArray} (course : PreviewCourse id past result)
    (goes : st.Goes past st') (keyed : Keyed past) (within : st.cache.Within keys allowed)
    (affordable : Affordable keys allowed id (artifactsOf past)) :
    st.cache.Grows keys allowed id (artifactsOf past) st'.cache := by
  cases course with
  | hit png =>
    obtain ⟨_, -, rfl⟩ := goes
    exact Cache.grows_get within _
  | @miss _ g new _ other converted =>
    obtain rfl := preview_not_found keyed other
    have split : st.Goes ([⟨.lookUp (Artifact.previewKey id), none⟩,
        ⟨.generation (Artifact.previewKey id), g⟩] ++ new) st' := goes
    obtain ⟨mid, quiet, rest⟩ := State.goes_append.1 split
    obtain ⟨rfl, answers⟩ := State.goes_idle rfl quiet
    obtain ⟨_, missed⟩ := answers _ (.head _)
    obtain ⟨_, token⟩ := answers _ (.tail _ (.head _))
    exact converted.grows rest (keyed.mono (List.subset_append_right [_, _] new)) within affordable
      (Cache.get_eq_none_iff.1 missed.symm) token.symm

theorem BallotCourse.hit_of_present {result : Except Fault Ballot}
    (course : BallotCourse id past result) (goes : st.Goes past st') (keyed : Keyed past)
    (there : st.cache.Present (Artifact.ballotKey id)) :
    ∃ b, past = [⟨.lookUp (Artifact.ballotKey id), some (.ballot b)⟩] := by
  cases course with
  | hit b => exact ⟨b, rfl⟩
  | miss other drawn =>
    obtain rfl := ballot_not_found keyed other
    obtain ⟨_, missed, -⟩ := goes
    exact absurd there (Cache.get_eq_none_iff.1 missed.symm)

theorem PreviewCourse.hit_of_present {result : Except Fault ByteArray}
    (course : PreviewCourse id past result) (goes : st.Goes past st') (keyed : Keyed past)
    (there : st.cache.Present (Artifact.previewKey id)) :
    ∃ png, past = [⟨.lookUp (Artifact.previewKey id), some (.preview png)⟩] := by
  cases course with
  | hit png => exact ⟨png, rfl⟩
  | miss other converted =>
    obtain rfl := preview_not_found keyed other
    obtain ⟨_, missed, -⟩ := goes
    exact absurd there (Cache.get_eq_none_iff.1 missed.symm)

theorem BallotCourse.drawn_of_absent {result : Except Fault Ballot}
    (course : BallotCourse id past result) (goes : st.Goes past st')
    (absent : ¬st.cache.Present (Artifact.ballotKey id)) :
    ∃ x ∈ past, x.step.isDraw ∨ x.unread := by
  cases course with
  | hit b =>
    obtain ⟨_, found, -⟩ := goes
    cases found.trans (Cache.get_eq_none_iff.2 absent)
  | miss other drawn =>
    cases drawn with
    | unconnected e => exact ⟨⟨.connect, .error e⟩, by simp, .inr rfl⟩
    | unread e => exact ⟨⟨.readElection id, .error e⟩, by simp, .inr rfl⟩
    | undrawn e error => exact ⟨⟨.draw e.text, .error error⟩, by simp, .inl rfl⟩
    | drawn e b kept => exact ⟨⟨.draw e.text, .ok b⟩, by simp, .inl rfl⟩

theorem BallotCourse.failed_of_error {fault : Fault} (course : BallotCourse id past (.error fault)) :
    ∃ x ∈ past, x.unread ∨ x.backendFailed := by
  cases course with
  | miss other drawn =>
    cases drawn with
    | unconnected e => exact ⟨⟨.connect, .error e⟩, by simp, .inl rfl⟩
    | unread e => exact ⟨⟨.readElection id, .error e⟩, by simp, .inl rfl⟩
    | undrawn e error => exact ⟨⟨.draw e.text, .error error⟩, by simp, .inr rfl⟩

theorem PreviewCourse.ballot_of_absent {result : Except Fault ByteArray}
    (course : PreviewCourse id past result) (goes : st.Goes past st')
    (absent : ¬st.cache.Present (Artifact.previewKey id)) :
    ∃ before new after ballot mid, past = before ++ new ++ after ∧
      st.Goes new mid ∧ BallotCourse id new ballot ∧ artifactsOf before = [] ∧
      (∀ x ∈ before ++ after, x.step.isStorage = false ∧ x.step.isDraw = false) ∧
      ((∃ fault, ballot = .error fault) ∧ after = [] ∨
        (∃ b, ballot = .ok b) ∧ ∃ x ∈ after, x.step.isConvert) := by
  cases course with
  | hit png =>
    obtain ⟨_, found, -⟩ := goes
    cases found.trans (Cache.get_eq_none_iff.2 absent)
  | @miss found g new _ other converted =>
    have missed : found = none := by
      obtain ⟨_, answer, -⟩ := goes
      exact answer.trans (Cache.get_eq_none_iff.2 absent)
    subst missed
    have split : st.Goes ([⟨.lookUp (Artifact.previewKey id), none⟩,
        ⟨.generation (Artifact.previewKey id), g⟩] ++ new) st' := goes
    obtain ⟨mid, quiet, rest⟩ := State.goes_append.1 split
    obtain ⟨rfl, -⟩ := State.goes_idle rfl quiet
    let before : List Exchange := [⟨.lookUp (Artifact.previewKey id), none⟩,
      ⟨.generation (Artifact.previewKey id), g⟩]
    cases converted with
    | @unmade _ fault ballot =>
      refine ⟨before, new, [], _, _, (List.append_nil _).symm, rest, ballot, rfl, ?_,
        .inl ⟨⟨fault, rfl⟩, rfl⟩⟩
      simp [before, Step.isStorage, Step.isDraw]
    | @unconverted new b ballot e =>
      obtain ⟨after, drew, -⟩ := State.goes_append.1 rest
      refine ⟨before, new, [⟨.convert b.pdf, .error e⟩], _, _, rfl, drew, ballot, rfl, ?_,
        .inr ⟨⟨b, rfl⟩, _, .head _, rfl⟩⟩
      simp [before, Step.isStorage, Step.isDraw]
    | @converted new b ballot png kept =>
      obtain ⟨after, drew, -⟩ := State.goes_append.1 rest
      refine ⟨before, new, [⟨.convert b.pdf, .ok png⟩,
        ⟨.keep (Artifact.previewKey id) (.preview png) g, kept⟩], _, _, rfl, drew, ballot, rfl, ?_,
        .inr ⟨⟨b, rfl⟩, _, .head _, rfl⟩⟩
      simp [before, Step.isStorage, Step.isDraw]

theorem BallotCourse.present_or_made {b : Ballot} (course : BallotCourse id past (.ok b))
    (goes : st.Goes past st') :
    st.cache.Present (Artifact.ballotKey id) ∨ .ballot b ∈ artifactsOf past := by
  cases course with
  | hit =>
    obtain ⟨_, found, -⟩ := goes
    refine .inl (Classical.byContradiction fun absent => ?_)
    cases found.trans (Cache.get_eq_none_iff.2 absent)
  | miss other drawn =>
    cases drawn with
    | drawn e _ kept => exact .inr (List.mem_singleton.2 rfl)

theorem PreviewCourse.ballot_of_made {result : Except Fault ByteArray}
    (course : PreviewCourse id past result) (goes : st.Goes past st')
    (absent : ¬st.cache.Present (Artifact.previewKey id)) {png : ByteArray}
    (made : .preview png ∈ artifactsOf past) :
    st.cache.Present (Artifact.ballotKey id) ∨ ∃ b, .ballot b ∈ artifactsOf past := by
  obtain ⟨before, new, after, ballot, mid, rfl, drew, inner, quiet, -, ends⟩ :=
    course.ballot_of_absent goes absent
  rw [artifactsOf_append, artifactsOf_append, quiet, List.nil_append] at made ⊢
  rcases ends with ⟨-, rfl⟩ | ⟨⟨b, rfl⟩, -⟩
  · rcases List.mem_append.1 made with ballots | none
    · obtain ⟨b, is⟩ := inner.made_ballot ballots
      cases is
    · cases none
  · exact (inner.present_or_made drew).imp_right fun member =>
      ⟨b, List.mem_append_left _ member⟩

end Rendering

end BallotServer
