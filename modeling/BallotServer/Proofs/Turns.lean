import BallotServer.Proofs.MadeKept
import BallotServer.Proofs.Transparency
import Mathlib.Data.List.DropRight

/-! Requests in turn. A turn is a request with all that it went through; of a row of turns it is told
what was made for each key and which turns come after the last write of an election. To a cache that
has room for all, a request for a rendering adds what it makes, and any other request takes away the
artifacts of the elections that it writes. -/

namespace BallotServer

structure Turn where
  operation : Operation
  past : List Exchange

namespace Turn

def writes (id : Int) (t : Turn) : Bool := t.past.any fun x => (x.wrote? id).isSome

def makes (key : String) (t : Turn) : List Artifact :=
  match t.operation.rendering? with
  | none => []
  | some id => (artifactsOf t.past).filter fun a => a.keyFor id == key

def madeFor (key : String) (turns : List Turn) : List Artifact := turns.flatMap (makes key)

def since (id : Int) (turns : List Turn) : List Turn := turns.rtakeWhile fun t => !t.writes id

theorem madeFor_concat (key : String) (turns : List Turn) (t : Turn) :
    madeFor key (turns ++ [t]) = madeFor key turns ++ t.makes key := by
  simp [madeFor]

theorem since_concat (id : Int) (turns : List Turn) (t : Turn) :
    since id (turns ++ [t]) = if t.writes id then [] else since id turns ++ [t] := by
  cases wrote : t.writes id with
  | true => exact List.rtakeWhile_concat_neg _ _ _ (by simp [wrote])
  | false => exact List.rtakeWhile_concat_pos _ _ _ (by simp [wrote])

variable {t : Turn} {id : Int}

theorem mem_makes (asked : t.operation.rendering? = some id) {key : String} {a : Artifact} :
    a ∈ t.makes key ↔ a ∈ artifactsOf t.past ∧ a.keyFor id = key := by
  simp [makes, asked]

theorem makes_of_plain (unasked : t.operation.rendering? = none) (key : String) :
    t.makes key = [] := by
  simp [makes, unasked]

theorem length_makes_le (asked : t.operation.rendering? = some id)
    (once : ((artifactsOf t.past).map (Artifact.keyFor id)).Nodup) (key : String) :
    (t.makes key).length ≤ 1 := by
  have counted := List.nodup_iff_count_le_one.1 once key
  rw [List.count, List.countP_map, List.countP_eq_length_filter] at counted
  simpa [makes, asked, Function.comp_def] using counted

end Turn

theorem State.goes_plain {keys : Finset String} {allowed : String → ℕ} {st st' : State}
    {past : List Exchange} (goes : st.Goes past st') (within : st.cache.Within keys allowed)
    (plain : ∀ x ∈ past, x.step.isRendering = false) :
    st'.cache.Within keys allowed ∧ ∀ key, st'.cache.Present key ↔
      st.cache.Present key ∧ ∀ x ∈ past, x.step ≠ .invalidate key := by
  induction past generalizing st with
  | nil =>
    obtain rfl : st' = st := goes
    exact ⟨within, by simp⟩
  | cons x xs ih =>
    obtain ⟨outcome, -, rest⟩ := goes
    have cache := st.perform_cache x.step outcome
    have first : (st.cache.after x.step).Within keys allowed ∧
        ∀ key, (st.cache.after x.step).Present key ↔
          st.cache.Present key ∧ x.step ≠ .invalidate key := by
      have quiet := plain x (.head _)
      cases is : x.step with
      | lookUp key | keep key artifact generation => simp [is, Step.isRendering] at quiet
      | invalidate k =>
        refine ⟨within.invalidate k, fun key => ?_⟩
        have dropped := within.distinct.present_invalidate k key
        simpa [Cache.after, eq_comm] using dropped
      | _ => exact ⟨within, by simp [Cache.after]⟩
    rw [← cache] at first
    obtain ⟨last, present⟩ := ih rest first.1 fun y member => plain y (.tail _ member)
    refine ⟨last, fun key => ?_⟩
    rw [present, first.2]
    simp [and_assoc]

namespace Visit

variable {σ : Type} {site : Site} {st : State} {v : Visit σ}

def turn (site : Site) (v : Visit σ) (st : State) : Turn := ⟨v.operation, v.exchanges site st⟩

theorem writes_iff (id : Int) : (v.turn site st).writes id ↔
    ∃ target owner text, ⟨.writeElection target owner text, .ok id⟩ ∈ v.exchanges site st := by
  unfold Turn.writes
  rw [List.any_eq_true]
  constructor
  · rintro ⟨x, member, wrote⟩
    obtain ⟨text, is⟩ := Option.isSome_iff_exists.1 wrote
    obtain ⟨target, owner, rfl⟩ := Exchange.wrote?_eq_some is
    exact ⟨target, owner, text, member⟩
  · rintro ⟨target, owner, text, member⟩
    exact ⟨_, member, by rw [wrote?_self]; rfl⟩

theorem invalidates_of_writes {id : Int} (wrote : (v.turn site st).writes id) {key : String}
    (of : key ∈ Artifact.keysOf id) : ⟨.invalidate key, ()⟩ ∈ v.exchanges site st := by
  obtain ⟨target, owner, text, member⟩ := (writes_iff id).1 wrote
  obtain ⟨before, after, split⟩ := List.append_of_mem member
  have settled := v.settled site st
  rw [split] at settled
  have preview : ⟨.invalidate (Artifact.previewKey id), ()⟩ ∈ v.exchanges site st := by
    rw [split]
    exact List.mem_append_right _ (.tail _ settled.mem)
  simp only [Artifact.keysOf, List.mem_cons, List.not_mem_nil, or_false] at of
  rcases of with rfl | rfl
  · -- The ballot is invalidated before the preview, and for the same election.
    obtain ⟨first, last, split'⟩ := List.append_of_mem preview
    obtain ⟨before', _, _, _, id', -, ⟨other, -⟩ | ⟨same, rfl⟩⟩ :=
      (Server.respond_keeps site v.request).at split'
    · exact absurd other.symm (Artifact.ballotKey_ne_previewKey id' id)
    · rw [Artifact.previewKey_injective same, split']
      simp
  · exact preview

theorem writes_of_invalidates {id : Int} {key : String} (of : key ∈ Artifact.keysOf id)
    (member : ⟨.invalidate key, ()⟩ ∈ v.exchanges site st) : (v.turn site st).writes id := by
  obtain ⟨before, after, split⟩ := List.append_of_mem member
  obtain ⟨_, target, owner, text, id', -, past⟩ := (Server.respond_keeps site v.request).at split
  have of' : key ∈ Artifact.keysOf id' := by
    rcases past with ⟨rfl, -⟩ | ⟨rfl, -⟩ <;> simp [Artifact.keysOf]
  have wrote : ⟨.writeElection target owner text, .ok id'⟩ ∈ before := by
    rcases past with ⟨-, is⟩ | ⟨-, is⟩ <;> simp [is]
  rw [Artifact.eq_of_keysOf of of', writes_iff, split]
  exact ⟨target, owner, text, List.mem_append_left _ wrote⟩

theorem rendering_steps (unasked : v.operation.rendering? = none) :
    ∀ x ∈ v.exchanges site st, x.step.isRendering = false := by
  intro x member
  obtain ⟨_, plain⟩ := (v.plain unasked).steps member
  exact plain

theorem drops {keys : Finset String} {allowed : String → ℕ}
    (unasked : v.operation.rendering? = none) (within : st.cache.Within keys allowed) :
    (v.after site st).cache.Within keys allowed ∧ ∀ id, ∀ key ∈ Artifact.keysOf id,
      (v.after site st).cache.Present key ↔
        st.cache.Present key ∧ (v.turn site st).writes id = false := by
  obtain ⟨within', present⟩ := State.goes_plain (v.goes site st) within (rendering_steps unasked)
  refine ⟨within', fun id key of => ?_⟩
  rw [present, Bool.eq_false_iff]
  refine and_congr_right fun _ => ⟨fun quiet wrote => ?_, fun unwritten x member is => ?_⟩
  · exact quiet _ (invalidates_of_writes wrote of) rfl
  · obtain ⟨step, answer⟩ := x
    subst is
    exact unwritten (writes_of_invalidates of member)

theorem course (site : Site) (st : State) {id : Int} (asked : v.operation.rendering? = some id) :
    (v.operation ≠ .preview id ∧ ∃ result, Rendering.BallotCourse id (v.exchanges site st) result) ∨
      v.operation = .preview id ∧
        ∃ result, Rendering.PreviewCourse id (v.exchanges site st) result := by
  have ends := v.ends site st
  cases is : v.operation with
  | ballotPdf id' | ballotBubbles id' =>
    rw [is] at ends asked
    cases asked
    obtain ⟨result, course, -⟩ := ends
    exact .inl ⟨by simp, result, course⟩
  | preview id' =>
    rw [is] at ends asked
    cases asked
    obtain ⟨result, course, -⟩ := ends
    exact .inr ⟨rfl, result, course⟩
  | _ => simp [is, Operation.rendering?] at asked

theorem grows {keys : Finset String} {allowed : String → ℕ} {id : Int}
    (reachable : st.Reachable site) (asked : v.operation.rendering? = some id)
    (within : st.cache.Within keys allowed)
    (affordable : Affordable keys allowed id (artifactsOf (v.exchanges site st))) :
    st.cache.Grows keys allowed id (artifactsOf (v.exchanges site st)) (v.after site st).cache := by
  have keyed := reachable.keyed v
  have goes := v.goes site st
  rcases v.course site st asked with ⟨-, result, course⟩ | ⟨-, result, course⟩
  · exact course.grows goes keyed within affordable
  · exact course.grows goes keyed within affordable

theorem unwritten (asked : v.operation.rendering?.isSome) (id : Int) :
    (v.turn site st).writes id = false := by
  refine Bool.eq_false_iff.2 fun wrote => ?_
  obtain ⟨target, owner, text, member⟩ := (writes_iff id).1 wrote
  cases (spares asked _ member).1

end Visit

end BallotServer
