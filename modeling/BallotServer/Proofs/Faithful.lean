import BallotServer.Proofs.Effects
import BallotServer.Proofs.Freshness

/-! Servers whose store is there and whose backends, when they succeed, are functions. Whatever
requests are served one after another, everything in the cache is then what the functions make of
the text that its record has now. -/

namespace BallotServer

section Fair

variable (draw : String → Ballot) (convert : ByteArray → ByteArray)

/-- The store does not fail, and a backend that succeeds gives the value of its function. -/
def Step.Fair : (s : Step) → s.Outcome → Prop
  | .connect, failure | .readElection _, failure | .writeElection _ _ _, failure => failure = none
  | .draw text, answer => ∀ b, answer = .ok b → b = draw text
  | .convert pdf, answer => ∀ png, answer = .ok png → png = convert pdf
  | _, _ => True

def Exchange.Fair (x : Exchange) : Prop :=
  x.storageFailed = false ∧
    (∀ text b, x = ⟨.draw text, .ok b⟩ → b = draw text) ∧
    ∀ pdf png, x = ⟨.convert pdf, .ok png⟩ → png = convert pdf

def Artifact.Renders (text : String) : Artifact → Prop
  | .ballot b => b = draw text
  | .preview png => png = convert (draw text).pdf

/-- All that is in the cache is made of the texts that are stored now. -/
def State.Current (st : State) : Prop :=
  ∀ id artifact, st.cache.Holds (artifact.keyFor id) artifact →
    ∃ e, st.store.find? id = some e ∧ artifact.Renders draw convert e.text

def Visit.Faithful {σ : Type} (v : Visit σ) : Prop :=
  ∀ (s : Step) (outside : σ), s.Fair draw convert (v.world.decide s outside).1

end Fair

variable {σ : Type} {draw : String → Ballot} {convert : ByteArray → ByteArray} {site : Site}
  {st : State}

theorem State.perform_tables (st : State) (s : Step) (outcome : s.Outcome)
    (tables : st.store.tables.isSome) : (st.perform s outcome).2.store.tables.isSome := by
  rcases st.perform_store s outcome with ⟨same, -⟩ | ⟨target, owner, text, id, -, wrote⟩
  · rwa [same]
  · obtain ⟨t, -, ⟨-, -, after⟩ | ⟨-, -, -, after⟩⟩ := Store.write_eq_ok wrote <;>
      rw [after] <;> rfl

theorem Script.mem_exchanges {α : Type} {w : World σ} {s : Script α} {outside : σ}
    {x : Exchange} (member : x ∈ s.exchanges w st outside) :
    ∃ (st' : State) (outside' : σ), (st.store.tables.isSome → st'.store.tables.isSome) ∧
      x.answer = (st'.perform x.step (w.decide x.step outside').1).1 := by
  induction s generalizing st outside with
  | done a => cases member
  | call step next ih =>
    rcases List.mem_cons.1 member with rfl | later
    · exact ⟨st, outside, id, rfl⟩
    · obtain ⟨st', outside', tables, answer⟩ := ih _ later
      exact ⟨st', outside', fun some => tables (st.perform_tables _ _ some), answer⟩

theorem Exchange.Fair.of_plain {s : Step} {answer : s.Answer}
    (drawn : ∀ text, s ≠ .draw text) (converted : ∀ pdf, s ≠ .convert pdf)
    (stored : Exchange.storageFailed ⟨s, answer⟩ = false) : Exchange.Fair draw convert ⟨s, answer⟩ :=
  ⟨stored, fun text _ is => absurd (congrArg Exchange.step is) (drawn text),
    fun pdf _ is => absurd (congrArg Exchange.step is) (converted pdf)⟩

theorem Step.Fair.exchange {s : Step} {outcome : s.Outcome} (fair : s.Fair draw convert outcome)
    (tables : st.store.tables.isSome) :
    Exchange.Fair draw convert ⟨s, (st.perform s outcome).1⟩ := by
  cases s with
  | connect =>
    obtain rfl : outcome = none := fair
    exact .of_plain (by simp) (by simp) rfl
  | readElection id =>
    obtain rfl : outcome = none := fair
    refine .of_plain (by simp) (by simp) ?_
    have there : ¬st.store.tables.isNone := by simpa [Option.isSome_iff_ne_none] using tables
    simp only [State.perform, Store.read, there, Bool.false_eq_true, if_false]
    cases st.store.find? id <;> rfl
  | writeElection id owner text =>
    obtain rfl : outcome = none := fair
    refine .of_plain (by simp) (by simp) ?_
    obtain ⟨t, some⟩ := Option.isSome_iff_exists.1 tables
    simp only [State.perform, Store.write, some]
    by_cases new : id = 0
    · rw [if_pos new]
      rfl
    · rw [if_neg new]
      cases (st.store.find? id).isSome <;> rfl
  | draw text =>
    refine ⟨?_, ?_, fun pdf png is => by simp at is⟩
    · cases outcome <;> rfl
    · intro text' b is
      cases is
      exact fair b rfl
  | convert pdf =>
    refine ⟨?_, fun text b is => by simp at is, ?_⟩
    · cases outcome <;> rfl
    · intro pdf' png is
      cases is
      exact fair png rfl
  | _ => exact .of_plain (by simp) (by simp) rfl

theorem Visit.Faithful.fair {v : Visit σ} (faithful : v.Faithful draw convert)
    (tables : st.store.tables.isSome) :
    ∀ x ∈ v.exchanges site st, x.Fair draw convert := by
  intro x member
  obtain ⟨st', outside, some, answer⟩ := Script.mem_exchanges member
  have fair := (faithful x.step outside).exchange (some tables)
  rwa [← answer] at fair

theorem Derived.renders {id : Int} {text : String} {es : List Event} {artifact : Artifact}
    (derived : Derived id text es artifact)
    (fair : ∀ i x, .act i x ∈ es → Exchange.Fair draw convert x) :
    artifact.Renders draw convert text := by
  cases artifact with
  | ballot b =>
    obtain ⟨i, e, -, steps⟩ := derived
    exact (fair i _ (steps.subset (.tail _ (.head _)))).2.1 text b rfl
  | preview png =>
    obtain ⟨i, j, e, b, -, steps⟩ := derived
    have drawn := (fair i _ (steps.subset (.tail _ (.head _)))).2.1 text b rfl
    have converted := (fair j _ (steps.subset (.tail _ (.tail _ (.head _))))).2.2 _ png rfl
    rw [drawn] at converted
    exact converted

section Quiescent

theorem Settled.mem {x y : List Exchange} {target owner id : Int} {text : String}
    (settled : Settled (x ++ ⟨.writeElection target owner text, .ok id⟩ :: y)) :
    ⟨.invalidate (Artifact.previewKey id), ()⟩ ∈ y := by
  induction x with
  | nil => exact settled.1
  | cons e x ih =>
    obtain ⟨step, answer⟩ := e
    refine ih ?_
    cases step with
    | writeElection target' owner' text' =>
      cases answer with
      | error e => exact settled
      | ok id' => exact settled.2
    | _ => exact settled

theorem Settled.quiescent {xs : List Exchange} (settled : Settled xs) (id : Int) (i : Nat) :
    Quiescent id (xs.map (Event.act i)) := by
  intro before j target owner text since split
  obtain ⟨x, z, rfl, rfl, rest⟩ := List.map_eq_append_iff.1 split
  obtain ⟨did, y, rfl, is, rfl⟩ := List.map_eq_cons_iff.1 rest
  cases is
  exact List.mem_map_of_mem settled.mem

theorem Quiescent.append {id : Int} {es es' : List Event} (first : Quiescent id es)
    (second : Quiescent id es') : Quiescent id (es ++ es') := by
  intro before j target owner text since split
  rcases List.append_eq_append_iff.1 split with ⟨u, -, rest⟩ | ⟨u, init, rest⟩
  · exact second u j target owner text since rest
  · cases u with
    | nil => exact second [] j target owner text since rest.symm
    | cons e u =>
      obtain ⟨rfl, rfl⟩ := List.cons.inj rest
      exact List.mem_append_left _ (first before j target owner text u init)

theorem Quiescent.arrival {id : Int} (i : Nat) (request : Http.Request) :
    Quiescent id [.arrival i request] := by
  intro before j target owner text since split
  have member : .act j ⟨.writeElection target owner text, .ok id⟩ ∈
      [Event.arrival i request] := by
    rw [split]
    exact List.mem_append_right before List.mem_cons_self
  cases List.mem_singleton.1 member

theorem settled_of_unwritten {xs : List Exchange}
    (unwritten : ∀ x ∈ xs, x.idle ∨ x.step.isWrite = false) : Settled xs := by
  induction xs with
  | nil => trivial
  | cons x xs ih =>
    have rest := ih fun y member => unwritten y (.tail _ member)
    obtain ⟨step, answer⟩ := x
    cases step with
    | writeElection target owner text =>
      cases answer with
      | error e => exact rest
      | ok id =>
        exact absurd (unwritten _ List.mem_cons_self) (by simp [Exchange.idle, Step.isWrite])
    | _ => exact rest

end Quiescent

namespace Visit

theorem spares {v : Visit σ} (asked : v.operation.rendering?.isSome) :
    ∀ x ∈ v.exchanges site st, x.step.isWrite = false ∧ x.step.isArchive = false := by
  intro x member
  obtain ⟨past, may⟩ := (Server.respond_keeps site v.request).steps member
  obtain ⟨step, answer⟩ := x
  cases step with
  | writeElection id owner text =>
    obtain ⟨-, -, -, ⟨-, create⟩ | ⟨update, -⟩⟩ := may
    · simp [operation, create, Operation.rendering?] at asked
    · simp [operation, update, Operation.rendering?] at asked
  | archive id mediaType image =>
    have upload : v.operation = .scanUpload id := may
    simp [upload, Operation.rendering?] at asked
  | _ => exact ⟨rfl, rfl⟩

theorem settled (site : Site) (v : Visit σ) (st : State) : Settled (v.exchanges site st) := by
  by_cases asked : v.operation.rendering?.isSome
  · exact settled_of_unwritten fun x member => .inr (spares asked x member).1
  · have ends := v.ends site st
    have other : (v.answer site st).status = 200 ∧ Settled (v.exchanges site st) ∨
        ∀ x ∈ v.exchanges site st,
          x.idle ∨ (v.answer site st).status = 500 ∧ x.step.isArchive := by
      cases is : v.operation with
      | ballotPdf id | ballotBubbles id | preview id => simp [is, Operation.rendering?] at asked
      | _ =>
        rw [is] at ends
        exact ends
    rcases other with ⟨-, settled⟩ | refused
    · exact settled
    · refine settled_of_unwritten fun x member => (refused x member).imp_right fun archives => ?_
      obtain ⟨step, answer⟩ := x
      cases step with
      | archive id mediaType image => rfl
      | _ => cases archives.2

theorem after_tables (site : Site) (v : Visit σ) (tables : st.store.tables.isSome) :
    (v.after site st).store.tables.isSome := by
  unfold after
  generalize Server.respond site v.request = s
  generalize v.outside = outside
  induction s generalizing st outside with
  | done a => exact tables
  | call step next ih => exact ih _ (st.perform_tables step _ tables) _

end Visit

namespace System

theorem Run.serveAll (S : System) (visits : List (Visit σ))
    (tables : S.state.store.tables.isSome) (faithful : ∀ v ∈ visits, v.Faithful draw convert) :
    ∃ es T, Run site S es T ∧ T.state = (Visit.serveAll site S.state visits).2 ∧
      T.state.store.tables.isSome ∧ (∀ i x, .act i x ∈ es → Exchange.Fair draw convert x) ∧
      ∀ id, Quiescent id es := by
  induction visits generalizing S with
  | nil =>
    refine ⟨[], S, .nil, rfl, tables, nofun, fun id before i target owner text since split => ?_⟩
    exact absurd split.symm (by simp)
  | cons v later ih =>
    obtain ⟨es, T, run, same, tables', fair, quiescent⟩ := ih
      ⟨v.after site S.state, S.tasks ++ [⟨v.request, .done (v.answer site S.state)⟩]⟩
      (v.after_tables site tables) fun u member => faithful u (.tail _ member)
    refine ⟨_, T, (Run.visit S v).trans run, same, tables', ?_, fun id => ?_⟩
    · intro i x member
      rcases List.mem_append.1 member with first | rest
      · rcases List.mem_cons.1 first with arrival | acted
        · cases arrival
        · obtain ⟨y, member', is⟩ := List.mem_map.1 acted
          cases is
          exact (faithful v (.head _)).fair tables _ member'
      · exact fair i x rest
    · have visited := (v.settled site S.state).quiescent id S.tasks.length
      have arrived : Quiescent id [.arrival S.tasks.length v.request] := .arrival _ _
      exact (arrived.append visited).append (quiescent id)

end System

/-- What all requests keep that are served one after another from a start. -/
structure State.Served (draw : String → Ballot) (convert : ByteArray → ByteArray) (site : Site)
    (st : State) : Prop where
  reachable : st.Reachable site
  tables : st.store.tables.isSome
  current : st.Current draw convert

theorem Visit.served_serveAll {store : Store} (numbered : store.Numbered)
    (tables : store.tables.isSome) (archive : Archive) (cacheBytes : UInt64)
    (visits : List (Visit σ)) (faithful : ∀ v ∈ visits, v.Faithful draw convert) :
    (serveAll site ⟨store, .empty cacheBytes, archive⟩ visits).2.Served draw convert site := by
  obtain ⟨es, T, run, same, tables', fair, quiescent⟩ :=
    @System.Run.serveAll _ draw convert site (System.start store archive cacheBytes) visits tables
      faithful
  refine ⟨⟨store, archive, cacheBytes, es, T, run, same⟩, same ▸ tables', ?_⟩
  intro id artifact holds
  rw [← show T.state = (serveAll site ⟨store, .empty cacheBytes, archive⟩ visits).2 from same]
    at holds ⊢
  obtain ⟨e, since, found, suffix, -, derived⟩ :=
    run.current_of_holds numbered rfl rfl (quiescent id) holds
  refine ⟨e, found, derived.renders fun i x member => ?_⟩
  exact fair i x (suffix.subset member)

end BallotServer
