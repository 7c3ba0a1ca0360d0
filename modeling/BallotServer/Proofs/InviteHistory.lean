import Mathlib.Data.List.Nodup
import BallotServer.Proofs.StoreCalls

/-! The invites that a store holds, by the history of its calls. A token that was issued stays until
a purge in a later second than its expiry, and cannot be issued again before that. Expiry and now
are compared by their whole seconds: a token is never purged at an instant up to its expiry, and
always in a later second. -/

namespace BallotServer

namespace Store

inductive Change
  | nothing
  | issued (token : String) (expires : Instant)
  | purged (now : Instant)

def Reply.change : Reply → Change
  | ⟨.invite token expires, .ok ()⟩ => .issued token expires
  | ⟨.purge now, _⟩ => .purged now
  | _ => .nothing

def Reply.purged : Reply → Nat
  | ⟨.purge _, .ok n⟩ => n
  | _ => 0

def allPurged : List Reply → Nat
  | [] => 0
  | r :: later => r.purged + allPurged later

namespace Change

def apply (is : List Invite) : Change → List Invite
  | nothing => is
  | issued token expires => is ++ [⟨token, expires.second⟩]
  | purged now => is.filter fun i => now.second ≤ i.expires

def added? : Change → Option Invite
  | issued token expires => some ⟨token, expires.second⟩
  | _ => none

def lost (is : List Invite) (c : Change) : List Invite := is.filter (· ∉ c.apply is)

def allLost (is : List Invite) : List Change → List Invite
  | [] => []
  | c :: later => c.lost is ++ allLost (c.apply is) later

theorem lost_of_subset {is : List Invite} {c : Change} (kept : is ⊆ c.apply is) :
    c.lost is = [] :=
  List.filter_eq_nil_iff.2 fun _ member => by simpa using kept member

theorem lost_purged (is : List Invite) (now : Instant) :
    (purged now).lost is = is.filter fun i => i.expires < now.second := by
  refine List.filter_congr fun i member => ?_
  simp only [apply, List.mem_filter, member, true_and, decide_eq_true_eq, Int.not_le]

theorem lost_append_apply_perm (is : List Invite) (c : Change) :
    (c.lost is ++ c.apply is).Perm (is ++ c.added?.toList) := by
  cases c with
  | nothing =>
    rw [lost_of_subset (List.Subset.refl is)]
    exact .of_eq (List.append_nil is).symm
  | issued token expires =>
    rw [lost_of_subset (List.subset_append_left is _)]
    exact .refl _
  | purged now =>
    have others : (fun i : Invite => decide (now.second ≤ i.expires)) =
        fun i => !decide (i.expires < now.second) := by
      funext i
      rw [← decide_not, decide_eq_decide, Int.not_lt]
    rw [lost_purged, apply, others]
    exact (List.filter_append_perm _ is).trans (.of_eq (List.append_nil is).symm)

theorem length_lost_purged (is : List Invite) (now : Instant) :
    is.length - ((purged now).apply is).length = ((purged now).lost is).length := by
  have all := (lost_append_apply_perm is (purged now)).length_eq
  rw [List.length_append, List.length_append] at all
  exact Nat.sub_eq_of_eq_add all.symm

theorem allLost_append_perm (is : List Invite) (changes : List Change) :
    (allLost is changes ++ changes.foldl apply is).Perm (is ++ changes.filterMap added?) := by
  induction changes generalizing is with
  | nil => exact .of_eq (List.append_nil is).symm
  | cons c later ih =>
    have added : (c :: later).filterMap added? = c.added?.toList ++ later.filterMap added? := by
      rw [List.filterMap_cons]
      cases c.added? <;> rfl
    rw [allLost, List.foldl_cons, added, List.append_assoc, ← List.append_assoc is]
    calc
      (c.lost is ++ (allLost (c.apply is) later ++ later.foldl apply (c.apply is))).Perm
          (c.lost is ++ (c.apply is ++ later.filterMap added?)) := (ih (c.apply is)).append_left _
      _ = c.lost is ++ c.apply is ++ later.filterMap added? := (List.append_assoc _ _ _).symm
      List.Perm _ (is ++ c.added?.toList ++ later.filterMap added?) :=
        (lost_append_apply_perm is c).append_right _

end Change

/-- The token was issued until that instant, and no purge since came in a later second. -/
def Outstanding (changes : List Change) (token : String) (expires : Instant) : Prop :=
  ∃ before after, changes = before ++ .issued token expires :: after ∧
    ∀ now, .purged now ∈ after → now.second ≤ expires.second

variable {changes : List Change} {c : Change} {token : String} {expires now : Instant}
  {is : List Invite} {s : Store} {t : Tables}

theorem outstanding_concat :
    Outstanding (changes ++ [c]) token expires ↔
      c = .issued token expires ∨ Outstanding changes token expires ∧
        ∀ now, c = .purged now → now.second ≤ expires.second := by
  constructor
  · rintro ⟨before, after, split, spared⟩
    rcases append_singleton_eq_append_cons.1 split with ⟨rfl, rfl, rfl⟩ | ⟨later, rfl, rfl⟩
    · exact .inl rfl
    · refine .inr ⟨⟨before, later, rfl, fun now member => ?_⟩, ?_⟩
      · exact spared now (List.mem_append_left _ member)
      · rintro now rfl
        exact spared now (List.mem_append_right _ (List.mem_singleton_self _))
  · rintro (rfl | ⟨⟨before, after, rfl, spared⟩, last⟩)
    · exact ⟨changes, [], rfl, nofun⟩
    · refine ⟨before, after ++ [c], ?_, fun now member => ?_⟩
      · exact append_singleton_eq_append_cons.2 (.inr ⟨after, rfl, rfl⟩)
      · rcases List.mem_append.1 member with earlier | only
        · exact spared now earlier
        · exact last now (List.mem_singleton.1 only).symm

/-- The invites are the tokens outstanding, each once and with the second of its expiry. -/
structure Held (changes : List Change) (is : List Invite) : Prop where
  distinct : (is.map Invite.token).Nodup
  rows : ∀ i, i ∈ is ↔ ∃ expires, Outstanding changes i.token expires ∧ i.expires = expires.second

namespace Held

theorem nil : Held [] [] := by
  refine ⟨.nil, fun i => ⟨nofun, ?_⟩⟩
  rintro ⟨expires, ⟨before, after, split, -⟩, -⟩
  exact absurd split.symm (List.append_ne_nil_of_right_ne_nil _ (List.cons_ne_nil _ _))

theorem apply (held : Held changes is)
    (free : ∀ token expires, c = .issued token expires → ∀ i ∈ is, i.token ≠ token) :
    Held (changes ++ [c]) (c.apply is) := by
  obtain ⟨distinct, rows⟩ := held
  cases c with
  | nothing =>
    refine ⟨distinct, fun i => (rows i).trans (exists_congr fun expires => ?_)⟩
    simp only [outstanding_concat, reduceCtorEq, false_or, false_implies, implies_true, and_true]
  | issued token expires =>
    refine ⟨?_, fun i => ?_⟩
    · rw [Change.apply, List.map_append, List.map_singleton]
      refine List.nodup_append.2 ⟨distinct, List.pairwise_singleton _ _, ?_⟩
      simpa using free token expires rfl
    · rw [Change.apply, List.mem_append, List.mem_singleton, rows i]
      simp only [outstanding_concat, Change.issued.injEq, reduceCtorEq, false_implies,
        implies_true, and_true, or_and_right, exists_or]
      rw [or_comm]
      refine or_congr_left ⟨?_, ?_⟩
      · rintro rfl
        exact ⟨expires, ⟨rfl, rfl⟩, rfl⟩
      · rintro ⟨_, ⟨same, rfl⟩, second⟩
        cases i
        cases same
        cases second
        rfl
  | purged now =>
    refine ⟨distinct.sublist (List.filter_sublist.map _), fun i => ?_⟩
    rw [Change.apply, List.mem_filter, rows i, decide_eq_true_eq]
    simp only [outstanding_concat, Change.purged.injEq, reduceCtorEq, false_or, forall_eq']
    constructor
    · rintro ⟨⟨expires, out, second⟩, kept⟩
      exact ⟨expires, ⟨out, second ▸ kept⟩, second⟩
    · rintro ⟨expires, ⟨out, kept⟩, second⟩
      exact ⟨⟨expires, out, second⟩, second ▸ kept⟩

end Held

theorem serve_put_invites (tables : s.tables = some t) (id owner : Int) (text : String) :
    ∃ t', (s.serve (.put id owner text)).2.tables = some t' ∧ t'.invites = t.invites := by
  by_cases new : id = 0
  · rw [new, serve_put_new tables]
    exact ⟨_, rfl, rfl⟩
  · cases found : s.find? id with
    | some e =>
      rw [serve_put_old tables new found]
      exact ⟨_, rfl, rfl⟩
    | none =>
      rw [serve_put_missing tables new found]
      exact ⟨t, tables, rfl⟩

theorem serve_change (tables : s.tables = some t) (call : Call) :
    let r : Reply := ⟨call, (s.serve call).1⟩
    ∃ t', (s.serve call).2.tables = some t' ∧ t'.invites = r.change.apply t.invites ∧
      r.purged = (r.change.lost t.invites).length ∧
      ∀ token expires, r.change = .issued token expires → ∀ i ∈ t.invites, i.token ≠ token := by
  have nothing : 0 = (Change.nothing.lost t.invites).length := by
    rw [Change.lost_of_subset (List.Subset.refl _), List.length_nil]
  cases call with
  | connect | get _ => exact ⟨t, tables, rfl, nothing, nofun⟩
  | reopen | setup =>
    rw [serve_idle tables (by decide)]
    exact ⟨t, tables, rfl, nothing, nofun⟩
  | put id owner text =>
    obtain ⟨t', after, same⟩ := serve_put_invites tables id owner text
    exact ⟨t', after, same, nothing, nofun⟩
  | invite token expires =>
    by_cases taken : ∃ i ∈ t.invites, i.token = token
    · rw [serve_invite_taken tables taken]
      exact ⟨t, tables, rfl, nothing, nofun⟩
    · have free : ∀ i ∈ t.invites, i.token ≠ token := by simpa using taken
      rw [serve_invite_new tables free]
      refine ⟨_, rfl, rfl, ?_, ?_⟩
      · rw [Reply.change, Change.lost_of_subset (List.subset_append_left _ _)]
        rfl
      · rintro _ _ ⟨⟩
        exact free
  | purge now =>
    rw [serve_purge tables]
    exact ⟨_, rfl, rfl, Change.length_lost_purged t.invites now, nofun⟩

theorem held_serveAll (calls : List Call) :
    ∃ t, (fresh.serveAll calls).2.tables = some t ∧
      Held ((fresh.serveAll calls).1.map Reply.change) t.invites := by
  refine serveAll_induction (P := fun replies s =>
    ∃ t, s.tables = some t ∧ Held (replies.map Reply.change) t.invites) ⟨_, rfl, .nil⟩ ?_ calls
  rintro replies s call ⟨t, tables, held⟩
  obtain ⟨t', after, changed, -, free⟩ := serve_change tables call
  refine ⟨t', after, ?_⟩
  rw [changed, List.map_append]
  exact held.apply free

theorem accounts_serveAll (tables : s.tables = some t) (calls : List Call) :
    let changes := (s.serveAll calls).1.map Reply.change
    (s.serveAll calls).2.invites = changes.foldl Change.apply t.invites ∧
      allPurged (s.serveAll calls).1 = (Change.allLost t.invites changes).length := by
  induction calls generalizing s t with
  | nil => exact ⟨invites_of_tables tables, rfl⟩
  | cons call later ih =>
    obtain ⟨t', after, changed, told, -⟩ := serve_change tables call
    obtain ⟨last, sum⟩ := ih after
    rw [changed] at last sum
    refine ⟨last, ?_⟩
    rw [serveAll, List.map_cons, allPurged, Change.allLost, List.length_append, sum, told]

namespace Held

theorem stored (held : Held changes is) (out : Outstanding changes token expires) :
    ⟨token, expires.second⟩ ∈ is :=
  (held.rows ⟨token, expires.second⟩).2 ⟨expires, out, rfl⟩

theorem spared (held : Held changes is) (out : Outstanding changes token expires)
    (valid : now ≤ expires) : ⟨token, expires.second⟩ ∈ (Change.purged now).apply is :=
  List.mem_filter.2 ⟨held.stored out, decide_eq_true (Instant.second_le_second valid)⟩

theorem swept (held : Held changes is) (out : Outstanding changes token expires)
    (expired : expires.second < now.second) :
    ∀ i ∈ (Change.purged now).apply is, i.token ≠ token := by
  rintro i member same
  obtain ⟨old, kept⟩ := List.mem_filter.1 member
  have only : i = ⟨token, expires.second⟩ :=
    List.inj_on_of_nodup_map held.distinct old (held.stored out) same
  rw [only] at kept
  exact absurd (of_decide_eq_true kept) (Int.not_le.2 expired)

theorem serve_taken (held : Held changes t.invites) (tables : s.tables = some t)
    (out : Outstanding changes token now) (expires : Instant) :
    s.serve (.invite token expires) = (.error (.database .tokenTaken), s) :=
  serve_invite_taken tables ⟨_, held.stored out, rfl⟩

theorem serve_free (held : Held changes t.invites) (tables : s.tables = some t)
    (unknown : ¬ ∃ earlier, Outstanding changes token earlier) (expires : Instant) :
    s.serve (.invite token expires) =
      (.ok (), ⟨some { t with invites := t.invites ++ [⟨token, expires.second⟩] }⟩) := by
  refine serve_invite_new tables fun i member same => unknown ?_
  obtain ⟨earlier, out, -⟩ := (held.rows i).1 member
  exact ⟨earlier, same ▸ out⟩

end Held

theorem apply_purged_purged (is : List Invite) {later : Instant} (le : now ≤ later) :
    (Change.purged later).apply ((Change.purged now).apply is) =
      (Change.purged later).apply is := by
  rw [Change.apply, Change.apply, List.filter_filter]
  refine List.filter_congr fun i _ => ?_
  have seconds := Instant.second_le_second le
  rw [← Bool.decide_and, decide_eq_decide]
  omega

theorem serve_purge_told (tables : s.tables = some t) (held : Held changes t.invites)
    (now : Instant) :
    ∃ n s', s.serve (.purge now) = (.ok n, s') ∧ s'.elections = s.elections ∧
      (∀ token expires, Outstanding changes token expires →
        (now ≤ expires → ⟨token, expires.second⟩ ∈ s'.invites) ∧
        (expires.second < now.second → (∀ i ∈ s'.invites, i.token ≠ token) ∧
          ∀ again, (s'.serve (.invite token again)).1 = .ok ())) ∧
      s'.invites.Sublist s.invites ∧ n = (s.invites.filter (· ∉ s'.invites)).length ∧
      ∀ later, now ≤ later → (s'.serve (.purge later)).2 = (s.serve (.purge later)).2 := by
  rw [serve_purge tables]
  refine ⟨_, _, rfl, (elections_of_tables tables).symm, ?_, ?_, ?_, ?_⟩
  · intro token expires out
    refine ⟨fun valid => held.spared out valid, fun expired => ?_⟩
    have gone := held.swept out expired
    refine ⟨gone, fun again => ?_⟩
    rw [serve_invite_new rfl gone]
  · rw [invites_of_tables tables]
    exact List.filter_sublist
  · rw [invites_of_tables tables]
    exact Change.length_lost_purged t.invites now
  · intro later le
    rw [serve_purge tables, serve_purge rfl]
    exact congrArg (fun is => (⟨some { t with invites := is }⟩ : Store))
      (apply_purged_purged t.invites le)

theorem serve_issue (s : Store) (chance : Vector UInt8 Invite.tokenBytes) (now : Instant)
    (minutes : Int) :
    (s.serve (.invite (Invite.tokenOf chance) (now.addMinutes minutes))).2 =
      (s.commit (s.issue chance now minutes)).2 := by
  simp only [serve, issue]
  cases s.invite (Invite.tokenOf chance) (now.addMinutes minutes) <;> rfl

theorem serveAll_sweep (s : Store) (times : List Instant) :
    (s.serveAll (times.map .purge)).2 = s.sweep times := by
  induction times generalizing s with
  | nil => rfl
  | cons now later ih =>
    rw [List.map_cons, serveAll, sweep]
    dsimp only
    rw [ih, serve]
    cases s.purge now <;> rfl

/-- After any calls on a new store: it holds the tokens outstanding, each once. A purge takes away
none up to its expiry, and every one in a later second, which can then be issued again; it tells how
many invites disappeared; and it makes no difference to a purge at a later instant. Over all calls,
the invites issued are those that disappeared, each counted by the purge that took it away, and
those still there. A token that is outstanding is not issued again, and trying changes nothing; any
other is. -/
theorem invites_told (calls : List Call) :
    let replies := (fresh.serveAll calls).1
    let changes := replies.map Reply.change
    let s := (fresh.serveAll calls).2
    (s.invites.map Invite.token).Nodup ∧
    (∀ i, i ∈ s.invites ↔
      ∃ expires, Outstanding changes i.token expires ∧ i.expires = expires.second) ∧
    (∀ now, ∃ n s', s.serve (.purge now) = (.ok n, s') ∧ s'.elections = s.elections ∧
      (∀ token expires, Outstanding changes token expires →
        (now ≤ expires → ⟨token, expires.second⟩ ∈ s'.invites) ∧
        (expires.second < now.second → (∀ i ∈ s'.invites, i.token ≠ token) ∧
          ∀ again, (s'.serve (.invite token again)).1 = .ok ())) ∧
      s'.invites.Sublist s.invites ∧ n = (s.invites.filter (· ∉ s'.invites)).length ∧
      ∀ later, now ≤ later → (s'.serve (.purge later)).2 = (s.serve (.purge later)).2) ∧
    (s.invites = changes.foldl Change.apply [] ∧
      allPurged replies = (Change.allLost [] changes).length ∧
      (Change.allLost [] changes ++ s.invites).Perm (changes.filterMap Change.added?)) ∧
    ∀ token expires,
      ((∃ earlier, Outstanding changes token earlier) →
        s.serve (.invite token expires) = (.error (.database .tokenTaken), s)) ∧
      ((¬ ∃ earlier, Outstanding changes token earlier) →
        ∃ s', s.serve (.invite token expires) = (.ok (), s') ∧ s'.elections = s.elections ∧
          s'.invites = s.invites ++ [⟨token, expires.second⟩]) := by
  intro replies changes s
  obtain ⟨t, tables, held⟩ := held_serveAll calls
  have invites : s.invites = t.invites := invites_of_tables tables
  obtain ⟨last, sum⟩ := accounts_serveAll (s := fresh) rfl calls
  refine ⟨?_, ?_, serve_purge_told tables held, ⟨last, sum, ?_⟩, fun token expires => ⟨?_, ?_⟩⟩
  · rw [invites]
    exact held.distinct
  · rw [invites]
    exact held.rows
  · rw [show s.invites = _ from last]
    exact Change.allLost_append_perm [] changes
  · rintro ⟨earlier, out⟩
    exact held.serve_taken tables out expires
  · intro unknown
    rw [held.serve_free tables unknown expires, invites, elections_of_tables tables]
    exact ⟨_, rfl, rfl, rfl⟩

theorem invites_told_again :
    let calls := [Call.invite "a" ⟨10, 5, .inl (by decide)⟩, .purge ⟨10, 9, .inl (by decide)⟩]
    let s := (fresh.serveAll calls).2
    (∃ n s', s.serve (.purge ⟨10, 4, .inl (by decide)⟩) = (.ok n, s') ∧ ⟨"a", 10⟩ ∈ s'.invites ∧
      (s'.serve (.purge ⟨11, 0, .inl (by decide)⟩)).2 =
        (s.serve (.purge ⟨11, 0, .inl (by decide)⟩)).2) ∧
    (∃ n s', s.serve (.purge ⟨11, 0, .inl (by decide)⟩) = (.ok n, s') ∧
      ∀ again, (s'.serve (.invite "a" again)).1 = .ok ()) ∧
    ∀ again, s.serve (.invite "a" again) = (.error (.database .tokenTaken), s) := by
  intro calls s
  obtain ⟨-, -, purge, -, invite⟩ := invites_told calls
  have out : Outstanding ((fresh.serveAll calls).1.map Reply.change) "a"
      ⟨10, 5, .inl (by decide)⟩ := by
    refine ⟨[], [.purged ⟨10, 9, .inl (by decide)⟩], rfl, fun now member => ?_⟩
    cases List.mem_singleton.1 member
    decide
  refine ⟨?_, ?_, fun again => (invite "a" again).1 ⟨_, out⟩⟩
  · obtain ⟨n, s', done, -, told, -, -, later⟩ := purge ⟨10, 4, .inl (by decide)⟩
    exact ⟨n, s', done, (told _ _ out).1 (.inr ⟨rfl, by decide⟩), later _ (.inl (by decide))⟩
  · obtain ⟨n, s', done, -, told, -⟩ := purge ⟨11, 0, .inl (by decide)⟩
    exact ⟨n, s', done, ((told _ _ out).2 (by decide)).2⟩

end Store

end BallotServer
