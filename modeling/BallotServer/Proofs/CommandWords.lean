import Mathlib.Tactic.Choose
import BallotServer.Proofs.Outcomes
import BallotServer.Proofs.Texts
import BallotServer.Settings

/-! The command lines that are accepted. Their words give settings, each with its text in the same
word or in the next one; no setting is given twice, and every text can be read. The settings that no
word gives are read from the environment, and the others are not. A server runs with them if they
agree with each other. -/

namespace BallotServer.CommandLine

def flag (s : Setting) : String := "--" ++ s.option

/-- The words give these settings with their texts, in their order. -/
inductive Written : List String → List (Setting × String) → Prop
  | nothing : Written [] []
  | ending : Written ["--"] []
  | attached (s : Setting) (text : String) {words : List String}
    {given : List (Setting × String)} (later : Written words given) :
    Written ((flag s ++ "=" ++ text) :: words) ((s, text) :: given)
  | apart (s : Setting) {text : String} (plain : Word.of text = .plain) {words : List String}
    {given : List (Setting × String)} (later : Written words given) :
    Written (flag s :: text :: words) ((s, text) :: given)

variable {s : Setting} {text word : String} {words : List String}
  {given : List (Setting × String)} {v v' : Values} {held : Held}

namespace Word

theorem equals_notMem_option (s : Setting) : '=' ∉ s.option.toList := by
  cases s <;> decide

theorem ofLong_option (s : Setting) : ofLong s.option.toList none = option s := by
  cases s <;> rfl

theorem ofLong_option_value (s : Setting) (text : String) :
    ofLong s.option.toList (some text.toList) = optionWithValue s text := by
  have same : String.ofList text.toList = text := String.ofList_toList
  cases s <;> exact congrArg (optionWithValue _) same

theorem cut?_option (s : Setting) : Text.cut? '=' s.option.toList = none := by
  cases cut : Text.cut? '=' s.option.toList with
  | none => rfl
  | some parts =>
    have split := (Text.cut?_eq_some_iff.1 cut).1
    exact absurd (split ▸ List.mem_append_right _ List.mem_cons_self) (equals_notMem_option s)

def ofDashed (cs : List Char) : Word :=
  match Text.cut? '=' cs with
  | none => ofLong cs none
  | some (name, value) => ofLong name (some value)

theorem of_dashes {cs : List Char} (chars : word.toList = '-' :: '-' :: cs) (some : cs ≠ []) :
    of word = ofDashed cs := by
  obtain ⟨c, cs, rfl⟩ := List.exists_cons_of_ne_nil some
  rw [of, chars]
  rfl

theorem of_cases (word : String) :
    word.toList = ['-', '-'] ∧ of word = ending ∨
      (∃ cs, word.toList = '-' :: '-' :: cs ∧ of word = ofDashed cs) ∨
      of word ∈ [help, version, unknown, plain] := by
  unfold of
  split
  · exact .inl ⟨by assumption, rfl⟩
  · exact .inr (.inl ⟨_, by assumption, rfl⟩)
  · exact .inr (.inr (by decide))
  · exact .inr (.inr (by decide))
  · exact .inr (.inr (by decide))
  · exact .inr (.inr (by decide))

theorem of_flag (s : Setting) : of (flag s) = option s := by
  have chars : (flag s).toList = '-' :: '-' :: s.option.toList := String.toList_append
  have some : s.option.toList ≠ [] := by cases s <;> decide
  rw [of_dashes chars some, ofDashed, cut?_option]
  exact ofLong_option s

theorem of_attached (s : Setting) (text : String) :
    of (flag s ++ "=" ++ text) = optionWithValue s text := by
  have chars : (flag s ++ "=" ++ text).toList =
      '-' :: '-' :: (s.option.toList ++ '=' :: text.toList) := by
    simp [flag]
  rw [of_dashes chars (by simp), ofDashed, Text.cut?_append (equals_notMem_option s)]
  exact ofLong_option_value s text

theorem of_plain (bare : text.toList.head? ≠ some '-') : of text = plain := by
  unfold of
  split <;> simp_all

theorem ofLong_cases (name : List Char) (value : Option (List Char)) :
    (∃ s, name = s.option.toList ∧ ofLong name value =
        match value with
        | none => option s
        | some text => optionWithValue s (String.ofList text)) ∨
      ofLong name value ∈ [help, version, flagWithValue, unknown] := by
  unfold ofLong
  split
  · right
    split <;> decide
  · split
    · right
      split <;> decide
    · cases found : Setting.all.find? fun s => s.option.toList == name with
      | none => exact .inr (by simp)
      | some s =>
        have same : s.option.toList = name := by simpa using List.find?_some found
        cases value with
        | none => exact .inl ⟨s, same.symm, rfl⟩
        | some text => exact .inl ⟨s, same.symm, rfl⟩

theorem ofDashed_cases (cs : List Char) :
    (∃ s, cs = s.option.toList ∧ ofDashed cs = option s) ∨
      (∃ s text, cs = s.option.toList ++ '=' :: String.toList text ∧
        ofDashed cs = optionWithValue s text) ∨
      ofDashed cs ∈ [help, version, flagWithValue, unknown] := by
  unfold ofDashed
  cases cut : Text.cut? '=' cs with
  | none =>
    rcases ofLong_cases cs none with ⟨s, same, is⟩ | other
    · exact .inl ⟨s, same, is⟩
    · exact .inr (.inr other)
  | some parts =>
    obtain ⟨name, value⟩ := parts
    rcases ofLong_cases name (some value) with ⟨s, rfl, is⟩ | other
    · refine .inr (.inl ⟨s, String.ofList value, ?_, is⟩)
      rw [String.toList_ofList]
      exact (Text.cut?_eq_some_iff.1 cut).1
    · exact .inr (.inr other)

theorem of_spelled (word : String) :
    word = "--" ∧ of word = ending ∨
      (∃ s, word = flag s ∧ of word = option s) ∨
      (∃ s text, word = flag s ++ "=" ++ text ∧ of word = optionWithValue s text) ∨
      of word ∈ [plain, help, version, flagWithValue, unknown] := by
  rcases of_cases word with ⟨chars, is⟩ | ⟨cs, chars, is⟩ | other
  · exact .inl ⟨String.toList_inj.1 chars, is⟩
  · rw [is]
    rcases ofDashed_cases cs with ⟨s, rfl, is⟩ | ⟨s, text, rfl, is⟩ | other
    · refine .inr (.inl ⟨s, String.toList_inj.1 ?_, is⟩)
      rw [chars]
      simp [flag]
    · refine .inr (.inr (.inl ⟨s, text, String.toList_inj.1 ?_, is⟩))
      rw [chars]
      simp [flag]
    · exact .inr (.inr (.inr (List.mem_cons_of_mem _ other)))
  · simp only [List.mem_cons, List.not_mem_nil, or_false] at other
    rcases other with is | is | is | is <;> exact .inr (.inr (.inr (by simp [is])))

end Word

def acceptAll (v : Values) (given : List (Setting × String)) : Except UsageError Values :=
  given.foldlM (fun v g => v.accept g.1 g.2) v

theorem acceptAll_cons :
    acceptAll v ((s, text) :: given) = .ok v' ↔
      ∃ w, v.accept s text = .ok w ∧ acceptAll w given = .ok v' := by
  rw [acceptAll, List.foldlM_cons]
  exact bind_eq_ok_iff

theorem readWords_value_eq_ok :
    readWords v (.value s text) words = .ok v' ↔
      ∃ w, v.accept s text = .ok w ∧ readWords w .nothing words = .ok v' := by
  cases words with
  | nil => simp [readWords, settle]
  | cons word rest =>
    cases kind : Word.of word with
    | ending => cases rest <;> simp [readWords, kind, settle]
    | plain | unknown | flagWithValue => simp [readWords, kind]
    | help | version =>
      simp only [readWords, kind, bind_eq_ok_iff]
      exact ⟨nofun, nofun⟩
    | option u | optionWithValue u _ => simp [readWords, kind, bind_eq_ok_iff, settle]

theorem readWords_option_eq_ok :
    readWords v (.option s) (word :: words) = .ok v' ↔
      Word.of word = .plain ∧ readWords v (.value s word) words = .ok v' := by
  cases kind : Word.of word with
  | ending => cases words <;> simp [readWords, kind, settle]
  | plain | unknown | flagWithValue => simp [readWords, kind]
  | help | version | option _ | optionWithValue _ _ =>
    simp [readWords, kind, settle, bind_eq_ok_iff]

theorem readWords_flag :
    readWords v .nothing (flag s :: words) = readWords v (.option s) words := by
  simp only [readWords, Word.of_flag, settle]
  rfl

theorem readWords_attached :
    readWords v .nothing ((flag s ++ "=" ++ text) :: words) =
      (v.accept s text >>= fun w => readWords w .nothing words) := by
  simp only [readWords, Word.of_attached, settle]
  rfl

theorem readWords_of_written (written : Written words given)
    (accepted : acceptAll v given = .ok v') : readWords v .nothing words = .ok v' := by
  induction written generalizing v with
  | nothing => exact accepted
  | ending => exact accepted
  | attached s text later ih =>
    obtain ⟨w, first, rest⟩ := acceptAll_cons.1 accepted
    rw [readWords_attached, bind_eq_ok_iff]
    exact ⟨w, first, ih rest⟩
  | apart s plain later ih =>
    obtain ⟨w, first, rest⟩ := acceptAll_cons.1 accepted
    rw [readWords_flag, readWords_option_eq_ok, readWords_value_eq_ok]
    exact ⟨plain, w, first, ih rest⟩

theorem written_of_readWords (read : readWords v .nothing words = .ok v') :
    ∃ given, Written words given ∧ acceptAll v given = .ok v' := by
  obtain ⟨n, bound⟩ : ∃ n, words.length ≤ n := ⟨_, Nat.le_refl _⟩
  -- The words are taken one or two at a time, so the induction is on a bound of their number.
  induction n generalizing words v with
  | zero =>
    obtain rfl := List.eq_nil_of_length_eq_zero (Nat.le_zero.1 bound)
    exact ⟨[], .nothing, read⟩
  | succ n ih =>
    cases words with
    | nil => exact ih read (Nat.zero_le n)
    | cons word rest =>
      have shorter : rest.length ≤ n := Nat.le_of_succ_le_succ bound
      rcases Word.of_spelled word with ⟨rfl, is⟩ | ⟨s, rfl, -⟩ | ⟨s, text, rfl, -⟩ | other
      · cases rest with
        | nil => exact ⟨[], .ending, read⟩
        | cons next rest => simp [readWords, is] at read
      · rw [readWords_flag] at read
        cases rest with
        | nil => cases read
        | cons text rest =>
          obtain ⟨plain, read⟩ := readWords_option_eq_ok.1 read
          obtain ⟨w, first, read⟩ := readWords_value_eq_ok.1 read
          obtain ⟨given, written, accepted⟩ := ih read (Nat.le_of_succ_le shorter)
          exact ⟨_, .apart s plain written, acceptAll_cons.2 ⟨w, first, accepted⟩⟩
      · rw [readWords_attached] at read
        obtain ⟨w, first, read⟩ := bind_eq_ok_iff.1 read
        obtain ⟨given, written, accepted⟩ := ih read shorter
        exact ⟨_, .attached s text written, acceptAll_cons.2 ⟨w, first, accepted⟩⟩
      · simp only [List.mem_cons, List.not_mem_nil, or_false] at other
        rcases other with is | is | is | is | is <;>
          simp [readWords, is, settle, bind_eq_ok_iff] at read

theorem accept_eq_ok_iff :
    v.accept s text = .ok v' ↔ v s = none ∧ ∃ x, s.read text = .ok x ∧ v' = v.set s x := by
  unfold Values.accept
  cases v s with
  | some x => simp
  | none =>
    cases s.read text with
    | error e => simp [Except.map]
    | ok x => simp [Except.map, eq_comm]

/-- What a setting held before, and what it holds after a text for it was read, if there is one. -/
def Fills (s : Setting) (text? : Option String) (before after : Option s.Content) : Prop :=
  match text? with
  | none => after = before
  | some text => ∃ x, s.read text = .ok x ∧ after = some x

theorem lookup_cons_of_ne {u : Setting} (other : s ≠ u) (text : String) :
    ((u, text) :: given).lookup s = given.lookup s := by
  rw [List.lookup_cons, beq_false_of_ne other]

theorem lookup_of_notMem (absent : s ∉ given.map Prod.fst) : given.lookup s = none := by
  refine List.lookup_eq_none_iff.2 fun g member => bne_iff_ne.2 ?_
  rintro rfl
  exact absent (List.mem_map_of_mem member)

theorem acceptAll_eq_ok_iff :
    acceptAll v given = .ok v' ↔
      (given.map Prod.fst).Nodup ∧ (∀ s ∈ given.map Prod.fst, v s = none) ∧
        ∀ s, Fills s (given.lookup s) (v s) (v' s) := by
  induction given generalizing v with
  | nil =>
    constructor
    · rintro ⟨⟩
      exact ⟨.nil, nofun, fun s => rfl⟩
    · rintro ⟨-, -, filled⟩
      exact congrArg Except.ok (funext filled).symm
  | cons g later ih =>
    obtain ⟨u, text⟩ := g
    simp only [acceptAll_cons, accept_eq_ok_iff, ih, List.map_cons, List.nodup_cons,
      List.forall_mem_cons]
    constructor
    · rintro ⟨_, ⟨free, x, read, rfl⟩, distinct, unset, filled⟩
      have absent : u ∉ later.map Prod.fst := fun member => by simpa using unset u member
      refine ⟨⟨absent, distinct⟩, ⟨free, fun s member => ?_⟩, fun s => ?_⟩
      · have other : s ≠ u := fun same => absent (same ▸ member)
        rw [← unset s member, Values.set_of_ne v x other]
      · by_cases same : s = u
        · subst same
          have last := filled s
          rw [lookup_of_notMem absent, Values.set_self] at last
          rw [List.lookup_cons_self]
          exact ⟨x, read, last⟩
        · have last := filled s
          rwa [Values.set_of_ne v x same, ← lookup_cons_of_ne same text] at last
    · rintro ⟨⟨absent, distinct⟩, ⟨free, unset⟩, filled⟩
      have first := filled u
      rw [List.lookup_cons_self] at first
      obtain ⟨x, read, last⟩ := first
      refine ⟨v.set u x, ⟨free, x, read, rfl⟩, distinct, fun s member => ?_, fun s => ?_⟩
      · have other : s ≠ u := fun same => absent (same ▸ member)
        rw [Values.set_of_ne v x other, unset s member]
      · by_cases same : s = u
        · subst same
          rw [lookup_of_notMem absent, Values.set_self]
          exact last
        · rw [Values.set_of_ne v x same, ← lookup_cons_of_ne same text]
          exact filled s

/-- The text that the environment has for a setting which holds nothing yet. -/
def open? (environment : Setting → Option String) (v : Values) (s : Setting) : Option String :=
  if (v s).isSome then none else environment s

variable {environment : Setting → Option String}

theorem open?_congr {w : Values} (same : w s = v s) :
    open? environment w s = open? environment v s := by
  rw [open?, open?, same]

theorem eq_set_iff (x : s.Content) :
    v' = v.set s x ↔ v' s = some x ∧ ∀ u, u ≠ s → v' u = v u := by
  constructor
  · rintro rfl
    exact ⟨Values.set_self v s x, fun u other => Values.set_of_ne v x other⟩
  · rintro ⟨here, beside⟩
    funext u
    by_cases same : u = s
    · subst same
      rw [here, Values.set_self]
    · rw [beside u same, Values.set_of_ne v x same]

theorem fillIn_eq_ok_iff :
    fillIn environment v s = .ok v' ↔
      Fills s (open? environment v s) (v s) (v' s) ∧ ∀ u, u ≠ s → v' u = v u := by
  have idle : .ok v = (.ok v' : Except UsageError Values) ↔
      v' s = v s ∧ ∀ u, u ≠ s → v' u = v u := by
    constructor
    · rintro ⟨⟩
      exact ⟨rfl, fun u _ => rfl⟩
    · rintro ⟨here, beside⟩
      refine congrArg Except.ok (funext fun u => ?_)
      by_cases same : u = s
      · rw [same, here]
      · exact (beside u same).symm
  unfold fillIn open?
  cases before : v s with
  | some x => rwa [before] at idle
  | none =>
    cases environment s with
    | none => rwa [before] at idle
    | some text =>
      simp only [accept_eq_ok_iff, before, eq_set_iff, Fills, true_and, Option.isSome_none,
        Bool.false_eq_true, if_false, ← and_assoc, exists_and_right]

theorem foldlM_fillIn_eq_ok_iff {settings : List Setting} (distinct : settings.Nodup) :
    settings.foldlM (fillIn environment) v = .ok v' ↔
      (∀ s ∈ settings, Fills s (open? environment v s) (v s) (v' s)) ∧
        ∀ s, s ∉ settings → v' s = v s := by
  induction settings generalizing v with
  | nil =>
    constructor
    · rintro ⟨⟩
      exact ⟨nofun, fun s _ => rfl⟩
    · rintro ⟨-, same⟩
      exact congrArg Except.ok (funext fun s => same s List.not_mem_nil).symm
  | cons u later ih =>
    obtain ⟨absent, distinct⟩ := List.nodup_cons.1 distinct
    simp only [List.foldlM_cons, bind_eq_ok_iff, fillIn_eq_ok_iff, ih distinct,
      List.mem_cons, not_or, forall_eq_or_imp]
    constructor
    · rintro ⟨w, ⟨first, beside⟩, filled, same⟩
      refine ⟨⟨?_, fun s member => ?_⟩, fun s ⟨other, outside⟩ => ?_⟩
      · rwa [same u absent]
      · have untouched := beside s fun is => absent (is ▸ member)
        have last := filled s member
        rwa [open?_congr untouched, untouched] at last
      · exact (same s outside).trans (beside s other)
    · rintro ⟨⟨first, filled⟩, same⟩
      let w : Values := Function.update v u (v' u)
      have here : w u = v' u := Function.update_self u (v' u) v
      have beside (s : Setting) (other : s ≠ u) : w s = v s := Function.update_of_ne other _ v
      refine ⟨w, ⟨by rwa [here], beside⟩, fun s member => ?_, fun s outside => ?_⟩
      · have untouched := beside s fun is => absent (is ▸ member)
        rw [open?_congr untouched, untouched]
        exact filled s member
      · by_cases is : s = u
        · rw [is, here]
        · exact (same s ⟨is, outside⟩).trans (beside s is).symm

theorem fills_or_iff {text? other? : Option String} {after : Option s.Content} :
    Fills s (text?.or other?) none after ↔
      ∃ between, Fills s text? none between ∧
        Fills s (if between.isSome then none else other?) between after := by
  cases text? with
  | none =>
    constructor
    · exact fun filled => ⟨none, rfl, filled⟩
    · rintro ⟨_, rfl, filled⟩
      exact filled
  | some text =>
    constructor
    · rintro ⟨x, read, rfl⟩
      exact ⟨some x, ⟨x, read, rfl⟩, rfl⟩
    · rintro ⟨_, ⟨x, read, rfl⟩, same⟩
      exact ⟨x, read, same⟩

/-- A command line is accepted, if its words give every setting at most once, and every text can
be read that they give, or that the environment has for a setting they do not give. -/
theorem read_eq_ok_iff :
    read words environment = .ok v ↔
      ∃ given, Written words given ∧ (given.map Prod.fst).Nodup ∧
        ∀ s, Fills s ((given.lookup s).or (environment s)) none (v s) := by
  have distinct : Setting.all.Nodup := by decide
  simp only [read, bind_eq_ok_iff, foldlM_fillIn_eq_ok_iff distinct]
  constructor
  · rintro ⟨w, words, filled, -⟩
    obtain ⟨given, written, accepted⟩ := written_of_readWords words
    obtain ⟨distinct, -, taken⟩ := acceptAll_eq_ok_iff.1 accepted
    refine ⟨given, written, distinct, fun s => fills_or_iff.2 ⟨w s, taken s, ?_⟩⟩
    exact filled s (Setting.mem_all s)
  · rintro ⟨given, written, distinct, filled⟩
    choose w taken left using fun s => fills_or_iff.1 (filled s)
    refine ⟨w, readWords_of_written written ?_, fun s _ => left s, fun s outside => ?_⟩
    · exact acceptAll_eq_ok_iff.2 ⟨distinct, fun s _ => rfl, taken⟩
    · exact absurd (Setting.mem_all s) outside

end BallotServer.CommandLine

namespace BallotServer.Settings

variable {chance : Vector UInt8 16} {v : Values} {settings : Settings}

theorem ofValues_eq_ok_iff :
    ofValues chance v = .ok settings ↔
      ∃ engine key, Engine.of (v .sqlite) (v .postgres) = .ok engine ∧
        (v .sweepMinutes).getD defaultSweepMinutes ≠ 0 ∧
        (v .dotsPerInch).getD defaultDotsPerInch ≠ 0 ∧
        CookieKey.ofText chance ((v .cookieKey).getD "") = .ok key ∧
        ((v .sweepMinutes).getD defaultSweepMinutes).toNat * 60 < UInt64.size ∧
        settings = {
          http := (v .http).getD defaultHttp
          engine
          drawBackend := v .drawBackend
          archiveDirectory := v .archiveDirectory
          cookieKey := key
          pidFile := v .pidFile
          cacheBytes := (v .cacheBytes).getD defaultCacheBytes
          rasterizer := (v .rasterizer).getD defaultRasterizer
          dotsPerInch := (v .dotsPerInch).getD defaultDotsPerInch
          sweepSeconds := (v .sweepMinutes).getD defaultSweepMinutes * 60
          connections := (v .connections).getD defaultConnections } := by
  constructor
  · intro made
    unfold ofValues at made
    obtain ⟨engine, one, made⟩ := bind_eq_ok_iff.1 made
    dsimp only at made
    split at made
    · cases made
    · split at made
      · cases made
      · obtain ⟨key, read, made⟩ := bind_eq_ok_iff.1 made
        split at made
        · cases made
        · cases made
          exact ⟨engine, key, one, by assumption, by assumption, read,
            Nat.lt_of_not_le (by assumption), rfl⟩
  · rintro ⟨engine, key, one, minutes, dots, read, word, rfl⟩
    unfold ofValues
    rw [one, read]
    dsimp only
    simp only [if_neg minutes, if_neg dots, if_neg (Nat.not_le.2 word)]
    rfl

end BallotServer.Settings
