import BallotServer.Proofs.CommandWords
import BallotServer.Proofs.Decimals

/-! The seconds between two sweeps of the expired invites: sixty times the minutes that the command
line or the environment gives. Zero minutes are refused. Settings that are made have the exact
number of seconds; minutes whose seconds are no 64-bit word make a panic and no settings. -/

namespace BallotServer

namespace Settings

variable {chance : Vector UInt8 16} {v : Values} {settings : Settings}

/-- The number that a text for the minutes stands for; without a text there are 57. -/
def MinutesOf (text? : Option String) (minutes : Nat) : Prop :=
  match text? with
  | none => minutes = 57
  | some text => ∃ digits, (text.toList = digits ∨ text.toList = '+' :: digits) ∧
      Decimal.isNumeral digits ∧ Decimal.value digits = minutes ∧ minutes < Nat.pow 2 64

theorem read_sweepMinutes_eq_ok_iff {text : String} {m : UInt64} :
    Setting.read .sweepMinutes text = .ok m ↔ MinutesOf (some text) m.toNat := by
  have bound (n : Nat) : n ≤ Nat.pow 2 64 - 1 ↔ n < Nat.pow 2 64 :=
    Nat.le_sub_one_iff_lt (by decide)
  have read (n : Nat) : Decimal.readUnsigned (Nat.pow 2 64 - 1) text.toList = some n ↔
      MinutesOf (some text) n := by
    simp only [Decimal.readUnsigned_eq_some_iff, bound, MinutesOf]
  rw [← read]
  simp only [Setting.read, Setting.readWord]
  cases is : Decimal.readUnsigned (Nat.pow 2 64 - 1) text.toList with
  | none => exact ⟨nofun, nofun⟩
  | some n =>
    obtain ⟨-, -, -, -, small⟩ := (read n).1 is
    have word : n.toUInt64.toNat = n := Nat.mod_eq_of_lt small
    constructor
    · rintro ⟨⟩
      rw [word]
    · rintro ⟨⟩
      exact congrArg Except.ok (UInt64.toNat_inj.1 word)

theorem minutesOf_of_fills {text? : Option String}
    (filled : CommandLine.Fills .sweepMinutes text? none (v .sweepMinutes)) :
    MinutesOf text? ((v .sweepMinutes).getD defaultSweepMinutes).toNat := by
  cases text? with
  | none =>
    have unset : v .sweepMinutes = none := filled
    rw [unset]
    rfl
  | some text =>
    obtain ⟨m, read, set⟩ := filled
    rw [set]
    exact read_sweepMinutes_eq_ok_iff.1 read

theorem toNat_seconds {m : UInt64} (word : m.toNat * 60 < UInt64.size) :
    (m * 60).toNat = 60 * m.toNat := by
  rw [UInt64.toNat_mul, Nat.mul_comm 60]
  exact Nat.mod_eq_of_lt word

def only (text : String) : Setting → Option String :=
  fun s => if s = .sweepMinutes then some text else none

theorem lookup_only (text : String) (s : Setting) :
    ([(.sweepMinutes, text)].lookup s).or none = only text s := by
  by_cases same : s = .sweepMinutes
  · rw [same, List.lookup_cons_self]
    rfl
  · rw [CommandLine.lookup_cons_of_ne same, only, if_neg same]
    rfl

theorem read_only {words : List String} {environment : Setting → Option String}
    {given : List (Setting × String)} {text : String} {m : UInt64}
    (written : CommandLine.Written words given) (distinct : (given.map Prod.fst).Nodup)
    (alone : ∀ s, (given.lookup s).or (environment s) = only text s)
    (read : Setting.read .sweepMinutes text = .ok m) :
    CommandLine.read words environment = .ok (Values.none.set .sweepMinutes m) := by
  refine CommandLine.read_eq_ok_iff.2 ⟨given, written, distinct, fun s => ?_⟩
  rw [alone s, only]
  by_cases same : s = .sweepMinutes
  · subst same
    rw [if_pos rfl, Values.set_self]
    exact ⟨m, read, rfl⟩
  · rw [if_neg same, Values.set_of_ne .none m same]
    rfl

theorem ofValues_overflow {engine : Engine} {key : CookieKey}
    (one : Engine.of (v .sqlite) (v .postgres) = .ok engine)
    (minutes : (v .sweepMinutes).getD defaultSweepMinutes ≠ 0)
    (dots : (v .dotsPerInch).getD defaultDotsPerInch ≠ 0)
    (read : CookieKey.ofText chance ((v .cookieKey).getD "") = .ok key)
    (beyond : UInt64.size ≤ ((v .sweepMinutes).getD defaultSweepMinutes).toNat * 60) :
    ofValues chance v = .error .overflow := by
  unfold ofValues
  rw [one, read]
  dsimp only
  simp only [if_neg minutes, if_neg dots, if_pos beyond]
  rfl

theorem ofValues_only (chance : Vector UInt8 16) {m : UInt64} (some : m ≠ 0) :
    if m.toNat * 60 < UInt64.size then
      ∃ settings, ofValues chance (Values.none.set .sweepMinutes m) = .ok settings ∧
        settings.sweepSeconds = m * 60
    else ofValues chance (Values.none.set .sweepMinutes m) = .error .overflow := by
  have given : (Values.none.set .sweepMinutes m .sweepMinutes).getD defaultSweepMinutes = m := by
    rw [Values.set_self, Option.getD_some]
  have minutes := given.symm ▸ some
  have dots : defaultDotsPerInch ≠ 0 := by decide
  split
  case isTrue word =>
    refine ⟨_, ofValues_eq_ok_iff.2 ⟨.memory, .generated chance, rfl, minutes, dots, rfl, ?_, rfl⟩, ?_⟩
    · rwa [given]
    · rw [given]
  case isFalse beyond =>
    have beyond : UInt64.size ≤
        ((Values.none.set .sweepMinutes m .sweepMinutes).getD defaultSweepMinutes).toNat * 60 := by
      rw [given]
      exact Nat.le_of_not_lt beyond
    exact @ofValues_overflow chance _ .memory (.generated chance) rfl minutes dots rfl beyond

theorem plain_of_minutesOf {text : String} {minutes : Nat} (is : MinutesOf (some text) minutes) :
    CommandLine.Word.of text = .plain := by
  obtain ⟨digits, spelled, numeral, -⟩ := is
  refine CommandLine.Word.of_plain ?_
  rcases spelled with same | same
  · rw [same]
    cases digits with
    | nil => nofun
    | cons c digits =>
      rintro ⟨⟩
      cases numeral
  · rw [same]
    nofun

theorem MinutesOf.toNat_toUInt64 {text : String} {minutes : Nat}
    (is : MinutesOf (some text) minutes) : minutes.toUInt64.toNat = minutes := by
  obtain ⟨-, -, -, -, small⟩ := is
  exact Nat.mod_eq_of_lt small

/-- The forms in which the minutes are given. -/
def Forms (text : String) (words : List String) (environment : Setting → Option String) : Prop :=
  (words = [CommandLine.flag .sweepMinutes, text] ∧ environment = fun _ => none) ∨
    (words = [CommandLine.flag .sweepMinutes ++ "=" ++ text] ∧ environment = fun _ => none) ∨
    (words = [] ∧ environment = only text)

theorem read_of_forms {words : List String} {environment : Setting → Option String}
    {text : String} {minutes : Nat} (is : MinutesOf (some text) minutes)
    (forms : Forms text words environment) :
    CommandLine.read words environment =
      .ok (Values.none.set .sweepMinutes minutes.toUInt64) := by
  have read : Setting.read .sweepMinutes text = .ok minutes.toUInt64 :=
    read_sweepMinutes_eq_ok_iff.2 (is.toNat_toUInt64.symm ▸ is)
  obtain ⟨rfl, rfl⟩ | ⟨rfl, rfl⟩ | ⟨rfl, rfl⟩ := forms
  · have written := CommandLine.Written.apart .sweepMinutes (plain_of_minutesOf is) .nothing
    exact read_only written (List.pairwise_singleton _ _) (lookup_only text) read
  · have written := CommandLine.Written.attached .sweepMinutes text .nothing
    exact read_only written (List.pairwise_singleton _ _) (lookup_only text) read
  · exact read_only .nothing .nil (fun s => Option.none_or) read

/-- Whatever is read and made gives minutes, and the interval is exactly sixty times as many
seconds, which are a word: at least a minute, and never nothing. Of the numbers that fit a word all
are read but zero, from either form of the option and from the environment; they make settings as
long as their seconds fit a word too, and a panic beyond. -/
theorem sweep_interval (words : List String) (environment : Setting → Option String)
    (chance : Vector UInt8 16) :
    (∀ v settings, CommandLine.read words environment = .ok v →
      ofValues chance v = .ok settings →
      ∃ given minutes, CommandLine.Written words given ∧
        MinutesOf ((given.lookup .sweepMinutes).or (environment .sweepMinutes)) minutes ∧
        0 < minutes ∧ 60 * minutes < Nat.pow 2 64 ∧
        settings.sweepSeconds.toNat = 60 * minutes ∧
        60 ≤ settings.sweepSeconds.toNat ∧ settings.sweepSeconds ≠ 0) ∧
    ∀ text minutes, Forms text words environment → MinutesOf (some text) minutes → 0 < minutes →
      ∃ v, CommandLine.read words environment = .ok v ∧
        if 60 * minutes < Nat.pow 2 64 then
          ∃ settings, ofValues chance v = .ok settings ∧ settings.sweepSeconds.toNat = 60 * minutes
        else ofValues chance v = .error .overflow := by
  constructor
  · intro v settings parsed made
    obtain ⟨given, written, -, filled⟩ := CommandLine.read_eq_ok_iff.1 parsed
    obtain ⟨engine, key, -, some, -, -, word, rfl⟩ := ofValues_eq_ok_iff.1 made
    have minutes := minutesOf_of_fills (filled .sweepMinutes)
    generalize (v .sweepMinutes).getD defaultSweepMinutes = m at some minutes word
    have positive : 0 < m.toNat := Nat.pos_of_ne_zero fun zero => some (UInt64.toNat_inj.1 zero)
    have seconds := toNat_seconds word
    refine ⟨given, m.toNat, written, minutes, positive, ?_, seconds, ?_, fun zero => ?_⟩
    · rw [Nat.mul_comm]
      exact word
    · rw [seconds]
      omega
    · dsimp only at zero
      rw [zero] at seconds
      exact absurd seconds (Nat.ne_of_lt (Nat.mul_pos (by decide) positive))
  · intro text minutes forms is positive
    have same := is.toNat_toUInt64
    have some : minutes.toUInt64 ≠ 0 := fun zero => by
      rw [zero] at same
      exact Nat.ne_of_lt positive same
    refine ⟨_, read_of_forms is forms, ?_⟩
    have made := ofValues_only chance some
    rw [same, Nat.mul_comm] at made
    split at made
    case isTrue word =>
      obtain ⟨settings, made, seconds⟩ := made
      rw [if_pos word]
      refine ⟨settings, made, ?_⟩
      rw [seconds, toNat_seconds (by rwa [same, Nat.mul_comm]), same]
    case isFalse beyond =>
      rw [if_neg beyond]
      exact made

theorem sweep_interval_five :
    (∃ v settings, CommandLine.read ["--invite-gc-minutes=5"] (fun _ => none) = .ok v ∧
      ofValues (Vector.replicate 16 0) v = .ok settings ∧ settings.sweepSeconds.toNat = 300 ∧
      ∃ given minutes, CommandLine.Written ["--invite-gc-minutes=5"] given ∧
        MinutesOf ((given.lookup .sweepMinutes).or none) minutes ∧
        settings.sweepSeconds.toNat = 60 * minutes) ∧
    ∃ v, CommandLine.read ["--invite-gc-minutes", "307445734561825861"] (fun _ => none) = .ok v ∧
      ofValues (Vector.replicate 16 0) v = .error .overflow := by
  constructor
  · have five : MinutesOf (some "5") 5 := ⟨['5'], .inl rfl, rfl, rfl, by decide⟩
    obtain ⟨holds, taken⟩ :=
      sweep_interval ["--invite-gc-minutes=5"] (fun _ => none) (Vector.replicate 16 0)
    obtain ⟨v, parsed, runs⟩ := taken "5" 5 (.inr (.inl ⟨rfl, rfl⟩)) five (by decide)
    rw [if_pos (by decide)] at runs
    obtain ⟨settings, made, seconds⟩ := runs
    obtain ⟨given, minutes, written, is, -, -, same, -⟩ := holds v settings parsed made
    exact ⟨v, settings, parsed, made, seconds, given, minutes, written, is, same⟩
  · have large : MinutesOf (some "307445734561825861") 307445734561825861 :=
      ⟨"307445734561825861".toList, .inl rfl, rfl, rfl, by decide⟩
    obtain ⟨-, taken⟩ := sweep_interval ["--invite-gc-minutes", "307445734561825861"]
      (fun _ => none) (Vector.replicate 16 0)
    obtain ⟨v, parsed, panics⟩ := taken _ _ (.inl ⟨rfl, rfl⟩) large (by decide)
    rw [if_neg (by decide)] at panics
    exact ⟨v, parsed, panics⟩

end Settings

end BallotServer
