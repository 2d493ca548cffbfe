import LetScript.Proofs.Console.Numbers
import Mathlib.Data.List.Perm.Basic

/-!
# Settings on the command line

A command line is a row of settings.  Where one ends the next one starts, and the value of a limit is taken as it
comes, so it can look like a setting itself.

* `Setting` — what one or two arguments ask for; `Setting.row` — the arguments of settings.
* `Setting.Admissible`, `Setting.Stop` — settings that can stand in a row, and arguments with which a row cannot go
  on; `Setting.Stop.exists_blames` — the failure that these cause.
* `Options.ofSettings` — what settings in a row ask for.
* `Options.add_arguments`, `Options.add_row` — one setting is read, and a row of them is.
* `Setting.exists_row`, `Setting.prefix_total` — arguments are a row of settings up to a stop, in one way only.
* `Options.ofArguments_eq_ok_iff`, `Options.ofArguments_eq_error_iff` — what arguments give.
* `Options.ofArguments_row_perm`, `Options.ofArguments_row_repeated` — settings in another order, and given again.
* `Options.arguments_fall_into_settings` — all this together.
-/

namespace LetScript

/-! ## Settings -/

/-- What one argument, or one and its value, ask for. -/
inductive Setting where
  | parseOnly
  | showTree
  /-- The limit on nested calls: the argument that writes it, and the number. -/
  | limit (text : String) (value : Nat)
  | script (path : String)
  deriving DecidableEq

namespace Setting

/-- The arguments that a setting takes up. -/
def arguments : Setting → List String
  | parseOnly => ["--parse-only"]
  | showTree => ["--ast"]
  | limit text _ => ["--max-depth", text]
  | script path => [path]

/-- The arguments of settings, from left to right. -/
def row (settings : List Setting) : List String :=
  settings.flatMap arguments

/-- The limit that a setting sets. -/
def limit? : Setting → Option Nat
  | limit _ value => some value
  | parseOnly | showTree | script _ => none

/-- The script that a setting names. -/
def script? : Setting → Option String
  | script path => some path
  | parseOnly | showTree | limit .. => none

/-- The arguments that start with two dashes and have a meaning. -/
def known : List String :=
  ["--parse-only", "--ast", "--max-depth"]

/-- The argument is none that starts with two dashes. -/
def IsPath (argument : String) : Prop :=
  ¬ "--".toList <+: argument.toList

instance (argument : String) : Decidable (IsPath argument) :=
  inferInstanceAs (Decidable (¬ _))

/-- The value of a limit writes it, and a script is named by a path. -/
def IsReadable : Setting → Prop
  | limit text value => Options.IsNumeral text value
  | script path => IsPath path
  | parseOnly | showTree => True

instance : DecidablePred IsReadable
  | limit text value => inferInstanceAs (Decidable (Options.IsNumeral text value))
  | script path => inferInstanceAs (Decidable (IsPath path))
  | parseOnly | showTree => .isTrue trivial

/-- The settings can stand in a row: each can be read, and at most one of them names a script. -/
structure Admissible (settings : List Setting) : Prop where
  readable : ∀ setting ∈ settings, setting.IsReadable
  script_le : (settings.filterMap script?).length ≤ 1

instance (settings : List Setting) : Decidable (Admissible settings) :=
  decidable_of_iff
    ((∀ setting ∈ settings, setting.IsReadable) ∧ (settings.filterMap script?).length ≤ 1)
    ⟨fun ⟨hreadable, hscript⟩ => ⟨hreadable, hscript⟩,
      fun ⟨hreadable, hscript⟩ => ⟨hreadable, hscript⟩⟩

/-- There are arguments left, and no setting at their front can go on with the row. -/
def Stop (settings : List Setting) (rest : List String) : Prop :=
  rest ≠ [] ∧ ∀ setting behind, rest = setting.arguments ++ behind → ¬ Admissible (settings ++ [setting])

end Setting

/-- The failure of arguments at whose front no setting is, or one that is too many. -/
inductive Failure.Blames : List String → Failure → Prop
  | missingDepth : Blames ["--max-depth"] .missingDepth
  | invalidDepth {text : String} {cause : NumberError} (htells : cause.Tells text) (behind : List String) :
      Blames ("--max-depth" :: text :: behind) (.invalidDepth text cause)
  | unknownOption {argument : String} (hdashes : ¬ Setting.IsPath argument)
      (hunknown : argument ∉ Setting.known) (behind : List String) :
      Blames (argument :: behind) (.unknownOption argument)
  | secondScript {path : String} (hpath : Setting.IsPath path) (behind : List String) :
      Blames (path :: behind) .secondScript

/-- What settings in a row ask for: a flag if it is among them, the last of the limits, and the script. -/
def Options.ofSettings (settings : List Setting) : Options where
  parseOnly := decide (.parseOnly ∈ settings)
  showTree := decide (.showTree ∈ settings)
  limit := (settings.filterMap Setting.limit?).getLast?.getD 128
  script := (settings.filterMap Setting.script?).head?

/-- The options with what one more setting asks for. -/
def Options.ask (options : Options) : Setting → Options
  | .parseOnly => { options with parseOnly := true }
  | .showTree => { options with showTree := true }
  | .limit _ value => { options with limit := value }
  | .script path => { options with script := some path }

namespace Setting

variable {before settings : List Setting} {setting : Setting}

theorem row_cons (setting : Setting) (settings : List Setting) :
    row (setting :: settings) = setting.arguments ++ row settings := rfl

theorem arguments_ne_nil (setting : Setting) : setting.arguments ≠ [] := by
  cases setting <;> exact List.cons_ne_nil _ _

theorem IsPath.notMem {argument : String} (hpath : IsPath argument) : argument ∉ known := by
  have hdashes : ∀ option ∈ known, "--".toList <+: option.toList := by decide
  exact fun hmem => hpath (hdashes argument hmem)

theorem admissible_nil : Admissible [] :=
  ⟨by simp, Nat.zero_le _⟩

/-- A readable setting can go on with a row, unless it names another script. -/
theorem Admissible.concat (hbefore : Admissible before) (hreadable : setting.IsReadable)
    (hscript : setting.script? ≠ none → before.filterMap script? = []) : Admissible (before ++ [setting]) where
  readable := by
    intro other hmem
    rcases List.mem_append.1 hmem with hmem | hmem
    · exact hbefore.readable other hmem
    · rw [List.mem_singleton.1 hmem]
      exact hreadable
  script_le := by
    rw [List.filterMap_append, List.length_append]
    cases hpath : setting.script? with
    | none =>
        rw [List.filterMap_cons_none hpath]
        exact hbefore.script_le
    | some path =>
        rw [hscript (by rw [hpath]; exact Option.some_ne_none path), List.filterMap_cons_some hpath]
        exact Nat.le_refl 1

/-- Every value has one reading, and no path looks like a flag, so the settings at the front of arguments are
told apart. -/
theorem eq_of_arguments_append {other : Setting} {rest behind : List String} (hreadable : setting.IsReadable)
    (hother : other.IsReadable) (hsame : setting.arguments ++ rest = other.arguments ++ behind) :
    setting = other ∧ rest = behind := by
  have hoption {path option : String} (hpath : IsPath path) (hmem : option ∈ known) : option ≠ path := by
    rintro rfl
    exact hpath.notMem hmem
  cases setting with
  | parseOnly =>
      cases other with
      | parseOnly => exact ⟨rfl, (List.cons.inj hsame).2⟩
      | script => exact absurd (List.cons.inj hsame).1 (hoption hother (by decide))
      | _ => exact absurd (List.cons.inj hsame).1 (by decide)
  | showTree =>
      cases other with
      | showTree => exact ⟨rfl, (List.cons.inj hsame).2⟩
      | script => exact absurd (List.cons.inj hsame).1 (hoption hother (by decide))
      | _ => exact absurd (List.cons.inj hsame).1 (by decide)
  | limit text value =>
      cases other with
      | limit =>
          obtain ⟨rfl, rfl⟩ := List.cons.inj (List.cons.inj hsame).2
          have hvalue := hreadable.value_eq.symm.trans hother.value_eq
          exact ⟨congrArg _ hvalue, rfl⟩
      | script => exact absurd (List.cons.inj hsame).1 (hoption hother (by decide))
      | _ => exact absurd (List.cons.inj hsame).1 (by decide)
  | script path =>
      cases other with
      | script =>
          obtain ⟨rfl, rfl⟩ := List.cons.inj hsame
          exact ⟨rfl, rfl⟩
      | _ => exact absurd (List.cons.inj hsame).1.symm (hoption hreadable (by decide))

/-- Of two ways to read settings off the same arguments, one goes on where the other ends. -/
theorem prefix_total {others : List Setting} {rest behind : List String}
    (hreadable : ∀ setting ∈ settings, setting.IsReadable) (hothers : ∀ setting ∈ others, setting.IsReadable)
    (hsame : row settings ++ rest = row others ++ behind) : settings <+: others ∨ others <+: settings := by
  induction settings generalizing others with
  | nil => exact .inl List.nil_prefix
  | cons setting settings ih =>
      cases others with
      | nil => exact .inr List.nil_prefix
      | cons other others =>
          obtain ⟨hfirst, hrest⟩ := List.forall_mem_cons.1 hreadable
          obtain ⟨hother, hbehind⟩ := List.forall_mem_cons.1 hothers
          rw [row_cons, row_cons, List.append_assoc, List.append_assoc] at hsame
          obtain ⟨heq, hafter⟩ := eq_of_arguments_append hfirst hother hsame
          rw [heq, List.prefix_cons_inj, List.prefix_cons_inj]
          exact ih hrest hbehind hafter

/-- Arguments are a row of settings, up to one with which the row cannot go on. -/
theorem exists_row (hbefore : Admissible before) (rest : List String) :
    ∃ settings behind, row settings ++ behind = rest ∧ Admissible (before ++ settings) ∧
      (behind = [] ∨ Stop (before ++ settings) behind) := by
  induction hlength : rest.length using Nat.strongRecOn generalizing before rest with
  | _ length ih =>
      subst hlength
      by_cases hnext : ∃ setting behind, rest = setting.arguments ++ behind ∧ Admissible (before ++ [setting])
      · obtain ⟨setting, behind, rfl, hadmissible⟩ := hnext
        have hshorter : behind.length < (setting.arguments ++ behind).length := by
          rw [List.length_append]
          exact Nat.lt_add_of_pos_left (List.length_pos_iff.2 setting.arguments_ne_nil)
        obtain ⟨settings, last, rfl, hsettings, hlast⟩ := ih _ hshorter hadmissible behind rfl
        rw [List.append_assoc, List.singleton_append] at hsettings hlast
        exact ⟨setting :: settings, last, by rw [row_cons, List.append_assoc], hsettings, hlast⟩
      · refine ⟨[], rest, rfl, by rwa [List.append_nil], ?_⟩
        rw [List.append_nil]
        by_cases hnil : rest = []
        · exact .inl hnil
        · refine .inr ⟨hnil, fun setting behind hrest hadmissible => ?_⟩
          exact hnext ⟨setting, behind, hrest, hadmissible⟩

/-- Where a row cannot go on there is a failure to report. -/
theorem Stop.exists_blames {rest : List String} (hstop : Stop settings rest) (hsettings : Admissible settings) :
    ∃ failure, Failure.Blames rest failure := by
  obtain ⟨hne, hnone⟩ := hstop
  -- A setting that names no script could always go on with the row.
  have hnot (setting : Setting) {behind : List String} (hreadable : setting.IsReadable)
      (hscript : setting.script? = none) (hrest : rest = setting.arguments ++ behind) : False :=
    hnone setting behind hrest (hsettings.concat hreadable fun h => absurd hscript h)
  obtain ⟨argument, behind, rfl⟩ := List.exists_cons_of_ne_nil hne
  by_cases hmem : argument ∈ known
  · simp only [known, List.mem_cons, List.not_mem_nil, or_false] at hmem
    rcases hmem with rfl | rfl | rfl
    · exact (hnot .parseOnly trivial rfl rfl).elim
    · exact (hnot .showTree trivial rfl rfl).elim
    · cases behind with
      | nil => exact ⟨_, .missingDepth⟩
      | cons text behind =>
          obtain ⟨value, hnumeral⟩ | ⟨cause, htells⟩ := Options.isNumeral_or_tells text
          · exact (hnot (.limit text value) hnumeral rfl rfl).elim
          · exact ⟨_, .invalidDepth htells behind⟩
  · by_cases hpath : IsPath argument
    · exact ⟨_, .secondScript hpath behind⟩
    · exact ⟨_, .unknownOption hpath hmem behind⟩

/-- A path cannot go on with a row just if a script has been named. -/
theorem Stop.script_ne_nil {path : String} {behind : List String} (hstop : Stop settings (path :: behind))
    (hsettings : Admissible settings) (hpath : IsPath path) : settings.filterMap script? ≠ [] := by
  intro hnil
  exact hstop.2 (.script path) behind rfl (hsettings.concat hpath fun _ => hnil)

end Setting

/-! ## Reading -/

namespace Options

open Setting

variable {before settings : List Setting} {setting : Setting}

theorem ofSettings_concat (hscript : setting.script? ≠ none → before.filterMap script? = []) :
    ofSettings (before ++ [setting]) = (ofSettings before).ask setting := by
  cases setting with
  | script path =>
      have hnil := hscript (by simp [script?])
      simp [ofSettings, ask, limit?, script?, hnil]
  | _ => simp [ofSettings, ask, limit?, script?]

theorem isSome_script_iff : (ofSettings settings).script.isSome = true ↔ settings.filterMap script? ≠ [] := by
  rw [ofSettings, List.isSome_head?]

/-- An argument that is neither a flag nor asks for a value is a path, or it is not known. -/
theorem add_of_notMem (options : Options) {argument : String} (hnotMem : argument ∉ known) (rest : List String) :
    options.add (argument :: rest) =
      if "--".toList.isPrefixOf argument.toList then .error (.unknownOption argument)
      else if options.script.isSome then .error .secondScript
      else (options.ask (.script argument)).add rest := by
  simp only [known, List.mem_cons, List.not_mem_nil, or_false, not_or] at hnotMem
  obtain ⟨hparseOnly, hshowTree, hlimit⟩ := hnotMem
  rw [add]
  · rfl
  · exact hparseOnly
  · exact hshowTree
  · exact fun h => absurd h hlimit
  · exact fun depth behind h => absurd h hlimit

theorem add_path (options : Options) {path : String} (hpath : IsPath path) (rest : List String) :
    options.add (path :: rest) =
      if options.script.isSome then .error .secondScript else (options.ask (.script path)).add rest := by
  rw [add_of_notMem options hpath.notMem, if_neg (mt List.isPrefixOf_iff_prefix.1 hpath)]

/-- One setting is read off the front of the arguments. -/
theorem add_arguments (options : Options) (hreadable : setting.IsReadable)
    (hscript : setting.script? ≠ none → options.script = none) (rest : List String) :
    options.add (setting.arguments ++ rest) = (options.ask setting).add rest := by
  cases setting with
  | parseOnly => rfl
  | showTree => rfl
  | limit text value =>
      show options.add ("--max-depth" :: text :: rest) = _
      rw [add, IsNumeral.number_eq hreadable]
      rfl
  | script path =>
      have hnone : ¬ options.script.isSome = true := by
        rw [hscript (Option.some_ne_none path)]
        decide
      exact (add_path options hreadable rest).trans (if_neg hnone)

/-- The settings of a row are read one behind the other, up to a second script if there is one. -/
theorem add_row (hbefore : Admissible before) (hreadable : ∀ setting ∈ settings, setting.IsReadable)
    (rest : List String) :
    (ofSettings before).add (row settings ++ rest) =
      if ((before ++ settings).filterMap script?).length ≤ 1 then (ofSettings (before ++ settings)).add rest
      else .error .secondScript := by
  induction settings generalizing before with
  | nil =>
      rw [List.append_nil, if_pos hbefore.script_le]
      rfl
  | cons setting settings ih =>
      obtain ⟨hfirst, hothers⟩ := List.forall_mem_cons.1 hreadable
      rw [row_cons, List.append_assoc]
      by_cases hscript : setting.script? ≠ none → before.filterMap script? = []
      · have hnone : setting.script? ≠ none → (ofSettings before).script = none := by
          intro hpath
          rw [ofSettings, hscript hpath, List.head?_nil]
        rw [add_arguments _ hfirst hnone, ← ofSettings_concat hscript, ih (hbefore.concat hfirst hscript) hothers,
          List.append_assoc, List.singleton_append]
      · rw [Classical.not_imp] at hscript
        obtain ⟨hpath, hgiven⟩ := hscript
        cases setting with
        | script path =>
            have hmany : ¬ ((before ++ .script path :: settings).filterMap script?).length ≤ 1 := by
              have hpos := List.length_pos_iff.2 hgiven
              have hfound : (Setting.script path).script? = some path := rfl
              rw [List.filterMap_append, List.filterMap_cons_some hfound, List.length_append, List.length_cons]
              omega
            rw [if_neg hmany]
            exact (add_path _ hfirst _).trans (if_pos (isSome_script_iff.2 hgiven))
        | _ => exact absurd rfl hpath

theorem ofArguments_row (hreadable : ∀ setting ∈ settings, setting.IsReadable) (rest : List String) :
    ofArguments (row settings ++ rest) =
      if (settings.filterMap script?).length ≤ 1 then (ofSettings settings).add rest
      else .error .secondScript :=
  add_row admissible_nil hreadable rest

theorem ofArguments_of_admissible (hadmissible : Admissible settings) (rest : List String) :
    ofArguments (row settings ++ rest) = (ofSettings settings).add rest := by
  rw [ofArguments_row hadmissible.readable, if_pos hadmissible.script_le]

/-- Arguments with which a row cannot go on are reported. -/
theorem add_of_blames {rest : List String} {failure : Failure} (hsettings : Admissible settings)
    (hstop : Stop settings rest) (hblames : Failure.Blames rest failure) :
    (ofSettings settings).add rest = .error failure := by
  cases hblames with
  | missingDepth => rfl
  | invalidDepth htells behind => rw [add, number_eq_of_tells htells]
  | unknownOption hdashes hunknown behind =>
      rw [add_of_notMem _ hunknown, if_pos (List.isPrefixOf_iff_prefix.2 (Classical.not_not.1 hdashes))]
  | secondScript hpath behind =>
      rw [add_path _ hpath, if_pos (isSome_script_iff.2 (hstop.script_ne_nil hsettings hpath))]

/-- All arguments are read, as settings and a failure behind them if they do not end there. -/
theorem exists_reading (arguments : List String) :
    ∃ settings rest, Admissible settings ∧ row settings ++ rest = arguments ∧
      (rest = [] ∧ ofArguments arguments = .ok (ofSettings settings) ∨
        ∃ failure, Stop settings rest ∧ Failure.Blames rest failure ∧
          ofArguments arguments = .error failure) := by
  obtain ⟨settings, rest, rfl, hsettings, hrest⟩ := exists_row admissible_nil arguments
  rw [List.nil_append] at hsettings hrest
  refine ⟨settings, rest, hsettings, rfl, ?_⟩
  rw [ofArguments_of_admissible hsettings]
  rcases hrest with rfl | hstop
  · exact .inl ⟨rfl, rfl⟩
  · obtain ⟨failure, hblames⟩ := hstop.exists_blames hsettings
    exact .inr ⟨failure, hstop, hblames, add_of_blames hsettings hstop hblames⟩

theorem ofArguments_eq_ok_iff {arguments : List String} {options : Options} :
    ofArguments arguments = .ok options ↔
      ∃ settings, Admissible settings ∧ row settings = arguments ∧ options = ofSettings settings := by
  constructor
  · intro hoptions
    obtain ⟨settings, rest, hsettings, hrow, ⟨rfl, hread⟩ | ⟨failure, -, -, hread⟩⟩ := exists_reading arguments
    · rw [hread] at hoptions
      cases hoptions
      exact ⟨settings, hsettings, (List.append_nil _).symm.trans hrow, rfl⟩
    · rw [hread] at hoptions
      cases hoptions
  · rintro ⟨settings, hsettings, rfl, rfl⟩
    have hread := ofArguments_of_admissible hsettings []
    rwa [List.append_nil] at hread

theorem ofArguments_eq_error_iff {arguments : List String} {failure : Failure} :
    ofArguments arguments = .error failure ↔
      ∃ settings rest, Admissible settings ∧ row settings ++ rest = arguments ∧ Stop settings rest ∧
        Failure.Blames rest failure := by
  constructor
  · intro hfailure
    obtain ⟨settings, rest, hsettings, hrow, ⟨-, hread⟩ | ⟨other, hstop, hblames, hread⟩⟩ :=
      exists_reading arguments
    · rw [hread] at hfailure
      cases hfailure
    · rw [hread] at hfailure
      cases hfailure
      exact ⟨settings, rest, hsettings, hrow, hstop, hblames⟩
  · rintro ⟨settings, rest, hsettings, rfl, hstop, hblames⟩
    rw [ofArguments_of_admissible hsettings, add_of_blames hsettings hstop hblames]

/-! ## Settings in another order, and given again -/

/-- The order of settings makes no difference but for the limits. -/
theorem ofSettings_perm {others : List Setting} (hperm : settings.Perm others)
    (hlimits : settings.filterMap limit? = others.filterMap limit?)
    (hscript : (settings.filterMap script?).length ≤ 1) : ofSettings settings = ofSettings others := by
  have hscripts : settings.filterMap script? = others.filterMap script? := by
    have hsame := hperm.filterMap script?
    cases hpaths : settings.filterMap script? with
    | nil =>
        rw [hpaths] at hsame
        exact (List.nil_perm.1 hsame).symm
    | cons path paths =>
        rw [hpaths, List.length_cons] at hscript
        obtain rfl := List.eq_nil_of_length_eq_zero (Nat.le_zero.1 (Nat.le_of_succ_le_succ hscript))
        rw [hpaths] at hsame
        exact (List.perm_singleton.1 hsame.symm).symm
  simp only [ofSettings, hperm.mem_iff, hlimits, hscripts]

/-- A row with two scripts fails in any order, and for the same reason. -/
theorem ofArguments_row_perm {others : List Setting} (hreadable : ∀ setting ∈ settings, setting.IsReadable)
    (hperm : settings.Perm others) (hlimits : settings.filterMap limit? = others.filterMap limit?) :
    ofArguments (row settings) = ofArguments (row others) := by
  have hothers : ∀ setting ∈ others, setting.IsReadable :=
    fun setting hmem => hreadable setting (hperm.mem_iff.2 hmem)
  have hread := ofArguments_row hreadable []
  have hreadOthers := ofArguments_row hothers []
  rw [List.append_nil] at hread hreadOthers
  rw [hread, hreadOthers, ← (hperm.filterMap script?).length_eq]
  by_cases hscript : (settings.filterMap script?).length ≤ 1
  · rw [if_pos hscript, if_pos hscript, ofSettings_perm hperm hlimits hscript]
  · rw [if_neg hscript, if_neg hscript]

section Repeated

variable {behind : List Setting} {flag : Setting}

theorem mem_repeated_iff (hmem : flag ∈ before ++ behind) (setting : Setting) :
    setting ∈ before ++ flag :: behind ↔ setting ∈ before ++ behind := by
  rw [List.mem_append, List.mem_cons, or_left_comm, ← List.mem_append]
  constructor
  · rintro (rfl | hsetting)
    · exact hmem
    · exact hsetting
  · exact .inr

/-- A flag sets no limit and names no script, so it changes nothing when it is given once more. -/
theorem ofSettings_repeated (hflag : flag ∈ [.parseOnly, .showTree]) (hmem : flag ∈ before ++ behind) :
    (before ++ flag :: behind).filterMap script? = (before ++ behind).filterMap script? ∧
      ofSettings (before ++ flag :: behind) = ofSettings (before ++ behind) := by
  have hplain : flag.limit? = none ∧ flag.script? = none := by
    simp only [List.mem_cons, List.not_mem_nil, or_false] at hflag
    rcases hflag with rfl | rfl
    · exact ⟨rfl, rfl⟩
    · exact ⟨rfl, rfl⟩
  have hlimits : (before ++ flag :: behind).filterMap limit? = (before ++ behind).filterMap limit? := by
    rw [List.filterMap_append, List.filterMap_cons_none hplain.1, List.filterMap_append]
  have hscripts : (before ++ flag :: behind).filterMap script? = (before ++ behind).filterMap script? := by
    rw [List.filterMap_append, List.filterMap_cons_none hplain.2, List.filterMap_append]
  exact ⟨hscripts, by simp only [ofSettings, mem_repeated_iff hmem, hlimits, hscripts]⟩

theorem ofArguments_row_repeated (hflag : flag ∈ [.parseOnly, .showTree]) (hmem : flag ∈ before ++ behind)
    (hreadable : ∀ setting ∈ before ++ behind, setting.IsReadable) (rest : List String) :
    ofArguments (row (before ++ flag :: behind) ++ rest) = ofArguments (row (before ++ behind) ++ rest) := by
  have hagain : ∀ setting ∈ before ++ flag :: behind, setting.IsReadable :=
    fun setting hsetting => hreadable setting ((mem_repeated_iff hmem setting).1 hsetting)
  obtain ⟨hscripts, hsame⟩ := ofSettings_repeated hflag hmem
  rw [ofArguments_row hagain, ofArguments_row hreadable, hscripts, hsame]

end Repeated

/-- Arguments give options just if they are a row of settings, of which one at most names a script; and the options
are what these settings ask for.  All other arguments fail where the row cannot go on, for what stands there.
Settings are read in one way only.  Their order makes no difference, as long as the limits keep theirs, and neither
does a flag that is given once more. -/
theorem arguments_fall_into_settings :
    (∀ arguments options, ofArguments arguments = .ok options ↔
      ∃ settings, Admissible settings ∧ row settings = arguments ∧ options = ofSettings settings) ∧
    (∀ arguments failure, ofArguments arguments = .error failure ↔
      ∃ settings rest, Admissible settings ∧ row settings ++ rest = arguments ∧ Stop settings rest ∧
        Failure.Blames rest failure) ∧
    (∀ settings others rest behind, Admissible settings → Admissible others →
      row settings ++ rest = row others ++ behind → settings <+: others ∨ others <+: settings) ∧
    (∀ settings others, (∀ setting ∈ settings, setting.IsReadable) → settings.Perm others →
      settings.filterMap limit? = others.filterMap limit? →
      ofArguments (row settings) = ofArguments (row others)) ∧
    ∀ before behind, ∀ flag ∈ [.parseOnly, .showTree], flag ∈ before ++ behind →
      (∀ setting ∈ before ++ behind, setting.IsReadable) → ∀ rest,
        ofArguments (row (before ++ flag :: behind) ++ rest) = ofArguments (row (before ++ behind) ++ rest) := by
  refine ⟨?options, ?failure, ?alone, ?order, ?repeated⟩
  case options => exact fun arguments options => ofArguments_eq_ok_iff
  case failure => exact fun arguments failure => ofArguments_eq_error_iff
  case alone =>
    intro settings others rest behind hsettings hothers hsame
    exact prefix_total hsettings.readable hothers.readable hsame
  case order => exact fun settings others => ofArguments_row_perm
  case repeated => exact fun before behind flag => ofArguments_row_repeated

/-- The value of a limit may look like a setting, or be missing; and a second script is refused. -/
theorem values_are_taken_as_they_come :
    let settings : List Setting := [.script "a.mk", .limit "+016" 16, .showTree, .limit "7" 7]
    let others : List Setting := [.limit "+016" 16, .limit "7" 7, .showTree, .script "a.mk"]
    ofArguments ["a.mk", "--max-depth", "+016", "--ast", "--max-depth", "7"] =
        .ok { showTree := true, limit := 7, script := some "a.mk" } ∧
      ofArguments (Setting.row settings) = ofArguments (Setting.row others) ∧
      ofArguments (Setting.row [.showTree, .showTree] ++ ["--max-depth"]) =
        ofArguments (Setting.row [.showTree] ++ ["--max-depth"]) ∧
      ofArguments ["--ast", "--max-depth", "--ast", "b.mk"] = .error (.invalidDepth "--ast" .invalidDigit) ∧
      ofArguments ["a.mk", "b.mk", "--bogus"] = .error .secondScript := by
  intro settings others
  obtain ⟨hoptions, hfailure, -, horder, hrepeated⟩ := arguments_fall_into_settings
  refine ⟨?ok, ?order, ?repeated, ?value, ?second⟩
  case ok => exact (hoptions _ _).2 ⟨settings, by decide, rfl, rfl⟩
  case order => exact horder settings others (by decide) (by decide) rfl
  case repeated => exact hrepeated [.showTree] [] .showTree (by decide) (by decide) (by decide) ["--max-depth"]
  case value =>
    have htells : NumberError.Tells "--ast" .invalidDigit := ⟨by decide, by decide, .inr (by decide)⟩
    refine (hfailure _ _).2
      ⟨[.showTree], _, by decide, rfl, ⟨List.cons_ne_nil _ _, ?_⟩, .invalidDepth htells _⟩
    rintro (_ | _ | ⟨text, value⟩ | path) behind hrest hnext
    · exact absurd (List.cons.inj hrest).1 (by decide)
    · exact absurd (List.cons.inj hrest).1 (by decide)
    · obtain ⟨rfl, -⟩ := List.cons.inj (List.cons.inj hrest).2
      have hnumeral : IsNumeral "--ast" value := hnext.readable _ (List.mem_cons_of_mem _ List.mem_cons_self)
      exact absurd hnumeral.digits (by decide)
    · obtain ⟨rfl, -⟩ := List.cons.inj hrest
      exact absurd hnext (by decide)
  case second =>
    have hpath : IsPath "b.mk" := by decide
    refine (hfailure _ _).2
      ⟨[.script "a.mk"], _, by decide, rfl, ⟨List.cons_ne_nil _ _, ?_⟩, .secondScript hpath _⟩
    rintro (_ | _ | ⟨text, value⟩ | path) behind hrest hnext
    · exact absurd (List.cons.inj hrest).1 (by decide)
    · exact absurd (List.cons.inj hrest).1 (by decide)
    · exact absurd (List.cons.inj hrest).1 (by decide)
    · exact absurd hnext.script_le (Nat.not_succ_le_self 1)

end Options

end LetScript
