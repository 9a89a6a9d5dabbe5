import CurriedLambda.Command.Options
import CurriedLambda.Proofs.FileWriting
import Mathlib.Tactic.SplitIfs

/-!
Command lines in any order. The output option takes its value with it, wherever both stand,
and what is left is read without regard to its order: flags are looked for everywhere, and
one argument at most may be left as a path. So a command line that makes each setting at
most once means the same however its settings are arranged.
-/
namespace CurriedLambda.Command

def Subcommand.name : Subcommand → String
  | tokens => "tokens"
  | check => "check"

namespace Options

variable {name value : String} {subcommand : Subcommand} {output : Option String}
  {first second before rest arguments : List Argument} {options : Options}

theorem takeSubcommand_eq_ok_iff :
    takeSubcommand arguments = .ok (subcommand, rest) ↔
      arguments = .text subcommand.name :: rest := by
  constructor
  · intro h
    unfold takeSubcommand at h
    split at h
    · cases h
    · cases h
    · split_ifs at h with hoption htokens hcheck <;> cases h
      · rw [htokens]
        rfl
      · rw [hcheck]
        rfl
  · rintro rfl
    cases subcommand <;> rfl

theorem takeValue_cons {argument : Argument} (hne : argument ≠ .text name) :
    takeValue name (argument :: rest) =
      ((takeValue name rest).1, argument :: (takeValue name rest).2) := by
  rw [takeValue.eq_def]
  exact if_neg hne

/-- An option that is not used has no value. -/
theorem takeValue_of_not_mem (h : .text name ∉ arguments) :
    takeValue name arguments = (none, arguments) := by
  induction arguments with
  | nil => rfl
  | cons argument rest ih =>
    obtain ⟨hne, hrest⟩ := not_or.mp (mt List.mem_cons.mpr h)
    rw [takeValue_cons (Ne.symm hne), ih hrest]

/-- The first use of an option is taken out together with the value after it. -/
theorem takeValue_append (h : .text name ∉ before) :
    takeValue name (before ++ .text name :: .text value :: rest) =
      (some value, before ++ rest) := by
  induction before with
  | nil => simp [takeValue]
  | cons argument before ih =>
    obtain ⟨hne, hbefore⟩ := not_or.mp (mt List.mem_cons.mpr h)
    rw [List.cons_append, takeValue_cons (Ne.symm hne), ih hbefore]
    rfl

/-- What the arguments say that are not a flag: at most one of them names a path. -/
def ofFree (subcommand : Subcommand) (output : Option String) (json verbose : Bool) :
    List Argument → Except Refusal Options
  | [] => .ok ⟨subcommand, json, verbose, none, output⟩
  | [path] => .ok ⟨subcommand, json, verbose, path.text?, output⟩
  | _ => .error .severalPaths

/-- What the arguments say once the output option is taken out of them. -/
def ofRest (subcommand : Subcommand) (output : Option String) (rest : List Argument) :
    Except Refusal Options :=
  let (json, rest) := takeFlag "--json" rest
  let (verbose, rest) := takeFlag "--verbose" rest
  ofFree subcommand output json verbose rest

theorem takeFlag_perm (name : String) (h : first.Perm second) :
    (takeFlag name first).1 = (takeFlag name second).1 ∧
      (takeFlag name first).2.Perm (takeFlag name second).2 :=
  ⟨h.contains_eq, h.erase _⟩

theorem ofFree_perm {json verbose : Bool} (h : first.Perm second) :
    ofFree subcommand output json verbose first = ofFree subcommand output json verbose second := by
  match first with
  | [] => rw [h.nil_eq]
  | [path] => rw [List.singleton_perm.mp h]
  | one :: two :: more =>
    match second, h.length_eq with
    | _ :: _ :: _, _ => rfl

/-- The order in which they stand says nothing. -/
theorem ofRest_perm (h : first.Perm second) :
    ofRest subcommand output first = ofRest subcommand output second := by
  obtain ⟨hjson, hfree⟩ := takeFlag_perm "--json" h
  obtain ⟨hverbose, hpath⟩ := takeFlag_perm "--verbose" hfree
  simp only [ofRest, hjson, hverbose]
  exact ofFree_perm hpath

theorem subcommand_output_of_ofRest (h : ofRest subcommand output rest = .ok options) :
    options.subcommand = subcommand ∧ options.output = output := by
  unfold ofRest ofFree at h
  dsimp only at h
  split at h <;> cases h <;> exact ⟨rfl, rfl⟩

/-- A command line is accepted if it asks for no help, begins with a subcommand, and what
is left after the output option makes sense. -/
theorem parse_eq_ok_iff :
    parse arguments = .ok options ↔
      (∀ argument ∈ arguments, isHelp argument = false) ∧
        ∃ rest, arguments = .text options.subcommand.name :: rest ∧
          ofRest options.subcommand (takeValue "--output" rest).1 (takeValue "--output" rest).2 =
            .ok options := by
  have hparse : parse arguments =
      if arguments.any isHelp then .error .help
      else takeSubcommand arguments >>= fun taken =>
        ofRest taken.1 (takeValue "--output" taken.2).1 (takeValue "--output" taken.2).2 := rfl
  rw [hparse]
  split
  · next hhelp =>
    obtain ⟨argument, hmem, hhelp⟩ := List.any_eq_true.mp hhelp
    refine ⟨nofun, fun h => ?_⟩
    rw [h.1 argument hmem] at hhelp
    cases hhelp
  · next hhelp =>
    have hnone : ∀ argument ∈ arguments, isHelp argument = false := by simpa using hhelp
    rw [bind_eq_ok_iff]
    constructor
    · rintro ⟨⟨subcommand, rest⟩, hsubcommand, h⟩
      obtain ⟨rfl, -⟩ := subcommand_output_of_ofRest h
      exact ⟨hnone, rest, takeSubcommand_eq_ok_iff.mp hsubcommand, h⟩
    · rintro ⟨-, rest, hsubcommand, h⟩
      exact ⟨_, takeSubcommand_eq_ok_iff.mpr hsubcommand, h⟩

end Options

/-- One thing that a command line sets, apart from its subcommand. -/
inductive Setting
  | json
  | verbose
  | output (file : String)
  | path (source : String)
  deriving DecidableEq

namespace Setting

def arguments : Setting → List Argument
  | json => [.text "--json"]
  | verbose => [.text "--verbose"]
  | output file => [.text "--output", .text file]
  | path source => [.text source]

/-- Nothing asks for help, and the path is no option. The output file may look like one. -/
def Allowed : Setting → Prop
  | json | verbose => True
  | output file => file ∉ ["-h", "--help"]
  | path source => source ∉ ["-h", "--help", "--json", "--verbose", "--output"]

instance (setting : Setting) : Decidable setting.Allowed :=
  match setting with
  | json | verbose => inferInstanceAs (Decidable True)
  | output _ | path _ => inferInstanceAs (Decidable (_ ∉ _))

theorem isHelp_of_mem_arguments {setting : Setting} (h : setting.Allowed) :
    ∀ argument ∈ setting.arguments, Options.isHelp argument = false := by
  cases setting <;> simp_all [arguments, Allowed, Options.isHelp]

end Setting

namespace Options

variable {options : Options} {arranged : List Setting}

/-- The settings that are looked for once the output option is taken out. -/
def restSettings (options : Options) : List Setting :=
  (if options.json then [.json] else []) ++ (if options.verbose then [.verbose] else []) ++
    options.path.toList.map .path

/-- All that a command line has to set for these options. -/
def settings (options : Options) : List Setting :=
  options.output.toList.map .output ++ options.restSettings

theorem not_mem_restSettings (file : String) : .output file ∉ options.restSettings := by
  unfold restSettings
  cases options.json <;> cases options.verbose <;> simp

theorem not_mem_arguments (hrest : arranged ⊆ options.restSettings)
    (hallowed : ∀ setting ∈ arranged, setting.Allowed) :
    .text "--output" ∉ arranged.flatMap Setting.arguments := by
  intro hmem
  obtain ⟨setting, hsetting, hmem⟩ := List.mem_flatMap.mp hmem
  have hallowed := hallowed setting hsetting
  cases setting with
  | output file => exact not_mem_restSettings file (hrest hsetting)
  | path source =>
    rw [Setting.arguments, List.mem_singleton, Argument.text.injEq] at hmem
    simp [Setting.Allowed, ← hmem] at hallowed
  | json | verbose => simp [Setting.arguments] at hmem

theorem ofRest_restSettings (hallowed : ∀ setting ∈ options.restSettings, setting.Allowed) :
    ofRest options.subcommand options.output (options.restSettings.flatMap Setting.arguments) =
      .ok options := by
  obtain ⟨subcommand, json, verbose, path, output⟩ := options
  cases path with
  | none => cases json <;> cases verbose <;> rfl
  | some source =>
    have hsource : source ∉ ["-h", "--help", "--json", "--verbose", "--output"] :=
      hallowed (.path source) (List.mem_append_right _ List.mem_cons_self)
    have hjson : "--json" ≠ source := by
      rintro rfl
      simp at hsource
    have hverbose : "--verbose" ≠ source := by
      rintro rfl
      simp at hsource
    cases json <;> cases verbose <;>
      simp [restSettings, Setting.arguments, ofRest, takeFlag, ofFree, Argument.text?, hjson,
        hverbose, hjson.symm, hverbose.symm]

/-- The output option is taken out of an arrangement wherever it stands, and leaves an
arrangement of the other settings. -/
theorem takeValue_arranged (harranged : arranged.Perm options.settings)
    (hallowed : ∀ setting ∈ arranged, setting.Allowed) :
    (takeValue "--output" (arranged.flatMap Setting.arguments)).1 = options.output ∧
      (takeValue "--output" (arranged.flatMap Setting.arguments)).2.Perm
        (options.restSettings.flatMap Setting.arguments) := by
  cases houtput : options.output with
  | none =>
    rw [settings, houtput] at harranged
    rw [takeValue_of_not_mem (not_mem_arguments harranged.subset hallowed)]
    exact ⟨rfl, harranged.flatMap_right _⟩
  | some file =>
    rw [settings, houtput] at harranged
    obtain ⟨before, later, rfl⟩ := List.append_of_mem (harranged.mem_iff.mpr List.mem_cons_self)
    have hothers : (before ++ later).Perm options.restSettings :=
      (List.perm_middle.symm.trans harranged).cons_inv
    have hbefore : .text "--output" ∉ before.flatMap Setting.arguments :=
      not_mem_arguments (List.Subset.trans (List.subset_append_left _ _) hothers.subset)
        fun setting hsetting => hallowed setting (List.mem_append_left _ hsetting)
    have hspelled : (before ++ .output file :: later).flatMap Setting.arguments =
        before.flatMap Setting.arguments ++
          .text "--output" :: .text file :: later.flatMap Setting.arguments := by
      simp [Setting.arguments]
    rw [hspelled, takeValue_append hbefore, ← List.flatMap_append]
    exact ⟨rfl, hothers.flatMap_right _⟩

/-- Every arrangement of the settings that make these options is accepted and means them. -/
theorem parse_arranged (harranged : arranged.Perm options.settings)
    (hallowed : ∀ setting ∈ arranged, setting.Allowed) :
    parse (.text options.subcommand.name :: arranged.flatMap Setting.arguments) = .ok options := by
  obtain ⟨houtput, hrest⟩ := takeValue_arranged harranged hallowed
  have hothers : ∀ setting ∈ options.restSettings, setting.Allowed := fun setting hsetting =>
    hallowed setting (harranged.mem_iff.mpr (List.mem_append_right _ hsetting))
  refine parse_eq_ok_iff.mpr ⟨fun argument hmem => ?_, _, rfl, ?_⟩
  · rcases List.mem_cons.mp hmem with rfl | hmem
    · cases options.subcommand <;> rfl
    · obtain ⟨setting, hsetting, hmem⟩ := List.mem_flatMap.mp hmem
      exact Setting.isHelp_of_mem_arguments (hallowed setting hsetting) argument hmem
  · rw [houtput, ofRest_perm hrest, ofRest_restSettings hothers]

/-- The output file may be called like an option, and the path like a subcommand. -/
theorem parse_arranged_path_first :
    let options : Options := ⟨.check, true, true, some "tokens", some "--output"⟩
    let arranged : List Setting := [.path "tokens", .output "--output", .verbose, .json]
    arranged.Perm options.settings ∧ (∀ setting ∈ arranged, setting.Allowed) ∧
      parse [.text "check", .text "tokens", .text "--output", .text "--output", .text "--verbose",
        .text "--json"] = .ok options := by
  intro options arranged
  have harranged : arranged.Perm options.settings := by decide
  have hallowed : ∀ setting ∈ arranged, setting.Allowed := by decide
  exact ⟨harranged, hallowed, parse_arranged harranged hallowed⟩

end Options

end CurriedLambda.Command
