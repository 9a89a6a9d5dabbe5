import CurriedLambda.Proofs.ArgumentOrder
import CurriedLambda.Proofs.FileEffects

/-!
Two runs whose command lines differ in one option. Asking for the counts adds a line to
standard error and nothing else, whatever becomes of the run. Naming an output file moves
the answer from standard output to that file and changes nothing else, even if it is the
file that the source was read from.
-/
namespace CurriedLambda.Command

namespace Options

variable {name file : String} {subcommand : Subcommand} {output : Option String}
  {before after free rest : List Argument} {argument first : Argument} {options : Options}

/-- The argument after these is the value of an option, which is used here first. -/
def AwaitsValue (name : String) (before : List Argument) : Prop :=
  ∃ front, before = front ++ [.text name] ∧ .text name ∉ front

/-- An argument that is put in where no value is expected is left over. -/
theorem takeValue_insert (hplace : ¬ AwaitsValue name before) (hargument : argument ≠ .text name) :
    (takeValue name (before ++ argument :: after)).1 = (takeValue name (before ++ after)).1 ∧
      (takeValue name (before ++ argument :: after)).2.Perm
        (argument :: (takeValue name (before ++ after)).2) := by
  induction before with
  | nil =>
    rw [List.nil_append, takeValue_cons hargument]
    exact ⟨rfl, .refl _⟩
  | cons first before ih =>
    by_cases hfirst : first = .text name
    · subst hfirst
      match before with
      | [] => exact absurd ⟨[], rfl, List.not_mem_nil⟩ hplace
      | .text value :: before =>
        simp only [List.cons_append, takeValue, if_true]
        exact ⟨trivial, List.perm_middle⟩
      | .undecodable :: before =>
        simp only [List.cons_append, takeValue, if_true]
        exact ⟨trivial, @List.perm_middle _ argument (.text name :: .undecodable :: before) after⟩
    · have hbefore : ¬ AwaitsValue name before := by
        rintro ⟨front, rfl, hfront⟩
        exact hplace ⟨first :: front, rfl, by simp [Ne.symm hfirst, hfront]⟩
      obtain ⟨hvalue, hothers⟩ := ih hbefore
      rw [List.cons_append, List.cons_append, takeValue_cons hfirst, takeValue_cons hfirst]
      exact ⟨hvalue, (hothers.cons first).trans (.swap _ _ _)⟩

/-- Where an option has no value, nothing is taken out. -/
theorem takeValue_snd_of_none (h : (takeValue name rest).1 = none) :
    (takeValue name rest).2 = rest := by
  induction rest with
  | nil => rfl
  | cons argument rest ih =>
    by_cases hargument : argument = .text name
    · subst hargument
      match rest with
      | [] => simp [takeValue]
      | .text value :: others => simp [takeValue] at h
      | .undecodable :: others => simp [takeValue]
    · rw [takeValue_cons hargument] at h ⊢
      exact congrArg (argument :: ·) (ih h)

/-- An output file changes nothing else that is read. -/
theorem ofRest_output (h : ofRest subcommand output rest = .ok options) (file : String) :
    ofRest subcommand (some file) rest = .ok { options with output := some file } := by
  unfold ofRest ofFree at h ⊢
  dsimp only at h ⊢
  split at h <;> cases h <;> rfl

/-- One more flag is taken out before a path is looked for. -/
theorem ofRest_verbose (h : ofRest subcommand output rest = .ok options)
    (hverbose : options.verbose = false) :
    ofRest subcommand output (.text "--verbose" :: rest) =
      .ok { options with verbose := true } := by
  have hjson : takeFlag "--json" (.text "--verbose" :: rest) =
      ((takeFlag "--json" rest).1, .text "--verbose" :: (takeFlag "--json" rest).2) := by
    simp [takeFlag]
  unfold ofRest at h ⊢
  rw [hjson]
  dsimp only at h ⊢
  generalize (takeFlag "--json" rest).2 = others at h ⊢
  have hfirst : takeFlag "--verbose" (.text "--verbose" :: others) = (true, others) := by
    simp [takeFlag]
  have hnone : takeFlag "--verbose" others = (false, others) := by
    have hflag : others.contains (.text "--verbose") = false := by
      rw [← hverbose]
      unfold ofFree at h
      split at h <;> cases h <;> rfl
    have hnot : .text "--verbose" ∉ others := by simpa using hflag
    rw [takeFlag, hflag, List.erase_of_not_mem hnot]
  rw [hfirst]
  rw [hnone] at h
  unfold ofFree at h ⊢
  dsimp only at h ⊢
  split at h <;> cases h <;> rfl

theorem isHelp_insert {more : List Argument}
    (h : ∀ argument ∈ first :: (before ++ after), isHelp argument = false)
    (hmore : ∀ argument ∈ more, isHelp argument = false) :
    ∀ argument ∈ first :: (before ++ (more ++ after)), isHelp argument = false := by
  intro argument hmem
  have hcases : argument ∈ first :: (before ++ after) ∨ argument ∈ more := by
    simp only [List.mem_cons, List.mem_append] at hmem ⊢
    tauto
  exact hcases.elim (h argument) (hmore argument)

/-- A further flag is accepted wherever no value is expected. -/
theorem parse_insert_verbose (h : parse (first :: (before ++ after)) = .ok options)
    (hverbose : options.verbose = false) (hplace : ¬ AwaitsValue "--output" before) :
    parse (first :: (before ++ .text "--verbose" :: after)) =
      .ok { options with verbose := true } := by
  obtain ⟨hhelp, _, hfirst, hrest⟩ := parse_eq_ok_iff.mp h
  obtain ⟨rfl, rfl⟩ := List.cons.inj hfirst
  have hflag : ∀ argument ∈ [.text "--verbose"], isHelp argument = false := by decide
  have hother : Argument.text "--verbose" ≠ .text "--output" := by decide
  obtain ⟨hvalue, hothers⟩ := @takeValue_insert _ _ after _ hplace hother
  refine parse_eq_ok_iff.mpr ⟨isHelp_insert hhelp hflag, _, rfl, ?_⟩
  rw [hvalue, ofRest_perm hothers]
  exact ofRest_verbose hrest hverbose

/-- An output file is accepted wherever no earlier argument asks for one. -/
theorem parse_insert_output (h : parse (first :: (before ++ after)) = .ok options)
    (hnone : options.output = none) (hplace : .text "--output" ∉ before)
    (hfile : file ∉ ["-h", "--help"]) :
    parse (first :: (before ++ .text "--output" :: .text file :: after)) =
      .ok { options with output := some file } := by
  obtain ⟨hhelp, _, hfirst, hrest⟩ := parse_eq_ok_iff.mp h
  obtain ⟨rfl, rfl⟩ := List.cons.inj hfirst
  have hpair : ∀ argument ∈ [.text "--output", .text file], isHelp argument = false := by
    simpa [isHelp] using hfile
  refine parse_eq_ok_iff.mpr ⟨isHelp_insert hhelp hpair, _, rfl, ?_⟩
  have hvalue := (subcommand_output_of_ofRest hrest).2.symm.trans hnone
  rw [takeValue_snd_of_none hvalue] at hrest
  rw [takeValue_append hplace]
  exact ofRest_output hrest file

end Options

theorem World.tell_empty (world : World) : world.tell "" = world := by
  rw [World.tell, String.append_empty]

namespace Options

variable {options : Options} {conditions : Conditions} {world after : World}
  {source text message : String}

@[simp]
theorem errors_afterReading :
    (options.afterReading conditions world).errors = world.errors := by
  unfold afterReading
  split <;> rfl

/-- Where an answer is put out does not depend on what has been told before. -/
theorem deliver_tell :
    options.deliver conditions text (world.tell message) =
      (options.deliver conditions text world).map (World.tell · message) := by
  unfold deliver
  cases options.output with
  | none =>
    cases conditions.outputError with
    | none => rfl
    | some error =>
      dsimp only
      split <;> rfl
  | some path =>
    dsimp only [World.tell]
    cases world.files.write path text.toUTF8 <;> rfl

theorem errors_of_deliver (h : options.deliver conditions text world = .ok after) :
    after.errors = world.errors := by
  rcases cases_of_deliver h with ⟨_, _, _, _, rfl⟩ | ⟨_, _, rfl⟩
  · rfl
  · rfl

/-- What the counts add to standard error: the name of the source and how many tokens and
diagnostics it has, or nothing, if it is no text. -/
structure Counts (options : Options) (conditions : Conditions) (world : World)
    (counts : String) : Prop where
  of_text : ∀ source : String, options.sourceBytes conditions world = .ok source.toUTF8 →
    counts = options.path.getD "<stdin>" ++ ": " ++ toString (tokenize source).length ++
      " tokens, " ++ toString (check source).length ++ " diagnostics\n"
  of_no_text : (∀ source : String, options.sourceBytes conditions world ≠ .ok source.toUTF8) →
    counts = ""

theorem counts_of_unread {failure : Failure}
    (h : decode (options.sourceBytes conditions world) = .error failure) :
    options.Counts conditions world "" := by
  refine ⟨fun source hsource => ?_, fun _ => rfl⟩
  rw [decode_eq_ok_iff.mpr hsource] at h
  cases h

theorem counts_of_read (h : decode (options.sourceBytes conditions world) = .ok source) :
    options.Counts conditions world (options.summary (tokenize source) (check source)) := by
  refine ⟨fun other hother => ?_, fun hnone => absurd (decode_eq_ok_iff.mp h) (hnone source)⟩
  rw [decode_eq_ok_iff.mpr hother] at h
  rw [Except.ok.inj h, summary, sourceName]

/-- With the counts asked for, a run tells them first and then does what it does without. -/
theorem exists_runOptions_verbose (hverbose : options.verbose = false)
    (conditions : Conditions) (world : World) :
    ∃ (status : UInt32) (quiet : World) (told counts : String),
      quiet.errors = world.errors ∧ options.Counts conditions world counts ∧
      (runOptions (World.host conditions) options).run world = (status, quiet.tell told) ∧
      (runOptions (World.host conditions) { options with verbose := true }).run world =
        (status, quiet.tell (counts ++ told)) := by
  let loud := { options with verbose := true }
  cases hdecode : decode (options.sourceBytes conditions world) with
  | error failure =>
    refine ⟨1, options.afterReading conditions world, _, "", errors_afterReading,
      counts_of_unread hdecode, runOptions_run_of_unread hdecode, ?_⟩
    rw [String.empty_append]
    exact @runOptions_run_of_unread loud _ _ _ hdecode
  | ok source =>
    have hplain := runOptions_run_of_read hdecode
    have hloud := @runOptions_run_of_read loud _ _ _ hdecode
    have hsilent : options.afterSummary source (options.afterReading conditions world) =
        options.afterReading conditions world := if_neg (by simp [hverbose])
    have htold : loud.afterSummary source (loud.afterReading conditions world) =
        (options.afterReading conditions world).tell
          (options.summary (tokenize source) (check source)) := rfl
    have hdelivers : loud.deliver = options.deliver := rfl
    have hanswers : loud.answer = options.answer := rfl
    rw [hsilent] at hplain
    rw [htold, hdelivers, hanswers, deliver_tell] at hloud
    have hcounts := counts_of_read hdecode
    cases hdeliver : options.deliver conditions
        (options.answer source (tokenize source) (check source))
        (options.afterReading conditions world) with
    | error error =>
      rw [hdeliver] at hplain hloud
      refine ⟨1, _, _, _, errors_afterReading, hcounts, hplain, ?_⟩
      rw [← World.tell_tell]
      exact hloud
    | ok after =>
      rw [hdeliver] at hplain hloud
      have herrors := (errors_of_deliver hdeliver).trans errors_afterReading
      refine ⟨options.status (check source), after, "", _, herrors, hcounts, ?_, ?_⟩
      · rw [World.tell_empty]
        exact hplain
      · rw [String.append_empty]
        exact hloud

theorem runOptions_run_of_deliver
    (hdecode : decode (options.sourceBytes conditions world) = .ok source)
    (hdeliver : options.deliver conditions (options.answer source (tokenize source) (check source))
      (options.afterSummary source (options.afterReading conditions world)) = .ok after) :
    (runOptions (World.host conditions) options).run world =
      (options.status (check source), after) := by
  rw [runOptions_run_of_read hdecode, hdeliver]

/-- With an output file that can be written, a run puts its answer there and does for the
rest what it does without. -/
theorem runOptions_output {file : String} {place : Location} (hnone : options.output = none)
    (hstream : conditions.outputError = none)
    (hsource : options.sourceBytes conditions world = .ok source.toUTF8)
    (hplace : world.files.target file = .ok place) :
    let plain := (runOptions (World.host conditions) options).run world
    ∃ answer, plain.2.output = world.output ++ answer ∧
      (runOptions (World.host conditions) { options with output := some file }).run world =
        (plain.1, { plain.2 with
          output := world.output
          files := world.files.put place (.file answer.toUTF8) }) := by
  intro plain
  have hdecode := decode_eq_ok_iff.mpr hsource
  let text := options.answer source (tokenize source) (check source)
  let told := options.afterSummary source (options.afterReading conditions world)
  have hfiles : told.files = world.files := by simp [told]
  have houtput : told.output = world.output := by simp [told]
  have hshown : options.deliver conditions text told =
      .ok { told with output := told.output ++ text } := by
    rw [deliver, hnone, hstream]
  have hwritten : { options with output := some file }.deliver conditions text told =
      .ok { told with files := world.files.put place (.file text.toUTF8) } := by
    have hwrite : told.files.write file text.toUTF8 =
        .ok (world.files.put place (.file text.toUTF8)) := by
      rw [hfiles]
      exact FileSystem.write_eq_ok_iff.mpr ⟨place, hplace, rfl⟩
    dsimp only [deliver]
    rw [hwrite]
    rfl
  have hplain : plain = _ := runOptions_run_of_deliver hdecode hshown
  have hmoved :=
    @runOptions_run_of_deliver { options with output := some file } _ _ _ _ hdecode hwritten
  rw [hplain, hmoved, ← houtput]
  exact ⟨text, rfl, rfl⟩

end Options

/-- Two command lines that differ in one option. With `--verbose`, put in anywhere after the
subcommand but where `--output` expects its value, a run tells the counts if its source is
text, and all else is as without. With an output file that can be written, what would have
come to standard output goes to that file, which may be the source, and all else is as
without. -/
theorem run_with_option {first : Argument} {before after : List Argument} {options : Options}
    (haccepted : Options.parse (first :: (before ++ after)) = .ok options)
    (conditions : Conditions) (world : World) :
    let plain := (run (World.host conditions) (first :: (before ++ after))).run world
    (options.verbose = false → ¬ Options.AwaitsValue "--output" before →
      ∃ told counts, plain.2.errors = world.errors ++ told ∧
        options.Counts conditions world counts ∧
        (run (World.host conditions) (first :: (before ++ .text "--verbose" :: after))).run world =
          (plain.1, { plain.2 with errors := world.errors ++ (counts ++ told) })) ∧
    (∀ (source file : String) (place : Location), options.output = none →
      .text "--output" ∉ before → options.sourceBytes conditions world = .ok source.toUTF8 →
      conditions.outputError = none → file ∉ ["-h", "--help"] →
      world.files.target file = .ok place →
      ∃ answer, plain.2.output = world.output ++ answer ∧
        (run (World.host conditions)
            (first :: (before ++ .text "--output" :: .text file :: after))).run world =
          (plain.1, { plain.2 with
            output := world.output
            files := world.files.put place (.file answer.toUTF8) }) ∧
        (world.files.put place (.file answer.toUTF8)).read file = .ok answer.toUTF8) := by
  intro plain
  have hplain : plain = (runOptions (World.host conditions) options).run world :=
    run_of_accepted haccepted
  rw [hplain]
  refine ⟨fun hverbose hplace => ?_,
    fun source file place hnone hbefore hsource hstream hfile hplace => ?_⟩
  · rw [run_of_accepted (Options.parse_insert_verbose haccepted hverbose hplace)]
    obtain ⟨status, quiet, told, counts, herrors, hcounts, hquiet, hloud⟩ :=
      Options.exists_runOptions_verbose hverbose conditions world
    rw [hquiet, hloud, ← herrors]
    exact ⟨told, counts, rfl, hcounts, rfl⟩
  · rw [run_of_accepted (Options.parse_insert_output haccepted hnone hbefore hfile)]
    obtain ⟨answer, hanswer, hmoved⟩ := Options.runOptions_output hnone hstream hsource hplace
    have hwrite := FileSystem.write_eq_ok_iff.mpr
      ⟨place, hplace, (rfl : world.files.put place (.file answer.toUTF8) = _)⟩
    exact ⟨answer, hanswer, hmoved, FileSystem.read_of_write hwrite⟩

/-- The output file is the one that the source is read from. -/
theorem run_with_option_over_source :
    let files : FileSystem :=
      ⟨fun location => if location = ["in"] then some (.file "(\\x->y+z)1;".toUTF8) else none, []⟩
    let world : World := ⟨files, .empty, "", ""⟩
    let plain := (run World.host [.text "check", .text "in", .text "--json"]).run world
    (∃ told, plain.2.errors = "" ++ told ∧
      (run World.host [.text "check", .text "in", .text "--verbose", .text "--json"]).run world =
        (plain.1, { plain.2 with errors := "" ++ ("in: 11 tokens, 3 diagnostics\n" ++ told) })) ∧
    ∃ answer, plain.2.output = "" ++ answer ∧
      (run World.host [.text "check", .text "in", .text "--output", .text "in", .text "--json"]).run
          world =
        (plain.1, { plain.2 with
          output := "", files := files.put ["in"] (.file answer.toUTF8) }) := by
  intro files world plain
  have haccepted : Options.parse (.text "check" :: ([.text "in"] ++ [.text "--json"])) =
      .ok ⟨.check, true, false, some "in", none⟩ := rfl
  have hsource : Options.sourceBytes ⟨.check, true, false, some "in", none⟩ {} world =
      .ok "(\\x->y+z)1;".toUTF8 := rfl
  have hplace : ¬ Options.AwaitsValue "--output" [.text "in"] := by
    rintro ⟨front, hfront, -⟩
    have hlast := congrArg List.getLast? hfront
    simp at hlast
  obtain ⟨hverbose, houtput⟩ := run_with_option haccepted {} world
  obtain ⟨told, counts, htold, hcounts, hloud⟩ := hverbose rfl hplace
  obtain ⟨answer, hanswer, hmoved, -⟩ :=
    houtput "(\\x->y+z)1;" "in" ["in"] rfl (by decide) hsource rfl (by decide) rfl
  have hmessage : counts = "in: 11 tokens, 3 diagnostics\n" :=
    (hcounts.of_text _ hsource).trans (by decide +kernel)
  rw [hmessage] at hloud
  exact ⟨⟨told, htold, hloud⟩, answer, hanswer, hmoved⟩

end CurriedLambda.Command
