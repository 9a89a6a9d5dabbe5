import CurriedLambda.Proofs.CommandRuns

/-!
What a run does to the files. Nothing is written before the source is read to its end and
turns out to be text, and then one file at most: the one that the output option names. The
answer is about the content that the source had before, so it may go to the same file.
-/
namespace CurriedLambda.Command

namespace FileSystem

variable {system after : FileSystem} {location place : Location} {path : String}
  {content : ByteArray}

theorem write_eq_ok_iff :
    system.write path content = .ok after ↔
      ∃ location, system.target path = .ok location ∧
        after = system.put location (.file content) := by
  rw [write, bind_eq_ok_iff]
  constructor
  · rintro ⟨location, htarget, h⟩
    exact ⟨location, htarget, (Except.ok.inj h).symm⟩
  · rintro ⟨location, htarget, rfl⟩
    exact ⟨location, htarget, rfl⟩

/-- A file is not written at the root, which is a directory. -/
theorem ne_nil_of_target (h : system.target path = .ok location) : location ≠ [] := by
  obtain ⟨_, _, _, _, hfree⟩ := exists_of_target h
  rintro rfl
  exact hfree rfl

theorem eq_of_entry?_put_ne {entry : Entry}
    (h : entry? (system.put location entry) place ≠ system.entry? place) : place = location := by
  by_contra hne
  exact h (entry?_put_of_ne hne)

end FileSystem

namespace Options

/-- The value of an option is the argument right after its first use. -/
theorem exists_of_takeValue {name value : String} {arguments : List Argument}
    (h : (takeValue name arguments).1 = some value) :
    ∃ before rest, arguments = before ++ .text name :: .text value :: rest ∧
      .text name ∉ before := by
  induction arguments with
  | nil => cases h
  | cons argument later ih =>
    unfold takeValue at h
    split at h
    · next hname =>
      subst hname
      split at h
      · next found others =>
        cases h
        exact ⟨[], others, rfl, List.not_mem_nil⟩
      · cases h
    · next hname =>
      obtain ⟨before, rest, rfl, hfirst⟩ := ih h
      refine ⟨argument :: before, rest, rfl, ?_⟩
      rw [List.mem_cons, not_or]
      exact ⟨Ne.symm hname, hfirst⟩

theorem exists_of_takeSubcommand {arguments rest : List Argument} {subcommand : Subcommand}
    (h : takeSubcommand arguments = .ok (subcommand, rest)) :
    ∃ name, arguments = .text name :: rest ∧ (name = "tokens" ∨ name = "check") := by
  unfold takeSubcommand at h
  split at h
  · cases h
  · cases h
  · next name later =>
    split_ifs at h with hoption htokens hcheck <;> cases h
    · exact ⟨name, rfl, .inl htokens⟩
    · exact ⟨name, rfl, .inr hcheck⟩

/-- An accepted command line names its output file right after the first `--output`. -/
theorem exists_of_output {arguments : List Argument} {options : Options} {path : String}
    (haccepted : parse arguments = .ok options) (hpath : options.output = some path) :
    ∃ before rest, arguments = before ++ .text "--output" :: .text path :: rest ∧
      .text "--output" ∉ before := by
  unfold parse at haccepted
  split at haccepted
  · cases haccepted
  obtain ⟨⟨subcommand, later⟩, hsubcommand, haccepted⟩ := bind_eq_ok_iff.mp haccepted
  have houtput : options.output = (takeValue "--output" later).1 := by
    dsimp only at haccepted
    split at haccepted <;> cases haccepted <;> rfl
  obtain ⟨before, rest, rfl, hfirst⟩ := exists_of_takeValue (houtput.symm.trans hpath)
  obtain ⟨name, rfl, hname⟩ := exists_of_takeSubcommand hsubcommand
  refine ⟨.text name :: before, rest, rfl, ?_⟩
  have hother : Argument.text "--output" ≠ .text name := by
    rcases hname with rfl | rfl <;> decide
  rw [List.mem_cons, not_or]
  exact ⟨hother, hfirst⟩

end Options

variable {arguments : List Argument} {conditions : Conditions} {world : World}
  {options : Options} {source : String}

theorem files_run_of_no_output (h : Answerable arguments conditions world options source)
    (hnone : options.output = none) :
    ((run (World.host conditions) arguments).run world).2.files = world.files := by
  obtain ⟨after, hrun, hdelivered⟩ := run_of_answerable h
  rw [Options.Delivered, hnone] at hdelivered
  rw [hrun]
  exact hdelivered.2

theorem files_run_of_output {path : String}
    (h : Answerable arguments conditions world options source)
    (hpath : options.output = some path) :
    ∃ place, world.files.target path = .ok place ∧
      ((run (World.host conditions) arguments).run world).2.files =
        world.files.put place (.file (options.due source).toUTF8) := by
  obtain ⟨after, hrun, hdelivered⟩ := run_of_answerable h
  rw [Options.Delivered, hpath] at hdelivered
  rw [hrun]
  exact FileSystem.write_eq_ok_iff.mp hdelivered.2.1

theorem files_run_of_not_answerable
    (h : ∀ options source, ¬ Answerable arguments conditions world options source) :
    ((run (World.host conditions) arguments).run world).2.files = world.files := by
  obtain ⟨input, message, hrun⟩ := exists_run_of_not_answerable h
  rw [hrun]
  rfl

/-- A run changes no file but the one that the output option names, and that one only if
the command line is accepted and the whole source is text. It then holds the answer about
the content that the source had before the run. A run that cannot give its answer leaves
all files as they were. -/
theorem run_files (arguments : List Argument) (conditions : Conditions) (world : World) :
    let after := ((run (World.host conditions) arguments).run world).2
    (∀ place, after.files.entry? place ≠ world.files.entry? place →
      ∃ options source path before rest, Answerable arguments conditions world options source ∧
        options.output = some path ∧ world.files.target path = .ok place ∧
        arguments = before ++ .text "--output" :: .text path :: rest ∧
        .text "--output" ∉ before) ∧
    (∀ options source path, Answerable arguments conditions world options source →
      options.output = some path →
      ∃ place, world.files.target path = .ok place ∧
        after.files = world.files.put place (.file (options.due source).toUTF8) ∧
        after.files.entry? place = some (.file (options.due source).toUTF8) ∧
        after.files.read path = .ok (options.due source).toUTF8) ∧
    ((∀ options source, ¬ Answerable arguments conditions world options source) →
      after.files = world.files) := by
  intro after
  refine ⟨?_, ?_, files_run_of_not_answerable⟩
  · intro place hchanged
    by_cases hanswer : ∃ options source, Answerable arguments conditions world options source
    · obtain ⟨options, source, hanswer⟩ := hanswer
      cases hpath : options.output with
      | none => exact absurd (by rw [files_run_of_no_output hanswer hpath]) hchanged
      | some path =>
        obtain ⟨written, htarget, hfiles⟩ := files_run_of_output hanswer hpath
        rw [hfiles] at hchanged
        obtain ⟨before, rest, hnamed⟩ := Options.exists_of_output hanswer.accepted hpath
        rw [FileSystem.eq_of_entry?_put_ne hchanged]
        exact ⟨options, source, path, before, rest, hanswer, hpath, htarget, hnamed⟩
    · push Not at hanswer
      exact absurd (by rw [files_run_of_not_answerable hanswer]) hchanged
  · intro options source path hanswer hpath
    obtain ⟨place, htarget, hfiles⟩ := files_run_of_output hanswer hpath
    have hwrite := FileSystem.write_eq_ok_iff.mpr ⟨place, htarget, hfiles⟩
    refine ⟨place, htarget, hfiles, ?_, FileSystem.read_of_write hwrite⟩
    rw [hfiles]
    exact FileSystem.entry?_put_self (FileSystem.ne_nil_of_target htarget)

end CurriedLambda.Command
