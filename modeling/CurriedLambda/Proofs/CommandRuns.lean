import CurriedLambda.Command.Program
import CurriedLambda.Proofs.FileWriting
import CurriedLambda.Proofs.ReportRoundTrip

/-!
Runs of the command-line program in a world, under conditions that may make the standard
streams fail. A run that gets as far as its answer puts out what the library says of the
source, in one piece and at one place, and its exit status tells whether a check found
anything. Every other run fails and puts out nothing.
-/
namespace CurriedLambda

theorem fromUTF8?_eq_some_iff {bytes : ByteArray} {text : String} :
    String.fromUTF8? bytes = some text ↔ bytes = text.toUTF8 := by
  unfold String.fromUTF8?
  constructor
  · intro h
    split at h
    · rw [← Option.some.inj h]
      rfl
    · cases h
  · rintro rfl
    exact dif_pos text.isValidUTF8

namespace Command

theorem decode_eq_ok_iff {bytes : Except SystemError ByteArray} {source : String} :
    decode bytes = .ok source ↔ bytes = .ok source.toUTF8 := by
  cases bytes with
  | error => simp [decode]
  | ok bytes =>
    rw [Except.ok.injEq, ← fromUTF8?_eq_some_iff, decode]
    split <;> simp_all

theorem run_bind {σ α β : Type} (first : StateM σ α) (next : α → StateM σ β) (state : σ) :
    (first >>= next).run state = (next (first.run state).1).run (first.run state).2 :=
  rfl

theorem run_pure {σ α : Type} (result : α) (state : σ) :
    (pure result : StateM σ α).run state = (result, state) :=
  rfl

theorem run_modifyGet {σ α : Type} (change : σ → α × σ) (state : σ) :
    (modifyGet change : StateM σ α).run state = change state :=
  rfl

namespace World

/-- The world with one more message. -/
def tell (world : World) (message : String) : World :=
  { world with errors := world.errors ++ message }

theorem tell_tell (world : World) (first second : String) :
    (world.tell first).tell second = world.tell (first ++ second) := by
  simp only [tell, String.append_assoc]

theorem writeError_run (conditions : Conditions) (world : World) (message : String) :
    ((host conditions).writeError message).run world = ((), world.tell message) :=
  rfl

end World

namespace Options

/-- The bytes of the source. -/
def sourceBytes (options : Options) (conditions : Conditions) (world : World) :
    Except SystemError ByteArray :=
  match options.path, conditions.inputError with
  | some path, _ => world.files.read path
  | none, some error => .error error
  | none, none => .ok world.input

/-- The world when the source has been read. -/
def afterReading (options : Options) (conditions : Conditions) (world : World) : World :=
  match options.path, conditions.inputError with
  | none, none => { world with input := .empty }
  | _, _ => world

/-- The world when the counts have been reported, if they are asked for. -/
def afterSummary (options : Options) (source : String) (world : World) : World :=
  if options.verbose then world.tell (options.summary (tokenize source) (check source)) else world

/-- The world when the text has been put out. -/
def deliver (options : Options) (conditions : Conditions) (text : String) (world : World) :
    Except SystemError World :=
  match options.output, conditions.outputError with
  | some path, _ => (world.files.write path text.toUTF8).map fun files => { world with files }
  | none, some error => if text = "" then .ok world else .error error
  | none, none => .ok { world with output := world.output ++ text }

variable {options : Options} {conditions : Conditions} {source : String} {world after : World}

theorem readSource_run :
    (readSource (World.host conditions) options).run world =
      (decode (options.sourceBytes conditions world), options.afterReading conditions world) := by
  unfold readSource sourceBytes afterReading
  cases options.path with
  | some path => rfl
  | none =>
    dsimp only [World.host]
    rw [run_bind, run_modifyGet]
    cases conditions.inputError <;> rfl

theorem writeAnswer_run {text : String} :
    (writeAnswer (World.host conditions) options text).run world =
      match options.deliver conditions text world with
      | .ok after => (.ok (), after)
      | .error error => (.error error, world) := by
  unfold writeAnswer deliver
  cases options.output with
  | none =>
    dsimp only [World.host]
    rw [run_modifyGet]
    cases conditions.outputError with
    | none => rfl
    | some error =>
      dsimp only
      split <;> rfl
  | some path =>
    dsimp only [World.host]
    rw [run_modifyGet]
    cases world.files.write path text.toUTF8 <;> rfl

theorem runOptions_run_of_unread {failure : Failure}
    (h : decode (options.sourceBytes conditions world) = .error failure) :
    (runOptions (World.host conditions) options).run world =
      (1, (options.afterReading conditions world).tell
        ("input '" ++ options.sourceName ++ "' error: " ++ failure.render ++ "\n")) := by
  rw [runOptions, run_bind, readSource_run, h, run_bind, World.writeError_run, run_pure]

theorem runOptions_run_of_read
    (h : decode (options.sourceBytes conditions world) = .ok source) :
    (runOptions (World.host conditions) options).run world =
      match options.deliver conditions (options.answer source (tokenize source) (check source))
        (options.afterSummary source (options.afterReading conditions world)) with
      | .ok after => (options.status (check source), after)
      | .error error =>
        (1, (options.afterSummary source (options.afterReading conditions world)).tell
          ("output error: " ++ (Failure.ofSystem error.render).render ++ "\n")) := by
  rw [runOptions, run_bind, readSource_run, h, afterSummary, check]
  dsimp only
  -- The counts go to standard error before the answer, or nothing does.
  cases options.verbose with
  | false =>
    rw [if_neg Bool.false_ne_true, if_neg Bool.false_ne_true, run_bind, writeAnswer_run]
    cases options.deliver _ _ _ <;> rfl
  | true =>
    rw [if_pos rfl, if_pos rfl, run_bind, World.writeError_run, run_bind, writeAnswer_run]
    cases options.deliver _ _ _ <;> rfl

@[simp]
theorem files_afterReading : (options.afterReading conditions world).files = world.files := by
  unfold afterReading
  split <;> rfl

@[simp]
theorem output_afterReading :
    (options.afterReading conditions world).output = world.output := by
  unfold afterReading
  split <;> rfl

@[simp]
theorem files_afterSummary : (options.afterSummary source world).files = world.files := by
  unfold afterSummary
  split <;> rfl

@[simp]
theorem output_afterSummary : (options.afterSummary source world).output = world.output := by
  unfold afterSummary
  split <;> rfl

theorem exists_afterReading (options : Options) (conditions : Conditions) (world : World) :
    ∃ input, options.afterReading conditions world = { world with input } := by
  unfold afterReading
  split
  · exact ⟨.empty, rfl⟩
  · exact ⟨world.input, rfl⟩

theorem exists_afterSummary (options : Options) (source : String) (world : World) :
    ∃ message, options.afterSummary source world = world.tell message := by
  unfold afterSummary
  split
  · exact ⟨_, rfl⟩
  · exact ⟨"", by rw [World.tell, String.append_empty]⟩

/-- The text comes to the end of standard output, or is what the output file holds, and
nothing is put out elsewhere. -/
def Delivered (options : Options) (text : String) (before after : World) : Prop :=
  match options.output with
  | none => after.output = before.output ++ text ∧ after.files = before.files
  | some path =>
    after.output = before.output ∧ before.files.write path text.toUTF8 = .ok after.files ∧
      after.files.read path = .ok text.toUTF8

/-- Putting a text out changes the output file or standard output, and nothing else. -/
theorem cases_of_deliver {text : String}
    (h : options.deliver conditions text world = .ok after) :
    (∃ path files, options.output = some path ∧ world.files.write path text.toUTF8 = .ok files ∧
      after = { world with files }) ∨
    (options.output = none ∧ (conditions.outputError = none ∨ text = "") ∧
      after = { world with output := world.output ++ text }) := by
  unfold deliver at h
  split at h
  · next path hpath =>
    cases hwrite : world.files.write path text.toUTF8 with
    | error error =>
      rw [hwrite] at h
      cases h
    | ok files =>
      rw [hwrite] at h
      cases h
      exact .inl ⟨path, files, hpath, hwrite, rfl⟩
  · next hnone hstream =>
    split at h
    · next hempty =>
      cases h
      exact .inr ⟨hnone, .inr hempty, by rw [hempty, String.append_empty]⟩
    · cases h
  · next hnone hstream =>
    cases h
    exact .inr ⟨hnone, .inl hstream, rfl⟩

theorem delivered_of_deliver {text : String} {before : World}
    (hfiles : world.files = before.files) (houtput : world.output = before.output)
    (h : options.deliver conditions text world = .ok after) :
    options.Delivered text before after := by
  unfold Delivered
  rcases cases_of_deliver h with ⟨path, files, hpath, hwrite, rfl⟩ | ⟨hnone, -, rfl⟩
  · rw [hpath]
    exact ⟨houtput, hfiles ▸ hwrite, FileSystem.read_of_write hwrite⟩
  · rw [hnone]
    exact ⟨congrArg (· ++ text) houtput, hfiles⟩

/-- The text can be put out as the options ask for it. -/
def Writable (options : Options) (conditions : Conditions) (files : FileSystem)
    (text : String) : Prop :=
  match options.output with
  | some path => ∃ location, files.target path = .ok location
  | none => conditions.outputError = none ∨ text = ""

theorem exists_deliver_iff {text : String} :
    (∃ after, options.deliver conditions text world = .ok after) ↔
      options.Writable conditions world.files text := by
  unfold deliver Writable
  cases options.output with
  | none =>
    cases conditions.outputError with
    | none => simp
    | some error => by_cases hempty : text = "" <;> simp [hempty]
  | some path =>
    cases htarget : world.files.target path <;>
      simp [FileSystem.write, htarget, Except.map, Bind.bind, Except.bind, pure, Except.pure]

/-- The report that a command line with `--json` asks for. -/
def report (options : Options) (source : String) : Report :=
  match options.subcommand with
  | .tokens => .ofText source
  | .check => .diagnosticsOnly source

/-- What a command line asks for about a source. -/
def due (options : Options) (source : String) : String :=
  if options.json then (options.report source).render ++ "\n"
  else
    match options.subcommand with
    | .tokens => tokenTable (tokenize source)
    | .check => diagnosticList source (check source)

theorem answer_eq_due :
    options.answer source (tokenize source) (check source) = options.due source := by
  obtain ⟨subcommand, json, _, _, _⟩ := options
  cases json <;> cases subcommand <;> rfl

end Options

/-- The command line is accepted, its source is this text, and the answer can be put out. -/
structure Answerable (arguments : List Argument) (conditions : Conditions) (world : World)
    (options : Options) (source : String) : Prop where
  accepted : Options.parse arguments = .ok options
  read : options.sourceBytes conditions world = .ok source.toUTF8
  writable : options.Writable conditions world.files (options.due source)

section Runs

variable {arguments : List Argument} {conditions : Conditions} {world : World}
  {options : Options} {source : String}

theorem run_of_accepted (h : Options.parse arguments = .ok options) :
    (run (World.host conditions) arguments).run world =
      (runOptions (World.host conditions) options).run world := by
  rw [run, h]

theorem run_of_answerable (h : Answerable arguments conditions world options source) :
    ∃ after, (run (World.host conditions) arguments).run world =
        (options.status (check source), after) ∧
      options.Delivered (options.due source) world after := by
  have hdecode := decode_eq_ok_iff.mpr h.read
  have hwritable : options.Writable conditions
      (options.afterSummary source (options.afterReading conditions world)).files
      (options.due source) := by
    simpa using h.writable
  obtain ⟨after, hdeliver⟩ := Options.exists_deliver_iff.mpr hwritable
  -- Neither reading nor the summary changes the files or standard output.
  refine ⟨after, ?_, Options.delivered_of_deliver (by simp) (by simp) hdeliver⟩
  rw [run_of_accepted h.accepted, Options.runOptions_run_of_read hdecode,
    Options.answer_eq_due, hdeliver]

/-- A run without an answer reads standard input at most, and tells what is wrong. -/
theorem exists_run_of_not_answerable
    (h : ∀ options source, ¬ Answerable arguments conditions world options source) :
    ∃ input message, (run (World.host conditions) arguments).run world =
      (1, { world with input }.tell message) := by
  cases haccepted : Options.parse arguments with
  | error refusal =>
    rw [run, haccepted]
    exact ⟨world.input, refusal.report conditions.program, rfl⟩
  | ok options =>
    rw [run_of_accepted haccepted]
    obtain ⟨input, hreading⟩ := options.exists_afterReading conditions world
    cases hdecode : decode (options.sourceBytes conditions world) with
    | error failure =>
      rw [Options.runOptions_run_of_unread hdecode, hreading]
      exact ⟨input, _, rfl⟩
    | ok source =>
      obtain ⟨counts, hsummary⟩ := options.exists_afterSummary source { world with input }
      rw [Options.runOptions_run_of_read hdecode, Options.answer_eq_due, hreading, hsummary]
      split
      · next after hdeliver =>
        have hwritable := Options.exists_deliver_iff.mp ⟨after, hdeliver⟩
        exact absurd ⟨haccepted, decode_eq_ok_iff.mp hdecode, hwritable⟩ (h options source)
      · rw [World.tell_tell]
        exact ⟨input, _, rfl⟩

theorem run_of_not_answerable
    (h : ∀ options source, ¬ Answerable arguments conditions world options source) :
    ((run (World.host conditions) arguments).run world).1 = 1 ∧
      ((run (World.host conditions) arguments).run world).2.output = world.output := by
  obtain ⟨input, message, hrun⟩ := exists_run_of_not_answerable h
  rw [hrun]
  exact ⟨rfl, rfl⟩

end Runs

/-- A run whose command line is accepted, whose source is text and whose answer can be put
out gives the answer that the library gives, and with `--json` a report that loads as the
one meant; it fails only for a check that finds something, which is the case exactly if its
list is not empty. Every other run fails and puts out nothing. -/
theorem run_answers (arguments : List Argument) (conditions : Conditions) (world : World) :
    let (status, after) := (run (World.host conditions) arguments).run world
    (∀ options source, Answerable arguments conditions world options source →
      options.Delivered (options.due source) world after ∧
      (options.json → Report.load (options.due source) = some (options.report source)) ∧
      status = (if options.subcommand = .check ∧ check source ≠ [] then 1 else 0) ∧
      (options.subcommand = .check → ¬ options.json →
        (options.due source = "" ↔ status = 0))) ∧
    ((∀ options source, ¬ Answerable arguments conditions world options source) →
      status = 1 ∧ after.output = world.output) := by
  rcases hrun : (run (World.host conditions) arguments).run world with ⟨status, after⟩
  refine ⟨fun options source h => ?_, fun h => by simpa [hrun] using run_of_not_answerable h⟩
  obtain ⟨_, hanswered, hdelivered⟩ := run_of_answerable h
  cases hrun.symm.trans hanswered
  refine ⟨hdelivered, fun hjson => ?_, rfl, fun hcheck hjson => ?_⟩
  · have hlineBreak : Json.IsGap ['\n'] := by simp [Json.IsGap]
    rw [Options.due, if_pos hjson]
    exact (options.report source).load_render_append hlineBreak
  · rw [Options.due, if_neg hjson, hcheck, Options.status, hcheck]
    simp only [true_and, diagnosticList_eq_empty_iff]
    split <;> simp_all

example (files : FileSystem) :
    Answerable [.text "check", .text "--json"] {} ⟨files, "x".toUTF8, "", ""⟩
      ⟨.check, true, false, none, none⟩ "x" where
  accepted := by rfl
  read := rfl
  writable := .inl rfl

end Command

end CurriedLambda
