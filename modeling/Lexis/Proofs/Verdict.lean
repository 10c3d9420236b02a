import Lexis.Program
import Lexis.Proofs.QuoteSpans
import Lexis.Proofs.Resynchronization
import Lexis.Proofs.StreamCursor
import Lexis.Proofs.Truncation

/-!
# `Lexis.Proofs.Verdict`: what decides how a run of the command ends

The command succeeds where its file has no problem. Which lexemes there are hangs on the choice
about comments alone, and whether one of them is a problem hangs on nothing else. So the flags
that say what a malformed number makes, what a span covers, and how problems are shown cannot
turn a failure into a success, nor change the list of tokens but for the spans of quoted
literals. The theorems:

* `Lexeme.problems_readings_eq_nil_iff`: a run has no problem where no lexeme is one.
* `Lexer.Drains.problems_eq_nil_iff`, `Lexer.Drains.tokens_eq`, `Lexer.Drains.requoted`: two
  runs of the lexer with the same choice about comments.
* `Program.runInput_of_drains`: how a run on a file ends.
* `Program.runInput_verdict`: two runs on a file, under choices that agree about comments.
* `Program.run_verdict`: two command lines that ask for such runs.
-/

set_option autoImplicit false

namespace Lexis

/-! ### Lexemes without a problem -/

namespace Lexeme

variable {config : Config} {offset : Nat} {bytes : List UInt8}

/-- A run has no problem where no lexeme is malformed or open. The run may stop early, but what
stops it is a problem, so that a run without problems has seen all lexemes. What is left depends
on the choice about comments alone. -/
theorem problems_readings_eq_nil_iff :
    (readings config offset bytes).filterMap (·.problem) = [] ↔
      ∀ p ∈ scan config.comments offset bytes,
        p.lexeme.isMalformed = false ∧ p.lexeme.isOpen = false := by
  constructor
  · intro hnone
    -- Without a problem no number ends the run, so that all of the lexemes are read.
    have hcompletes : Completes config
        ((readings config offset bytes).filterMap (·.problem)) := by
      rw [hnone]
      exact ⟨nofun, .inr nofun⟩
    have hread : readings config offset bytes
        = (scan config.comments offset bytes).map (Placed.reading config) :=
      readings_eq_map fun p hp => (hcompletes.of_readings p hp).1
    intro p hp
    refine ⟨?_, (hcompletes.of_readings p hp).2⟩
    rw [Bool.eq_false_iff]
    intro hmalformed
    obtain ⟨literal, hproblem⟩ : ∃ literal, (p.reading config).problem
        = some ⟨.malformedNumber literal, p.span⟩ := problem_readAt_of_isMalformed hmalformed
    rw [hread, List.filterMap_map, List.filterMap_eq_nil_iff] at hnone
    have hquiet : (p.reading config).problem = none := hnone p hp
    rw [hproblem] at hquiet
    cases hquiet
  · intro hclean
    rw [List.filterMap_eq_nil_iff]
    intro reading hreading
    obtain ⟨p, hp, rfl⟩ := mem_readings hreading
    obtain ⟨hmalformed, hopen⟩ := hclean p hp
    exact problem_eq_none hmalformed hopen

/-- Without a malformed number it is all the same what such a number would come to. -/
theorem readings_of_clean (h : ∀ p ∈ scan config.comments offset bytes,
    p.lexeme.isMalformed = false) :
    readings config offset bytes
      = readings ⟨config.comments, .errorToken, config.quoteSpan⟩ offset bytes := by
  obtain ⟨comments, malformedNumber, quoteSpan⟩ := config
  cases malformedNumber with
  | suppress => exact readings_suppress_of_clean h
  | errorToken => rfl

end Lexeme

/-! ### Two runs of the lexer -/

namespace Lexer.Drains

variable {source : Source} {config config' : Config} {tokens tokens' : List Token}
  {problems problems' : List Problem}

/-- Whether there are problems hangs on the choice about comments alone, since that decides which
lexemes there are. How many there are may differ, where one run stops at the first. -/
theorem problems_eq_nil_iff (h : Drains source config tokens problems)
    (h' : Drains source config' tokens' problems')
    (hcomments : config'.comments = config.comments) : problems' = [] ↔ problems = [] := by
  obtain ⟨-, rfl⟩ := h.unique (drains_readings source config)
  obtain ⟨-, rfl⟩ := h'.unique (drains_readings source config')
  rw [Lexeme.problems_readings_eq_nil_iff, Lexeme.problems_readings_eq_nil_iff, hcomments]

/-- Without problems the tokens are those of a run in which malformed numbers make tokens. -/
theorem of_clean (h : Drains source config tokens []) :
    Drains source ⟨config.comments, .errorToken, config.quoteSpan⟩ tokens [] := by
  obtain ⟨rfl, hproblems⟩ := h.unique (drains_readings source config)
  have hclean := Lexeme.problems_readings_eq_nil_iff.mp hproblems.symm
  have hsame := Lexeme.readings_of_clean fun p hp => (hclean p hp).1
  rw [hsame] at hproblems ⊢
  rw [hproblems]
  exact drains_readings source _

/-- Without problems the tokens hang on the choices about comments and quotes alone. -/
theorem tokens_eq (h : Drains source config tokens []) (h' : Drains source config' tokens' [])
    (hcomments : config'.comments = config.comments)
    (hspan : config'.quoteSpan = config.quoteSpan) : tokens' = tokens := by
  have hclean' := h'.of_clean
  rw [hcomments, hspan] at hclean'
  exact (hclean'.unique h.of_clean).1

/-- Without problems the choice about quotes changes the spans of quoted literals alone. The two
runs may differ as well in what a malformed number comes to, as there is none. -/
theorem requoted (h : Drains source config tokens []) (h' : Drains source config' tokens' [])
    (hcomments : config'.comments = config.comments) (hspan : config.quoteSpan = .content)
    (hspan' : config'.quoteSpan = .delimited) : List.Forall₂ (Requoted source) tokens tokens' := by
  obtain ⟨last, hdrain, -⟩ := h.of_clean
  have hclean' := h'.of_clean
  rw [hspan] at hdrain
  rw [hcomments, hspan'] at hclean'
  have hcontent : (start source ⟨config.comments, .errorToken, .content⟩).config.quoteSpan
      = .content := rfl
  obtain ⟨found, hfound, htokens⟩ := drain_delimited hcontent hdrain
  obtain ⟨rfl, -⟩ := hclean'.unique ⟨_, hfound, rfl⟩
  exact htokens

end Lexer.Drains

/-- The stream of a lexer has the tokens and the problems of its draining, and begins at the first
token. -/
theorem TokenStream.ofLexer_of_drains {source : Source} {config : Config} {tokens : List Token}
    {problems : List Problem} (h : Lexer.Drains source config tokens problems) :
    ofLexer (Lexer.start source config) = .ok ⟨tokens, problems, 0⟩ := by
  obtain ⟨last, hdrain, rfl⟩ := h
  exact ofLexer_of_drain hdrain

/-! ### Runs of the command -/

namespace Program

variable {fs : FileSystem} {session : Session} {options options' : CommandLine.Options}
  {tokens : List Token} {problems : List Problem}

/-- A run that shows problems does not succeed, not even where it breaks off. The exit code is one
when all have been shown, and another one where showing a problem faults. -/
theorem exitCode_showProblems (session : Session) (directory : List String) (printed : String)
    (problems : List Problem) : (showProblems session directory printed problems).exitCode ≠ 0 := by
  induction problems generalizing printed with
  | nil => exact Nat.one_ne_zero
  | cons problem rest ih =>
      rw [showProblems]
      cases Diagnostic.render problem session directory with
      | ok text => exact ih (printed ++ text)
      | error fault => exact Nat.succ_ne_zero 100

/-- A run succeeds where the source has no problem, and then it lists the tokens. What it does
with problems, and how they look, matters to the output alone. -/
theorem runSession_of_drains (options : CommandLine.Options) (directory : List String)
    (session : Session) (h : Lexer.Drains session.source (config options) tokens problems) :
    ((runSession options directory session).exitCode = 0 ↔ problems = []) ∧
    (problems = [] → (runSession options directory session).output = listing tokens) := by
  rw [runSession, TokenStream.ofLexer_of_drains h]
  cases problems with
  | nil => exact ⟨⟨fun _ => rfl, fun _ => rfl⟩, fun _ => rfl⟩
  | cons problem rest =>
      refine ⟨⟨?_, nofun⟩, nofun⟩
      intro hcode
      exact absurd hcode (exitCode_showProblems session directory _ (problem :: rest))

/-- A run with an input that loads is a run on its session. The session says whether messages are
colored, which makes no difference to its source. -/
theorem runInput_eq_runSession {input : String} (hload : Session.load fs input = .ok session)
    (options : CommandLine.Options) :
    runInput fs options input
      = runSession options fs.currentDirectory { session with useColor := !options.noColor } := by
  simp only [runInput, hload]

/-- How a run with an input ends that loads: as the draining of its source says, under the choices
that the options make. -/
theorem runInput_of_drains {input : String} (hload : Session.load fs input = .ok session)
    (h : Lexer.Drains session.source (config options) tokens problems) :
    ((runInput fs options input).exitCode = 0 ↔ problems = []) ∧
    (problems = [] → (runInput fs options input).output = listing tokens) := by
  rw [runInput_eq_runSession hload]
  exact runSession_of_drains options fs.currentDirectory
    { session with useColor := !options.noColor } h

/-- How the outcomes of two runs on a source compare, with the same choice about comments. -/
structure SameVerdict (source : Source) (options options' : CommandLine.Options)
    (outcome outcome' : Outcome) : Prop where
  /-- The exit code says whether lexing the source meets a problem. -/
  exitCode_iff : ∃ tokens problems, Lexer.Drains source (config options) tokens problems ∧
    (outcome.exitCode = 0 ↔ problems = [])
  /-- The other choices do not change the verdict. -/
  same_exitCode : outcome'.exitCode = 0 ↔ outcome.exitCode = 0
  /-- A run that succeeds lists the tokens, a line each, and prints nothing else. -/
  listed : outcome.exitCode = 0 → ∃ tokens,
    Lexer.Drains source (config options) tokens [] ∧ outcome.output = listing tokens
  /-- What is listed hangs on the choice about quotes alone. -/
  same_output : outcome.exitCode = 0 → options'.delimitedQuotes = options.delimitedQuotes →
    outcome'.output = outcome.output
  /-- That choice changes the spans of quoted literals alone. -/
  requoted : outcome.exitCode = 0 → options.delimitedQuotes = false →
    options'.delimitedQuotes = true → ∃ tokens tokens',
      Lexer.Drains source (config options) tokens [] ∧
      Lexer.Drains source (config options') tokens' [] ∧
      outcome.output = listing tokens ∧ outcome'.output = listing tokens' ∧
      List.Forall₂ (Requoted source) tokens tokens'

/-- Two runs with an input that loads, under choices that agree about comments. Both lexers find
problems or none does (`Lexer.Drains.problems_eq_nil_iff`). Without problems they find the same
tokens, or tokens that differ in the spans of quoted literals alone, and these are what is
listed. -/
theorem runInput_verdict {input : String} (hload : Session.load fs input = .ok session)
    (hcomments : options'.noComments = options.noComments) :
    SameVerdict session.source options options' (runInput fs options input)
      (runInput fs options' input) := by
  have hsame : (config options').comments = (config options).comments := congrArg Bool.not hcomments
  obtain ⟨tokens, problems, hdrains⟩ := Lexer.exists_drains session.source (config options)
  obtain ⟨tokens', problems', hdrains'⟩ := Lexer.exists_drains session.source (config options')
  have hproblems := hdrains.problems_eq_nil_iff hdrains' hsame
  obtain ⟨hcode, houtput⟩ := runInput_of_drains hload hdrains
  obtain ⟨hcode', houtput'⟩ := runInput_of_drains hload hdrains'
  refine ⟨⟨tokens, problems, hdrains, hcode⟩, ?_, ?_, ?_, ?_⟩
  · rw [hcode, hcode', hproblems]
  · intro hsuccess
    obtain rfl := hcode.mp hsuccess
    exact ⟨tokens, hdrains, houtput rfl⟩
  · intro hsuccess hquotes
    obtain rfl := hcode.mp hsuccess
    obtain rfl := hproblems.mpr rfl
    have hspan : (config options').quoteSpan = (config options).quoteSpan := by
      rw [config, config, hquotes]
    rw [houtput rfl, houtput' rfl, hdrains.tokens_eq hdrains' hsame hspan]
  · intro hsuccess hcontent hdelimited
    obtain rfl := hcode.mp hsuccess
    obtain rfl := hproblems.mpr rfl
    have hspan : (config options).quoteSpan = .content := by
      rw [config, hcontent]
      rfl
    have hspan' : (config options').quoteSpan = .delimited := by
      rw [config, hdelimited]
      rfl
    exact ⟨tokens, tokens', hdrains, hdrains', houtput rfl, houtput' rfl,
      hdrains.requoted hdrains' hsame hspan hspan'⟩

/-- A command line that asks for a run with an input is that run. Nothing else about reading
command lines matters to the verdict. -/
theorem run_eq_runInput {arguments : List String} {input : String}
    (hparse : CommandLine.parse arguments = .ok (.run options))
    (hinput : options.input = some input) : run fs arguments = runInput fs options input := by
  simp only [run, hparse, hinput]

/-- Whether a run on a file succeeds hangs on the file and on the choice about comments, and on
no other flag. What a run prints that succeeds hangs on nothing else either, but for the spans of
quoted literals. This is `runInput_verdict` for command lines that ask for the two runs. -/
theorem run_verdict {arguments arguments' : List String} {input : String}
    (hload : Session.load fs input = .ok session)
    (hparse : CommandLine.parse arguments = .ok (.run options))
    (hparse' : CommandLine.parse arguments' = .ok (.run options'))
    (hinput : options.input = some input) (hinput' : options'.input = some input)
    (hcomments : options'.noComments = options.noComments) :
    SameVerdict session.source options options' (run fs arguments) (run fs arguments') := by
  rw [run_eq_runInput hparse hinput, run_eq_runInput hparse' hinput']
  exact runInput_verdict hload hcomments

/-- A file with a character in quotes. The other flags do not turn the success into a
failure. -/
theorem run_verdict_of_quoted :
    let source : Source := ⟨"'a'", _, rfl, by decide⟩
    let fs := (⟨["home"], [(["home", "a.erys"], .file source.bytes)]⟩ : FileTree).fileSystem
    (run fs ["a.erys"]).exitCode = 0 ∧
    (run fs ["a.erys"]).output = "Literal char: a (terminated: true) (1..2)\n" ∧
    (run fs ["-v", "--no-color", "--error-tokens", "--delimited-quotes", "a.erys"]).exitCode
      = 0 := by
  intro source fs
  have hload : Session.load fs "a.erys"
      = .ok { Session.ofSource source with path := some "a.erys" } := Session.load_eq_ok rfl rfl
  have hparse : CommandLine.parse ["a.erys"] = .ok (.run { input := some "a.erys" }) := rfl
  have hparse' : CommandLine.parse
      ["-v", "--no-color", "--error-tokens", "--delimited-quotes", "a.erys"]
        = .ok (.run ⟨some "a.erys", true, true, true, false, 1⟩) := rfl
  have hverdict := run_verdict hload hparse hparse' rfl rfl rfl
  have hdrains : Lexer.Drains source (config { input := some "a.erys" })
      [⟨.literal (.quoted .char "a" true), ⟨1, 1⟩⟩] [] :=
    ⟨_, (Lexer.drain_of_some rfl).trans (congrArg _ (Lexer.drain_of_none rfl)), rfl⟩
  have hsuccess : (run fs ["a.erys"]).exitCode = 0 := by
    obtain ⟨tokens, problems, hdrains', hcode⟩ := hverdict.exitCode_iff
    exact hcode.mpr (hdrains'.unique hdrains).2
  obtain ⟨tokens, hdrains', houtput⟩ := hverdict.listed hsuccess
  obtain ⟨rfl, -⟩ := hdrains'.unique hdrains
  exact ⟨hsuccess, houtput, hverdict.same_exitCode.mpr hsuccess⟩

end Program

end Lexis
