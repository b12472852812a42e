import FileSignatures.CommandLine.Run
import FileSignatures.Proofs.Database.Line

/-!
# Runs in a state

A run of a command line only looks at the machine, so in a given state of the machine it
is a function of this state, whatever the way to access it. What each part of a scan
gives in a state is said here: which settings it has, which files are collected, how one
of them is identified, and what is printed in the end. Files are collected and identified
one by one (`mapM_run`), and none of them can keep another one from its turn.

## Main definitions

* `resultIn`: What a computation gives in a state.
* `contentIn?`, `filesBelowIn?`: What a run reads in a state.
* `collectedIn`: The files of a scan.
* `scannedIn?`, `scanResultsIn`: What the files are identified as.
* `settingsIn?`, `rulesIn?`: The settings and the rules of a run.
* `ScanBegins`: A scan has all that it needs.

## Theorems

* `resultIn_bind`, `resultIn_tryCatch`: Computations one after the other, and one instead
  of another.
* `resultIn_loadSettings`, `resultIn_loadRules`: What a run works with.
* `collectFiles_run`, `scanFile_run`: The parts of a scan.
* `resultIn_perform`: A scan that begins prints the report of its files.
* `run_of_perform`: A run prints what its command does.
-/

namespace FileSignatures

section Reading

variable {σ α β : Type}

/-- What a computation gives in a state, which it only reads. -/
def resultIn (s : σ) (x : ExceptT RunError (ReaderM σ) α) : Except RunError α :=
  x.run.run s

theorem resultIn_lift (s : σ) (x : ReaderM σ α) :
    resultIn s (liftM x : ExceptT RunError (ReaderM σ) α) = .ok (x.run s) :=
  rfl

/-- The second computation sees the result of the first one, in the same state. -/
theorem resultIn_bind (s : σ) (x : ExceptT RunError (ReaderM σ) α)
    (f : α → ExceptT RunError (ReaderM σ) β) :
    resultIn s (x >>= f) = (resultIn s x).bind fun a => resultIn s (f a) := by
  have h : resultIn s (x >>= f) = (ExceptT.bindCont f (resultIn s x)).run s := rfl
  rw [h]
  cases resultIn s x with
  | error e => rfl
  | ok a => rfl

/-- The second computation takes the place of one that fails. -/
theorem resultIn_tryCatch (s : σ) (x : ExceptT RunError (ReaderM σ) α)
    (handle : RunError → ExceptT RunError (ReaderM σ) α) :
    resultIn s (tryCatch x handle) = tryCatch (resultIn s x) fun e => resultIn s (handle e) := by
  unfold resultIn
  rw [ExceptT.run_tryCatch, ReaderT.run_bind]
  cases x.run.run s with
  | error e => rfl
  | ok a => rfl

/-- Computations that only read do not notice one another. -/
theorem mapM_run (f : α → ReaderM σ β) (s : σ) (l : List α) :
    (l.mapM f).run s = l.map fun a => (f a).run s := by
  induction l with
  | nil => rfl
  | cons a l ih =>
      rw [List.mapM_cons, List.map_cons, ← ih]
      rfl

theorem resultIn_usableRules (s : σ) (unusable : RunError) (result : Except FormatError RuleSet)
    (rules : RuleSet) (h : result.toOption = some rules) :
    resultIn s (usableRules unusable result : ExceptT RunError (ReaderM σ) _) = .ok rules := by
  rw [eq_ok_of_toOption result rules h]
  rfl

end Reading

section Files

variable {σ : Type} [FileAccess (ReaderM σ)]

/-- The bytes of the file at a path, if it can be read. -/
def contentIn? (s : σ) (path : Path) : Option (List UInt8) :=
  (FileAccess.content? path : ReaderM σ _).run s

/-- The files that a scan finds below the directory at a path, if there is a directory. -/
def filesBelowIn? (s : σ) (scan : ScanSettings) (path : Path) : Option (List (List Path)) :=
  (FileAccess.files? scan path : ReaderM σ _).run s

/-- The files that paths stand for, path by path. -/
def collectedIn (s : σ) (scan : ScanSettings) (paths : List Path) : List Path :=
  paths.flatMap fun path => scan.filesAt path (filesBelowIn? s scan path)

/-- What a scan identifies the file at a path as, if the file can be read and nothing
    goes wrong. The settings of the scan include its options. -/
def scannedIn? (s : σ) (rules : RuleSet) (options : ScanOptions) (settings : Settings)
    (path : Path) : Option Identification :=
  (contentIn? s path).bind (rules.identifyContent? options.stream settings.scan.markLimit)

/-- The results of a scan. -/
def scanResultsIn (s : σ) (rules : RuleSet) (options : ScanOptions) (settings : Settings) :
    List ScanResult :=
  (collectedIn s settings.scan options.paths).map fun path =>
    ⟨path, scannedIn? s rules options settings path⟩

/-- The settings that the file at a path states. -/
def settingsAt? (s : σ) (path : Path) : Option Settings :=
  ((contentIn? s path).bind Text.ofUtf8?).bind Settings.ofText?

/-- The rules of a database file, or the built-in ones. -/
def rulesIn? (s : σ) : Option Path → Option RuleSet
  | some path => (contentIn? s path).bind fun content => (RuleSet.ofBytes content).toOption
  | none => RuleSet.builtin.toOption

/-- A file that does not state settings is an error, whatever is wrong with it. -/
theorem resultIn_settingsOfFile (s : σ) (path : Path) :
    (resultIn s (settingsOfFile path)).toOption = settingsAt? s path := by
  unfold settingsOfFile settingsAt?
  rw [resultIn_bind, resultIn_lift, Except.bind]
  have hread : (FileAccess.content? path : ReaderM σ _).run s = contentIn? s path := rfl
  rw [hread]
  -- A file that cannot be read, that is no text, or whose text states no settings.
  cases contentIn? s path with
  | none => rfl
  | some content =>
      simp only [Option.bind_some]
      cases Text.ofUtf8? content with
      | none => rfl
      | some text =>
          simp only [Option.bind_some]
          cases Settings.ofText? text with
          | none => rfl
          | some settings => rfl

theorem resultIn_loadRules (s : σ) (database? : Option Path) (rules : RuleSet)
    (h : rulesIn? s database? = some rules) : resultIn s (loadRules database?) = .ok rules := by
  cases database? with
  | none => exact resultIn_usableRules s .builtinUnusable RuleSet.builtin rules h
  | some path =>
      obtain ⟨content, hcontent, hfound⟩ := Option.bind_eq_some_iff.1 h
      have hread : (FileAccess.content? path : ReaderM σ _).run s = some content := hcontent
      unfold loadRules
      rw [resultIn_bind, resultIn_lift, hread, Except.bind]
      exact resultIn_usableRules s _ _ rules hfound

theorem collectFiles_run (s : σ) (scan : ScanSettings) (paths : List Path) :
    (collectFiles scan paths : ReaderM σ _).run s = collectedIn s scan paths := by
  let filesOf (path : Path) : ReaderM σ (List Path) := do
    return scan.filesAt path (← FileAccess.files? scan path)
  have hrun : (collectFiles scan paths : ReaderM σ _).run s
      = List.flatten ((paths.mapM filesOf).run s) := rfl
  rw [hrun, mapM_run]
  rfl

theorem scanFile_run (s : σ) (rules : RuleSet) (options : ScanOptions) (settings : Settings)
    (path : Path) :
    (scanFile rules options.stream settings.scan.markLimit path : ReaderM σ _).run s
      = ⟨path, scannedIn? s rules options settings path⟩ :=
  rfl

end Files

section Scans

variable {σ : Type} [Machine (ReaderM σ)]

/-- The file in which the user keeps settings. -/
def usualPathIn (s : σ) : Path :=
  Settings.usualPath ((Machine.configDirectory? : ReaderM σ _).run s)
    ((Machine.home? : ReaderM σ _).run s)

/-- The settings that a run loads. If a file is named, it has to state them. Otherwise the
    user's own ones hold, and where these are missing or not in order, the default ones. -/
def settingsIn? (s : σ) : Option Path → Option Settings
  | some path => settingsAt? s path
  | none => some ((settingsAt? s (usualPathIn s)).getD .default)

/-- A command line is that of a scan, its settings can be loaded and are in order, so can
    its rules, and as many workers as it asks for can be started. The settings of the scan
    include its options. -/
structure ScanBegins (s : σ) (line : CommandLine) (options : ScanOptions) (settings : Settings)
    (rules : RuleSet) : Prop where
  isScan : line.command = .identify options
  hasSettings : ∃ loaded, settingsIn? s line.config = some loaded
    ∧ (line.logLevel? loaded).isSome ∧ options.override loaded = settings
  hasRules : rulesIn? s (databaseFile? options.database settings) = some rules
  hasWorkers : (Machine.canStart
    (settings.scan.workersOf ((Machine.processors : ReaderM σ _).run s)) : ReaderM σ _).run s = true

theorem resultIn_loadSettings (s : σ) (config : Option Path) (settings : Settings)
    (h : settingsIn? s config = some settings) :
    resultIn s (loadSettings config) = .ok settings := by
  cases config with
  | some path =>
      have hfile : (resultIn s (settingsOfFile path)).toOption = some settings :=
        (resultIn_settingsOfFile s path).trans h
      have hload : resultIn s (loadSettings (some path)) = resultIn s (settingsOfFile path) := rfl
      rw [hload]
      exact eq_ok_of_toOption _ settings hfile
  | none =>
      have husual := resultIn_settingsOfFile s (usualPathIn s)
      have hload : resultIn s (loadSettings none)
          = resultIn s (tryCatch (settingsOfFile (usualPathIn s)) fun _ => pure .default) := rfl
      rw [hload, resultIn_tryCatch, ← Option.some.inj h, ← husual]
      -- The handler takes the error away, whichever it is.
      cases resultIn s (settingsOfFile (usualPathIn s)) with
      | error e => rfl
      | ok found => rfl

theorem resultIn_startWorkers (s : σ) (scan : ScanSettings)
    (h : (Machine.canStart (scan.workersOf ((Machine.processors : ReaderM σ _).run s)) :
      ReaderM σ _).run s = true) : resultIn s (startWorkers scan) = .ok () := by
  unfold startWorkers
  rw [resultIn_bind, resultIn_lift, Except.bind, resultIn_bind, resultIn_lift, h]
  rfl

/-- A scan that has its rules and its workers prints the report of its files, if there is
    one to print. -/
theorem resultIn_performScan (s : σ) (options : ScanOptions) (loaded : Settings)
    (rules : RuleSet)
    (hrules : resultIn s (loadRules (databaseFile? options.database loaded)) = .ok rules)
    (hworkers : resultIn s (startWorkers (options.override loaded).scan) = .ok ())
    (output : Text)
    (houtput : (ScanReport.ofResults (scanResultsIn s rules options
      (options.override loaded))).text? (options.override loaded).output = some output) :
    resultIn s (performScan options loaded) = .ok output := by
  unfold performScan
  simp only
  -- Rules, files, workers, results: what each step gives is known, and none of them fails.
  rw [resultIn_bind, hrules, Except.bind, resultIn_bind, resultIn_lift, collectFiles_run,
    Except.bind, resultIn_bind, hworkers, Except.bind, resultIn_bind, resultIn_lift, mapM_run]
  simp only [scanFile_run]
  have hreport : (ScanReport.ofResults ((collectedIn s (options.override loaded).scan
      options.paths).map fun path => ⟨path, scannedIn? s rules options
        (options.override loaded) path⟩)).text? (options.override loaded).output
      = some output := houtput
  rw [Except.bind, hreport]
  rfl

/-- A scan that begins prints the report of its files. -/
theorem resultIn_perform (s : σ) (line : CommandLine) (options : ScanOptions)
    (settings : Settings) (rules : RuleSet) (h : ScanBegins s line options settings rules)
    (output : Text)
    (houtput : (ScanReport.ofResults (scanResultsIn s rules options settings)).text?
      settings.output = some output) :
    resultIn s line.perform = .ok output := by
  rcases h with ⟨hscan, ⟨loaded, hloaded, hlevel, rfl⟩, hrules, hworkers⟩
  -- The options of a scan leave the choice of the database alone.
  have hfound := resultIn_loadRules s (databaseFile? options.database loaded) rules hrules
  have hnone : (line.logLevel? loaded).isNone = false := by
    rw [← Option.not_isSome, hlevel]
    rfl
  unfold CommandLine.perform
  rw [resultIn_bind, resultIn_loadSettings s line.config loaded hloaded, Except.bind, hnone, hscan]
  exact resultIn_performScan s options loaded rules hfound (resultIn_startWorkers s _ hworkers)
    output houtput

/-- A run succeeds with what the command prints. -/
theorem run_of_perform (s : σ) (arguments : List Argument) (line : CommandLine) (output : Text)
    (hline : CommandLine.ofArguments? arguments = some line)
    (h : resultIn s line.perform = .ok output) :
    (CommandLine.run arguments : ReaderM σ Outcome).run s = .success output := by
  have hperform : (line.perform.run : ReaderM σ _).run s = .ok output := h
  unfold CommandLine.run
  rw [hline]
  simp only
  rw [ReaderT.run_bind, hperform]
  rfl

end Scans

end FileSignatures
