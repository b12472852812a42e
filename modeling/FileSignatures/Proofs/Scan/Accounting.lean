import FileSignatures.Proofs.Database.RuleShape
import FileSignatures.Proofs.Scan.Running
import FileSignatures.Proofs.Text.Escapes

/-!
# What a scan accounts for

Every file that a scan collects is identified or fails, on its own. Those that are
identified have reports, in the order in which they were collected, and the summary
counts both kinds. That a file fails is seen in a counter and in nothing else.

The counters are described by the list of the files' identifications. One more file
raises one of them (`counts_add`), so after all files they count what they should
(`counts_foldl`). That a file is scanned alone means that a scan with the same options
and settings is given its path only. What is collected is then this file, for a path
that can be read is no directory.

## Main definitions

* `FileReport.printed`: What is printed of a file.
* `ScanSummary.Counts`: The counters count identifications.
* `ScanSummary.Accounts`: The counters, with a share in percent.
* `summaryLines`: The lines that tell the counters.
* `CommandLine.alone`: A scan of one path.

## Theorems

* `counts_add`, `counts_foldl`: What one more file changes, and what all files do.
* `accounts_of_counts`: Counters that count files leave out none of them.
* `collectedIn_singleton`: A path that leads to no directory stands for itself.
* `scan_accounts`: A scan reports and counts its files as they are on their own.
* `filesBelowIn?_of_content`: In memory no directory can be read.
-/

namespace FileSignatures

/-- What is printed of a file. -/
def FileReport.printed (report : FileReport) (output : OutputSettings) : Text :=
  if output.brief then report.brief ++ ['\n'] else report.listing

namespace ScanSummary

/-- The counters count the identifications of files, one of which is missing where a
    file failed. -/
structure Counts (summary : ScanSummary) (identifications : List (Option Identification)) :
    Prop where
  read : summary.read = identifications.countP Option.isSome
  identified : summary.identified
    = identifications.countP fun identification => identification.any Identification.identified
  failed : summary.failed = identifications.countP Option.isNone

/-- The counters count the identifications of files, and leave out none of them. The
    share in percent is rounded down, at most a hundred, and zero of no files. -/
structure Accounts (summary : ScanSummary) (percent : Nat)
    (identifications : List (Option Identification)) : Prop
    extends Counts summary identifications where
  total : summary.read + summary.failed = identifications.length
  percent_le : percent * summary.read ≤ 100 * summary.identified
  lt_percent : 0 < summary.read → 100 * summary.identified < (percent + 1) * summary.read
  percent_le_hundred : percent ≤ 100
  percent_of_none : summary.read = 0 → percent = 0

theorem counts_empty : Counts .empty [] :=
  ⟨rfl, rfl, rfl⟩

/-- One more file raises one counter if it fails, and otherwise one or two others. -/
theorem counts_add (summary : ScanSummary) (identifications : List (Option Identification))
    (result : ScanResult) (h : summary.Counts identifications) :
    (summary.add result).Counts (identifications ++ [result.identification]) := by
  rcases result with ⟨path, identification⟩
  -- Each counter counts a property of the last file, which is known in both cases.
  cases identification with
  | none =>
      refine ⟨?_, ?_, ?_⟩
      · rw [List.countP_append, ← h.read]
        rfl
      · rw [List.countP_append, ← h.identified]
        rfl
      · rw [List.countP_append, ← h.failed]
        rfl
  | some identification =>
      refine ⟨?_, ?_, ?_⟩
      · rw [List.countP_append, ← h.read]
        rfl
      · rw [List.countP_append, ← h.identified]
        rw [List.countP_singleton]
        rfl
      · rw [List.countP_append, ← h.failed]
        rfl

/-- One file that is read is all or nothing of the files read. -/
theorem add_empty (path : Path) (identification : Identification) :
    empty.add ⟨path, some identification⟩
      = if identification.identified then ⟨1, 1, 0⟩ else ⟨1, 0, 0⟩ := by
  cases h : identification.identified with
  | true => simp [add, record, empty, h]
  | false => simp [add, record, empty, h]

theorem counts_foldl (results : List ScanResult) (summary : ScanSummary)
    (identifications : List (Option Identification)) (h : summary.Counts identifications) :
    (results.foldl add summary).Counts
      (identifications ++ results.map ScanResult.identification) := by
  induction results generalizing summary identifications with
  | nil => rwa [List.map_nil, List.append_nil]
  | cons result results ih =>
      rw [List.map_cons, List.append_cons]
      exact ih _ _ (counts_add summary identifications result h)

theorem identified_le_read (summary : ScanSummary)
    (identifications : List (Option Identification)) (h : summary.Counts identifications) :
    summary.identified ≤ summary.read := by
  rw [h.identified, h.read]
  refine List.countP_mono_left fun identification _ => ?_
  cases identification with
  | none => exact id
  | some identification => exact fun _ => rfl

/-- Counters that count files leave out none of them, and their share is a percentage. -/
theorem accounts_of_counts (summary : ScanSummary)
    (identifications : List (Option Identification)) (h : summary.Counts identifications) :
    summary.Accounts summary.percent identifications where
  toCounts := h
  total := by
    have hnone : ∀ identification : Option Identification,
        identification.isNone = decide (¬ identification.isSome = true) := by
      intro identification
      cases identification <;> rfl
    rw [h.read, h.failed, List.length_eq_countP_add_countP Option.isSome, funext hnone]
  -- The share is rounded down, so the quotient lies between two multiples.
  percent_le := by
    unfold percent
    rw [Nat.mul_comm 100]
    exact Nat.div_mul_le_self _ _
  lt_percent hread := by
    rw [Nat.mul_comm 100]
    exact (Nat.div_lt_iff_lt_mul hread).1 (Nat.lt_succ_self summary.percent)
  percent_le_hundred :=
    Nat.div_le_of_le_mul
      (Nat.mul_le_mul_right 100 (identified_le_read summary identifications h))
  percent_of_none hnone := by
    unfold percent
    rw [hnone, Nat.div_zero]

end ScanSummary

/-- The lines that tell how many files of those read are identified, which share this is,
    and how many files failed, if any did. Numbers are written in decimal. -/
def summaryLines (identified read percent failed : Nat) : List Text :=
  [Nat.toDigits 10 identified ++ '/' :: Nat.toDigits 10 read,
    Nat.toDigits 10 percent ++ "% identified.".toList]
  ++ (if 0 < failed then [Nat.toDigits 10 failed ++ " could not be read.".toList] else [])

theorem ScanSummary.text_eq (summary : ScanSummary) :
    summary.text = (summaryLines summary.identified summary.read summary.percent
      summary.failed).flatMap (· ++ ['\n']) := by
  have hline : "% identified.\n".toList = "% identified.".toList ++ ['\n'] := rfl
  have hfailed : " could not be read.\n".toList = " could not be read.".toList ++ ['\n'] := rfl
  unfold text summaryLines Text.ofNat
  rw [hline, hfailed]
  by_cases h : summary.failed = 0
  · simp [h]
  · simp [h, Nat.pos_of_ne_zero h]

/-- A scan of one path, with the options of another scan. -/
def CommandLine.alone (line : CommandLine) (options : ScanOptions) (path : Path) : CommandLine :=
  { line with command := .identify { options with paths := [path] } }

/-- A report for people consists of what is printed of its files and of the summary. -/
theorem text?_ofResults (results : List ScanResult) (output : OutputSettings)
    (h : output.format = .human) :
    (ScanReport.ofResults results).text? output
      = some ((results.filterMap ScanResult.report?).flatMap (FileReport.printed · output)
        ++ '\n' :: (results.foldl ScanSummary.add .empty).text) := by
  unfold ScanReport.text?
  rw [h]
  rfl

section Scans

variable {σ : Type} [Machine (ReaderM σ)]

/-- A path at which there is no directory stands for itself. -/
theorem collectedIn_singleton (s : σ) (scan : ScanSettings) (path : Path)
    (h : filesBelowIn? s scan path = none) : collectedIn s scan [path] = [path] := by
  unfold collectedIn
  rw [List.flatMap_singleton, h]
  rfl

/-- A scan that begins can be made of each path alone. -/
theorem scanBegins_alone (s : σ) (line : CommandLine) (options : ScanOptions)
    (settings : Settings) (rules : RuleSet) (h : ScanBegins s line options settings rules)
    (path : Path) :
    ScanBegins s (line.alone options path) { options with paths := [path] } settings rules where
  isScan := rfl
  hasSettings := h.hasSettings
  hasRules := h.hasRules
  hasWorkers := h.hasWorkers

/-- What a scan for people prints. -/
theorem resultIn_perform_human (s : σ) (line : CommandLine) (options : ScanOptions)
    (settings : Settings) (rules : RuleSet) (h : ScanBegins s line options settings rules)
    (hformat : settings.output.format = .human) (summary : ScanSummary)
    (hsummary : summary
      = (scanResultsIn s rules options settings).foldl ScanSummary.add .empty) :
    resultIn s line.perform = .ok
      (((collectedIn s settings.scan options.paths).filterMap fun path =>
          (scannedIn? s rules options settings path).map (FileReport.mk path)).flatMap
          (FileReport.printed · settings.output)
        ++ '\n' :: (summaryLines summary.identified summary.read summary.percent
          summary.failed).flatMap (· ++ ['\n'])) := by
  refine resultIn_perform s line options settings rules h _ ?_
  -- In this format the printed reports come first and the summary last.
  rw [text?_ofResults _ _ hformat, ← hsummary, ScanSummary.text_eq]
  unfold scanResultsIn
  rw [List.filterMap_map]
  rfl

/-- A scan for people prints the reports of the files that are identified, in the order
    in which they are collected, and a summary that accounts for all files. Of each of
    these files it prints what a scan of this file alone prints of it. A path that can
    be read has to be no directory. -/
theorem scan_accounts (s : σ) (arguments : List Argument) (line : CommandLine)
    (options : ScanOptions) (settings : Settings) (rules : RuleSet)
    (hline : CommandLine.ofArguments? arguments = some line)
    (hbegins : ScanBegins s line options settings rules)
    (hformat : settings.output.format = .human)
    (hreadable : ∀ path, (contentIn? s path).isSome →
      filesBelowIn? s settings.scan path = none) :
    ∃ (summary : ScanSummary) (percent : Nat),
      summary.Accounts percent ((collectedIn s settings.scan options.paths).map
        (scannedIn? s rules options settings))
      ∧ (CommandLine.run arguments : ReaderM σ Outcome).run s = .success
        (((collectedIn s settings.scan options.paths).filterMap fun path =>
            (scannedIn? s rules options settings path).map (FileReport.mk path)).flatMap
            (FileReport.printed · settings.output)
          ++ '\n' :: (summaryLines summary.identified summary.read percent
            summary.failed).flatMap (· ++ ['\n']))
      ∧ ((CommandLine.run arguments : ReaderM σ Outcome).run s).status = 0
      ∧ ∀ path identification,
        scannedIn? s rules options settings path = some identification →
        resultIn s (line.alone options path).perform = .ok
          (FileReport.printed ⟨path, identification⟩ settings.output
            ++ '\n' :: (if identification.identified then summaryLines 1 1 100 0
              else summaryLines 0 1 0 0).flatMap (· ++ ['\n'])) := by
  have hrun := run_of_perform s arguments line _ hline
    (resultIn_perform_human s line options settings rules hbegins hformat _ rfl)
  have hcounts := ScanSummary.counts_foldl (scanResultsIn s rules options settings) .empty []
    ScanSummary.counts_empty
  rw [List.nil_append, scanResultsIn, List.map_map] at hcounts
  refine ⟨_, _, ScanSummary.accounts_of_counts _ _ hcounts, hrun, ?_, ?_⟩
  · rw [hrun]
    rfl
  · intro path identification hscanned
    have hcontent : (contentIn? s path).isSome := by
      cases hread : contentIn? s path with
      | none =>
          rw [scannedIn?, hread] at hscanned
          exact absurd hscanned (Option.some_ne_none _).symm
      | some content => rfl
    -- The options of a scan do not depend on its paths, so only the files differ.
    have halone := resultIn_perform_human s _ _ settings rules
      (scanBegins_alone s line options settings rules hbegins path) hformat _ rfl
    have hcollected := collectedIn_singleton s settings.scan path (hreadable path hcontent)
    have hsame : scannedIn? s rules { options with paths := [path] } settings path
        = some identification := hscanned
    rw [scanResultsIn, hcollected] at halone
    simp only [List.filterMap_cons, List.filterMap_nil, List.map_cons, List.map_nil,
      List.foldl_cons, List.foldl_nil, hsame, Option.map_some, List.flatMap_singleton] at halone
    rw [halone, ScanSummary.add_empty]
    cases identification.identified with
    | true => rfl
    | false => rfl

end Scans

/-- On a computer in memory, what can be read is a file, and a file is no directory. -/
theorem filesBelowIn?_of_content (computer : Computer) (scan : ScanSettings) (path : Path)
    (h : (contentIn? computer path).isSome) : filesBelowIn? computer scan path = none := by
  have hcontent : contentIn? computer path = (computer.files.at? path).bind Place.content? := rfl
  have hbelow : filesBelowIn? computer scan path = scan.filesBelow? path computer.files := rfl
  rw [hcontent] at h
  rw [hbelow, ScanSettings.filesBelow?]
  -- The place that is found is nothing, a file, or a directory, which has no content.
  cases hplace : computer.files.at? path with
  | none => rfl
  | some place =>
      cases place with
      | file content => rfl
      | directory inside =>
          rw [hplace] at h
          exact absurd h Bool.false_ne_true

/-- A computer with a small database, settings of the user that ask for brief reports, and a
    file of settings that chooses nothing. Of the other files one matches, one does not, and
    one has a count of channels that is no number. -/
def sampleComputer : Computer where
  files := .file (Text.utf8 "db".toList) Database.sampleText.latin1Bytes
    (.file (Text.utf8 "plain".toList) []
      (.directory (Text.utf8 "user".toList)
        (.file (Text.utf8 "config.toml".toList) (Text.utf8 "output.brief = true".toList) .empty)
        (.file (Text.utf8 "ab".toList) [65, 66, 32, 3, 52, 50, 0]
          (.file (Text.utf8 "other".toList) [1, 2]
            (.file (Text.utf8 "bad".toList) [65, 66, 32, 3, 120, 121, 0] .empty)))))
  configDirectory? := some (Text.utf8 "user".toList)
  home? := none
  processors := 2
  mostWorkers := 4

/-- The options of a scan of these files and of one that is missing. -/
def sampleOptions : ScanOptions where
  paths := [Text.utf8 "missing".toList, Text.utf8 "ab".toList, Text.utf8 "bad".toList,
    Text.utf8 "other".toList]
  recursive := false
  brief := false
  format := none
  database := some (Text.utf8 "db".toList)
  stream := false
  hidden := false
  depth := none
  workers := none

/-- The arguments of such a scan. -/
def sampleArguments : List Argument :=
  Text.utf8 "identify".toList :: Text.utf8 "--db".toList :: Text.utf8 "db".toList
    :: sampleOptions.paths

/-- A scan with the user's own settings. -/
def briefLine : CommandLine := ⟨false, none, .identify sampleOptions⟩

/-- A scan with the settings that choose nothing. -/
def fullLine : CommandLine := ⟨false, some (Text.utf8 "plain".toList), .identify sampleOptions⟩

/-- What the user's own settings come to. -/
def briefSettings : Settings := { Settings.default with output := ⟨true, .human⟩ }

theorem scanBegins_brief :
    ScanBegins sampleComputer briefLine sampleOptions briefSettings Database.sampleRules where
  isScan := rfl
  hasSettings := ⟨briefSettings, by decide +kernel, by decide +kernel, by decide +kernel⟩
  hasRules := rfl
  hasWorkers := rfl

theorem scanBegins_full :
    ScanBegins sampleComputer fullLine sampleOptions .default Database.sampleRules where
  isScan := rfl
  hasSettings := ⟨.default, by decide +kernel, by decide +kernel, by decide +kernel⟩
  hasRules := rfl
  hasWorkers := rfl

/-- The arguments that name the settings that choose nothing. -/
def fullArguments : List Argument :=
  Text.utf8 "--config".toList :: Text.utf8 "plain".toList :: sampleArguments

/-- Two files read, one of them identified, and two that failed. -/
theorem accounts_of_counted (summary : ScanSummary) (percent : Nat)
    (identifications : List (Option Identification))
    (h : summary.Accounts percent identifications)
    (hread : identifications.countP Option.isSome = 2)
    (hidentified : (identifications.countP fun identification =>
      identification.any Identification.identified) = 1)
    (hfailed : identifications.countP Option.isNone = 2) :
    summary = ⟨2, 1, 2⟩ ∧ percent = 50 := by
  rcases summary with ⟨read, identified, failed⟩
  obtain rfl : read = 2 := h.read.trans hread
  obtain rfl : identified = 1 := h.identified.trans hidentified
  obtain rfl : failed = 2 := h.failed.trans hfailed
  -- The rate is the last whole percentage that does not exceed one half.
  have hle : percent * 2 ≤ 100 * 1 := h.percent_le
  have hlt : 100 * 1 < (percent + 1) * 2 := h.lt_percent (by decide)
  exact ⟨rfl, by omega⟩

/-- Of four files two are read and one matches. It has the same line on its own. -/
theorem scan_accounts_of_sample :
    (CommandLine.run sampleArguments : ReaderM _ Outcome).run sampleComputer = .success
      ("ab".toList ++ Text.spaces 30 ++ "P \nother".toList ++ Text.spaces 27
        ++ "\n\n1/2\n50% identified.\n2 could not be read.\n".toList)
    ∧ resultIn sampleComputer (briefLine.alone sampleOptions (Text.utf8 "ab".toList)).perform
      = .ok ("ab".toList ++ Text.spaces 30 ++ "P \n\n1/1\n100% identified.\n".toList)
    ∧ (CommandLine.run fullArguments : ReaderM _ Outcome).run sampleComputer = .success
      ("\n>> ab\n".toList ++ Text.spaces 16 ++ "chn=42\n".toList ++ Text.spaces 16
        ++ "comment=P \n".toList ++ Text.spaces 16 ++ "ext=ab\n\n>> other\n".toList
        ++ "\n1/2\n50% identified.\n2 could not be read.\n".toList) := by
  -- The settings come from the user's own file.
  obtain ⟨summary, percent, haccounts, hbrief, -, halone⟩ :=
    scan_accounts sampleComputer sampleArguments briefLine sampleOptions briefSettings
      Database.sampleRules rfl scanBegins_brief rfl (filesBelowIn?_of_content sampleComputer _)
  obtain ⟨rfl, rfl⟩ := accounts_of_counted _ _ _ haccounts rfl rfl rfl
  -- Here a file is named that has no settings, so all of them are the defaults.
  obtain ⟨summary, percent, haccounts, hfull, -, -⟩ :=
    scan_accounts sampleComputer fullArguments fullLine sampleOptions .default
      Database.sampleRules rfl scanBegins_full rfl (filesBelowIn?_of_content sampleComputer _)
  obtain ⟨rfl, rfl⟩ := accounts_of_counted _ _ _ haccounts rfl rfl rfl
  exact ⟨hbrief, halone (Text.utf8 "ab".toList) _ rfl, hfull⟩

end FileSignatures
