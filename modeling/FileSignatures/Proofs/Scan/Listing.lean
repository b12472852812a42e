import FileSignatures.Proofs.Matching.Captured
import FileSignatures.Proofs.Property.Visible
import FileSignatures.Report

/-!
# Listings

A listing is meant to give each property a line of its own, on which the first equals sign
ends the key. Keys have no equals sign, so such lines can be read back. But a listing
writes keys and values as they are, and what a rule captures may hold a line feed, so the
property goes on on a second line. A listing has the lines it should have exactly if there
is no such key or value (`lines_of_listing`), and this can be seen from the description:
line feeds that it does not hold are not in the properties either.

## Main definitions

* `FileReport.entryLine`: The line of a property, without its end.
* `FileReport.HasLineEach`: Every property has a line of its own.
* `FileReport.entryOf?`: The property that a line shows.

## Theorems

* `extraction_of_identify`: Properties come from the description, whatever the source.
* `hasLineEach_iff`: Every property has a line of its own if none holds a line feed.
* `entries_of_hasLineEach`: The lines show the properties.
* `lines_of_listing`: What the listing of an identified resource looks like.
-/

namespace FileSignatures

/-- A computation that succeeds does so in both of its steps. -/
theorem reading_bind_eq_ok {σ α β : Type} (x : Reading σ α) (k : α → Reading σ β) (s u : σ)
    (b : β) (h : (x >>= k) s = .ok b u) : ∃ a t, x s = .ok a t ∧ k a t = .ok b u := by
  cases hrun : x s with
  | ok a t =>
      rw [bind_of_ok x k s t a hrun] at h
      exact ⟨a, t, rfl, h⟩
  | error fault t =>
      rw [bind_of_error x k s t fault hrun] at h
      exact absurd h (by simp only [reduceCtorEq, not_false_eq_true])

/-- Properties are extracted from the description, whatever the rules and the source are. A
    resource that is not identified has none. -/
theorem extraction_of_identify {σ : Type} [ByteSource σ] (rules : RuleSet)
    (evaluator : Evaluator) (source : σ) (result : Identification)
    (h : rules.identifySource evaluator source = .ok result) :
    result = .unidentified ∨ ∃ extraction,
      Extraction.ofDescription evaluator result.description = .ok extraction
      ∧ result.properties = extraction.properties := by
  unfold RuleSet.identifySource at h
  cases hrun : rules.identify evaluator source with
  | error fault t =>
      rw [hrun] at h
      exact absurd h (by simp only [reduceCtorEq, not_false_eq_true])
  | ok found settled =>
      rw [hrun] at h
      rw [← Except.ok.inj h]
      unfold RuleSet.identify at hrun
      obtain ⟨size, s, -, hrun⟩ := reading_bind_eq_ok _ _ _ _ _ hrun
      obtain ⟨best, t, -, hrun⟩ := reading_bind_eq_ok _ _ _ _ _ hrun
      -- Without a winner nothing is extracted, and with one the extraction is the last step.
      cases best with
      | none =>
          left
          injection hrun with hfound
          exact hfound.symm
      | some winner =>
          right
          obtain ⟨added, u, -, hrun⟩ := reading_bind_eq_ok _ _ _ _ _ hrun
          simp only at hrun
          cases hextraction : Extraction.ofDescription evaluator
              (winner.head.description ++ added) with
          | error error =>
              rw [hextraction] at hrun
              exact absurd hrun (by simp [throw, throwThe, MonadExceptOf.throw, EStateM.throw])
          | ok extraction =>
              rw [hextraction] at hrun
              injection hrun with hfound
              rw [← hfound]
              exact ⟨extraction, hextraction, rfl⟩

namespace FileReport

/-- The line of a property, without its end. -/
def entryLine (entry : Text × Text) : Text :=
  indentation ++ entry.1 ++ '=' :: entry.2

/-- A listing consists of an empty line, the line of the path, and one line for every
    property, in the order of the keys. -/
def HasLineEach (report : FileReport) : Prop :=
  Text.pieces '\n' report.listing
    = [] :: (">> ".toList ++ Text.ofUtf8Lossy report.path)
      :: (report.identification.properties.entries.map entryLine ++ [[]])

/-- The property that a line shows: its key ends at the first equals sign. -/
def entryOf? (line : Text) : Option (Text × Text) :=
  Text.cut? '=' (line.drop indentation.length)

theorem newline_mem_entryLine_iff (entry : Text × Text) :
    '\n' ∈ entryLine entry ↔ '\n' ∈ entry.1 ∨ '\n' ∈ entry.2 := by
  have hindentation : '\n' ∉ indentation := by decide
  have hequals : '\n' ≠ '=' := by decide
  simp only [entryLine, List.mem_append, List.mem_cons, hindentation, hequals, false_or]

/-- The lines of the properties of a listing, with the empty piece behind the last one. -/
theorem pieces_propertyLines (entries : List (Text × Text)) :
    Text.pieces '\n' (entries.flatMap propertyLine)
      = entries.flatMap (fun entry => Text.pieces '\n' (entryLine entry)) ++ [[]] := by
  induction entries with
  | nil => rfl
  | cons entry rest ih =>
      have hline : propertyLine entry ++ rest.flatMap propertyLine
          = entryLine entry ++ '\n' :: rest.flatMap propertyLine :=
        List.append_assoc _ _ _
      rw [List.flatMap_cons, List.flatMap_cons, hline, pieces_join, ih, List.append_assoc]

theorem pieces_listing (report : FileReport) (hpath : '\n' ∉ Text.ofUtf8Lossy report.path) :
    Text.pieces '\n' report.listing
      = [] :: (">> ".toList ++ Text.ofUtf8Lossy report.path)
        :: (report.identification.properties.entries.flatMap
          (fun entry => Text.pieces '\n' (entryLine entry)) ++ [[]]) := by
  have hheader : '\n' ∉ ">> ".toList ++ Text.ofUtf8Lossy report.path := by
    have hmark : '\n' ∉ ">> ".toList := by decide
    simp only [List.mem_append, hmark, hpath, or_self, not_false_eq_true]
  -- A line feed in front, one behind the path, and one behind every property.
  have hlisting : report.listing = [] ++ '\n' :: ((">> ".toList ++ Text.ofUtf8Lossy report.path)
      ++ '\n' :: report.identification.properties.entries.flatMap propertyLine) := by
    unfold listing
    simp
  rw [hlisting, pieces_append_separator '\n' [] _ List.not_mem_nil,
    pieces_append_separator '\n' _ _ hheader, pieces_propertyLines]

/-- Every property has a line of its own if and only if none holds a line feed. -/
theorem hasLineEach_iff (report : FileReport) (hpath : '\n' ∉ Text.ofUtf8Lossy report.path) :
    report.HasLineEach ↔ ∀ entry ∈ report.identification.properties.entries,
      '\n' ∉ entry.1 ∧ '\n' ∉ entry.2 := by
  constructor
  · intro hlines entry hentry
    -- No line holds a line feed, and the property is on one of them.
    have hmem : entryLine entry ∈ Text.pieces '\n' report.listing := by
      rw [hlines]
      exact List.mem_cons_of_mem _ (List.mem_cons_of_mem _
        (List.mem_append_left _ (List.mem_map_of_mem hentry)))
    have hfree := separator_notMem_of_mem_pieces '\n' _ _ hmem
    rw [newline_mem_entryLine_iff] at hfree
    exact not_or.1 hfree
  · intro hfree
    have hsingle : ∀ entry ∈ report.identification.properties.entries,
        Text.pieces '\n' (entryLine entry) = [entryLine entry] := by
      intro entry hentry
      refine pieces_eq_singleton '\n' _ fun hmem => ?_
      rcases (newline_mem_entryLine_iff entry).1 hmem with hkey | hvalue
      · exact (hfree entry hentry).1 hkey
      · exact (hfree entry hentry).2 hvalue
    unfold HasLineEach
    rw [pieces_listing report hpath, List.flatMap_congr hsingle, ← List.map_eq_flatMap]

/-- A line shows the property that it was written for if there is no equals sign in the
    key. -/
theorem entryOf?_entryLine (entry : Text × Text) (h : '=' ∉ entry.1) :
    entryOf? (entryLine entry) = some entry := by
  unfold entryOf? entryLine
  rw [List.append_assoc, List.drop_left, cut?_append '=' entry.1 entry.2 h]

/-- The lines behind that of the path show the properties. -/
theorem entries_of_hasLineEach (report : FileReport) (h : report.HasLineEach)
    (hkeys : ∀ entry ∈ report.identification.properties.entries, '=' ∉ entry.1) :
    ((Text.pieces '\n' report.listing).drop 2).filterMap entryOf?
      = report.identification.properties.entries := by
  have hlast : entryOf? [] = none := rfl
  rw [h, List.drop_succ_cons, List.drop_succ_cons, List.drop_zero, List.filterMap_append,
    List.filterMap_cons_none hlast, List.filterMap_nil, List.append_nil, List.filterMap_map]
  have hsome : ∀ entry ∈ report.identification.properties.entries,
      (entryOf? ∘ entryLine) entry = some entry := fun entry hentry =>
    entryOf?_entryLine entry (hkeys entry hentry)
  rw [List.filterMap_congr hsome, List.filterMap_some]

end FileReport

/-- What the listing of an identified resource looks like. It has an empty line, the line
    of the path, and one line for every property if and only if no key and no value holds
    a line feed, for which it is enough that the description holds none. The properties
    can then be read back from their lines. -/
theorem lines_of_listing {σ : Type} [ByteSource σ] (rules : RuleSet) (evaluator : Evaluator)
    (source : σ) (result : Identification) (path : Path)
    (hrun : rules.identifySource evaluator source = .ok result)
    (hpath : '\n' ∉ Text.ofUtf8Lossy path) :
    (FileReport.HasLineEach ⟨path, result⟩ ↔
      ∀ entry ∈ result.properties.entries, '\n' ∉ entry.1 ∧ '\n' ∉ entry.2)
    ∧ ('\n' ∉ result.description → FileReport.HasLineEach ⟨path, result⟩)
    ∧ (FileReport.HasLineEach ⟨path, result⟩ →
      ((Text.pieces '\n' (FileReport.listing ⟨path, result⟩)).drop 2).filterMap
        FileReport.entryOf? = result.properties.entries) := by
  have hlines := FileReport.hasLineEach_iff ⟨path, result⟩ hpath
  -- What holds of everything that is extracted holds of nothing as well.
  have hextracted : (∀ entry ∈ result.properties.entries, '=' ∉ entry.1)
      ∧ ('\n' ∉ result.description →
        ∀ entry ∈ result.properties.entries, '\n' ∉ entry.1 ∧ '\n' ∉ entry.2) := by
    rcases extraction_of_identify rules evaluator source result hrun with
      rfl | ⟨extraction, hextraction, hproperties⟩
    · exact ⟨fun entry hentry => absurd hentry List.not_mem_nil,
        fun _ entry hentry => absurd hentry List.not_mem_nil⟩
    · rw [hproperties]
      refine ⟨fun entry hentry hequals => ?_, fun hdescription entry hentry => ?_⟩
      · have hclean := isClean_of_ofDescription evaluator _ extraction hextraction entry.1
          (List.mem_map_of_mem hentry)
        exact hclean.characters _ hequals (by decide)
      · obtain ⟨hkey, hvalue⟩ := mem_of_mem_entry evaluator _ extraction '\n' (by decide)
          hextraction entry hentry
        exact ⟨fun hmem => hdescription (hkey hmem), fun hmem => hdescription (hvalue hmem)⟩
  exact ⟨hlines, fun hdescription => hlines.2 (hextracted.2 hdescription),
    fun heach => FileReport.entries_of_hasLineEach ⟨path, result⟩ heach hextracted.1⟩

open Database

/-- A title without a line feed. -/
theorem lines_of_listing_titled : ∃ result,
    RuleSet.identifySource ⟨[titledSignature]⟩ .arithmetic
        (SeekableSource.ofBytes #[65, 66, 32, 104, 105, 0]) = .ok result
      ∧ FileReport.HasLineEach ⟨Text.utf8 "ab".toList, result⟩
      ∧ result.properties.get? PropertyKey.title = some "hi".toList := by
  have hrun : ∃ result, RuleSet.identifySource ⟨[titledSignature]⟩ .arithmetic
      (SeekableSource.ofBytes #[65, 66, 32, 104, 105, 0]) = .ok result
        ∧ '\n' ∉ result.description
        ∧ result.properties.get? PropertyKey.title = some "hi".toList :=
    ⟨_, rfl, by decide +kernel, by decide +kernel⟩
  -- The run and what it reports are computed; the theorem speaks of the listing.
  obtain ⟨result, hresult, hdescription, htitle⟩ := hrun
  have hlines := lines_of_listing ⟨[titledSignature]⟩ .arithmetic
    (SeekableSource.ofBytes #[65, 66, 32, 104, 105, 0]) result (Text.utf8 "ab".toList) hresult
    (by decide +kernel)
  exact ⟨result, hresult, hlines.2.1 hdescription, htitle⟩

/-- A title with a line feed is listed on two lines. -/
theorem not_hasLineEach_titled : ∃ result,
    RuleSet.ofText titledText = .ok ⟨[titledSignature]⟩
      ∧ RuleSet.identifyBytes ⟨[titledSignature]⟩ .arithmetic #[65, 66, 97, 10, 98, 0]
        = .ok result
      ∧ result.properties.get? PropertyKey.title = some "a\nb".toList
      ∧ ¬ FileReport.HasLineEach ⟨Text.utf8 "ab".toList, result⟩ := by
  refine ⟨_, ofText_titledText, rfl, by decide +kernel, ?_⟩
  unfold FileReport.HasLineEach
  decide +kernel

end FileSignatures
