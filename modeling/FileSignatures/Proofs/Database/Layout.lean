import FileSignatures.Proofs.Database.Renumbering
import Mathlib.Logic.Relation

/-!
# The layout of a database

How a database is laid out does not matter. Empty lines and comments come and go, fields
may be set apart by any number of tabs, more tabs and more fields may stand where no
field counts any longer, and line ends may have carriage returns. Whatever is done of
this, and in whatever order, the text still is a database, and its rules are the same
except for the numbers of their lines (`ofText_of_relaid`).

The argument does not follow a number through an edit, which would move it up and down.
It goes by what the rule lines say (`Database.statements`), in which no number occurs. An
edit leaves that as it is (`statements_of_relaying`), so a run of edits does, and two
databases that say the same differ in the numbers only (`exists_ofText_of_says`).

## Main definitions

* `Database.Respaced`: A line with other tabs, or with fields that do not count.
* `Database.Exchange`, `Database.Relaying`: One edit of the layout of a text.
* `Database.parts`: What stands between the tabs of a line.
* `Database.statements`: What the rule lines of a text say.

## Theorems

* `parts_join`, `parts_tabs`: Fields are found on both sides of any run of tabs.
* `ruleOf_of_respaced`: A respaced line denotes the same rule.
* `statements_of_relaying`, `statements_of_relayings`: Edits change no statement.
* `ofText_of_relaid`: Layout does not matter.
-/

namespace FileSignatures

namespace Database

/-- A line with other tabs, or with fields that do not count: a run of tabs is replaced by
    another one, tabs are appended to a rule line, or anything more is appended behind a
    tab to a line that has four fields already. -/
inductive Respaced : Text → Text → Prop
  | run (start stop : Text) (old new : Nat) :
      Respaced (start ++ List.replicate (old + 1) '\t' ++ stop)
        (start ++ List.replicate (new + 1) '\t' ++ stop)
  | trailing (line : Text) (count : Nat) (hline : isRuleLine line = true) :
      Respaced line (line ++ List.replicate count '\t')
  | further (line more : Text) (found : List Text) (hfields : fields line = .ok found)
      (hfour : 4 ≤ found.length) : Respaced line (line ++ '\t' :: more)

/-- What an edit makes of the lines in one place: a line that does not count is inserted or
    deleted, or a line is respaced. -/
inductive Exchange : List Text → List Text → Prop
  | insert (line : Text) (hline : line = [] ∨ line.head? = some '#') : Exchange [] [line]
  | delete (line : Text) (hline : line = [] ∨ line.head? = some '#') : Exchange [line] []
  | respace (line other : Text) (hline : Respaced line other) : Exchange [line] [other]

/-- One edit of the layout of a text: behind the header lines are exchanged in one place, or
    all line ends of a text without carriage returns get one. -/
inductive Relaying (text : Text) : Text → Prop
  | lines (edited : Text) (before old new after : List Text) (hheader : 3 ≤ before.length)
      (hchange : Exchange old new) (htext : text.lines = before ++ (old ++ after))
      (hedited : edited.lines = before ++ (new ++ after)) : Relaying text edited
  | returns (hreturn : '\r' ∉ text) : Relaying text text.withReturns

/-- What stands between the tabs of a line, these being the fields if there are enough. -/
def parts (line : Text) : List Text :=
  (Text.pieces '\t' line).filter fun part => !part.isEmpty

/-- What the lines of a text say, those of them that are rules, one after the other. -/
def statements (text : Text) : List (Except LineError (LineKind × Rule)) :=
  ((text.lines.drop 3).filter isRuleLine).map (ruleOf 0)

/-- A tab sets apart what stands before it and what stands behind it. -/
theorem parts_join (start stop : Text) :
    parts (start ++ '\t' :: stop) = parts start ++ parts stop :=
  Text.parts_join '\t' start stop

/-- Tabs in front hold no field, however many they are. -/
theorem parts_tabs (count : Nat) (stop : Text) :
    parts (List.replicate count '\t' ++ stop) = parts stop := by
  -- Each tab sets apart an empty piece, which is no field.
  induction count with
  | zero => rfl
  | succ count ih =>
      rw [List.replicate_succ, List.cons_append, ← List.nil_append ('\t' :: _), parts_join, ih]
      rfl

theorem parts_run (start stop : Text) (count : Nat) :
    parts (start ++ List.replicate (count + 1) '\t' ++ stop) = parts start ++ parts stop := by
  rw [List.append_assoc, List.replicate_succ, List.cons_append, parts_join, parts_tabs]

/-- Only the first character and the parts of a line decide about its fields. -/
theorem fields_congr (line other : Text) (hhead : other.head? = line.head?)
    (hparts : parts other = parts line) : fields other = fields line := by
  unfold parts at hparts
  unfold fields
  rw [hhead, hparts]

/-- Only the first character decides whether a line is a rule. -/
theorem isRuleLine_congr (line other : Text) (hhead : other.head? = line.head?) :
    isRuleLine other = isRuleLine line := by
  have hempty : other.isEmpty = line.isEmpty := by
    rw [Bool.eq_iff_iff, List.isEmpty_iff, List.isEmpty_iff, ← List.head?_eq_none_iff,
      ← List.head?_eq_none_iff, hhead]
  unfold isRuleLine
  rw [hhead, hempty]

theorem ne_nil_of_fields (line : Text) (found : List Text) (h : fields line = .ok found) :
    line ≠ [] := by
  rintro rfl
  exact absurd h (by simp only [fields, Text.pieces, List.head?_nil, reduceCtorEq, if_false,
    List.filter_cons, List.isEmpty_nil, Bool.not_true, Bool.false_eq_true, List.filter_nil,
    List.length_nil, Nat.zero_lt_succ, if_true, not_false_eq_true])

/-- A respaced line begins as it did. -/
theorem head?_of_respaced (line other : Text) (h : Respaced line other) :
    other.head? = line.head? := by
  cases h with
  | run start stop old new =>
      cases start with
      | nil => rfl
      | cons c rest => rfl
  | trailing _ count hline =>
      exact List.head?_append_of_ne_nil line ((isRuleLine_iff line).1 hline).1
  | further _ more found hfields hfour =>
      exact List.head?_append_of_ne_nil line (ne_nil_of_fields line found hfields)

theorem ruleOf_of_respaced (number : Nat) (line other : Text) (h : Respaced line other) :
    ruleOf number other = ruleOf number line := by
  have hhead := head?_of_respaced line other h
  cases h with
  | run start stop old new =>
      -- Both runs have at least one tab, so they set apart the same fields.
      have hfields := fields_congr _ _ hhead (by rw [parts_run, parts_run])
      unfold ruleOf
      rw [hfields]
  | trailing _ count hline =>
      have htabs : parts (line ++ List.replicate count '\t') = parts line := by
        cases count with
        | zero => rw [List.replicate_zero, List.append_nil]
        | succ count =>
            rw [← List.append_nil (line ++ _), parts_run]
            exact List.append_nil _
      unfold ruleOf
      rw [fields_congr _ _ hhead htabs]
  | further _ more found hfields hfour =>
      -- The line gets more fields, but the first four, which alone count, are its own.
      rcases (fields_eq_ok_iff line found).1 hfields with ⟨htab, hthree, hfound⟩
      have hmore : fields (line ++ '\t' :: more) = .ok (found ++ parts more) := by
        refine (fields_eq_ok_iff _ _).2 ⟨by rw [hhead]; exact htab, ?_, ?_⟩
        · rw [List.length_append]
          omega
        · have hjoin := parts_join line more
          unfold parts at hjoin
          rw [hjoin, hfound]
          rfl
      match found, hfour with
      | offset :: type :: comparison :: description :: others, _ =>
          unfold ruleOf
          rw [hfields, hmore]
          rfl

/-- A line that is empty or a comment is no rule. -/
theorem not_isRuleLine (line : Text) (hline : line = [] ∨ line.head? = some '#') :
    ¬ isRuleLine line = true := by
  intro hrule
  rcases (isRuleLine_iff line).1 hrule with ⟨hempty, hcomment⟩
  rcases hline with h | h
  · exact hempty h
  · exact hcomment h

/-- Lines that are exchanged say the same. -/
theorem statements_of_exchange (old new : List Text) (h : Exchange old new) :
    (new.filter isRuleLine).map (ruleOf 0) = (old.filter isRuleLine).map (ruleOf 0) := by
  cases h with
  | insert line hline =>
      rw [List.filter_cons_of_neg (not_isRuleLine line hline)]
  | delete line hline =>
      rw [List.filter_cons_of_neg (not_isRuleLine line hline)]
  | respace line other hline =>
      -- Whether the line is a rule at all is the same as before.
      have hkept := isRuleLine_congr line other (head?_of_respaced line other hline)
      rw [List.filter_cons, List.filter_cons, hkept]
      split
      · rw [List.filter_nil, List.map_singleton, List.map_singleton,
          ruleOf_of_respaced 0 line other hline]
      · rfl

/-- An edit changes nothing that the rule lines say. -/
theorem statements_of_relaying (text edited : Text) (h : Relaying text edited) :
    statements edited = statements text := by
  unfold statements
  cases h with
  | lines _ before old new after hheader hchange htext hedited =>
      rw [htext, hedited, List.drop_append_of_le_length hheader,
        List.drop_append_of_le_length hheader]
      simp only [List.filter_append, List.map_append, statements_of_exchange old new hchange]
  | returns hreturn =>
      rw [lines_withReturns text hreturn]

/-- An edit leaves the first three lines as they are. -/
theorem take_of_relaying (text edited : Text) (h : Relaying text edited) :
    edited.lines.take 3 = text.lines.take 3 := by
  cases h with
  | lines _ before old new after hheader hchange htext hedited =>
      rw [htext, hedited, List.take_append_of_le_length hheader,
        List.take_append_of_le_length hheader]
  | returns hreturn =>
      rw [lines_withReturns text hreturn]

/-- Whether a text has a header is decided by its first three lines. -/
theorem hasHeader_of_take (text other : Text) (htake : other.lines.take 3 = text.lines.take 3)
    (h : HasHeader text) : HasHeader other := by
  rcases h with ⟨date, source, rest, htext⟩
  refine ⟨date, source, other.lines.drop 3, ?_⟩
  rw [← List.take_append_drop 3 other.lines, htake, htext]
  rfl

/-- However often a text is edited, its header stays a header, and its rule lines say what
    they said. -/
theorem statements_of_relayings (text edited : Text)
    (hedits : Relation.ReflTransGen Relaying text edited) (h : HasHeader text) :
    HasHeader edited ∧ statements edited = statements text := by
  -- The last edit finds a header and the statements as the edits before it have left them.
  induction hedits with
  | refl => exact ⟨h, rfl⟩
  | tail _ hlast ih =>
      exact ⟨hasHeader_of_take _ _ (take_of_relaying _ _ hlast) ih.1,
        (statements_of_relaying _ _ hlast).trans ih.2⟩

/-- The statements of a text are certain rules if its rule lines say these. -/
theorem statements_eq_map_iff (text : Text) (plain : List (LineKind × Rule)) :
    statements text = plain.map Except.ok
      ↔ List.Forall₂ Says ((text.lines.drop 3).filter isRuleLine) plain := by
  unfold statements
  rw [← List.forall₂_eq_eq_eq, List.forall₂_map_left_iff, List.forall₂_map_right_iff]
  rfl

end Database

open Database

/-- Layout does not matter. A database that has been edited in its layout, in any ways and
    any number of times, is read like before, but for the numbers of its rules, which stay
    in order. -/
theorem ofText_of_relaid (text edited : Text) (rules : RuleSet)
    (hedits : Relation.ReflTransGen Relaying text edited) (h : RuleSet.ofText text = .ok rules) :
    ∃ number, StrictMonoOn number rules.lineNumbers
      ∧ RuleSet.ofText edited = .ok (rules.renumber number) := by
  rcases (ofText_eq_ok_iff text rules).1 h with ⟨hheader, hdenotes⟩
  rcases statements_of_relayings text edited hedits hheader with ⟨hheader', hsame⟩
  have hsaid := says_of_denotes 4 _ _ hdenotes
  -- What the database says, the edited text says as well.
  rw [← statements_eq_map_iff, ← hsame, statements_eq_map_iff] at hsaid
  exact exists_ofText_of_says text edited rules h hheader' hsaid

namespace Database

/-- A header with some lines below it. -/
def withHeader (lines : List String) : Text :=
  ("# FILE_ID DB" :: "# Date:" :: "# Source:" :: lines).flatMap fun line => line.toList ++ ['\n']

/-- A database of three rules, in one of which two tabs come in a row, and an empty line. -/
def looseText : Text :=
  withHeader ["0\tbyte\tx\tone", "&1\t\tstring\t>A\t[v=%.5s]", ">2\tbyte\tx", ""]

/-- The same rules below a comment and without the empty line, with other tabs, more fields
    and carriage returns. -/
def relaidText : Text :=
  (withHeader ["#\t&", "0\tbyte\tx\tone\tmore\t\tyet", "&1\tstring\t>A\t[v=%.5s]",
    ">2\tbyte\tx\t\t"]).withReturns

/-- The one is turned into the other by edits of all kinds. -/
theorem relayings_looseText : Relation.ReflTransGen Relaying looseText relaidText := by
  refine .head (.lines (withHeader ["#\t&", "0\tbyte\tx\tone", "&1\t\tstring\t>A\t[v=%.5s]",
    ">2\tbyte\tx", ""]) (looseText.lines.take 3) _ _ (looseText.lines.drop 3) (by decide)
    (.insert "#\t&".toList (Or.inr rfl)) (by decide) (by decide)) ?_
  -- The two tabs are the ones before the type of the continuation.
  refine .head (.lines (withHeader ["#\t&", "0\tbyte\tx\tone", "&1\tstring\t>A\t[v=%.5s]",
    ">2\tbyte\tx", ""]) (withHeader ["#\t&", "0\tbyte\tx\tone"]).lines _ _
    (looseText.lines.drop 5) (by decide)
    (.respace _ _ (.run "&1".toList "string\t>A\t[v=%.5s]".toList 1 0)) (by decide)
    (by decide)) ?_
  refine .head (.lines (withHeader ["#\t&", "0\tbyte\tx\tone\tmore\t\tyet",
    "&1\tstring\t>A\t[v=%.5s]", ">2\tbyte\tx", ""]) (withHeader ["#\t&"]).lines _ _
    ["&1\tstring\t>A\t[v=%.5s]".toList, ">2\tbyte\tx".toList, []] (by decide)
    (.respace _ _ (.further "0\tbyte\tx\tone".toList "more\t\tyet".toList _ rfl (by decide)))
    (by decide) (by decide)) ?_
  refine .head (.lines (withHeader ["#\t&", "0\tbyte\tx\tone\tmore\t\tyet",
    "&1\tstring\t>A\t[v=%.5s]", ">2\tbyte\tx\t\t", ""]) (withHeader ["#\t&",
    "0\tbyte\tx\tone\tmore\t\tyet", "&1\tstring\t>A\t[v=%.5s]"]).lines _ _ [[]] (by decide)
    (.respace _ _ (.trailing ">2\tbyte\tx".toList 2 (by decide))) (by decide) (by decide)) ?_
  refine .head (.lines (withHeader ["#\t&", "0\tbyte\tx\tone\tmore\t\tyet",
    "&1\tstring\t>A\t[v=%.5s]", ">2\tbyte\tx\t\t"]) (withHeader ["#\t&",
    "0\tbyte\tx\tone\tmore\t\tyet", "&1\tstring\t>A\t[v=%.5s]", ">2\tbyte\tx\t\t"]).lines
    _ _ [] (by decide) (.delete [] (Or.inl rfl)) (by decide) (by decide)) ?_
  exact .single (.returns (by decide))

/-- The rules of the first text, on the lines from the fourth on. -/
def looseRules : RuleSet where
  signatures := [{
    head := ⟨4, .direct 0, .byte, Value.fullMask, .any, .number 0, "one".toList, none, 1⟩
    continuations := [⟨5, .direct 1, .string, Value.fullMask, .greater, .bytes [65],
      "[v=%.5s]".toList, some 5, 1⟩]
    extras := [⟨6, .direct 2, .byte, Value.fullMask, .any, .number 0, [], none, 1⟩] }]

end Database

/-- One comment more above the rules puts each of them on the next line, and nothing else
    changes. -/
theorem ofText_of_relaidText : RuleSet.ofText looseText = .ok looseRules
    ∧ ∃ number, StrictMonoOn number looseRules.lineNumbers
      ∧ RuleSet.ofText relaidText = .ok (looseRules.renumber number) :=
  ⟨rfl, ofText_of_relaid looseText relaidText looseRules relayings_looseText rfl⟩

end FileSignatures
