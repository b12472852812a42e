import FileSignatures.Database.Builtin
import FileSignatures.Proofs.Matching.Harmless

/-!
# When the built-in database fails

Every signature of the built-in database but one passes, so identification with it
fails for at most one reason. The exception is the tag that MP3 files carry in
their last 128 bytes. Its title and its creator are up to thirty bytes of the
resource each, and they end up in the description as they are. Separators,
brackets and equals signs among them are read like those of the database, so a
title can spell a property, and a numeric one that the evaluator rejects.

This is also the only way to fail: `builtin_identifyBytes_fails_iff` says so of
all bytes. Whether a title does it, is decided on the text of the description
alone.

## Main definitions

* `Database.tagSignature`: The signature of the tag, as it is read from the
  database.
* `Database.tagField`: A field of the tag.
* `Database.tagDescription`: The description of a resource with a tag.

## Theorems

* `builtin_passes`: All other signatures pass.
* `contributes_tagSignature`: What title and creator add.
* `builtin_identifyBytes_fails_iff`: When the built-in database fails.
* `builtin_identifyBytes_fails`: A title that makes it fail.
-/

namespace FileSignatures

namespace Database

/-- The signature of the tag at the end of MP3 files. -/
def tagSignature : Signature where
  head := ⟨46, .direct (-128), .string, Value.fullMask, .equal, .bytes [84, 65, 71],
    "MP3 audio with ID3 version 1 tag [ext=mp3;mime=audio/mpeg]".toList, none, 3⟩
  continuations := []
  extras := [
    ⟨47, .direct (-125), .string, Value.fullMask, .any,
      .bytes (List.replicate Template.defaultCapture 0), "[title=%.30s]".toList, some 30, 0⟩,
    ⟨48, .direct (-95), .string, Value.fullMask, .any,
      .bytes (List.replicate Template.defaultCapture 0), "[creator=%.30s]".toList, some 30, 0⟩]

/-- The field of thirty bytes that begins so many bytes before the end, up to its
    first zero byte. -/
def tagField (d : List UInt8) (distance : Nat) : Text :=
  Text.ofLatin1 (((d.drop (d.length - distance)).take 30).takeWhile (· ≠ 0))

/-- The description of a resource with a tag. -/
def tagDescription (d : List UInt8) : Text :=
  "MP3 audio with ID3 version 1 tag [ext=mp3;mime=audio/mpeg]".toList
    ++ ("[title=".toList ++ (tagField d 125 ++ [']'])
      ++ ("[creator=".toList ++ (tagField d 95 ++ [']'])))

/-- Whether a database can be read and all of its signatures but the tag pass. -/
def passesButTag (text : Text) : Bool :=
  match RuleSet.ofText text with
  | .error _ => false
  | .ok rules =>
    rules.signatures.all fun signature => signature.passes || signature = tagSignature

end Database

/-- All signatures of the built-in database but the tag pass. This is computed, on
    the characters of its text. -/
theorem passesButTag_builtinText : Database.passesButTag Database.builtinText = true := by
  simp only [Database.builtinText, Database.builtinLines, List.flatMap_cons, List.flatMap_nil,
    String.toList_append]
  repeat rw [String.toList_ofList]
  decide +kernel

/-- What the computation says, of any text. -/
theorem of_passesButTag (text : Text) (h : Database.passesButTag text = true) :
    ∃ rules, RuleSet.ofText text = .ok rules ∧ ∀ signature ∈ rules.signatures,
      signature.passes = true ∨ signature = Database.tagSignature := by
  unfold Database.passesButTag at h
  split at h
  · exact absurd h Bool.false_ne_true
  · rename_i rules hparse
    refine ⟨rules, hparse, fun signature hmem => ?_⟩
    have hsignature := List.all_eq_true.1 h signature hmem
    rw [Bool.or_eq_true, decide_eq_true_eq] at hsignature
    exact hsignature

/-- The built-in database can be read, and all of its signatures but the tag
    pass. -/
theorem builtin_passes : ∃ rules, RuleSet.builtin = .ok rules
    ∧ ∀ signature ∈ rules.signatures,
      signature.passes = true ∨ signature = Database.tagSignature :=
  of_passesButTag Database.builtinText passesButTag_builtinText

/-- A field of the tag is not cut off by the conversion that writes it. -/
theorem take_tagField (d : List UInt8) (distance : Nat) :
    (Database.tagField d distance).take 30 = Database.tagField d distance := by
  refine List.take_of_length_le ?_
  have hle := (List.takeWhile_prefix (· ≠ (0 : UInt8))
    (l := (d.drop (d.length - distance)).take 30)).length_le
  have htake := List.length_take_le 30 (d.drop (d.length - distance))
  unfold Database.tagField Text.ofLatin1
  rw [List.length_map]
  omega

/-- A rule that captures thirty bytes at a distance from the end holds with them,
    up to their first zero byte. -/
theorem holds_of_distance (d : List UInt8) (rule : Rule) (base : Int64) (distance : Nat)
    (hoffset : rule.offset = .direct base) (hbase : base.toInt = -(distance : Int))
    (htype : rule.type = .string) (hoperator : rule.operator = .any)
    (hcapture : rule.capture = some 30) (hlow : 30 ≤ distance) (hhigh : distance ≤ d.length) :
    ∃ content, rule.HoldsWith d (.bytes content)
      ∧ Value.display (.bytes content) = Database.tagField d distance := by
  have hrest : (d.drop (d.length - distance)).length = distance := by
    rw [List.length_drop]
    omega
  -- At least thirty bytes are left from there, so the capture ends in any case.
  obtain ⟨bytes, hfront, hzero⟩ := (exists_upToZero_iff 30 (d.drop (d.length - distance))).2
    (Or.inr (by omega))
  have hstring : rule.type.isNumeric = false := by rw [htype]; rfl
  have hreads := (reads_of_capture_iff d rule (d.length - distance) 30 bytes (by omega) hstring
    (Or.inl hoperator) hcapture).2 ⟨hfront, hzero⟩
  refine ⟨bytes, ⟨d.length - distance, bytes, ?_, hreads, ?_, ?_⟩, ?_⟩
  · rw [hoffset]
    refine .direct base _ ⟨by omega, ?_⟩
    rw [if_neg (by omega), hbase]
    omega
  · rw [valueOf_of_string rule _ hstring, htype]
    rfl
  · rw [hoperator]
    exact .any _ _
  · unfold Value.display Database.tagField
    simp only [takeWhile_of_upToZero 30 _ bytes hfront hzero]

/-- A resource with a tag is long enough for all of it. -/
theorem length_of_candidate_tagSignature (d : List UInt8)
    (h : Database.tagSignature.Candidate d) : 128 ≤ d.length := by
  rcases h Database.tagSignature.head List.mem_cons_self with ⟨value, start, bytes, hleads, -⟩
  cases hleads with
  | direct base _ hbase =>
      have hposition := hbase.2
      have hnegative : (-128 : Int64).toInt = -128 := by decide
      rw [hnegative, if_neg (by omega)] at hposition
      omega

/-- Title and creator of a tag always add their fields. -/
theorem contributes_tagSignature (d : List UInt8) (h : 128 ≤ d.length) :
    Contributes d Database.tagSignature.extras
      ("[title=".toList ++ (Database.tagField d 125 ++ [']'])
        ++ ("[creator=".toList ++ (Database.tagField d 95 ++ [']']))) := by
  -- The two templates differ in the name of the field only.
  have hfill : ∀ (template before : Text) (content : List UInt8) (distance : Nat),
      Template.segments template = before.map .literal
        ++ .conversion (boundedConversion 30) "%.30".toList 's' :: [']'].map .literal →
      Value.display (.bytes content) = Database.tagField d distance →
      Template.fill template (.bytes content)
        = before ++ (Database.tagField d distance ++ [']']) := by
    intro template before content distance hsegments hdisplay
    rw [fill_of_segments template before [']'] _ _ _ _ hsegments, fill_boundedConversion, hdisplay,
      take_tagField]
  -- The rules of lines 47 and 48, at 125 and 95 bytes before the end.
  rcases holds_of_distance d ⟨47, .direct (-125), .string, Value.fullMask, .any,
      .bytes (List.replicate Template.defaultCapture 0), "[title=%.30s]".toList, some 30, 0⟩
    (-125) 125 rfl (by decide) rfl rfl rfl (by omega) (by omega) with ⟨title, htitle, htitleText⟩
  rcases holds_of_distance d ⟨48, .direct (-95), .string, Value.fullMask, .any,
      .bytes (List.replicate Template.defaultCapture 0), "[creator=%.30s]".toList, some 30, 0⟩
    (-95) 95 rfl (by decide) rfl rfl rfl (by omega) (by omega) with
    ⟨creator, hcreator, hcreatorText⟩
  have htitleFill := hfill "[title=%.30s]".toList "[title=".toList title 125 (by decide)
    htitleText
  have hcreatorFill := hfill "[creator=%.30s]".toList "[creator=".toList creator 95
    (by decide) hcreatorText
  rw [← htitleFill, ← hcreatorFill]
  have hend := Contributes.holds _ [] _ [] hcreator .nil
  rw [List.append_nil] at hend
  exact .holds _ _ _ _ htitle hend

/-- A resource in which the tag wins has the description of its tag. -/
theorem description_of_tagSignature (d : List UInt8) (added : Text)
    (hrules : ∀ rule ∈ Database.tagSignature.rules, rule.WellFormed)
    (hcandidate : Database.tagSignature.Candidate d)
    (hadded : Contributes d Database.tagSignature.extras added) :
    Database.tagSignature.head.description ++ added = Database.tagDescription d := by
  -- The added text is determined, and title and creator always hold.
  have hextras := ((Signature.forall_rules_iff _ Database.tagSignature).1 hrules).2.2
  have hfields := contributes_tagSignature d (length_of_candidate_tagSignature d hcandidate)
  rw [contributes_unique d Database.tagSignature.extras hextras added _ hadded hfields]
  rfl

/-- Identification with the built-in database can only be rejected by the
    description of a tag. -/
theorem tag_of_rejected (d : List UInt8) (rules : RuleSet) (winner : Signature) (added : Text)
    (error : BadNumber) (hrules : rules.WellFormed)
    (hpasses : ∀ signature ∈ rules.signatures,
      signature.passes = true ∨ signature = Database.tagSignature)
    (hwinner : Signature.FirstLongest (Signature.Candidate d) rules.signatures winner)
    (hadded : Contributes d winner.extras added)
    (hextraction : Extraction.ofDescription .arithmetic (winner.head.description ++ added)
      = .error error) :
    winner = Database.tagSignature ∧ ∃ token ∈ Description.tokens (Database.tagDescription d),
      Property.rejection? .arithmetic token = some error := by
  have ⟨hsignature, hcandidate⟩ := mem_and_of_firstLongest _ _ winner hwinner
  rcases hpasses winner hsignature with hpass | rfl
  · -- No signature that passes can be the one that was rejected.
    exact absurd hextraction (not_error_of_passes d winner added hpass hadded error)
  · rw [description_of_tagSignature d added (hrules _ hsignature) hcandidate hadded,
      ofDescription_eq_error_iff] at hextraction
    exact ⟨rfl, List.exists_of_findSome?_eq_some hextraction⟩

/-- A rejected token among those of the tag makes extraction fail, with the first
    of them. -/
theorem exists_error_of_rejected (description : Text) (token : Text) (error : BadNumber)
    (htoken : token ∈ Description.tokens description)
    (hrejected : Property.rejection? .arithmetic token = some error) :
    ∃ first, Extraction.ofDescription .arithmetic description = .error first := by
  cases hfirst : (Description.tokens description).findSome? (Property.rejection? .arithmetic) with
  | none =>
      -- The token itself would have been found.
      have hnone := List.findSome?_eq_none_iff.1 hfirst token htoken
      rw [hrejected] at hnone
      exact absurd hnone (by simp only [reduceCtorEq, not_false_eq_true])
  | some first => exact ⟨first, (ofDescription_eq_error_iff .arithmetic description first).2 hfirst⟩

/-- With the built-in database identification fails exactly if the tag wins and a
    token of its description names a numeric property whose value is rejected. -/
theorem builtin_identifyBytes_fails_iff (d : Array UInt8) :
    ∃ rules, RuleSet.builtin = .ok rules ∧
      ((∃ fault, rules.identifyBytes .arithmetic d = .error fault) ↔
        Signature.FirstLongest (Signature.Candidate d.toList) rules.signatures
            Database.tagSignature
          ∧ ∃ token ∈ Description.tokens (Database.tagDescription d.toList), ∃ error,
            Property.rejection? .arithmetic token = some error) := by
  rcases builtin_passes with ⟨rules, hparse, hpasses⟩
  have hrules := wellFormed_of_ofText _ rules hparse
  refine ⟨rules, hparse, ?_, ?_⟩
  · -- Only a rejected description makes identification fail, and only that of a tag can be
    -- rejected.
    rintro ⟨fault, hfails⟩
    cases (identifies_iff rules hrules .arithmetic d _).1 hfails with
    | rejected winner added error hwinner hadded hextraction =>
        rcases tag_of_rejected d.toList rules winner added error hrules hpasses hwinner hadded
          hextraction with ⟨rfl, token, htoken, hrejected⟩
        exact ⟨hwinner, token, htoken, error, hrejected⟩
  · rintro ⟨hwinner, token, htoken, error, hrejected⟩
    have ⟨hsignature, hcandidate⟩ := mem_and_of_firstLongest _ _ _ hwinner
    have hadded := contributes_tagSignature d.toList
      (length_of_candidate_tagSignature d.toList hcandidate)
    rcases exists_error_of_rejected _ token error htoken hrejected with ⟨first, hextraction⟩
    rw [← description_of_tagSignature d.toList _ (hrules _ hsignature) hcandidate hadded]
      at hextraction
    exact ⟨.badNumber first, (identifies_iff rules hrules .arithmetic d _).2
      (.rejected _ _ first hwinner hadded hextraction)⟩

namespace Database

/-- A resource that consists of a tag, the title of which spells a property. -/
def taggedBytes : Array UInt8 :=
  (([84, 65, 71, 59, 99, 104, 110, 61, 120] : List UInt8) ++ List.replicate 119 0).toArray

/-- Whether a database can be read, but fails to identify some bytes because of a
    count of channels. -/
def rejectsChannels (text : Text) (d : Array UInt8) : Bool :=
  match RuleSet.ofText text with
  | .error _ => false
  | .ok rules =>
    match rules.identifyBytes .arithmetic d with
    | .error (.badNumber error) => error.key = PropertyKey.channels
    | _ => false

end Database

/-- The built-in database rejects a count of channels in these bytes. This is
    computed as well. -/
theorem rejectsChannels_builtinText :
    Database.rejectsChannels Database.builtinText Database.taggedBytes = true := by
  simp only [Database.builtinText, Database.builtinLines, List.flatMap_cons, List.flatMap_nil,
    String.toList_append]
  repeat rw [String.toList_ofList]
  decide +kernel

/-- What this computation says, of any text and any bytes. -/
theorem of_rejectsChannels (text : Text) (d : Array UInt8)
    (h : Database.rejectsChannels text d = true) :
    ∃ rules error, RuleSet.ofText text = .ok rules
      ∧ rules.identifyBytes .arithmetic d = .error (.badNumber error)
      ∧ error.key = PropertyKey.channels := by
  unfold Database.rejectsChannels at h
  split at h
  · exact absurd h Bool.false_ne_true
  · rename_i rules hparse
    split at h
    · rename_i error hfails
      exact ⟨rules, error, hparse, hfails, of_decide_eq_true h⟩
    · exact absurd h Bool.false_ne_true

/-- A title can make identification with the built-in database fail. -/
theorem builtin_identifyBytes_fails : ∃ rules error, RuleSet.builtin = .ok rules
    ∧ rules.identifyBytes .arithmetic Database.taggedBytes = .error (.badNumber error)
    ∧ error.key = PropertyKey.channels :=
  of_rejectsChannels Database.builtinText Database.taggedBytes rejectsChannels_builtinText

end FileSignatures
