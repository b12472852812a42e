import FileSignatures.Proofs.Matching.Verdict
import FileSignatures.Proofs.Property.Fields
import FileSignatures.Proofs.Template.Filling

/-!
# Signatures that never fail

Whether the description of a winner can be rejected depends on what its extra-info
rules add, and each of them may hold or not. `Signature.passes` goes through all
of these cases by reading the templates instead of the texts, and a signature that
passes never makes identification fail, whatever the bytes are.

A rule that reads a number adds a decimal, which the scan passes over. Numeric
properties need more: a count of channels is a decimal that a signed word holds,
and a frame rate is a quotient whose divisor has been compared with zero. A rule
that reads a string may add anything, brackets and separators included; only a
capture of three bytes is too short to spell a numeric key with its equals sign.

## Main definitions

* `channelsTemplate`, `frameRateTemplate`, `versionTemplate`: The texts that need
  an argument of their own.
* `Rule.addsChannels`, `Rule.addsFrameRate`, `Rule.addsVersion`: The rules that add
  them.
* `Rule.scan?`: The state after the text of a rule.
* `Signature.extrasPass`, `Signature.passes`: No case leads to a rejected token.

## Theorems

* `number_of_holdsWith`: What a numeric rule holds with.
* `accepts_channels`, `accepts_frameRate`: Numeric properties that have a value.
* `accepts_version`: Three characters spell none.
* `accepts_of_extrasPass`: The extra-info rules of a signature that passes.
* `not_error_of_passes`: A signature that passes never fails.
-/

namespace FileSignatures

/-- A rule that reads a number holds with one of at most 32 bits. -/
theorem number_of_holdsWith (d : List UInt8) (rule : Rule) (value : Value)
    (hnumeric : rule.type.isNumeric = true) (h : rule.HoldsWith d value) :
    ∃ n : Int64, value = .number n ∧ 0 ≤ n.toInt ∧ n.toInt < 4294967296 := by
  rcases h with ⟨start, bytes, -, hreads, rfl, -⟩
  -- All types have four bytes at most.
  have hlength : bytes.length = rule.type.width := by
    cases hreads with
    | number _ hfits =>
        rw [List.length_take, List.length_drop]
        omega
    | exact hstring => exact absurd (hstring.symm.trans hnumeric) Bool.false_ne_true
    | capture hstring => exact absurd (hstring.symm.trans hnumeric) Bool.false_ne_true
  have hlt := unsignedReading_lt_of_width rule.type bytes hlength
  have hvalue := toInt_masked (rule.type.unsignedReading bytes) rule.mask hlt
  have hle : rule.type.unsignedReading bytes &&& rule.mask.toNat
      ≤ rule.type.unsignedReading bytes := Nat.and_le_left
  exact ⟨_, by rw [Rule.valueOf, if_pos hnumeric], by omega, by omega⟩

theorem fill_natural (raw : Text) (n : Int64) (hsign : 0 ≤ n.toInt) :
    Segment.fill (.number n) (.conversion ScanState.plainConversion raw 'd')
      = Text.ofNat n.toInt.natAbs := by
  have hnot : ¬ n < 0 := by
    rw [Int64.lt_iff_toInt_lt]
    exact Int.not_lt.2 hsign
  rw [fill_plainConversion, if_neg hnot, List.nil_append]

/-- The template of a count of channels. -/
def channelsTemplate : Text := "[chn=%d]".toList

/-- The template of a frame rate, given the microseconds of a frame. -/
def frameRateTemplate : Text := "[frameRate=1000000/%d]".toList

/-- The template of a version of three characters. -/
def versionTemplate : Text := "[version=%.3s]".toList

namespace Rule

/-- Whether a rule adds a count of channels. -/
def addsChannels (rule : Rule) : Bool :=
  rule.type.isNumeric && rule.description = channelsTemplate

/-- Whether a rule adds a frame rate, and only if it does not divide by zero. -/
def addsFrameRate (rule : Rule) : Bool :=
  rule.type.isNumeric && rule.operator = .greater && rule.operand = .number 0
    && rule.description = frameRateTemplate

/-- Whether a rule adds a version that a resource spells. -/
def addsVersion (rule : Rule) : Bool :=
  !rule.type.isNumeric && rule.description = versionTemplate

/-- The state after the text of a rule that holds, if that can be told from its
    template. -/
def scan? (rule : Rule) (state : ScanState) : Option ScanState :=
  if rule.type.isNumeric then
    if state = .start ∧ (rule.addsChannels || rule.addsFrameRate) = true then some .start
    else state.fillAll? (Template.segments rule.description)
  else none

end Rule

namespace Signature

/-- Whether no token is rejected from a state on, whichever of the extra-info rules
    hold. A version may only come last. -/
def extrasPass (state : ScanState) : List Rule → Bool
  | [] => true
  | rule :: rest =>
    extrasPass state rest
      && match rule.scan? state with
        | some next => extrasPass next rest
        | none => rest.isEmpty && state = .start && rule.addsVersion

/-- Whether no token of a description is rejected, whichever of the extra-info
    rules hold. -/
def passes (signature : Signature) : Bool :=
  match ScanState.start.run? signature.head.description with
  | some state => extrasPass state signature.extras
  | none => false

end Signature

/-- A count of channels is accepted. -/
theorem accepts_channels (n : Int64) (rest : Text) (hlow : 0 ≤ n.toInt)
    (hhigh : n.toInt < 4294967296) (hrest : Accepts .arithmetic 0 [] rest) :
    Accepts .arithmetic 0 [] (Template.fill channelsTemplate (.number n) ++ rest) := by
  have hfill := fill_of_segments channelsTemplate ('[' :: PropertyKey.channels ++ ['=']) [']']
    ['%'] ScanState.plainConversion 'd' (.number n) (by decide)
  have hbody := rejection?_channels n.toInt.natAbs (by omega)
  -- The name and the digits hold no bracket and no separator.
  have hplain : ∀ c ∈ PropertyKey.channels ++ '=' :: Text.ofNat n.toInt.natAbs,
      c ≠ '[' ∧ c ≠ ']' ∧ c ≠ ';' := by
    intro c hc
    rw [List.mem_append, List.mem_cons] at hc
    rcases hc with hc | rfl | hc
    · exact plain_of_all PropertyKey.channels (by decide) c hc
    · decide
    · exact plain_of_isDigit c (isDigit_of_mem_ofNat _ c hc)
  have haccepts := accepts_group .arithmetic _ rest hplain hbody hrest
  rw [hfill, fill_natural _ n hlow]
  simpa only [List.cons_append, List.append_assoc, List.nil_append] using haccepts

/-- A frame rate is accepted that does not divide by zero. -/
theorem accepts_frameRate (n : Int64) (rest : Text) (hpos : 0 < n.toInt)
    (hhigh : n.toInt < 4294967296) (hrest : Accepts .arithmetic 0 [] rest) :
    Accepts .arithmetic 0 [] (Template.fill frameRateTemplate (.number n) ++ rest) := by
  have hdividend : "1000000/".toList = Text.ofNat 1000000 ++ ['/'] := by decide
  have hfill := fill_of_segments frameRateTemplate
    ('[' :: PropertyKey.frameRate ++ '=' :: "1000000/".toList) [']'] ['%']
    ScanState.plainConversion 'd' (.number n) (by decide)
  have hbody := rejection?_frameRate 1000000 n.toInt.natAbs (by omega) (by omega)
  -- Nothing that is written between the brackets closes them or separates properties.
  have hplain : ∀ c ∈ PropertyKey.frameRate ++ '=' :: (Text.ofNat 1000000 ++ '/' ::
      Text.ofNat n.toInt.natAbs), c ≠ '[' ∧ c ≠ ']' ∧ c ≠ ';' := by
    intro c hc
    simp only [List.mem_append, List.mem_cons] at hc
    rcases hc with hc | rfl | hc | rfl | hc
    · exact plain_of_all PropertyKey.frameRate (by decide) c hc
    · decide
    · exact plain_of_isDigit c (isDigit_of_mem_ofNat _ c hc)
    · decide
    · exact plain_of_isDigit c (isDigit_of_mem_ofNat _ c hc)
  have haccepts := accepts_group .arithmetic _ rest hplain hbody hrest
  rw [hfill, fill_natural _ n (Int.le_of_lt hpos), hdividend]
  simpa only [List.cons_append, List.append_assoc, List.nil_append] using haccepts

/-- A version at the end is accepted, whatever the resource holds. -/
theorem accepts_version (content : List UInt8) :
    Accepts .arithmetic 0 [] (Template.fill versionTemplate (.bytes content)) := by
  have hfill := fill_of_segments versionTemplate ('[' :: "version".toList ++ ['=']) [']']
    "%.3".toList (boundedConversion 3) 's' (.bytes content) (by decide)
  have hkey := plain_of_all "version".toList (by decide)
  have haccepts := accepts_short_field .arithmetic "version".toList
    ((Value.display (.bytes content)).take 3) hkey (by decide) (by decide)
    (List.length_take_le 3 _)
  rw [hfill, fill_boundedConversion]
  exact haccepts

/-- A rule that reads a string holds with bytes. -/
theorem bytes_of_holdsWith (d : List UInt8) (rule : Rule) (value : Value)
    (hstring : rule.type.isNumeric = false) (h : rule.HoldsWith d value) :
    ∃ content, value = .bytes content := by
  rcases h with ⟨start, bytes, -, -, rfl, -⟩
  exact ⟨_, valueOf_of_string rule bytes hstring⟩

/-- The text of a rule that holds leads to the state that its template tells. -/
theorem accepts_of_scan? (d : List UInt8) (rule : Rule) (value : Value) (state next : ScanState)
    (hholds : rule.HoldsWith d value) (h : rule.scan? state = some next) (token rest : Text)
    (htoken : state.token.Spells token)
    (hnext : ∀ t, next.token.Spells t → Accepts .arithmetic next.depth t rest) :
    Accepts .arithmetic state.depth token (Template.fill rule.description value ++ rest) := by
  unfold Rule.scan? at h
  split at h
  · rename_i hnumeric
    rcases number_of_holdsWith d rule value hnumeric hholds with ⟨n, rfl, hlow, hhigh⟩
    split at h
    · -- A numeric property that stands outside of all brackets, with its own group.
      rename_i hspecial
      rcases hspecial with ⟨rfl, hfield⟩
      rw [Option.some.injEq] at h
      subst h
      have hrest := hnext [] (.key [] List.not_mem_nil List.not_mem_nil)
      cases htoken with
      | key _ _ _ =>
          rcases Bool.or_eq_true_iff.1 hfield with hchannels | hframeRate
          · simp only [Rule.addsChannels, Bool.and_eq_true, decide_eq_true_eq] at hchannels
            rw [hchannels.2]
            exact accepts_channels n rest hlow hhigh hrest
          · simp only [Rule.addsFrameRate, Bool.and_eq_true, decide_eq_true_eq] at hframeRate
            rcases hframeRate with ⟨⟨⟨-, hoperator⟩, hoperand⟩, hdescription⟩
            -- The rule holds only for numbers above zero.
            rcases hholds with ⟨_, _, _, _, _, haccepts⟩
            rw [hoperator, hoperand] at haccepts
            cases haccepts with
            | greaterNumber _ _ hpos =>
                rw [hdescription]
                exact accepts_frameRate n rest hpos hhigh hrest
    · exact accepts_of_fillAll? .arithmetic n _ state next h token rest htoken hnext
  · exact absurd h (by simp only [reduceCtorEq, not_false_eq_true])

/-- The extra-info rules of a signature that passes add accepted text, by induction
    on the rules, whichever of them hold. -/
theorem accepts_of_extrasPass (d : List UInt8) (extras : List Rule) (state : ScanState)
    (added token : Text) (h : Signature.extrasPass state extras = true)
    (hadded : Contributes d extras added) (htoken : state.token.Spells token) :
    Accepts .arithmetic state.depth token added := by
  induction extras generalizing state added token with
  | nil =>
      cases hadded with
      | nil => exact accepts_nil_of_spells .arithmetic state.depth state.token token htoken
  | cons rule rest ih =>
      rw [Signature.extrasPass, Bool.and_eq_true] at h
      cases hadded with
      | fails _ _ _ _ hrest =>
          -- The rule adds nothing, and the rest passes without it.
          exact ih state added token h.1 hrest htoken
      | holds _ _ value text hrule hrest =>
          have hscan := h.2
          split at hscan
          · rename_i next hnext
            exact accepts_of_scan? d rule value state next hrule hnext token text htoken
              (fun t ht => ih next text t hscan hrest ht)
          · -- The text is not known, so this must be the version, and nothing follows.
            simp only [Bool.and_eq_true, List.isEmpty_iff, decide_eq_true_eq, Rule.addsVersion,
              Bool.not_eq_true'] at hscan
            rcases hscan with ⟨⟨rfl, rfl⟩, hstring, hdescription⟩
            rcases bytes_of_holdsWith d rule value hstring hrule with ⟨content, rfl⟩
            cases hrest with
            | nil =>
                cases htoken with
                | key _ _ _ =>
                    rw [hdescription, List.append_nil]
                    exact accepts_version content

/-- A signature that passes never makes identification fail. -/
theorem not_error_of_passes (d : List UInt8) (signature : Signature) (added : Text)
    (h : signature.passes = true) (hadded : Contributes d signature.extras added)
    (error : BadNumber) :
    Extraction.ofDescription .arithmetic (signature.head.description ++ added)
      ≠ .error error := by
  unfold Signature.passes at h
  split at h
  · rename_i state hrun
    -- The description is read first, then what each of the extra-info rules can add.
    refine ofDescription_ok_of_accepts .arithmetic _ ?_ error
    exact accepts_of_run? .arithmetic signature.head.description .start state hrun [] added
      (.key [] List.not_mem_nil List.not_mem_nil)
      (fun token htoken => accepts_of_extrasPass d _ state added token h hadded htoken)
  · exact absurd h Bool.false_ne_true

end FileSignatures
