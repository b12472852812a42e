import FileSignatures.Database.Reader
import FileSignatures.Proofs.Text.Splitting

/-!
# What a rule line consists of

A rule line is split into fields, and every field is read by a function of its
own. The lemmas of this module take that apart, in both directions: which fields
and which parts a rule comes from (`ruleOf_eq_ok_iff`,
`ruleOfFields_eq_ok_iff`), and how the fields relate to the line as a text
(`fields_eq_ok_iff`). Whoever proves something about parsed rules, or that a line
is parsed, needs nothing else about the order in which a line is read.

## Main definitions

* `Database.lineKind`: The kind that the first character of a line selects.

## Theorems

* `except_bind_eq_ok`: A sequence succeeds if both of its steps do.
* `lineKind_eq_extraInfo_iff`: What extra-info lines begin with.
* `ruleOfFields_eq_ok_iff`: The parts that a rule comes from.
* `ruleOf_eq_ok_iff`: The fields that a rule comes from.
* `fields_eq_ok_iff`: When a line has fields, and which.
* `kind_and_line_of_ruleOf`: A line alone decides the kind and the number of its
  rule.
* `description_of_ruleOf`: The description is a part of the line between tabs.
-/

namespace FileSignatures

/-- A sequence succeeds if its first step does, and the second one with what the
    first has given. -/
theorem except_bind_eq_ok {ε α β : Type} (x : Except ε α) (f : α → Except ε β) (b : β)
    (h : (x >>= f) = .ok b) : ∃ a, x = .ok a ∧ f a = .ok b := by
  cases x with
  | error e => exact absurd h (by simp only [bind, Except.bind, reduceCtorEq, not_false_eq_true])
  | ok a => exact ⟨a, rfl, h⟩

theorem eq_ok_of_toOption {ε α : Type} (result : Except ε α) (a : α)
    (h : result.toOption = some a) : result = .ok a := by
  cases result with
  | error e => exact absurd h (Option.some_ne_none a).symm
  | ok found => rw [Option.some.inj h]

namespace Database

/-- The kind that the first character of a line selects. -/
def lineKind (line : Text) : LineKind :=
  if line.head? = some '&' then .continuation
  else if line.head? = some '>' then .extraInfo
  else .topLevel

/-- Only a line that begins with a greater-than sign is an extra-info line. -/
theorem lineKind_eq_extraInfo_iff (line : Text) :
    lineKind line = .extraInfo ↔ line.head? = some '>' := by
  unfold lineKind
  constructor
  · intro h
    split at h
    · exact absurd h (by simp only [reduceCtorEq, not_false_eq_true])
    · split at h
      · assumption
      · exact absurd h (by simp only [reduceCtorEq, not_false_eq_true])
  · intro h
    rw [h, if_neg (by decide), if_pos rfl]

/-- A rule comes from its parts: offset, type with mask, comparison and capture are
    read by themselves, and line number and description are taken as they are. -/
theorem ruleOfFields_eq_ok_iff (line : Nat) (offset type comparison description : Text)
    (rule : Rule) : ruleOfFields line offset type comparison description = .ok rule ↔
      Offset.ofText? offset = .ok rule.offset
        ∧ typeOf type = .ok (rule.type, rule.mask)
        ∧ (∃ weight, comparisonOf rule.type comparison = .ok ⟨rule.operator, rule.operand, weight⟩
          ∧ rule.weight = rule.type.weight + weight)
        ∧ captureOf rule.type rule.operator description = .ok rule.capture
        ∧ rule.line = line ∧ rule.description = description := by
  unfold ruleOfFields
  simp only
  cases hoffset : Offset.ofText? offset with
  | error error =>
      simp only [bind, Except.bind, reduceCtorEq, false_and]
  | ok position =>
      constructor
      · intro h
        -- The other fields are read one after the other, and each reading succeeds.
        rcases except_bind_eq_ok _ _ _ h with ⟨start, hstart, h⟩
        rcases except_bind_eq_ok _ _ _ h with ⟨⟨kind, mask⟩, htype, h⟩
        rcases except_bind_eq_ok _ _ _ h with ⟨compared, hcompared, h⟩
        rcases except_bind_eq_ok _ _ _ h with ⟨capture, hcapture, h⟩
        rw [Except.ok.injEq] at h hstart
        subst h
        exact ⟨congrArg Except.ok hstart, htype, ⟨compared.weight, hcompared, rfl⟩, hcapture, rfl,
          rfl⟩
      · rintro ⟨hstart, htype, ⟨weight, hcompared, hweight⟩, hcapture, rfl, rfl⟩
        rw [Except.ok.injEq] at hstart
        simp only [bind, Except.bind, hstart, htype, hcompared, hcapture, ← hweight]

/-- A line denotes what its fields denote. The kind is taken off the offset, and of
    the fields after the comparison only the first counts. -/
theorem ruleOf_eq_ok_iff (number : Nat) (line : Text) (kind : LineKind) (rule : Rule) :
    ruleOf number line = .ok (kind, rule) ↔
      ∃ offset type comparison more, fields line = .ok (offset :: type :: comparison :: more)
        ∧ kind = (kindOf offset).1
        ∧ ruleOfFields number (kindOf offset).2 type comparison (more.headD []) = .ok rule := by
  unfold ruleOf
  constructor
  · intro h
    rcases except_bind_eq_ok _ _ _ h with ⟨parts, hparts, h⟩
    split at h
    · rename_i offset type comparison more
      rcases except_bind_eq_ok _ _ _ h with ⟨found, hfound, h⟩
      simp only [Except.ok.injEq, Prod.mk.injEq] at h
      exact ⟨offset, type, comparison, more, hparts, h.1.symm, h.2 ▸ hfound⟩
    · -- Lines with fewer fields have been rejected before.
      exact absurd h (by simp only [reduceCtorEq, not_false_eq_true])
  · rintro ⟨offset, type, comparison, more, hparts, rfl, hfound⟩
    rw [hparts]
    simp only [bind, Except.bind]
    rw [hfound]

/-- A line has fields if it does not begin with a tab and at least three pieces
    between its tabs are not empty; these are the fields. -/
theorem fields_eq_ok_iff (line : Text) (parts : List Text) :
    fields line = .ok parts ↔ line.head? ≠ some '\t' ∧ 3 ≤ parts.length
      ∧ (Text.pieces '\t' line).filter (fun part => !part.isEmpty) = parts := by
  unfold fields
  by_cases htab : line.head? = some '\t'
  · simp only [htab, if_true, reduceCtorEq, ne_eq, not_true_eq_false, false_and]
  · simp only [htab, if_false, ne_eq, not_false_eq_true, true_and]
    -- From here on only the number of the fields matters.
    generalize (Text.pieces '\t' line).filter (fun part => !part.isEmpty) = found
    by_cases hfew : found.length < 3
    · rw [if_pos hfew]
      simp only [reduceCtorEq, false_iff, not_and]
      intro hlength heq
      rw [heq] at hfew
      omega
    · rw [if_neg hfew, Except.ok.injEq]
      constructor
      · intro heq
        exact ⟨by rw [← heq]; omega, heq⟩
      · exact fun h => h.2

/-- The first field begins like the line. -/
theorem head?_of_fields (line offset : Text) (more : List Text)
    (h : fields line = .ok (offset :: more)) : offset.head? = line.head? := by
  rcases (fields_eq_ok_iff line _).1 h with ⟨htab, -, hparts⟩
  cases line with
  | nil =>
      -- The only piece of nothing is empty.
      exact absurd hparts (by simp only [Text.pieces, List.filter_cons, List.isEmpty_nil,
        Bool.not_true, Bool.false_eq_true, if_false, List.filter_nil, List.nil_eq, reduceCtorEq,
        not_false_eq_true])
  | cons c rest =>
      have hc : c ≠ '\t' := fun heq => htab (by rw [heq]; rfl)
      rcases pieces_eq_cons '\t' rest with ⟨first, others, hpieces⟩
      rw [pieces_cons '\t' c rest first others hc hpieces, List.filter_cons] at hparts
      simp only [List.isEmpty_cons, Bool.not_false, if_true, List.cons.injEq] at hparts
      rw [← hparts.1]
      rfl

/-- The kind that an offset is marked with is decided by its first character. -/
theorem fst_kindOf (offset : Text) : (kindOf offset).1 = lineKind offset := by
  unfold kindOf lineKind
  split
  · rfl
  · rfl
  · rename_i hand hgreater
    cases offset with
    | nil => rfl
    | cons c rest =>
        have hc : c ≠ '&' := fun heq => hand rest (by rw [heq])
        have hd : c ≠ '>' := fun heq => hgreater rest (by rw [heq])
        simp only [List.head?_cons, Option.some.injEq, hc, hd, if_false]

/-- The first character of a line decides the kind of its rule, and the rule has the
    number of the line. -/
theorem kind_and_line_of_ruleOf (number : Nat) (line : Text) (kind : LineKind) (rule : Rule)
    (h : ruleOf number line = .ok (kind, rule)) : kind = lineKind line ∧ rule.line = number := by
  rcases (ruleOf_eq_ok_iff number line kind rule).1 h with
    ⟨offset, type, comparison, more, hparts, hkind, hrule⟩
  have hhead := head?_of_fields line offset _ hparts
  have hline := ((ruleOfFields_eq_ok_iff number _ type comparison _ rule).1 hrule).2.2.2.2.1
  refine ⟨?_, hline⟩
  rw [hkind, fst_kindOf]
  unfold lineKind
  rw [hhead]

/-- The description is empty or a field of the line, so it holds no tab and only
    characters of the line. -/
theorem description_of_ruleOf (number : Nat) (line : Text) (kind : LineKind) (rule : Rule)
    (h : ruleOf number line = .ok (kind, rule)) :
    '\t' ∉ rule.description ∧ ∀ c ∈ rule.description, c ∈ line := by
  rcases (ruleOf_eq_ok_iff number line kind rule).1 h with
    ⟨offset, type, comparison, more, hparts, -, hrule⟩
  rcases (ruleOfFields_eq_ok_iff number _ type comparison _ rule).1 hrule with
    ⟨-, -, -, -, -, hdescription⟩
  rcases (fields_eq_ok_iff line _).1 hparts with ⟨-, -, hpieces⟩
  rw [hdescription]
  -- Without a fourth field the description is empty.
  cases more with
  | nil => exact ⟨List.not_mem_nil, fun c hc => absurd hc List.not_mem_nil⟩
  | cons description others =>
      have hmem : description ∈ Text.pieces '\t' line := by
        have hfield : description ∈ offset :: type :: comparison :: description :: others :=
          List.mem_cons_of_mem _ (List.mem_cons_of_mem _ (List.mem_cons_of_mem _
            List.mem_cons_self))
        rw [← hpieces] at hfield
        exact (List.mem_filter.1 hfield).1
      exact ⟨separator_notMem_of_mem_pieces '\t' line description hmem,
        fun c hc => mem_of_mem_pieces '\t' c line description hmem hc⟩

end Database

end FileSignatures
