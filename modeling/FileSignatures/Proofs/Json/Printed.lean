import FileSignatures.Proofs.Json.Written

/-!
# Documents that are printed

A document is printed without blanks or with one member or element a line. Either text
writes it, provided that its numbers are spelled as numbers: whole numbers always are, and
of the others the spelling is a part of the document.

## Main definitions

* `Json.IsSpelled`: The numbers of a document are spelled as numbers.

## Theorems

* `writes_compact`: A document without blanks.
* `writes_pretty`: A document with one member or element a line.
-/

namespace FileSignatures

namespace Json

mutual

/-- The numbers of a document are spelled as numbers. -/
def IsSpelled : Json → Prop
  | null => True
  | bool _ => True
  | integer _ => True
  | fraction spelling => IsFraction spelling
  | string _ => True
  | array elements => AreSpelled elements
  | object members => MembersAreSpelled members

/-- So are those of several elements. -/
def AreSpelled : List Json → Prop
  | [] => True
  | element :: rest => IsSpelled element ∧ AreSpelled rest

/-- So are those of several members. -/
def MembersAreSpelled : List (Text × Json) → Prop
  | [] => True
  | (_, value) :: rest => IsSpelled value ∧ MembersAreSpelled rest

end

theorem membersAreSpelled_of_forall (members : List (Text × Json))
    (h : ∀ member ∈ members, member.2.IsSpelled) : MembersAreSpelled members := by
  induction members with
  | nil => rw [MembersAreSpelled]; trivial
  | cons member rest ih =>
      obtain ⟨hmember, hrest⟩ := List.forall_mem_cons.1 h
      rw [MembersAreSpelled]
      exact ⟨hmember, ih hrest⟩

theorem isSpelled_object (members : List (Text × Json))
    (h : ∀ member ∈ members, member.2.IsSpelled) : (object members).IsSpelled := by
  rw [IsSpelled]
  exact membersAreSpelled_of_forall members h

mutual

/-- A document without blanks is written. -/
theorem writes_compact : (document : Json) → document.IsSpelled →
    document.Writes document.compact
  | null, _ => by rw [Writes, compact]
  | bool true, _ => by rw [Writes, compact]
  | bool false, _ => by rw [Writes, compact]
  | integer n, _ => by rw [Writes, compact]
  | fraction spelling, h => by
      rw [IsSpelled] at h
      rw [Writes, compact]
      exact ⟨h, rfl⟩
  | string s, _ => by rw [Writes, compact]
  | array elements, h => by
      rw [IsSpelled] at h
      rw [Writes, compact]
      -- What stands in the brackets is written by the mutual lemmas about elements and members.
      exact ⟨_, writesElements_compact elements h, rfl⟩
  | object members, h => by
      rw [IsSpelled] at h
      rw [Writes, compact]
      exact ⟨_, writesMembers_compact members h, rfl⟩

theorem writesElements_compact : (elements : List Json) → AreSpelled elements →
    WritesElements elements (compactElements elements)
  | [], _ => by
      rw [WritesElements, compactElements]
      exact ⟨[], areSpaces_nil, rfl⟩
  | [element], h => by
      rw [AreSpelled] at h
      rw [WritesElements, compactElements]
      exact ⟨[], _, [], _, areSpaces_nil, areSpaces_nil, writes_compact element h.1, rfl,
        Or.inl ⟨rfl, rfl⟩⟩
  | element :: next :: rest, h => by
      rw [AreSpelled] at h
      rw [WritesElements, compactElements]
      · -- No blanks anywhere, and a comma behind all elements but the last.
        exact ⟨[], _, [], _, areSpaces_nil, areSpaces_nil, writes_compact element h.1, rfl,
          Or.inr ⟨List.cons_ne_nil _ _, _, writesElements_compact (next :: rest) h.2, rfl⟩⟩
      · exact List.cons_ne_nil _ _

theorem writesMembers_compact : (members : List (Text × Json)) → MembersAreSpelled members →
    WritesMembers members (compactMembers members)
  | [], _ => by
      rw [WritesMembers, compactMembers]
      exact ⟨[], areSpaces_nil, rfl⟩
  | [(key, value)], h => by
      rw [MembersAreSpelled] at h
      rw [WritesMembers, compactMembers]
      exact ⟨[], [], [], _, [], _, areSpaces_nil, areSpaces_nil, areSpaces_nil, areSpaces_nil,
        writes_compact value h.1, rfl, Or.inl ⟨rfl, rfl⟩⟩
  | (key, value) :: next :: rest, h => by
      rw [MembersAreSpelled] at h
      rw [WritesMembers, compactMembers]
      · exact ⟨[], [], [], _, [], _, areSpaces_nil, areSpaces_nil, areSpaces_nil, areSpaces_nil,
          writes_compact value h.1, rfl,
          Or.inr ⟨List.cons_ne_nil _ _, _, writesMembers_compact (next :: rest) h.2, rfl⟩⟩
      · exact List.cons_ne_nil _ _

end

theorem areSpaces_newLine (depth : Nat) : AreSpaces (newLine depth) := by
  intro c hc
  rcases List.mem_cons.1 hc with rfl | hc
  · rfl
  · rw [List.eq_of_mem_replicate hc]
    rfl

mutual

/-- A document with one member or element a line is written, at any depth. -/
theorem writes_prettyAt : (document : Json) → (depth : Nat) → document.IsSpelled →
    document.Writes (document.prettyAt depth)
  | null, _, _ => by rw [Writes, prettyAt]
  | bool true, _, _ => by rw [Writes, prettyAt]
  | bool false, _, _ => by rw [Writes, prettyAt]
  | integer n, _, _ => by rw [Writes, prettyAt]
  | fraction spelling, _, h => by
      rw [IsSpelled] at h
      rw [Writes, prettyAt]
      exact ⟨h, rfl⟩
  | string s, _, _ => by rw [Writes, prettyAt]
  | array [], _, _ => by
      rw [Writes, prettyAt]
      -- An empty list has its brackets on one line.
      exact ⟨[']'], by rw [WritesElements]; exact ⟨[], areSpaces_nil, rfl⟩, rfl⟩
  | array (element :: rest), depth, h => by
      rw [IsSpelled] at h
      rw [Writes, prettyAt]
      · exact ⟨_, writesElements_pretty (element :: rest) depth (List.cons_ne_nil _ _) h,
          by simp only [List.cons_append, List.append_assoc]⟩
      · exact List.cons_ne_nil _ _
  | object [], _, _ => by
      rw [Writes, prettyAt]
      exact ⟨['}'], by rw [WritesMembers]; exact ⟨[], areSpaces_nil, rfl⟩, rfl⟩
  | object (member :: rest), depth, h => by
      rw [IsSpelled] at h
      rw [Writes, prettyAt]
      · exact ⟨_, writesMembers_pretty (member :: rest) depth (List.cons_ne_nil _ _) h,
          by simp only [List.cons_append, List.append_assoc]⟩
      · exact List.cons_ne_nil _ _

/-- The closing bracket stands on a line of its own, less deep than the elements. -/
theorem writesElements_pretty : (elements : List Json) → (depth : Nat) → elements ≠ [] →
    AreSpelled elements →
    WritesElements elements
      (prettyElements (depth + 1) elements ++ (newLine depth ++ [']']))
  | [], _, hne, _ => absurd rfl hne
  | [element], depth, _, h => by
      rw [AreSpelled] at h
      rw [WritesElements, prettyElements]
      -- The last element has the line break of the bracket behind it, the others a comma.
      exact ⟨_, _, _, _, areSpaces_newLine (depth + 1), areSpaces_newLine depth,
        writes_prettyAt element (depth + 1) h.1, by simp only [List.append_assoc],
        Or.inl ⟨rfl, rfl⟩⟩
  | element :: next :: rest, depth, _, h => by
      rw [AreSpelled] at h
      rw [WritesElements, prettyElements]
      · exact ⟨_, _, [], _, areSpaces_newLine (depth + 1), areSpaces_nil,
          writes_prettyAt element (depth + 1) h.1,
          by simp only [List.append_assoc, List.cons_append, List.nil_append],
          Or.inr ⟨List.cons_ne_nil _ _, _,
            writesElements_pretty (next :: rest) depth (List.cons_ne_nil _ _) h.2, rfl⟩⟩
      · exact List.cons_ne_nil _ _

theorem writesMembers_pretty : (members : List (Text × Json)) → (depth : Nat) → members ≠ [] →
    MembersAreSpelled members →
    WritesMembers members
      (prettyMembers (depth + 1) members ++ (newLine depth ++ ['}']))
  | [], _, hne, _ => absurd rfl hne
  | [(key, value)], depth, _, h => by
      have hblank : AreSpaces [' '] := List.forall_mem_singleton.2 rfl
      rw [MembersAreSpelled] at h
      rw [WritesMembers, prettyMembers]
      -- One blank stands behind the colon and none before it.
      exact ⟨_, [], [' '], _, _, _, areSpaces_newLine (depth + 1), areSpaces_nil, hblank,
        areSpaces_newLine depth, writes_prettyAt value (depth + 1) h.1,
        by simp only [List.append_assoc, List.cons_append, List.nil_append],
        Or.inl ⟨rfl, rfl⟩⟩
  | (key, value) :: next :: rest, depth, _, h => by
      have hblank : AreSpaces [' '] := List.forall_mem_singleton.2 rfl
      rw [MembersAreSpelled] at h
      rw [WritesMembers, prettyMembers]
      · exact ⟨_, [], [' '], _, [], _, areSpaces_newLine (depth + 1), areSpaces_nil, hblank,
          areSpaces_nil, writes_prettyAt value (depth + 1) h.1,
          by simp only [List.append_assoc, List.cons_append, List.nil_append],
          Or.inr ⟨List.cons_ne_nil _ _, _,
            writesMembers_pretty (next :: rest) depth (List.cons_ne_nil _ _) h.2, rfl⟩⟩
      · exact List.cons_ne_nil _ _

end

/-- A document with one member or element a line is written. -/
theorem writes_pretty (document : Json) (h : document.IsSpelled) :
    document.Writes document.pretty :=
  writes_prettyAt document 0 h

theorem isText_compact (document : Json) (h : document.IsSpelled) :
    document.IsText document.compact :=
  isText_of_writes document _ (writes_compact document h)

theorem isText_pretty (document : Json) (h : document.IsSpelled) :
    document.IsText document.pretty :=
  isText_of_writes document _ (writes_pretty document h)

end Json

end FileSignatures
