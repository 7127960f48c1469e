import Highlight.Proofs.Lexer.Progress

/-!
# The kinds that the rules give

Each rule gives lexemes of one kind or of a few.  So the kind of a token tells
which rule has found it; in particular only what no rule covers is an error.
-/

namespace Highlight

/-- The kinds of words, listed in a grammar or not. -/
def TokenKind.isWord (kind : TokenKind) : Bool :=
  kind matches boolean | null | control | keyword | typeName | functionName | scope | constant
    | identifier

namespace Lexeme

variable {grammar : Grammar} {before rest : Bytes} {found : Lexeme}

theorem space?_kind (foundEq : space? rest = some found) : found.kind = .whitespace := by
  cases rest with
  | nil => cases foundEq
  | cons b rest =>
      rw [space?, Option.ite_none_right_eq_some] at foundEq
      cases foundEq.2
      rfl

theorem lineJoin?_kind (foundEq : lineJoin? rest = some found) : found.kind = .whitespace := by
  cases rest with
  | nil => cases foundEq
  | cons b rest =>
      rw [lineJoin?, Option.ite_none_right_eq_some, Option.map_eq_some_iff] at foundEq
      obtain ⟨_, _, _, rfl⟩ := foundEq
      rfl

theorem lineComment?_kind (foundEq : lineComment? grammar before rest = some found) :
    found.kind = .comment := by
  simp only [lineComment?, Option.bind_eq_some_iff, lineCommentWith?,
    Option.ite_none_right_eq_some, Option.some.injEq] at foundEq
  obtain ⟨_, _, _, rfl⟩ := foundEq
  rfl

theorem blockComment?_kind (foundEq : blockComment? grammar rest = some found) :
    found.kind = .comment := by
  simp only [blockComment?, Option.bind_eq_some_iff, blockCommentWith?,
    Option.ite_none_right_eq_some, Option.some.injEq] at foundEq
  obtain ⟨_, _, _, rfl⟩ := foundEq
  rfl

theorem directive?_kind (foundEq : directive? grammar before rest = some found) :
    found.kind = .preprocessor := by
  cases rest with
  | nil => cases foundEq
  | cons b rest =>
      rw [directive?, Option.ite_none_right_eq_some] at foundEq
      cases foundEq.2
      rfl

theorem header?_kind (foundEq : header? grammar before rest = some found) :
    found.kind = .string := by
  cases rest with
  | nil => cases foundEq
  | cons b rest =>
      rw [header?, Option.ite_none_right_eq_some] at foundEq
      cases foundEq.2
      rfl

theorem quoted?_kind (foundEq : quoted? rest = some found) :
    found.kind = .string ∨ found.kind = .char := by
  cases rest with
  | nil => cases foundEq
  | cons b rest =>
      rw [quoted?, Option.map_eq_some_iff] at foundEq
      obtain ⟨kind, kindEq, rfl⟩ := foundEq
      rw [quoteKind?] at kindEq
      split at kindEq
      · cases kindEq
        exact Or.inl rfl
      · rw [Option.ite_none_right_eq_some] at kindEq
        cases kindEq.2
        exact Or.inr rfl

theorem numeral?_kind (foundEq : numeral? grammar rest = some found) : found.kind = .number := by
  rw [numeral?, Option.ite_none_right_eq_some] at foundEq
  cases foundEq.2
  rfl

theorem rawString?_kind (foundEq : rawString? grammar rest = some found) :
    found.kind = .string := by
  simp only [rawString?, Option.ite_none_right_eq_some, Option.map_eq_some_iff] at foundEq
  obtain ⟨_, _, _, rfl⟩ := foundEq
  rfl

theorem prefixedQuoted?_kind (foundEq : prefixedQuoted? grammar rest = some found) :
    found.kind = .string ∨ found.kind = .char := by
  simp only [prefixedQuoted?, Option.ite_none_left_eq_some, Option.map_eq_some_iff] at foundEq
  obtain ⟨_, literal, literalEq, rfl⟩ := foundEq
  have literalKind := quoted?_kind literalEq
  exact literalKind

/-- A word is of a kind of words, whether it is listed or not. -/
theorem bareWord_isWord (grammar : Grammar) (rest : Bytes) :
    (bareWord grammar rest).kind.isWord = true := by
  rw [bareWord, wordKind]
  cases grammar.classify? (wordText (rest.takeWhile Byte.isWord)) with
  | some wordClass => cases wordClass <;> rfl
  | none =>
      simp only [unlistedKind]
      split
      · rfl
      · split
        · rfl
        · split <;> rfl

theorem bracket?_kind (foundEq : bracket? rest = some found) :
    found.kind = .delimiter ∨ found.kind = .separator := by
  cases rest with
  | nil => cases foundEq
  | cons b rest =>
      rw [bracket?] at foundEq
      split at foundEq
      · cases foundEq
        exact Or.inl rfl
      · rw [Option.ite_none_right_eq_some] at foundEq
        cases foundEq.2
        exact Or.inr rfl

theorem operator?_kind (foundEq : operator? grammar rest = some found) :
    found.kind = .operator := by
  rw [operator?, Option.map_eq_some_iff] at foundEq
  obtain ⟨_, _, rfl⟩ := foundEq
  rfl

/-- Only what no rule covers is an error. -/
theorem read_eq_unknown_of_error (error : (read grammar before rest).kind = .error) :
    read grammar before rest = unknown rest := by
  revert error
  apply read_induction (motive := fun found => found.kind = .error → found = unknown rest)
  case ofSpace =>
    intro found foundEq error
    cases (space?_kind foundEq).symm.trans error
  case ofLineJoin =>
    intro found foundEq error
    cases (lineJoin?_kind foundEq).symm.trans error
  case ofLineComment =>
    intro found foundEq error
    cases (lineComment?_kind foundEq).symm.trans error
  case ofBlockComment =>
    intro found foundEq error
    cases (blockComment?_kind foundEq).symm.trans error
  case ofDirective =>
    intro found foundEq error
    cases (directive?_kind foundEq).symm.trans error
  case ofHeader =>
    intro found foundEq error
    cases (header?_kind foundEq).symm.trans error
  case ofQuoted =>
    intro found foundEq error
    rcases quoted?_kind foundEq with kindEq | kindEq
    · cases kindEq.symm.trans error
    · cases kindEq.symm.trans error
  case ofNumeral =>
    intro found foundEq error
    cases (numeral?_kind foundEq).symm.trans error
  case ofWord =>
    intro found foundEq error
    obtain ⟨_, rawEq | prefixedEq | rfl⟩ := word?_cases foundEq
    · cases (rawString?_kind rawEq).symm.trans error
    · rcases prefixedQuoted?_kind prefixedEq with kindEq | kindEq
      · cases kindEq.symm.trans error
      · cases kindEq.symm.trans error
    · cases (congrArg TokenKind.isWord error).symm.trans (bareWord_isWord grammar rest)
  case ofBracket =>
    intro found foundEq error
    rcases bracket?_kind foundEq with kindEq | kindEq
    · cases kindEq.symm.trans error
    · cases kindEq.symm.trans error
  case ofOperator =>
    intro found foundEq error
    cases (operator?_kind foundEq).symm.trans error
  case ofUnknown =>
    intro _ _ _
    rfl

/-! ## From the kind to the rule -/

/-- The kinds of space, comments, directives and punctuation, and of what no rule
covers. -/
def fixedKinds : List TokenKind :=
  [.whitespace, .comment, .preprocessor, .operator, .delimiter, .separator, .error]

/-- One of the rules for literals has found the lexeme. -/
inductive Literal (grammar : Grammar) (before rest : Bytes) (found : Lexeme) : Prop where
  | header (foundEq : header? grammar before rest = some found)
  | quoted (foundEq : quoted? rest = some found)
  | raw (starts : rest.head?.any Byte.isWordStart = true)
      (foundEq : rawString? grammar rest = some found)
  | prefixed (starts : rest.head?.any Byte.isWordStart = true)
      (foundEq : prefixedQuoted? grammar rest = some found)

theorem Literal.kind (literal : Literal grammar before rest found) :
    found.kind = .string ∨ found.kind = .char := by
  cases literal with
  | header foundEq => exact Or.inl (header?_kind foundEq)
  | quoted foundEq => exact quoted?_kind foundEq
  | raw _ foundEq => exact Or.inl (rawString?_kind foundEq)
  | prefixed _ foundEq => exact prefixedQuoted?_kind foundEq

/-- A lexeme is of one of the fixed kinds, or it is a literal, a numeral or a word. -/
inductive Traced (grammar : Grammar) (before rest : Bytes) (found : Lexeme) : Prop where
  | fixed {kind : TokenKind} (kindEq : found.kind = kind) (listed : kind ∈ fixedKinds)
  | literal (literal : Literal grammar before rest found)
  | numeral (foundEq : numeral? grammar rest = some found)
  | word (starts : rest.head?.any Byte.isWordStart = true)
      (foundEq : found = bareWord grammar rest)

theorem traced_of_word? (foundEq : word? grammar rest = some found) :
    Traced grammar before rest found := by
  obtain ⟨starts, rawEq | prefixedEq | bareEq⟩ := word?_cases foundEq
  · exact .literal (.raw starts rawEq)
  · exact .literal (.prefixed starts prefixedEq)
  · exact .word starts bareEq

theorem read_traced (grammar : Grammar) (before rest : Bytes) :
    Traced grammar before rest (read grammar before rest) := by
  apply read_induction (motive := Traced grammar before rest)
  case ofSpace =>
    intro found foundEq
    exact .fixed (space?_kind foundEq) (by decide)
  case ofLineJoin =>
    intro found foundEq
    exact .fixed (lineJoin?_kind foundEq) (by decide)
  case ofLineComment =>
    intro found foundEq
    exact .fixed (lineComment?_kind foundEq) (by decide)
  case ofBlockComment =>
    intro found foundEq
    exact .fixed (blockComment?_kind foundEq) (by decide)
  case ofDirective =>
    intro found foundEq
    exact .fixed (directive?_kind foundEq) (by decide)
  case ofHeader =>
    intro found foundEq
    exact .literal (.header foundEq)
  case ofQuoted =>
    intro found foundEq
    exact .literal (.quoted foundEq)
  case ofNumeral =>
    intro found foundEq
    exact .numeral foundEq
  case ofWord =>
    intro found foundEq
    exact traced_of_word? foundEq
  case ofBracket =>
    intro found foundEq
    rcases bracket?_kind foundEq with kindEq | kindEq
    · exact .fixed kindEq (by decide)
    · exact .fixed kindEq (by decide)
  case ofOperator =>
    intro found foundEq
    exact .fixed (operator?_kind foundEq) (by decide)
  case ofUnknown =>
    intro _ _
    have kindEq : (unknown rest).kind = .error := rfl
    exact .fixed kindEq (by decide)

/-- What has the kind of comments is found by one of the rules for comments. -/
theorem comment_of_kind (comment : (read grammar before rest).kind = .comment) :
    lineComment? grammar before rest = some (read grammar before rest) ∨
      blockComment? grammar rest = some (read grammar before rest) := by
  revert comment
  apply read_induction (motive := fun found => found.kind = .comment →
    lineComment? grammar before rest = some found ∨ blockComment? grammar rest = some found)
  case ofSpace =>
    intro found foundEq comment
    cases (space?_kind foundEq).symm.trans comment
  case ofLineJoin =>
    intro found foundEq comment
    cases (lineJoin?_kind foundEq).symm.trans comment
  case ofLineComment =>
    intro found foundEq _
    exact Or.inl foundEq
  case ofBlockComment =>
    intro found foundEq _
    exact Or.inr foundEq
  case ofDirective =>
    intro found foundEq comment
    cases (directive?_kind foundEq).symm.trans comment
  case ofHeader =>
    intro found foundEq comment
    cases (header?_kind foundEq).symm.trans comment
  case ofQuoted =>
    intro found foundEq comment
    rcases quoted?_kind foundEq with kindEq | kindEq
    · cases kindEq.symm.trans comment
    · cases kindEq.symm.trans comment
  case ofNumeral =>
    intro found foundEq comment
    cases (numeral?_kind foundEq).symm.trans comment
  case ofWord =>
    intro found foundEq comment
    obtain ⟨_, rawEq | prefixedEq | rfl⟩ := word?_cases foundEq
    · cases (rawString?_kind rawEq).symm.trans comment
    · rcases prefixedQuoted?_kind prefixedEq with kindEq | kindEq
      · cases kindEq.symm.trans comment
      · cases kindEq.symm.trans comment
    · cases (congrArg TokenKind.isWord comment).symm.trans (bareWord_isWord grammar rest)
  case ofBracket =>
    intro found foundEq comment
    rcases bracket?_kind foundEq with kindEq | kindEq
    · cases kindEq.symm.trans comment
    · cases kindEq.symm.trans comment
  case ofOperator =>
    intro found foundEq comment
    cases (operator?_kind foundEq).symm.trans comment
  case ofUnknown =>
    intro _ _ comment
    cases comment

/-- What has the kind of a numeral is found by the rule for numerals. -/
theorem numeral?_of_number (number : (read grammar before rest).kind = .number) :
    numeral? grammar rest = some (read grammar before rest) := by
  cases read_traced grammar before rest with
  | fixed kindEq listed =>
      rw [← kindEq, number] at listed
      exact absurd listed (by decide)
  | literal literal =>
      rcases literal.kind with kindEq | kindEq
      · cases kindEq.symm.trans number
      · cases kindEq.symm.trans number
  | numeral foundEq => exact foundEq
  | word _ foundEq =>
      rw [foundEq] at number
      cases (congrArg TokenKind.isWord number).symm.trans (bareWord_isWord grammar rest)

/-- What has a kind of words is found where a word starts, and is that word. -/
theorem eq_bareWord_of_isWord (isWord : (read grammar before rest).kind.isWord = true) :
    rest.head?.any Byte.isWordStart = true ∧ read grammar before rest = bareWord grammar rest := by
  cases read_traced grammar before rest with
  | fixed kindEq listed =>
      have fixedOnly : ∀ kind ∈ fixedKinds, kind.isWord = false := by decide
      rw [kindEq, fixedOnly _ listed] at isWord
      cases isWord
  | literal literal =>
      rcases literal.kind with kindEq | kindEq
      · cases (congrArg TokenKind.isWord kindEq).symm.trans isWord
      · cases (congrArg TokenKind.isWord kindEq).symm.trans isWord
  | numeral foundEq =>
      cases (congrArg TokenKind.isWord (numeral?_kind foundEq)).symm.trans isWord
  | word starts foundEq => exact ⟨starts, foundEq⟩

/-- What has the kind of a literal is found by one of the rules for literals. -/
theorem literal_of_kind
    (kindEq : (read grammar before rest).kind = .string ∨ (read grammar before rest).kind = .char) :
    Literal grammar before rest (read grammar before rest) := by
  cases read_traced grammar before rest with
  | fixed fixedEq listed =>
      rw [fixedEq] at kindEq
      rcases kindEq with rfl | rfl
      · exact absurd listed (by decide)
      · exact absurd listed (by decide)
  | literal literal => exact literal
  | numeral foundEq => simp [numeral?_kind foundEq] at kindEq
  | word _ foundEq =>
      rw [foundEq] at kindEq
      rcases kindEq with kindEq | kindEq
      · cases (congrArg TokenKind.isWord kindEq).symm.trans (bareWord_isWord grammar rest)
      · cases (congrArg TokenKind.isWord kindEq).symm.trans (bareWord_isWord grammar rest)

end Lexeme

end Highlight
