import Highlight.Proofs.Cache.Equivalence
import Highlight.Proofs.Grammar.Validity
import Highlight.Proofs.Lexer.Kind

/-!
# Tokens and lines

Only comments and quoted literals run across the end of a line.  Every other
token of a valid grammar ends with its line at the latest, so a line starts
where a token starts unless a comment or a literal runs across.

A token that ends within its line is also found without a look at what comes
after the line.  This needs more than a valid grammar: validity says nothing of
newlines in the markers that open comments.
-/

namespace Highlight

/-- The kinds of comments and quoted literals, which may run across the end of a
line. -/
def TokenKind.RunsOn (kind : TokenKind) : Prop :=
  kind = .comment ∨ kind = .string ∨ kind = .char

instance (kind : TokenKind) : Decidable kind.RunsOn :=
  inferInstanceAs (Decidable (_ ∨ _))

/-- A valid grammar is free of newlines if the markers that open its comments
are. -/
theorem Grammar.IsValid.newlineFree {grammar : Grammar} (valid : grammar.IsValid)
    (lineComment : ∀ marker ∈ grammar.lineComment, Byte.newline ∉ Utf8.bytes marker)
    (blockComment : ∀ markers ∈ grammar.blockComment,
      Byte.newline ∉ Utf8.bytes markers.opening) : grammar.NewlineFree where
  lineComment := lineComment
  blockComment := blockComment
  operators _ := valid.newline_notMem_operator
  stringPrefixes _ := valid.newline_notMem_prefix

/-! ## The lexemes that end with their line -/

namespace Lexeme

/-- A newline in front of the last byte is left to comments and literals. -/
def EndsWithLine (rest : Bytes) (found : Lexeme) : Prop :=
  found.kind.RunsOn ∨ Byte.newline ∉ rest.take (found.length - 1)

variable {grammar : Grammar} {before rest : Bytes} {found : Lexeme}

/-- A rule for which a newline is the end of the text does not take one in, except
as the last byte. -/
theorem newline_notMem_take (rule : Bytes → Option Lexeme)
    (blind : ∀ body after, rule (body ++ Byte.newline :: after) = rule body)
    (bounded : ∀ rest found, rule rest = some found → found.length ≤ rest.length + 1)
    (foundEq : rule rest = some found) : Byte.newline ∉ rest.take (found.length - 1) := by
  intro newline
  obtain ⟨body, after, takeEq⟩ := List.append_of_mem newline
  have restEq : rest = body ++ Byte.newline :: (after ++ rest.drop (found.length - 1)) := by
    rw [← List.cons_append, ← List.append_assoc, ← takeEq, List.take_append_drop]
  have bodyLt : body.length < found.length - 1 := by
    have lengthEq := congrArg List.length takeEq
    have takeLe := List.length_take_le (found.length - 1) rest
    rw [List.length_append, List.length_cons] at lengthEq
    omega
  rw [restEq, blind] at foundEq
  have lengthLe := bounded body found foundEq
  omega

/-- A byte in front that is no newline lets a run end with its line as before. -/
theorem newline_notMem_take_cons {b : UInt8} {length : Nat} (notNewline : b ≠ Byte.newline)
    (tail : Byte.newline ∉ rest.take (length - 1)) :
    Byte.newline ∉ (b :: rest).take (1 + length - 1) := by
  rw [Nat.add_sub_cancel_left]
  cases length with
  | zero => simp
  | succ length =>
      rw [List.take_succ_cons]
      exact List.not_mem_cons_of_ne_of_not_mem notNewline.symm tail

theorem newline_notMem_take_spaceLength (rest : Bytes) :
    Byte.newline ∉ rest.take (spaceLength rest - 1) := by
  induction rest with
  | nil => simp
  | cons b rest ih =>
      rw [spaceLength]
      split
      · simp
      · rename_i notNewline
        split
        · exact newline_notMem_take_cons notNewline ih
        · simp

theorem newline_notMem_take_lineLength (rest : Bytes) :
    Byte.newline ∉ rest.take (lineLength rest - 1) := by
  induction rest with
  | nil => simp
  | cons b rest ih =>
      rw [lineLength]
      split
      · simp
      · rename_i notNewline
        exact newline_notMem_take_cons notNewline ih

theorem newline_notMem_take_lineBreakLength? {length : Nat}
    (lengthEq : Bytes.lineBreakLength? rest = some length) :
    Byte.newline ∉ rest.take (length - 1) := by
  cases rest with
  | nil => cases lengthEq
  | cons b rest =>
      rw [Bytes.lineBreakLength?] at lengthEq
      split at lengthEq
      · cases lengthEq
        simp
      · rename_i notNewline
        rw [Option.ite_none_right_eq_some] at lengthEq
        cases lengthEq.2
        simpa using Ne.symm notNewline

theorem space?_endsWithLine (foundEq : space? rest = some found) : found.EndsWithLine rest := by
  right
  cases rest with
  | nil => cases foundEq
  | cons b rest =>
      rw [space?, Option.ite_none_right_eq_some, Option.some.injEq] at foundEq
      obtain ⟨_, rfl⟩ := foundEq
      exact newline_notMem_take_spaceLength (b :: rest)

theorem lineJoin?_endsWithLine (foundEq : lineJoin? rest = some found) :
    found.EndsWithLine rest := by
  right
  cases rest with
  | nil => cases foundEq
  | cons b rest =>
      rw [lineJoin?, Option.ite_none_right_eq_some, Option.map_eq_some_iff] at foundEq
      obtain ⟨rfl, length, lengthEq, rfl⟩ := foundEq
      exact newline_notMem_take_cons Byte.newline_ne_backslash.symm
        (newline_notMem_take_lineBreakLength? lengthEq)

theorem directive?_endsWithLine (foundEq : directive? grammar before rest = some found) :
    found.EndsWithLine rest := by
  refine Or.inr (newline_notMem_take (directive? grammar before)
    (fun body after => directive?_newline body after grammar before) ?_ foundEq)
  intro rest found foundEq
  exact Nat.le_succ_of_le (directive?_fits foundEq).length_le

theorem numeral?_endsWithLine (foundEq : numeral? grammar rest = some found) :
    found.EndsWithLine rest := by
  refine Or.inr (newline_notMem_take (numeral? grammar)
    (fun body after => numeral?_newline body after grammar) ?_ foundEq)
  intro rest found foundEq
  exact Nat.le_succ_of_le (numeral?_fits foundEq).length_le

theorem bareWord_endsWithLine (grammar : Grammar) (rest : Bytes) :
    (bareWord grammar rest).EndsWithLine rest := by
  refine Or.inr (newline_notMem_take (fun rest => some (bareWord grammar rest))
    (fun body after => congrArg some (bareWord_newline body after grammar)) ?_ rfl)
  intro rest found foundEq
  cases foundEq
  exact Nat.le_succ_of_le (List.takeWhile_prefix Byte.isWord).length_le

theorem word?_endsWithLine (foundEq : word? grammar rest = some found) :
    found.EndsWithLine rest := by
  obtain ⟨_, rawEq | prefixedEq | rfl⟩ := word?_cases foundEq
  · exact Or.inl (Or.inr (Or.inl (rawString?_kind rawEq)))
  · exact Or.inl (Or.inr (prefixedQuoted?_kind prefixedEq))
  · exact bareWord_endsWithLine grammar rest

theorem bracket?_endsWithLine (foundEq : bracket? rest = some found) :
    found.EndsWithLine rest := by
  refine Or.inr (newline_notMem_take bracket? bracket?_newline ?_ foundEq)
  intro rest found foundEq
  exact Nat.le_succ_of_le (bracket?_fits foundEq).length_le

theorem operator?_endsWithLine (valid : grammar.IsValid)
    (foundEq : operator? grammar rest = some found) : found.EndsWithLine rest := by
  refine Or.inr (newline_notMem_take (operator? grammar) ?_ ?_ foundEq)
  · intro body after
    rw [operator?, Grammar.operatorLength?,
      Grammar.longestMatch?_newline fun _ => valid.newline_notMem_operator]
    rfl
  · intro rest found foundEq
    exact Nat.le_succ_of_le (operator?_fits foundEq).length_le

theorem unknown_endsWithLine (rest : Bytes) : (unknown rest).EndsWithLine rest := by
  refine Or.inr (newline_notMem_take (fun rest => some (unknown rest)) ?_ ?_ rfl)
  · intro body after
    rw [unknown, characterLength_newline]
    rfl
  · intro rest found foundEq
    cases foundEq
    cases rest with
    | nil => exact Nat.le_refl 1
    | cons b rest => exact Nat.le_succ_of_le (unknown_fits (List.cons_ne_nil b rest)).length_le

/-- What a valid grammar reads ends with its line, unless it is a comment or a
literal. -/
theorem read_endsWithLine (valid : grammar.IsValid) (before rest : Bytes) :
    (read grammar before rest).EndsWithLine rest := by
  apply read_induction (motive := EndsWithLine rest)
  case ofSpace =>
    intro found foundEq
    exact space?_endsWithLine foundEq
  case ofLineJoin =>
    intro found foundEq
    exact lineJoin?_endsWithLine foundEq
  case ofLineComment =>
    intro found foundEq
    exact Or.inl (Or.inl (lineComment?_kind foundEq))
  case ofBlockComment =>
    intro found foundEq
    exact Or.inl (Or.inl (blockComment?_kind foundEq))
  case ofDirective =>
    intro found foundEq
    exact directive?_endsWithLine foundEq
  case ofHeader =>
    intro found foundEq
    exact Or.inl (Or.inr (Or.inl (header?_kind foundEq)))
  case ofQuoted =>
    intro found foundEq
    exact Or.inl (Or.inr (quoted?_kind foundEq))
  case ofNumeral =>
    intro found foundEq
    exact numeral?_endsWithLine foundEq
  case ofWord =>
    intro found foundEq
    exact word?_endsWithLine foundEq
  case ofBracket =>
    intro found foundEq
    exact bracket?_endsWithLine foundEq
  case ofOperator =>
    intro found foundEq
    exact operator?_endsWithLine valid foundEq
  case ofUnknown =>
    intro _ _
    exact unknown_endsWithLine rest

end Lexeme

namespace Lexer

open Highlight.Token

variable {lexer : Lexer} {text : Bytes}

theorem lexeme_endsWithLine (accepted : lexer.Accepted) (before rest : Bytes) :
    (lexer.lexeme before rest).EndsWithLine rest := by
  cases lexer with
  | plain => exact Or.inr (Lexeme.newline_notMem_take_lineLength rest)
  | table grammar =>
      exact Lexeme.read_endsWithLine (Grammar.validate_eq_ok_iff.mp accepted).2 before rest

/-! ## Tokens and line starts -/

/-- The bytes of a token in front of its last one. -/
theorem dropLast_slice_tokenAt (lexer : Lexer) {start : Nat} (inside : start < text.length) :
    ((lexer.tokenAt text start).slice text).dropLast =
      (text.drop start).take ((lexer.lexemeAt text start).length - 1) := by
  have lengthLe := (lexer.lexemeAt_fits inside).length_le
  rw [Token.slice, Token.length, List.dropLast_eq_take, List.take_take, List.length_take]
  simp only [tokenAt, Nat.add_sub_cancel_left, Nat.min_eq_left lengthLe]
  rw [Nat.min_eq_left (Nat.sub_le _ _)]

/-- A token with a newline in front of its last byte is a comment or a literal. -/
theorem runsOn_of_newline_mem (accepted : lexer.Accepted) {start : Nat} {token : Token}
    (member : token ∈ lexer.tokensFrom text start)
    (newline : Byte.newline ∈ (token.slice text).dropLast) : token.kind.RunsOn := by
  obtain ⟨inside, tokenEq⟩ := lexer.eq_tokenAt_of_mem member
  rw [tokenEq, lexer.dropLast_slice_tokenAt inside] at newline
  rcases lexeme_endsWithLine accepted (text.take token.start).reverse (text.drop token.start) with
    runsOn | newlineFree
  · rw [tokenEq]
    exact runsOn
  · exact absurd newline newlineFree

/-- A newline that a token covers together with the byte behind it is in front of
the last byte of the token. -/
theorem newline_mem_dropLast_slice {start place : Nat} {token : Token}
    (member : token ∈ lexer.tokensFrom text start)
    (newline : text[place]? = some Byte.newline) (startLe : token.start ≤ place)
    (stopLt : place + 1 < token.stop) : Byte.newline ∈ (token.slice text).dropLast := by
  obtain ⟨inside, tokenEq⟩ := lexer.eq_tokenAt_of_mem member
  have stopEq : token.stop = token.start + (lexer.lexemeAt text token.start).length :=
    congrArg Token.stop tokenEq
  have placeLt : place - token.start < (lexer.lexemeAt text token.start).length - 1 := by omega
  rw [tokenEq, lexer.dropLast_slice_tokenAt inside]
  refine List.mem_of_getElem? (i := place - token.start) ?_
  rw [List.getElem?_take_of_lt placeLt, List.getElem?_drop, Nat.add_sub_cancel' startLe, newline]

/-- A token across the start of a line is a comment or a literal. -/
theorem runsOn_of_lineStart (accepted : lexer.Accepted) {place : Nat} {token : Token}
    (member : token ∈ lexer.tokenize text)
    (lineStart : place = 0 ∨ ∃ last, place = last + 1 ∧ text[last]? = some Byte.newline)
    (startLt : token.start < place) (placeLt : place < token.stop) : token.kind.RunsOn := by
  obtain rfl | ⟨last, rfl, newline⟩ := lineStart
  · exact absurd startLt (Nat.not_lt_zero _)
  · have inFront := newline_mem_dropLast_slice member newline (Nat.le_of_lt_succ startLt) placeLt
    exact runsOn_of_newline_mem accepted member inFront

/-- A run of bytes with newlines at most in its last place has at most one. -/
theorem count_newline_le_one {bytes : Bytes} (newlineFree : Byte.newline ∉ bytes.dropLast) :
    bytes.count Byte.newline ≤ 1 := by
  rcases List.eq_nil_or_concat bytes with rfl | ⟨front, last, rfl⟩
  · exact Nat.zero_le 1
  · rw [List.concat_eq_append] at newlineFree ⊢
    rw [List.dropLast_concat] at newlineFree
    rw [List.count_append, List.count_eq_zero_of_not_mem newlineFree, Nat.zero_add]
    exact List.count_le_length

/-- With a valid grammar, and in plain text, only comments and quoted literals run
across the end of a line.  Space and plain text hold at most one newline, at
their end, and the tokens fall into those before and those behind a line start,
unless a comment or a literal runs across it. -/
theorem tokenize_endsWithLine (accepted : lexer.Accepted) (text : Bytes) :
    (∀ token ∈ lexer.tokenize text, Byte.newline ∈ (token.slice text).dropLast →
      token.kind = .comment ∨ token.kind = .string ∨ token.kind = .char) ∧
    (∀ token ∈ lexer.tokenize text, token.kind = .whitespace ∨ token.kind = .text →
      Byte.newline ∉ (token.slice text).dropLast ∧
        (token.slice text).count Byte.newline ≤ 1) ∧
    ∀ place ≤ text.length,
      (place = 0 ∨ ∃ last, place = last + 1 ∧ text[last]? = some Byte.newline) →
      (∃ left right, lexer.tokenize text = left ++ right ∧
          Tiles 0 left place ∧ Tiles place right text.length) ∨
        ∃ token ∈ lexer.tokenize text,
          (token.kind = .comment ∨ token.kind = .string ∨ token.kind = .char) ∧
            token.start < place ∧ place < token.stop := by
  refine ⟨fun token member => runsOn_of_newline_mem accepted member, ?_, ?_⟩
  · intro token member kindEq
    have newlineFree : Byte.newline ∉ (token.slice text).dropLast := by
      intro newline
      have runsOn := runsOn_of_newline_mem accepted member newline
      rcases kindEq with kindEq | kindEq
      · rw [kindEq] at runsOn
        exact absurd runsOn (by decide)
      · rw [kindEq] at runsOn
        exact absurd runsOn (by decide)
    exact ⟨newlineFree, count_newline_le_one newlineFree⟩
  · intro place inside lineStart
    have tiles := lexer.tokensFrom_tiles_of_le (Nat.zero_le text.length)
    rcases tiles.splits_or_covers (Nat.zero_le place) inside with
      splits | ⟨token, member, startLt, placeLt⟩
    · exact Or.inl splits
    · exact Or.inr ⟨token, member,
        runsOn_of_lineStart accepted member lineStart startLt placeLt, startLt, placeLt⟩

/-- A comment runs across the start of its second line, behind a line that is
joined to it. -/
theorem tokenize_endsWithLine_comment :
    (∃ left right,
      (ofLanguage .cpp).tokenize [0x5C, 0x0D, 0x0A, 0x2F, 0x2A, 0x0A, 0x2A, 0x2F] =
          left ++ right ∧
        Tiles 0 left 6 ∧ Tiles 6 right 8) ∨
      ∃ token ∈ (ofLanguage .cpp).tokenize [0x5C, 0x0D, 0x0A, 0x2F, 0x2A, 0x0A, 0x2A, 0x2F],
        (token.kind = .comment ∨ token.kind = .string ∨ token.kind = .char) ∧
          token.start < 6 ∧ 6 < token.stop :=
  have valid : Grammar.cpp.fault? = none := by decide
  have accepted : (ofLanguage .cpp).Accepted := Grammar.validate_eq_ok_iff.mpr ⟨rfl, valid⟩
  (tokenize_endsWithLine accepted _).2.2 6 (by decide) (Or.inr ⟨5, rfl, rfl⟩)

/-! ## Tokens that end within a line -/

/-- Tokens from behind a limit on end behind it. -/
theorem filter_tokensFrom_eq_nil (lexer : Lexer) (text : Bytes) {limit start : Nat}
    (beyond : limit < start) :
    (lexer.tokensFrom text start).filter (fun token => decide (token.stop ≤ limit)) = [] := by
  refine List.filter_eq_nil_iff.mpr ?_
  intro token member
  rw [decide_eq_true_eq]
  by_cases inside : start ≤ text.length
  · have bounds := (lexer.tokensFrom_tiles_of_le inside).bounds_of_mem member
    omega
  · rw [lexer.tokensFrom_of_le (Nat.le_of_not_le inside)] at member
    cases member

/-- Where the token at a place reaches beyond a limit, no token from there on ends
within it. -/
theorem filter_tokensFrom_eq_nil_of_lt_stop (lexer : Lexer) {text : Bytes} {limit start : Nat}
    (inside : start < text.length) (beyond : limit < (lexer.tokenAt text start).stop) :
    (lexer.tokensFrom text start).filter (fun token => decide (token.stop ≤ limit)) = [] := by
  rw [lexer.tokensFrom_of_lt inside, List.filter_cons_of_neg (by simpa using beyond)]
  exact lexer.filter_tokensFrom_eq_nil text beyond

/-- In two texts that have all up to a newline in common, the tokens that end in
front of the newline are the same from any place on. -/
theorem filter_tokensFrom_newline (newlineFree : lexer.NewlineFree) (front left right : Bytes)
    (start : Nat) :
    (lexer.tokensFrom (front ++ Byte.newline :: left) start).filter
        (fun token => decide (token.stop ≤ front.length)) =
      (lexer.tokensFrom (front ++ Byte.newline :: right) start).filter
        (fun token => decide (token.stop ≤ front.length)) := by
  have takeEq (one other : Bytes) : (front ++ Byte.newline :: one).take (front.length + 1) =
      (front ++ Byte.newline :: other).take (front.length + 1) := by
    rw [List.take_append, List.take_append, Nat.add_sub_cancel_left, List.take_succ_cons,
      List.take_succ_cons, List.take_zero, List.take_zero]
  have newlineAt (after : Bytes) :
      (front ++ Byte.newline :: after)[front.length]? = some Byte.newline := by
    rw [List.getElem?_append_right (Nat.le_refl _), Nat.sub_self, List.getElem?_cons_zero]
  have lengthLt (after : Bytes) : front.length < (front ++ Byte.newline :: after).length := by
    rw [List.length_append, List.length_cons]
    omega
  refine lexer.tokensFrom_induction (motive := fun start tokens =>
    tokens.filter (fun token => decide (token.stop ≤ front.length)) =
      (lexer.tokensFrom (front ++ Byte.newline :: right) start).filter
        (fun token => decide (token.stop ≤ front.length))) ?_ ?_ start
  · intro start outside
    rw [List.filter_nil]
    exact (lexer.filter_tokensFrom_eq_nil _ (Nat.lt_of_lt_of_le (lengthLt left) outside)).symm
  · intro start inside ih
    by_cases early : (lexer.tokenAt (front ++ Byte.newline :: left) start).stop ≤ front.length
    · -- The token is found in both texts, and lexing goes on behind it.
      have tokenEq := tokenAt_eq_of_stop_le newlineFree (takeEq right left) (newlineAt right)
        inside early
      have startLt := Nat.lt_of_lt_of_le (lexer.lt_stop_tokenAt inside) early
      rw [lexer.tokensFrom_of_lt (Nat.lt_trans startLt (lengthLt right)), tokenEq,
        List.filter_cons_of_pos (by simpa using early),
        List.filter_cons_of_pos (by simpa using early), ih]
    · have beyond := Nat.lt_of_not_le early
      rw [← lexer.tokensFrom_of_lt inside,
        lexer.filter_tokensFrom_eq_nil_of_lt_stop inside beyond]
      by_cases startLe : start ≤ front.length
      · -- A token that ended early in the other text would be found in this one too.
        have otherInside := Nat.lt_of_le_of_lt startLe (lengthLt right)
        refine (lexer.filter_tokensFrom_eq_nil_of_lt_stop otherInside ?_).symm
        refine Nat.lt_of_not_le fun otherEarly => early ?_
        rwa [tokenAt_eq_of_stop_le newlineFree (takeEq left right) (newlineAt left) otherInside
          otherEarly]
      · exact (lexer.filter_tokensFrom_eq_nil _ (Nat.lt_of_not_le startLe)).symm

/-- Whatever comes after a line, the tokens that end within it or before it are the
same, for every valid grammar without a newline in the markers that open its
comments. -/
theorem filter_tokenize_newline {grammar : Grammar} (accepted : grammar.validate = .ok grammar)
    (lineComment : ∀ marker ∈ grammar.lineComment, Byte.newline ∉ Utf8.bytes marker)
    (blockComment : ∀ markers ∈ grammar.blockComment,
      Byte.newline ∉ Utf8.bytes markers.opening) (front left right : Bytes) :
    ((table grammar).tokenize (front ++ Byte.newline :: left)).filter
        (fun token => decide (token.stop ≤ front.length)) =
      ((table grammar).tokenize (front ++ Byte.newline :: right)).filter
        (fun token => decide (token.stop ≤ front.length)) := by
  have valid := (Grammar.validate_eq_ok_iff.mp accepted).2
  have newlineFree : (table grammar).NewlineFree := valid.newlineFree lineComment blockComment
  exact filter_tokensFrom_newline newlineFree front left right 0

/-- The word in front of the newline is the same, be it followed by a comment that
is not closed or by nothing. -/
theorem filter_tokenize_newline_word :
    ((table .cpp).tokenize ([0x61] ++ Byte.newline :: [0x2F, 0x2A])).filter
        (fun token => decide (token.stop ≤ [(0x61 : UInt8)].length)) =
      ((table .cpp).tokenize ([0x61] ++ Byte.newline :: [])).filter
        (fun token => decide (token.stop ≤ [(0x61 : UInt8)].length)) :=
  have valid : Grammar.cpp.fault? = none := by decide
  have newlineFree : Grammar.cpp.NewlineFree := by decide
  filter_tokenize_newline (Grammar.validate_eq_ok_iff.mpr ⟨rfl, valid⟩) newlineFree.lineComment
    newlineFree.blockComment [0x61] [0x2F, 0x2A] []

/-- A grammar with a newline in the marker of its line comments is let through.
What is a word before one text is then the start of a comment before another. -/
theorem filter_tokenize_newline_marker :
    let grammar := { Grammar.base with name := "demo", lineComment := some "a\nb" }
    grammar.validate = .ok grammar ∧
      ((table grammar).tokenize ([0x61] ++ Byte.newline :: [0x62])).filter
          (fun token => decide (token.stop ≤ [(0x61 : UInt8)].length)) ≠
        ((table grammar).tokenize ([0x61] ++ Byte.newline :: [0x63])).filter
          (fun token => decide (token.stop ≤ [(0x61 : UInt8)].length)) := by
  intro grammar
  constructor
  · exact Grammar.validate_eq_ok_iff.mpr ⟨rfl, (by decide : grammar.fault? = none)⟩
  · decide

end Lexer

end Highlight
