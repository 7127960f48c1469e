import Highlight.Proofs.Grammar.Builtin
import Highlight.Proofs.Lexer.Line
import Highlight.Proofs.Lexer.Stop
import Mathlib.Data.List.Basic
import Mathlib.Data.List.TakeWhile

/-!
# Header names in the token stream

Whether a `<` opens a header name is decided by the bytes of its line so far, not by the
tokens they have become.  The two agree.  Bytes that make up an include directive are read
as one where the line starts with a token.  It does: what runs across the start of a line is
a comment or a literal, and those end next to a newline, a quote, a `>` or a slash, none of
which the directive has.
-/

namespace Highlight

/-- The bytes are blanks. -/
def Bytes.AreBlank (bytes : Bytes) : Prop :=
  ∀ b ∈ bytes, Byte.isBlank b = true

/-- A hash, blanks and the name of a directive that includes a file. -/
inductive IncludeDirective : Bytes → Prop where
  | named {blanks : Bytes} (areBlank : blanks.AreBlank) {name : String}
      (listed : name ∈ ["include", "include_next", "import"]) :
      IncludeDirective (Byte.hash :: (blanks ++ Utf8.bytes name))

/-- At most one token of space, which consists of blanks. -/
inductive BlankTokens (text : Bytes) : List Token → Prop where
  | none : BlankTokens text []
  | one {space : Token} (kindEq : space.kind = .whitespace)
      (areBlank : (space.slice text).AreBlank) : BlankTokens text [space]

/-- The tokens end with an include directive, or with one and blanks. -/
inductive EndsWithInclude (text : Bytes) : List Token → Prop where
  | directive {front blanks : List Token} {directive : Token}
      (kindEq : directive.kind = .preprocessor)
      (spelled : IncludeDirective (directive.slice text)) (areBlank : BlankTokens text blanks) :
      EndsWithInclude text (front ++ directive :: blanks)

theorem IncludeDirective.head?_append {bytes : Bytes} (spelled : IncludeDirective bytes)
    (after : Bytes) : (bytes ++ after).head? = some Byte.hash := by
  cases spelled with
  | named => rfl

namespace Bytes

/-! ## Blanks around a directive -/

theorem AreBlank.append {left right : Bytes} (leftBlank : left.AreBlank)
    (rightBlank : right.AreBlank) : (left ++ right).AreBlank := by
  intro b member
  rcases List.mem_append.mp member with member | member
  · exact leftBlank b member
  · exact rightBlank b member

theorem areBlank_takeWhile (bytes : Bytes) : AreBlank (bytes.takeWhile Byte.isBlank) :=
  fun _ member => List.mem_takeWhile_imp member

/-- Neither blanks nor a `<` behind them start with a byte of a word. -/
theorem AreBlank.head?_append {tail : Bytes} (areBlank : tail.AreBlank) (rest : Bytes) :
    ∀ b ∈ (tail ++ Byte.lessThan :: rest).head?, Byte.isWord b = false := by
  cases tail with
  | nil =>
      rintro b ⟨⟩
      rfl
  | cons blank tail =>
      rintro b ⟨⟩
      exact Byte.isWord_of_isBlank (areBlank blank List.mem_cons_self)

/-- Blanks stand around what is left of bytes without them. -/
theorem exists_eq_trimBlanks (bytes : Bytes) :
    ∃ lead tail : Bytes, lead.AreBlank ∧ tail.AreBlank ∧
      bytes = lead ++ trimBlanks bytes ++ tail := by
  refine ⟨bytes.takeWhile Byte.isBlank,
    ((bytes.dropWhile Byte.isBlank).reverse.takeWhile Byte.isBlank).reverse,
    areBlank_takeWhile bytes, ?_, ?_⟩
  · intro b member
    exact areBlank_takeWhile _ b (List.mem_reverse.mp member)
  · rw [trimBlanks, List.append_assoc, ← List.reverse_append, List.takeWhile_append_dropWhile,
      List.reverse_reverse, List.takeWhile_append_dropWhile]

/-- What starts and ends with other bytes is left without the blanks around it. -/
theorem trimBlanks_append {lead middle tail : Bytes} (leadBlank : lead.AreBlank)
    (nonempty : middle ≠ []) (first : ∀ b ∈ middle.head?, Byte.isBlank b = false)
    (last : ∀ b ∈ middle.getLast?, Byte.isBlank b = false) (tailBlank : tail.AreBlank) :
    trimBlanks (lead ++ middle ++ tail) = middle := by
  have leadEnds : ∀ b ∈ (middle ++ tail).head?, Byte.isBlank b = false := by
    rwa [List.head?_append_of_ne_nil middle nonempty]
  have tailEnds : ∀ b ∈ middle.reverse.head?, Byte.isBlank b = false := by
    rwa [List.head?_reverse]
  have reverseBlank : AreBlank tail.reverse := fun b member =>
    tailBlank b (List.mem_reverse.mp member)
  rw [trimBlanks, List.append_assoc, List.dropWhile_append_eq_right leadBlank leadEnds,
    List.reverse_append, List.dropWhile_append_eq_right reverseBlank tailEnds, List.reverse_reverse]

end Bytes

namespace Lexeme

open Bytes

/-- The names of the directives that include files are words. -/
theorem includeNames_words : ∀ name ∈ ["include", "include_next", "import"],
    (Utf8.bytes name).head?.any Byte.isWordStart = true ∧
      ∀ b ∈ Utf8.bytes name, Byte.isWord b = true := by
  decide +kernel

/-- A line is an include line if it consists of an include directive and blanks around it. -/
theorem isIncludeLine_iff {line : Bytes} : isIncludeLine line = true ↔
    ∃ lead directive tail : Bytes, line = lead ++ directive ++ tail ∧
      lead.AreBlank ∧ IncludeDirective directive ∧ tail.AreBlank := by
  constructor
  · intro includes
    obtain ⟨lead, tail, leadBlank, tailBlank, lineEq⟩ := exists_eq_trimBlanks line
    rw [isIncludeLine] at includes
    split at includes
    · cases includes
    · rename_i b directive trimEq
      simp only [Bool.and_eq_true, beq_iff_eq, List.contains_iff_mem, includeDirectives,
        List.mem_map] at includes
      obtain ⟨rfl, name, listed, nameEq⟩ := includes
      obtain ⟨inner, more, innerBlank, moreBlank, directiveEq⟩ := exists_eq_trimBlanks directive
      rw [← nameEq] at directiveEq
      refine ⟨lead, Byte.hash :: (inner ++ Utf8.bytes name), more ++ tail, ?_, leadBlank,
        .named innerBlank listed, moreBlank.append tailBlank⟩
      rw [lineEq, trimEq, directiveEq]
      simp
  · rintro ⟨lead, directive, tail, rfl, leadBlank, @⟨inner, innerBlank, name, listed⟩, tailBlank⟩
    obtain ⟨starts, words⟩ := includeNames_words name listed
    have nonempty : Utf8.bytes name ≠ [] := by
      intro empty
      rw [empty] at starts
      cases starts
    have nameLast : ∀ b ∈ (Utf8.bytes name).getLast?, Byte.isBlank b = false := fun b member =>
      Byte.isBlank_of_isWord (words b (List.mem_of_getLast? member))
    have nameFirst : ∀ b ∈ (Utf8.bytes name).head?, Byte.isBlank b = false := fun b member =>
      Byte.isBlank_of_isWord (words b (List.mem_of_mem_head? member))
    have lineEq : trimBlanks (lead ++ Byte.hash :: (inner ++ Utf8.bytes name) ++ tail) =
        Byte.hash :: (inner ++ Utf8.bytes name) := by
      apply trimBlanks_append leadBlank (List.cons_ne_nil _ _) _ _ tailBlank
      · rintro b ⟨⟩
        rfl
      · rw [← List.cons_append, List.getLast?_append_of_ne_nil _ nonempty]
        exact nameLast
    have nameEq : trimBlanks (inner ++ Utf8.bytes name) = Utf8.bytes name := by
      have noTail : AreBlank [] := fun _ member => absurd member List.not_mem_nil
      have trimEq := trimBlanks_append innerBlank nonempty nameFirst nameLast noTail
      rwa [List.append_nil] at trimEq
    rw [isIncludeLine, lineEq]
    simp only [nameEq, includeDirectives, beq_self_eq_true, Bool.true_and, List.contains_iff_mem]
    exact List.mem_map_of_mem listed

/-! ## The bytes of a line -/

theorem lineSoFar_append {bytes : Bytes} (newlineFree : Byte.newline ∉ bytes) (before : Bytes) :
    lineSoFar (bytes.reverse ++ before) = lineSoFar before ++ bytes := by
  have inLine : ∀ b ∈ bytes.reverse, (b != Byte.newline) = true := by
    intro b member
    rw [bne_iff_ne]
    rintro rfl
    exact newlineFree (List.mem_reverse.mp member)
  rw [lineSoFar, List.takeWhile_append_of_pos inLine, List.reverse_append, List.reverse_reverse,
    lineSoFar]

theorem atLineStart_iff {before : Bytes} :
    atLineStart before = true ↔ AreBlank (lineSoFar before) := by
  rw [atLineStart_eq_all, List.all_eq_true, AreBlank, lineSoFar]
  simp only [List.mem_reverse]

/-- In front of the line there is nothing, or a newline. -/
theorem exists_lineSoFar (front : Bytes) : ∃ lines : Bytes,
    front = lines ++ lineSoFar front.reverse ∧
      (lines = [] ∨ lines.getLast? = some Byte.newline) := by
  refine ⟨(front.reverse.dropWhile (· != Byte.newline)).reverse, ?_, ?_⟩
  · rw [lineSoFar, ← List.reverse_append, List.takeWhile_append_dropWhile, List.reverse_reverse]
  · cases restEq : front.reverse.dropWhile (· != Byte.newline) with
    | nil => exact Or.inl rfl
    | cons b rest =>
        have stops : (b != Byte.newline) = false := by
          simpa only [restEq, List.head?_cons] using
            List.head?_dropWhile_not (· != Byte.newline) front.reverse
        obtain rfl : b = Byte.newline := bne_eq_false_iff_eq.mp stops
        right
        rw [List.reverse_cons, List.getLast?_concat]

/-- Behind whole lines there is the start of the text, or the place behind a newline. -/
theorem newline_before_of_lines {lines : Bytes}
    (ends : lines = [] ∨ lines.getLast? = some Byte.newline) (rest : Bytes) :
    lines.length = 0 ∨
      ∃ last, lines.length = last + 1 ∧ (lines ++ rest)[last]? = some Byte.newline := by
  rcases ends with rfl | newline
  · exact Or.inl rfl
  · obtain ⟨front, rfl⟩ := List.getLast?_eq_some_iff.mp newline
    right
    exact ⟨front.length, List.length_append, by simp⟩

theorem lineSoFar_of_lines {lines bytes : Bytes}
    (ends : lines = [] ∨ lines.getLast? = some Byte.newline) (newlineFree : Byte.newline ∉ bytes) :
    lineSoFar (lines ++ bytes).reverse = bytes := by
  rw [List.reverse_append, lineSoFar_append newlineFree]
  have empty : lineSoFar lines.reverse = [] := by
    rw [lineSoFar, ← sameLine_nil_of_lines ends]
    rfl
  rw [empty, List.nil_append]

/-! ## Reading directives and what follows them -/

section Read

variable {grammar : Grammar} (family : grammar.CFamily) {before : Bytes}

include family

/-- At a hash or a `<` only the rules for directives, header names and operators apply. -/
theorem read_sign {b : UInt8} (isSign : b = Byte.hash ∨ b = Byte.lessThan) (before rest : Bytes) :
    read grammar before (b :: rest) =
      (directive? grammar before (b :: rest)
        |>.or (header? grammar before (b :: rest))
        |>.or (operator? grammar (b :: rest))).getD (unknown (b :: rest)) := by
  have notSlash : b ≠ slash := by rcases isSign with rfl | rfl <;> decide
  have notBackslash : b ≠ Byte.backslash := by rcases isSign with rfl | rfl <;> decide
  have noSpace : Byte.isSpace b = false := by rcases isSign with rfl | rfl <;> rfl
  have noQuote : quoted? (b :: rest) = none := by rcases isSign with rfl | rfl <;> rfl
  have noNumeral : numeral? grammar (b :: rest) = none := by rcases isSign with rfl | rfl <;> rfl
  have noWord : word? grammar (b :: rest) = none := by rcases isSign with rfl | rfl <;> rfl
  have noBracket : bracket? (b :: rest) = none := by rcases isSign with rfl | rfl <;> rfl
  rw [read_of_ne_slash family noSpace notBackslash notSlash, noQuote, noNumeral, noWord, noBracket]
  simp only [Option.or_none]

/-- A `<` is a header name or an operator. -/
theorem read_lessThan_kind (before rest : Bytes) :
    (read grammar before (Byte.lessThan :: rest)).kind =
      if isIncludeLine (lineSoFar before) then .string else .operator := by
  have noDirective : directive? grammar before (Byte.lessThan :: rest) = none := by
    have notHash : (Byte.lessThan == Byte.hash) = false := rfl
    rw [directive?, notHash, Bool.and_false, Bool.false_and]
    rfl
  rw [read_sign family (Or.inr rfl), noDirective, Option.none_or, header?, family.preprocessor,
    Bool.true_and, beq_self_eq_true, Bool.true_and]
  split
  · rfl
  · have listed : "<" ∈ grammar.operators := family.operators (by decide)
    have stands : Utf8.bytes "<" <+: Byte.lessThan :: rest := ⟨rest, rfl⟩
    obtain ⟨length, lengthEq, _⟩ := exists_longestMatch? listed (by decide) stands
    rw [Option.none_or, operator?, Grammar.operatorLength?, lengthEq]
    rfl

theorem read_hash (lineStart : atLineStart before = true) (rest : Bytes) :
    read grammar before (Byte.hash :: rest) = ⟨.preprocessor, 1 + directiveTail rest⟩ := by
  rw [read_sign family (Or.inl rfl), directive?, family.preprocessor, lineStart]
  rfl

theorem atLineStart_of_preprocessor {rest : Bytes}
    (kindEq : (read grammar before (Byte.hash :: rest)).kind = .preprocessor) :
    atLineStart before = true := by
  by_contra noStart
  rw [Bool.not_eq_true] at noStart
  have noDirective : directive? grammar before (Byte.hash :: rest) = none := by
    rw [directive?, noStart, Bool.and_false]
    rfl
  have noHeader : header? grammar before (Byte.hash :: rest) = none := by
    have notLess : (Byte.hash == Byte.lessThan) = false := rfl
    rw [header?, notLess, Bool.and_false, Bool.false_and]
    rfl
  rw [read_sign family (Or.inl rfl), noDirective, noHeader, Option.none_or,
    Option.none_or] at kindEq
  cases foundEq : operator? grammar (Byte.hash :: rest) with
  | none =>
      rw [foundEq] at kindEq
      cases kindEq
  | some found =>
      rw [foundEq, Option.getD_some, operator?_kind foundEq] at kindEq
      cases kindEq

/-- Comments and literals stop next to one of the bytes that close them. -/
theorem read_stops_of_runsOn {p : UInt8 → Prop} (closes : Closes p) (slashCloses : p slash)
    {rest : Bytes} (runsOn : (read grammar before rest).kind.RunsOn) :
    Stops p rest (read grammar before rest).length := by
  have closing : ∀ markers ∈ grammar.blockComment,
      ∀ b ∈ (Utf8.bytes markers.closing).getLast?, p b := by
    rw [family.blockComment]
    rintro _ ⟨⟩ b ⟨⟩
    exact slashCloses
  rcases runsOn with comment | literal
  · rcases comment_of_kind comment with foundEq | foundEq
    · exact lineComment?_stops closes foundEq
    · exact blockComment?_stops family.valid closing foundEq
  · cases literal_of_kind literal with
    | header foundEq => exact header?_stops closes foundEq
    | quoted foundEq => exact quoted?_stops closes foundEq
    | raw _ foundEq => exact rawString?_stops closes foundEq
    | prefixed _ foundEq => exact prefixedQuoted?_stops closes foundEq

end Read

/-- Blanks are taken in up to the byte behind them. -/
theorem spaceLength_append {blanks after : Bytes} (areBlank : blanks.AreBlank)
    (ends : ∀ b ∈ after.head?, Byte.isSpace b = false) :
    spaceLength (blanks ++ after) = blanks.length := by
  induction blanks with
  | nil =>
      cases after with
      | nil => rfl
      | cons b after =>
          have noSpace := ends b rfl
          simp only [Byte.isSpace, Bool.or_eq_false_iff, beq_eq_false_iff_ne] at noSpace
          simp [spaceLength, noSpace.1, noSpace.2]
  | cons blank blanks ih =>
      obtain ⟨isBlank, areBlank⟩ := List.forall_mem_cons.mp areBlank
      have notNewline : blank ≠ Byte.newline := by
        rintro rfl
        cases isBlank
      have inline : Byte.isInlineSpace blank = true := by
        rw [Byte.isInlineSpace, isBlank]
        rfl
      rw [List.cons_append, spaceLength, if_neg notNewline, if_pos inline, ih areBlank,
        List.length_cons, Nat.add_comm]

theorem read_blanks {blanks after : Bytes} (areBlank : blanks.AreBlank) (nonempty : blanks ≠ [])
    (ends : ∀ b ∈ after.head?, Byte.isSpace b = false) (grammar : Grammar) (before : Bytes) :
    read grammar before (blanks ++ after) = ⟨.whitespace, blanks.length⟩ := by
  have spaceEq : space? (blanks ++ after) = some ⟨.whitespace, blanks.length⟩ := by
    rw [← spaceLength_append areBlank ends]
    obtain ⟨blank, more, rfl⟩ := List.exists_cons_of_ne_nil nonempty
    rw [List.cons_append, space?]
    exact if_pos (Byte.isSpace_of_isBlank (areBlank blank List.mem_cons_self))
  rw [read, spaceEq]
  rfl

/-- A directive takes in the blanks and the word behind its hash. -/
theorem directiveTail_append {inner name after : Bytes} (innerBlank : inner.AreBlank)
    (starts : name.head?.any Byte.isWordStart = true) (words : ∀ b ∈ name, Byte.isWord b = true)
    (ends : ∀ b ∈ after.head?, Byte.isWord b = false) :
    directiveTail (inner ++ (name ++ after)) = inner.length + name.length := by
  obtain ⟨b, more, rfl⟩ : ∃ b more, name = b :: more := by
    cases name with
    | nil => cases starts
    | cons b more => exact ⟨b, more, rfl⟩
  have innerEnds : ∀ c ∈ (b :: more ++ after).head?, Byte.isBlank c = false := by
    rintro c ⟨⟩
    exact Byte.isBlank_of_isWord (words b List.mem_cons_self)
  rw [directiveTail, List.takeWhile_append_eq_left innerBlank innerEnds, List.dropWhile_append_eq_right innerBlank innerEnds,
    List.takeWhile_append_eq_left words ends]
  exact if_pos starts

/-! ## Where an include line starts -/

/-- The bytes of which an include line and the `<` behind it consist. -/
def isIncludeByte (b : UInt8) : Bool :=
  Byte.isBlank b || Byte.isWord b || b == Byte.hash || b == Byte.lessThan

theorem isIncludeByte_of_areBlank {bytes : Bytes} (areBlank : bytes.AreBlank) :
    ∀ b ∈ bytes, isIncludeByte b = true := by
  intro b member
  rw [isIncludeByte, areBlank b member]
  rfl

theorem isIncludeByte_of_includeDirective {bytes : Bytes} (spelled : IncludeDirective bytes) :
    ∀ b ∈ bytes, isIncludeByte b = true := by
  cases spelled with
  | named areBlank listed =>
      rw [List.forall_mem_cons]
      refine ⟨rfl, ?_⟩
      intro b member
      rcases List.mem_append.mp member with member | member
      · exact isIncludeByte_of_areBlank areBlank b member
      · simp [isIncludeByte, (includeNames_words _ listed).2 b member]

theorem newline_notMem_of_isIncludeByte {bytes : Bytes}
    (allowed : ∀ b ∈ bytes, isIncludeByte b = true) : Byte.newline ∉ bytes :=
  fun member => Bool.false_ne_true (allowed Byte.newline member)

/-- No rule stops inside a stretch of the text without a byte of its class. -/
theorem not_stops_of_within {p : UInt8 → Prop} {text : Bytes} {start length lower upper : Nat}
    (within : ∀ place b, lower ≤ place → place ≤ upper → text[place]? = some b → ¬p b)
    (inside : upper < text.length) (lowerLt : lower < start + length)
    (leUpper : start + length ≤ upper) : ¬Stops p (text.drop start) length := by
  intro stops
  cases stops with
  | finish =>
      rw [List.length_drop] at leUpper
      omega
  | before found holds =>
      rw [List.getElem?_drop] at found
      exact within _ _ (Nat.le_of_lt lowerLt) leUpper found holds
  | behind found holds =>
      rw [List.getElem?_drop] at found
      exact within _ _ (Nat.le_of_lt_succ lowerLt) (Nat.le_of_succ_le leUpper) found holds

/-- None of the bytes next to which comments and literals stop is among them. -/
theorem closes_isIncludeByte : Closes (isIncludeByte · = false) where
  newline := rfl
  doubleQuote := rfl
  apostrophe := rfl
  greaterThan := rfl

end Lexeme

namespace Lexer

open Bytes Lexeme Token

/-- Lexing comes to a place behind the tokens `earlier`. -/
def Reaches (lexer : Lexer) (text : Bytes) (place : Nat) (earlier : List Token) : Prop :=
  lexer.tokenize text = earlier ++ lexer.tokensFrom text place

variable {lexer : Lexer} {text : Bytes} {place : Nat} {earlier : List Token}

namespace Reaches

theorem unique {other : List Token} (left : Reaches lexer text place earlier)
    (right : Reaches lexer text place other) : earlier = other :=
  List.append_cancel_right (left.symm.trans right)

/-- From a place that lexing comes to it goes on by the lexeme there. -/
theorem step {front bytes after : Bytes} (reaches : Reaches lexer text front.length earlier)
    (textEq : text = front ++ (bytes ++ after)) (nonempty : bytes ≠ []) {kind : TokenKind}
    (lexemeEq : lexer.lexeme front.reverse (bytes ++ after) = ⟨kind, bytes.length⟩) :
    ∃ token : Token, token.kind = kind ∧ token.slice text = bytes ∧
      Reaches lexer text (front ++ bytes).length (earlier ++ [token]) := by
  have dropEq : text.drop front.length = bytes ++ after := by rw [textEq, List.drop_left]
  have atEq : lexer.lexemeAt text front.length = ⟨kind, bytes.length⟩ := by
    rw [lexemeAt, dropEq, textEq, List.take_left, lexemeEq]
  have inside : front.length < text.length := by
    have := List.length_pos_iff.mpr nonempty
    rw [textEq, List.length_append, List.length_append]
    omega
  refine ⟨lexer.tokenAt text front.length, ?_, ?_, ?_⟩
  · rw [tokenAt, atEq]
  · rw [slice_tokenAt, atEq, dropEq, List.take_left]
  · have stopEq : (lexer.tokenAt text front.length).stop = (front ++ bytes).length := by
      rw [tokenAt, atEq, List.length_append]
    rw [Reaches, reaches, lexer.tokensFrom_of_lt inside, stopEq, List.append_assoc]
    rfl

end Reaches

/-- What is in front of a place that lexing comes to is tiled. -/
theorem Reaches.tiles (reaches : Reaches lexer text place earlier)
    (inside : place < text.length) : Tiles 0 earlier place := by
  have tiles := lexer.tokensFrom_tiles_of_le (Nat.zero_le text.length)
  rw [← tokenize, reaches, tiles_append_iff] at tiles
  obtain ⟨middle, earlierTiles, laterTiles⟩ := tiles
  rw [lexer.tokensFrom_of_lt inside] at laterTiles
  rwa [← laterTiles.1] at earlierTiles

theorem exists_drop_eq_cons_of_slice {token : Token} {b : UInt8}
    (first : (token.slice text).head? = some b) : ∃ rest, text.drop token.start = b :: rest := by
  obtain ⟨more, sliceEq⟩ := List.head?_eq_some_iff.mp first
  obtain ⟨rest, restEq⟩ : token.slice text <+: text.drop token.start := List.take_prefix _ _
  rw [sliceEq, List.cons_append] at restEq
  exact ⟨more ++ rest, restEq.symm⟩

/-- A token without a newline carries its line on. -/
theorem lineSoFar_stop {start : Nat} {token : Token} (member : token ∈ lexer.tokensFrom text start)
    (newlineFree : Byte.newline ∉ token.slice text) :
    lineSoFar (text.take token.stop).reverse =
      lineSoFar (text.take token.start).reverse ++ token.slice text := by
  obtain ⟨inside, tokenEq⟩ := lexer.eq_tokenAt_of_mem member
  have startLe : token.start ≤ token.stop := by
    rw [tokenEq]
    exact Nat.le_of_lt (lexer.lt_stop_tokenAt inside)
  have takeEq : text.take token.stop = text.take token.start ++ token.slice text := by
    rw [Token.slice, Token.length, ← List.take_add, Nat.add_sub_cancel' startLe]
  rw [takeEq, List.reverse_append, lineSoFar_append newlineFree]

/-- Tokens of blanks carry the line on with blanks. -/
theorem lineSoFar_of_blankTokens {start : Nat} {blanks : List Token}
    (tokensEq : lexer.tokensFrom text start = blanks ++ lexer.tokensFrom text place)
    (inside : place < text.length) (areBlank : BlankTokens text blanks) :
    ∃ tail : Bytes, tail.AreBlank ∧
      lineSoFar (text.take place).reverse = lineSoFar (text.take start).reverse ++ tail := by
  cases areBlank with
  | none =>
      rw [List.nil_append, lexer.tokensFrom_of_lt inside] at tokensEq
      obtain rfl : place = start := lexer.start_eq_of_tokensFrom_eq_cons tokensEq
      refine ⟨[], ?_, (List.append_nil _).symm⟩
      exact fun _ member => absurd member List.not_mem_nil
  | @one space kindEq areBlank =>
      have first : lexer.tokensFrom text start = [] ++ space :: lexer.tokensFrom text place :=
        tokensEq
      have member : space ∈ lexer.tokensFrom text start := by
        rw [first]
        exact List.mem_cons_self
      have stopEq := (lexer.eq_tokensFrom_stop_of_append first).symm
      rw [lexer.tokensFrom_of_lt inside] at stopEq
      obtain rfl : place = space.stop := lexer.start_eq_of_tokensFrom_eq_cons stopEq
      obtain rfl : space.start = start := lexer.start_eq_of_tokensFrom_eq_cons first
      have newlineFree := newline_notMem_of_isIncludeByte (isIncludeByte_of_areBlank areBlank)
      exact ⟨space.slice text, areBlank, lineSoFar_stop member newlineFree⟩

section Include

variable {grammar : Grammar} (family : grammar.CFamily)

/-- Over blanks lexing goes with one token, or with none if there are none. -/
theorem Reaches.blanks {front blanks after : Bytes}
    (reaches : Reaches (table grammar) text front.length earlier)
    (textEq : text = front ++ (blanks ++ after)) (areBlank : blanks.AreBlank)
    (ends : ∀ b ∈ after.head?, Byte.isSpace b = false) :
    ∃ spaces, BlankTokens text spaces ∧
      Reaches (table grammar) text (front ++ blanks).length (earlier ++ spaces) := by
  rcases eq_or_ne blanks [] with rfl | nonempty
  · refine ⟨[], .none, ?_⟩
    rwa [List.append_nil, List.append_nil]
  · obtain ⟨space, kindEq, sliceEq, reaches⟩ := reaches.step textEq nonempty
      (read_blanks areBlank nonempty ends grammar front.reverse)
    exact ⟨[space], .one kindEq (sliceEq ▸ areBlank), reaches⟩

include family

/-- Over an include directive that starts its line lexing goes with one token. -/
theorem Reaches.directive {front directive after : Bytes}
    (reaches : Reaches (table grammar) text front.length earlier)
    (textEq : text = front ++ (directive ++ after))
    (lineStart : atLineStart front.reverse = true) (spelled : IncludeDirective directive)
    (ends : ∀ b ∈ after.head?, Byte.isWord b = false) :
    ∃ token : Token, token.kind = .preprocessor ∧ token.slice text = directive ∧
      Reaches (table grammar) text (front ++ directive).length (earlier ++ [token]) := by
  cases spelled with
  | @named inner areBlank name listed =>
      obtain ⟨starts, words⟩ := includeNames_words name listed
      have tailEq := directiveTail_append areBlank starts words ends
      apply reaches.step textEq (List.cons_ne_nil _ _)
      rw [lexeme, List.cons_append, read_hash family lineStart, List.append_assoc, tailEq,
        ← List.length_append, Nat.add_comm, List.length_cons]

/-- Nothing runs across the start of an include line: it would stop within the line. -/
theorem Reaches.lineStart {lines line rest : Bytes}
    (reaches : Reaches (table grammar) text (lines ++ line).length earlier)
    (textEq : text = lines ++ (line ++ [Byte.lessThan] ++ rest))
    (ends : lines = [] ∨ lines.getLast? = some Byte.newline)
    (allowed : ∀ b ∈ line ++ [Byte.lessThan], isIncludeByte b = true) :
    ∃ front, Reaches (table grammar) text lines.length front := by
  rw [List.length_append] at reaches
  have inside : lines.length + line.length < text.length := by
    rw [textEq]
    simp only [List.length_append, List.length_singleton]
    omega
  have tiles := reaches.tiles inside
  rcases tiles.splits_or_covers (Nat.zero_le _) (Nat.le_add_right _ _) with
    ⟨left, right, rfl, leftTiles, _⟩ | ⟨token, member, startLt, ltStop⟩
  · refine ⟨left, ?_⟩
    rw [Reaches, List.append_assoc] at reaches
    rw [Reaches, reaches, (table grammar).eq_tokensFrom_of_tiles reaches leftTiles]
  · -- A comment or a literal across the start would have to stop in front of the `<`.
    exfalso
    have stopLe := (tiles.bounds_of_mem member).2.2
    have listed : token ∈ (table grammar).tokenize text := by
      rw [reaches]
      exact List.mem_append_left _ member
    obtain ⟨_, tokenEq⟩ := (table grammar).eq_tokenAt_of_mem listed
    have accepted : (table grammar).Accepted :=
      Grammar.validate_eq_ok_iff.mpr ⟨rfl, family.valid⟩
    have lineStart : lines.length = 0 ∨
        ∃ last, lines.length = last + 1 ∧ text[last]? = some Byte.newline := by
      rw [textEq]
      exact newline_before_of_lines ends _
    have within : ∀ place b, lines.length ≤ place → place ≤ lines.length + line.length →
        text[place]? = some b → ¬isIncludeByte b = false := by
      intro place b behind inFront found
      rw [textEq, List.getElem?_append_right behind, List.getElem?_append_left] at found
      · rw [allowed b (List.mem_of_getElem? found)]
        exact Bool.false_ne_true.symm
      · simp only [List.length_append, List.length_singleton]
        omega
    have runsOn := runsOn_of_lineStart accepted listed lineStart startLt ltStop
    rw [tokenEq] at runsOn ltStop stopLe
    exact not_stops_of_within within inside ltStop stopLe
      (read_stops_of_runsOn family closes_isIncludeByte rfl runsOn)

/-- In an include line the tokens end with the directive. -/
theorem Reaches.endsWithInclude {front rest : Bytes}
    (reaches : Reaches (table grammar) text front.length earlier)
    (textEq : text = front ++ Byte.lessThan :: rest)
    (includes : isIncludeLine (lineSoFar front.reverse) = true) :
    EndsWithInclude text earlier := by
  obtain ⟨lines, frontEq, ends⟩ := exists_lineSoFar front
  obtain ⟨lead, directive, tail, lineEq, leadBlank, spelled, tailBlank⟩ :=
    isIncludeLine_iff.mp includes
  rw [lineEq] at frontEq
  subst frontEq
  have allowed : ∀ b ∈ lead ++ directive ++ tail ++ [Byte.lessThan], isIncludeByte b = true := by
    simp only [List.forall_mem_append, List.forall_mem_singleton]
    exact ⟨⟨⟨isIncludeByte_of_areBlank leadBlank, isIncludeByte_of_includeDirective spelled⟩,
      isIncludeByte_of_areBlank tailBlank⟩, rfl⟩
  have lineTextEq : text = lines ++ (lead ++ directive ++ tail ++ [Byte.lessThan] ++ rest) := by
    simp [textEq]
  -- From the start of the line lexing goes over blanks, the directive and blanks again.
  obtain ⟨start, reachesLine⟩ := reaches.lineStart family lineTextEq ends allowed
  have leadEnds : ∀ b ∈ (directive ++ (tail ++ Byte.lessThan :: rest)).head?,
      Byte.isSpace b = false := by
    rw [spelled.head?_append]
    rintro b ⟨⟩
    rfl
  obtain ⟨spaces, _, reachesHash⟩ := reachesLine.blanks (by simp [textEq]) leadBlank leadEnds
  have lineStart : atLineStart (lines ++ lead).reverse = true := by
    rw [atLineStart_iff, lineSoFar_of_lines ends]
    · exact leadBlank
    · exact newline_notMem_of_isIncludeByte (isIncludeByte_of_areBlank leadBlank)
  obtain ⟨token, kindEq, sliceEq, reachesName⟩ :=
    reachesHash.directive family (by simp [textEq]) lineStart spelled
      (tailBlank.head?_append rest)
  have signEnds : ∀ b ∈ (Byte.lessThan :: rest).head?, Byte.isSpace b = false := by
    rintro b ⟨⟩
    rfl
  obtain ⟨blanks, areBlank, reachesSign⟩ :=
    reachesName.blanks (by simp [textEq]) tailBlank signEnds
  have placeEq : lines ++ lead ++ directive ++ tail = lines ++ (lead ++ directive ++ tail) := by
    simp
  rw [placeEq] at reachesSign
  rw [reaches.unique reachesSign, List.append_assoc]
  exact .directive kindEq (sliceEq ▸ spelled) areBlank

/-- Where the tokens end with an include directive, the line is one. -/
theorem Reaches.isIncludeLine (reaches : Reaches (table grammar) text place earlier)
    (inside : place < text.length) (follows : EndsWithInclude text earlier) :
    isIncludeLine (lineSoFar (text.take place).reverse) = true := by
  cases follows with
  | @directive front blanks directive kindEq spelled areBlank =>
      have tokensEq : (table grammar).tokenize text =
          front ++ directive :: (blanks ++ (table grammar).tokensFrom text place) := by
        rw [reaches, List.append_assoc]
        rfl
      have member : directive ∈ (table grammar).tokenize text := by
        rw [tokensEq]
        exact List.mem_append_right _ List.mem_cons_self
      obtain ⟨_, directiveEq⟩ := (table grammar).eq_tokenAt_of_mem member
      have first : (directive.slice text).head? = some Byte.hash := by
        rw [← List.append_nil (directive.slice text), spelled.head?_append]
      obtain ⟨rest, dropEq⟩ := exists_drop_eq_cons_of_slice first
      have lineStart : atLineStart (text.take directive.start).reverse = true := by
        apply atLineStart_of_preprocessor family
        rw [← dropEq]
        exact (congrArg Token.kind directiveEq).symm.trans kindEq
      have newlineFree := newline_notMem_of_isIncludeByte
        (isIncludeByte_of_includeDirective spelled)
      obtain ⟨tail, tailBlank, tailEq⟩ := lineSoFar_of_blankTokens
        ((table grammar).eq_tokensFrom_stop_of_append tokensEq).symm inside areBlank
      rw [isIncludeLine_iff]
      refine ⟨_, _, tail, ?_, atLineStart_iff.mp lineStart, spelled, tailBlank⟩
      rw [tailEq, lineSoFar_stop member newlineFree]

end Include

/-- With a built-in grammar and any overrides, a token that starts with a `<` is a header name
if the tokens in front of it end with an include directive, or with one and blanks.  Otherwise
it is an operator. -/
theorem tokenize_header {language : Language} {base : Grammar}
    (builtIn : Grammar.builtin? language = some base) (overrides : List Override) {text : Bytes}
    {earlier later : List Token} {token : Token}
    (tokensEq : (table (overrides.foldl Grammar.extend base)).tokenize text =
      earlier ++ token :: later)
    (opens : (token.slice text).head? = some Byte.lessThan) :
    (token.kind = .string ↔ EndsWithInclude text earlier) ∧
      (¬EndsWithInclude text earlier → token.kind = .operator) := by
  have family := (Grammar.cFamily_of_builtin? builtIn).foldl_extend overrides
  generalize overrides.foldl Grammar.extend base = grammar at family tokensEq
  have member : token ∈ (table grammar).tokenize text := by
    rw [tokensEq]
    exact List.mem_append_right _ List.mem_cons_self
  obtain ⟨inside, tokenEq⟩ := (table grammar).eq_tokenAt_of_mem member
  have reaches : Reaches (table grammar) text token.start earlier := by
    rw [Reaches, ← (table grammar).eq_tokensFrom_of_append tokensEq, tokensEq]
  obtain ⟨rest, dropEq⟩ := exists_drop_eq_cons_of_slice opens
  have kindEq : token.kind = if isIncludeLine (lineSoFar (text.take token.start).reverse)
      then .string else .operator := by
    rw [← read_lessThan_kind family _ rest, ← dropEq]
    exact congrArg Token.kind tokenEq
  have includeIff : isIncludeLine (lineSoFar (text.take token.start).reverse) = true ↔
      EndsWithInclude text earlier := by
    constructor
    · intro includes
      have textEq : text = text.take token.start ++ Byte.lessThan :: rest := by
        rw [← dropEq, List.take_append_drop]
      rw [← List.length_take_of_le (Nat.le_of_lt inside)] at reaches
      exact reaches.endsWithInclude family textEq includes
    · exact reaches.isIncludeLine family inside
  rw [← includeIff, kindEq]
  split
  · rename_i includes
    simp [includes]
  · rename_i noInclude
    simp [noInclude]

/-- A tab stands behind the directive of the first text; the second has one only inside of a
comment. -/
theorem tokenize_header_comment :
    EndsWithInclude (Utf8.bytes "# import\t<a>") [⟨.preprocessor, 0, 8⟩, ⟨.whitespace, 8, 9⟩] ∧
      ¬EndsWithInclude (Utf8.bytes "/*\n#include*/<") [⟨.comment, 0, 13⟩] := by
  have header : (table ([{ keywords := ["import"] }].foldl Grammar.extend Grammar.cpp)).tokenize
      (Utf8.bytes "# import\t<a>") =
        [⟨.preprocessor, 0, 8⟩, ⟨.whitespace, 8, 9⟩] ++ ⟨.string, 9, 12⟩ :: [] := by
    decide +kernel
  have operator : (table ([].foldl Grammar.extend Grammar.c)).tokenize
      (Utf8.bytes "/*\n#include*/<") = [⟨.comment, 0, 13⟩] ++ ⟨.operator, 13, 14⟩ :: [] := by
    decide +kernel
  have cppBuiltIn : Grammar.builtin? .cpp = some Grammar.cpp := rfl
  have cBuiltIn : Grammar.builtin? .c = some Grammar.c := rfl
  constructor
  · exact (tokenize_header cppBuiltIn _ header (by decide)).1.mp rfl
  · intro follows
    cases (tokenize_header cBuiltIn _ operator (by decide)).1.mpr follows

end Lexer

end Highlight
