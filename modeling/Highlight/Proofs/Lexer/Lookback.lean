import Highlight.Proofs.Lexer.Walk

/-!
# Looking back ends at the start of the line

A rule that looks at the bytes behind it looks no further than to the last
newline.  Lexing that starts at the same distance from a newline, or from the
start of a text, therefore finds the same tokens, wherever the two places are.
-/

namespace Highlight

namespace Bytes

/-- The places after the reversed bytes `left` and `right` lie in lines that
are the same so far. -/
def SameLine (left right : Bytes) : Prop :=
  left.takeWhile (· != Byte.newline) = right.takeWhile (· != Byte.newline)

namespace SameLine

variable {left right : Bytes}

/-- A byte that both lines go on with leaves them the same. -/
theorem cons (same : SameLine left right) (b : UInt8) : SameLine (b :: left) (b :: right) := by
  unfold SameLine at same ⊢
  rw [List.takeWhile_cons, List.takeWhile_cons, same]

theorem append (same : SameLine left right) (bytes : Bytes) :
    SameLine (bytes ++ left) (bytes ++ right) := by
  induction bytes with
  | nil => exact same
  | cons b bytes ih => exact ih.cons b

end SameLine

/-- Nothing of a line stands before the place after a newline. -/
theorem takeWhile_reverse_take {text : Bytes} {place : Nat}
    (newline : text[place]? = some Byte.newline) :
    (text.take (place + 1)).reverse.takeWhile (· != Byte.newline) = [] := by
  rw [List.take_add_one, newline, Option.toList_some, List.reverse_append]
  rfl

/-- Lines that have only just started are the same. -/
theorem sameLine_of_newline {left right : Bytes} {leftPlace rightPlace : Nat}
    (leftNewline : left[leftPlace]? = some Byte.newline)
    (rightNewline : right[rightPlace]? = some Byte.newline) :
    SameLine (left.take (leftPlace + 1)).reverse (right.take (rightPlace + 1)).reverse := by
  rw [SameLine, takeWhile_reverse_take leftNewline, takeWhile_reverse_take rightNewline]

/-- Behind whole lines a line starts as at the start of a text. -/
theorem sameLine_nil_of_lines {front : Bytes}
    (lines : front = [] ∨ front.getLast? = some Byte.newline) : SameLine [] front.reverse := by
  rcases lines with rfl | newline
  · rfl
  · rcases List.getLast?_eq_some_iff.mp newline with ⟨body, rfl⟩
    rw [SameLine, List.reverse_append]
    rfl

end Bytes

namespace Lexeme

open Bytes

/-! ## The rules that look back -/

/-- Whether a line break is escaped shows in its line. -/
theorem isEscapedBreak_takeWhile (before : Bytes) :
    isEscapedBreak (before.takeWhile (· != Byte.newline)) = isEscapedBreak before := by
  rcases before with _ | ⟨b, _ | ⟨c, before⟩⟩
  · rfl
  · by_cases newline : b = Byte.newline
    · simp [newline, isEscapedBreak]
    · simp [newline, isEscapedBreak]
  · by_cases newline : b = Byte.newline
    · simp [newline, isEscapedBreak]
    · by_cases carriageReturn : b = Byte.carriageReturn
      · -- The byte before the carriage return is either in the line or a newline.
        by_cases nextNewline : c = Byte.newline
        · simp [carriageReturn, nextNewline, isEscapedBreak]
        · simp [carriageReturn, nextNewline, isEscapedBreak]
      · simp [newline, carriageReturn, isEscapedBreak]

/-- Only blanks lead up to a place if its line consists of blanks. -/
theorem atLineStart_eq_all (before : Bytes) :
    atLineStart before = (before.takeWhile (· != Byte.newline)).all Byte.isBlank := by
  induction before with
  | nil => rfl
  | cons b before ih =>
      by_cases newline : b = Byte.newline
      · simp [newline, atLineStart]
      · by_cases blank : Byte.isBlank b = true
        · simp only [atLineStart, List.dropWhile_cons, blank, if_true] at ih ⊢
          simp [newline, blank, ih]
        · simp [newline, blank, atLineStart]

variable {left right : Bytes}

theorem lineCommentTail_congr (same : SameLine left right) (rest : Bytes) :
    lineCommentTail left rest = lineCommentTail right rest := by
  induction rest generalizing left right with
  | nil => rfl
  | cons b rest ih =>
      have escapedEq : isEscapedBreak left = isEscapedBreak right := by
        rw [← isEscapedBreak_takeWhile left, same, isEscapedBreak_takeWhile]
      rw [lineCommentTail, lineCommentTail, escapedEq, ih (same.cons b)]

theorem lineComment?_congr (grammar : Grammar) (same : SameLine left right) (rest : Bytes) :
    lineComment? grammar left rest = lineComment? grammar right rest := by
  cases markerEq : grammar.lineComment with
  | none => simp [lineComment?, markerEq]
  | some marker =>
      simp only [lineComment?, markerEq, Option.bind_some, lineCommentWith?]
      rw [lineCommentTail_congr (same.append _)]

theorem directive?_congr (grammar : Grammar) (same : SameLine left right) (rest : Bytes) :
    directive? grammar left rest = directive? grammar right rest := by
  have startEq : atLineStart left = atLineStart right := by
    rw [atLineStart_eq_all, same, ← atLineStart_eq_all]
  cases rest with
  | nil => rfl
  | cons b rest => rw [directive?, directive?, startEq]

theorem header?_congr (grammar : Grammar) (same : SameLine left right) (rest : Bytes) :
    header? grammar left rest = header? grammar right rest := by
  have lineEq : lineSoFar left = lineSoFar right := by
    rw [lineSoFar, same]
    rfl
  cases rest with
  | nil => rfl
  | cons b rest => rw [header?, header?, lineEq]

theorem read_congr (grammar : Grammar) (same : SameLine left right) (rest : Bytes) :
    read grammar left rest = read grammar right rest := by
  rw [read, read, lineComment?_congr grammar same, directive?_congr grammar same,
    header?_congr grammar same]

end Lexeme

namespace Lexer

open Bytes

variable (lexer : Lexer)

/-- The lexeme at a place depends on the bytes behind it only through their
line. -/
theorem lexeme_congr {left right : Bytes} (same : SameLine left right) (rest : Bytes) :
    lexer.lexeme left rest = lexer.lexeme right rest := by
  cases lexer with
  | plain => rfl
  | table grammar => exact Lexeme.read_congr grammar same rest

/-! ## Moved texts -/

/-- Walking over the same bytes from another place gives the same tokens, moved
there. -/
theorem walk_shift {left right : Bytes} (same : SameLine left right) {delta : Int}
    {offset moved : Nat} (movedEq : (offset : Int) + delta = moved) (rest : Bytes)
    (pending : Nat) :
    lexer.walk right rest moved pending =
      (lexer.walk left rest offset pending).map (·.shift delta) := by
  induction rest generalizing left right offset moved pending with
  | nil => rw [walk, walk, List.map_nil]
  | cons b rest ih =>
      have nextEq : ((offset + 1 : Nat) : Int) + delta = (moved + 1 : Nat) := by omega
      cases pending with
      | succ pending =>
          rw [walk, walk]
          exact ih (same.cons b) nextEq pending
      | zero =>
          have foundEq : lexer.next right (b :: rest) = lexer.next left (b :: rest) := by
            rw [next, next, lexer.lexeme_congr same]
          rw [walk, walk, foundEq, List.map_cons, ih (same.cons b) nextEq]
          have stopEq (length : Nat) :
              ((offset + length : Nat) : Int) + delta = (moved + length : Nat) := by
            omega
          rw [Token.shift, Token.moveOffset_of_eq movedEq, Token.moveOffset_of_eq (stopEq _)]

/-- Two texts that are the same from two places on, in lines that are the same
so far, have the same tokens from there on. -/
theorem tokensFrom_shift {old new : Bytes} {oldStart newStart : Nat} {delta : Int}
    (movedEq : (oldStart : Int) + delta = newStart)
    (restEq : new.drop newStart = old.drop oldStart)
    (same : SameLine (old.take oldStart).reverse (new.take newStart).reverse) :
    lexer.tokensFrom new newStart = (lexer.tokensFrom old oldStart).map (·.shift delta) := by
  rw [tokensFrom, tokensFrom, restEq]
  exact lexer.walk_shift same movedEq _ 0

/-- Lexing may start afresh behind any number of whole lines.  The tokens from there
on are those of the rest by itself, moved behind the lines. -/
theorem tokensFrom_append_lines {front : Bytes}
    (lines : front = [] ∨ front.getLast? = some Byte.newline) (rest : Bytes) :
    lexer.tokensFrom (front ++ rest) front.length =
      (lexer.tokenize rest).map fun token =>
        ⟨token.kind, front.length + token.start, front.length + token.stop⟩ := by
  have restEq : (front ++ rest).drop front.length = rest.drop 0 := List.drop_left
  have same : SameLine (rest.take 0).reverse ((front ++ rest).take front.length).reverse := by
    rw [List.take_left]
    exact sameLine_nil_of_lines lines
  rw [lexer.tokensFrom_shift (Int.zero_add _) restEq same, tokenize]
  apply List.map_congr_left
  intro token _
  exact token.shift_natCast front.length

/-- The line behind a comment that is carried on by a backslash is read as a
directive when lexing starts there. -/
theorem tokensFrom_append_lines_directive :
    (ofLanguage .cpp).tokensFrom (Utf8.bytes "// a \\\n" ++ Utf8.bytes "#if") 7 =
      [⟨.preprocessor, 7, 10⟩] :=
  (tokensFrom_append_lines (ofLanguage .cpp) (Or.inr (by decide)) (Utf8.bytes "#if")).trans
    (by decide)

end Lexer

end Highlight
