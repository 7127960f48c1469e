import Highlight.Proofs.Lexer.Cursor
import Highlight.Proofs.Lexer.Walk
import Mathlib.Data.List.DropRight
import Mathlib.Data.List.TakeWhile

/-!
# Every access is in range

The scanner with checked access never fails, and it finds the tokens that the
lexer finds.  Each of its rules is compared with the rule of the lexer at the
same place; the comparison is where the bounds of the slices are shown.
-/

namespace Highlight.Cursor

section Slices

variable {α : Type} {items : List α} {start stop offset : Nat}

theorem drop?_of_le (inside : offset ≤ items.length) :
    drop? items offset = some (items.drop offset) :=
  if_pos inside

theorem take?_of_le (inside : offset ≤ items.length) :
    take? items offset = some (items.take offset) :=
  if_pos inside

theorem slice?_of_le (ordered : start ≤ stop) (inside : stop ≤ items.length) :
    slice? items start stop = some ((items.take stop).drop start) :=
  if_pos ⟨ordered, inside⟩

end Slices

variable {text : Bytes} {place : Nat}

/-! ## Space and comments -/

theorem lineJoin?_eq (inside : place < text.length) :
    lineJoin? text place text[place] = some (Lexeme.lineJoin? (text.drop place)) := by
  rw [List.drop_eq_getElem_cons inside, lineJoin?, Lexeme.lineJoin?]
  split
  · rw [drop?_of_le inside]
    rfl
  · rfl

theorem lineCommentTail?_eq {ahead : Bytes} (aheadEq : text.drop place = ahead)
    (inside : place ≤ text.length) :
    lineCommentTail? text place ahead =
      some (Lexeme.lineCommentTail (text.take place).reverse ahead) := by
  induction ahead generalizing place with
  | nil => rfl
  | cons b ahead ih =>
      have aheadPos : place < text.length := by
        have := congrArg List.length aheadEq
        simp only [List.length_drop, List.length_cons] at this
        omega
      rw [List.drop_eq_getElem_cons aheadPos, List.cons.injEq] at aheadEq
      obtain ⟨rfl, aheadEq⟩ := aheadEq
      have beforeEq : (text.take (place + 1)).reverse =
          text[place] :: (text.take place).reverse := by
        rw [List.take_succ_eq_append_getElem aheadPos, List.reverse_append]
        rfl
      have tailEq := ih aheadEq aheadPos
      rw [beforeEq] at tailEq
      rw [lineCommentTail?, Lexeme.lineCommentTail, take?_of_le inside, tailEq]
      by_cases newline : text[place] = Byte.newline
      · by_cases escaped : Lexeme.isEscapedBreak (text.take place).reverse = true
        · simp [newline, escaped]
        · simp [newline, escaped]
      · simp [newline]

/-- The text before the place behind a marker. -/
theorem reverse_take_add_of_prefix {marker : Bytes} (isPrefix : marker <+: text.drop place) :
    marker.reverse ++ (text.take place).reverse = (text.take (place + marker.length)).reverse := by
  rw [List.take_add, ← List.prefix_iff_eq_take.mp isPrefix, List.reverse_append]

/-- The place behind a marker does not lie past the end. -/
theorem add_length_le_of_drop {marker : Bytes} (isPrefix : marker <+: text.drop place)
    (inside : place ≤ text.length) : place + marker.length ≤ text.length := by
  have := isPrefix.length_le
  rw [List.length_drop] at this
  omega

theorem lineComment?_eq (grammar : Grammar) (inside : place ≤ text.length) :
    lineComment? grammar text place =
      some (Lexeme.lineComment? grammar (text.take place).reverse (text.drop place)) := by
  unfold lineComment? Lexeme.lineComment?
  cases grammar.lineComment with
  | none => rfl
  | some marker =>
      simp only [drop?_of_le inside, Option.bind_some, Option.bind_eq_bind, Lexeme.lineCommentWith?]
      split
      · rename_i starts
        have isPrefix : Utf8.bytes marker <+: text.drop place :=
          List.isPrefixOf_iff_prefix.mp (Bool.and_eq_true_iff.mp starts).2
        rw [lineCommentTail?_eq rfl (add_length_le_of_drop isPrefix inside),
          reverse_take_add_of_prefix isPrefix, List.drop_drop]
        rfl
      · rfl

theorem blockComment?_eq (grammar : Grammar) (inside : place ≤ text.length) :
    blockComment? grammar text place = some (Lexeme.blockComment? grammar (text.drop place)) := by
  unfold blockComment? Lexeme.blockComment?
  cases grammar.blockComment with
  | none => rfl
  | some markers =>
      simp only [drop?_of_le inside, Option.bind_some, Option.bind_eq_bind,
        Lexeme.blockCommentWith?]
      split
      · rename_i starts
        have isPrefix : Utf8.bytes markers.opening <+: text.drop place :=
          List.isPrefixOf_iff_prefix.mp (Bool.and_eq_true_iff.mp starts).2
        rw [drop?_of_le (add_length_le_of_drop isPrefix inside), List.drop_drop]
        rfl
      · rfl

/-! ## Directives and header names -/

theorem directive?_eq (grammar : Grammar) (inside : place < text.length) :
    directive? grammar text place text[place] =
      some (Lexeme.directive? grammar (text.take place).reverse (text.drop place)) := by
  rw [List.drop_eq_getElem_cons inside, directive?, Lexeme.directive?,
    take?_of_le (Nat.le_of_lt inside)]
  by_cases opens : (grammar.preprocessor && text[place] == Byte.hash) = true
  · by_cases first : Lexeme.atLineStart (text.take place).reverse = true
    · simp [opens, first]
    · simp [opens, first]
  · simp [opens]

theorem trimBlanks?_eq (bytes : Bytes) : trimBlanks? bytes = some (Bytes.trimBlanks bytes) := by
  have restEq := List.dropWhile_eq_drop Byte.isBlank bytes
  have splitEq := List.length_takeWhile_add_dropWhile Byte.isBlank bytes
  unfold trimBlanks? Bytes.trimBlanks
  by_cases blank : bytes.all Byte.isBlank = true
  · have dropEq : bytes.dropWhile Byte.isBlank = [] :=
      List.dropWhile_eq_nil_iff.mpr (List.all_eq_true.mp blank)
    rw [dropEq, List.length_nil] at splitEq
    simp only [blank, if_true, dropEq]
    rw [slice?_of_le (Nat.le_refl _) (by omega)]
    simp
  · -- What follows the leading blanks has a byte that is none, so the blanks
    -- at its end are those at the end of all bytes.
    have restOther : ¬ ∀ b ∈ bytes.dropWhile Byte.isBlank, Byte.isBlank b = true := by
      intro allBlank
      have restNil : bytes.dropWhile Byte.isBlank = [] := by
        rw [← List.dropWhile_idempotent (p := Byte.isBlank)]
        exact List.dropWhile_eq_nil_iff.mpr allBlank
      exact blank (List.all_eq_true.mpr (List.dropWhile_eq_nil_iff.mp restNil))
    have trailingLt := List.length_takeWhile_reverse_lt restOther
    have trailingEq : bytes.reverse.takeWhile Byte.isBlank =
        (bytes.dropWhile Byte.isBlank).reverse.takeWhile Byte.isBlank := by
      conv_lhs => rw [← List.takeWhile_append_dropWhile (p := Byte.isBlank) (l := bytes)]
      rw [List.reverse_append, List.takeWhile_append, if_neg]
      rw [List.length_reverse]
      exact Nat.ne_of_lt trailingLt
    simp only [blank, Bool.false_eq_true, if_false, trailingEq]
    rw [slice?_of_le (by omega) (by omega), List.dropWhile_eq_drop _ (List.reverse _),
      List.reverse_drop, List.reverse_reverse, List.length_reverse, List.drop_take, ← restEq]
    congr 2
    omega

theorem isIncludeLine?_eq (inside : place ≤ text.length) :
    isIncludeLine? text place =
      some (Lexeme.isIncludeLine (Lexeme.lineSoFar (text.take place).reverse)) := by
  have lineEq : (text.take place).drop
      (place - ((text.take place).reverse.takeWhile (· != Byte.newline)).length) =
        Lexeme.lineSoFar (text.take place).reverse := by
    have isSuffix : Lexeme.lineSoFar (text.take place).reverse <:+ text.take place := by
      rw [← List.reverse_prefix, Lexeme.lineSoFar, List.reverse_reverse]
      exact List.takeWhile_prefix _
    rw [List.suffix_iff_eq_drop.mp isSuffix, Lexeme.lineSoFar, List.length_reverse,
      List.length_take, Nat.min_eq_left inside]
  unfold isIncludeLine?
  simp only [take?_of_le inside, Option.bind_eq_bind, Option.bind_some,
    slice?_of_le (Nat.sub_le _ _) inside, trimBlanks?_eq, lineEq]
  unfold Lexeme.isIncludeLine
  cases Bytes.trimBlanks (Lexeme.lineSoFar (text.take place).reverse) with
  | nil => rfl
  | cons b directive =>
      by_cases hash : (b == Byte.hash) = true
      · simp [hash]
      · simp [hash]

theorem header?_eq (grammar : Grammar) (inside : place < text.length) :
    header? grammar text place text[place] =
      some (Lexeme.header? grammar (text.take place).reverse (text.drop place)) := by
  rw [List.drop_eq_getElem_cons inside, header?, Lexeme.header?,
    isIncludeLine?_eq (Nat.le_of_lt inside)]
  by_cases opens : (grammar.preprocessor && text[place] == Byte.lessThan) = true
  · by_cases includes : Lexeme.isIncludeLine (Lexeme.lineSoFar (text.take place).reverse) = true
    · simp [opens, includes]
    · simp [opens, includes]
  · simp [opens]

/-! ## Literals -/

theorem quotedStop?_eq (quote : UInt8) (inside : place ≤ text.length) :
    quotedStop? quote text place = some (place + Lexeme.quotedTail quote (text.drop place)) := by
  fun_induction quotedStop? quote text place with
  | case1 place placeLt b backslash ih =>
      have lengthEq : (text.drop (place + 1)).length = text.length - (place + 1) :=
        List.length_drop
      have stepEq := ih (text.drop (place + 1)) (Nat.min_le_right _ _)
      rw [drop?_of_le placeLt, List.drop_eq_getElem_cons placeLt,
        show text[place] = _ from backslash,
        Lexeme.quotedTail_backslash]
      simp only [Option.bind_eq_bind, Option.bind_some]
      generalize (Bytes.lineBreakLength? (text.drop (place + 1))).getD 1 = escaped at *
      -- Past the end of the text nothing is left on either side.
      have dropEq : text.drop (min (place + 1 + escaped) text.length) =
          (text.drop (place + 1)).drop escaped := by
        rw [List.drop_drop]
        rcases Nat.le_total (place + 1 + escaped) text.length with within | past
        · rw [Nat.min_eq_left within]
        · rw [Nat.min_eq_right past, List.drop_length, List.drop_eq_nil_of_le past]
      rw [stepEq, dropEq, lengthEq, Option.some.injEq]
      omega
  | case2 place placeLt b notBackslash newline =>
      rw [List.drop_eq_getElem_cons placeLt, Lexeme.quotedTail_cons notBackslash, if_pos newline,
        Nat.add_zero]
  | case3 place placeLt b notBackslash notNewline isQuote =>
      rw [List.drop_eq_getElem_cons placeLt, Lexeme.quotedTail_cons notBackslash,
        if_neg notNewline, if_pos isQuote]
  | case4 place placeLt b notBackslash notNewline notQuote ih =>
      rw [ih placeLt, List.drop_eq_getElem_cons placeLt, Lexeme.quotedTail_cons notBackslash,
        if_neg notNewline, if_neg notQuote, Nat.add_assoc]
  | case5 place outside =>
      rw [List.drop_eq_nil_of_le (Nat.le_of_not_lt outside), Lexeme.quotedTail_nil, Nat.add_zero]

theorem quoted?_eq (inside : place < text.length) :
    quoted? text place text[place] = some (Lexeme.quoted? (text.drop place)) := by
  have stopEq := quotedStop?_eq text[place] (show place + 1 ≤ text.length from inside)
  rw [List.drop_eq_getElem_cons inside, quoted?, Lexeme.quoted?, stopEq]
  cases Lexeme.quoteKind? text[place] with
  | none => rfl
  | some kind =>
      simp only [Option.bind_eq_bind, Option.bind_some, Option.map_some]
      congr 3
      omega

/-- The first byte that is no delimiter byte, if it comes early enough. -/
theorem findIdx?_take_eq (p : UInt8 → Bool) (limit : Nat) (bytes : Bytes) :
    (bytes.take (limit + 1)).findIdx? (!p ·) =
      if (bytes.takeWhile p).length ≤ limit ∧ (bytes.takeWhile p).length < bytes.length then
        some (bytes.takeWhile p).length
      else none := by
  induction bytes generalizing limit with
  | nil => simp
  | cons b bytes ih =>
      by_cases holds : p b = true
      · cases limit with
        | zero => simp [List.findIdx?_cons, holds]
        | succ limit =>
            rw [List.take_succ_cons, List.findIdx?_cons, ih]
            simp [holds]
      · simp [List.findIdx?_cons, holds]

theorem rawTail?_eq (inside : place ≤ text.length) :
    rawTail? text place = some (Lexeme.rawTail? (text.drop place)) := by
  have lengthEq : (text.drop place).length = text.length - place := List.length_drop
  have bodyEq : ∀ count, text.drop (place + count + 1) = ((text.drop place).drop count).drop 1 := by
    intro count
    rw [List.drop_drop, List.drop_drop, Nat.add_assoc]
  simp only [rawTail?, drop?_of_le inside, Option.bind_eq_bind, Option.bind_some, findIdx?_take_eq,
    Lexeme.rawTail?_eq, List.dropWhile_eq_drop]
  generalize restEq : text.drop place = rest at *
  have delimiterEq := List.prefix_iff_eq_take.mp
    (List.takeWhile_prefix Lexeme.isRawDelimiter (l := rest))
  generalize rest.takeWhile Lexeme.isRawDelimiter = delimiter at *
  by_cases found : delimiter.length ≤ Lexeme.maxRawDelimiter ∧ delimiter.length < rest.length
  · have openingEq : rest[delimiter.length]? = some rest[delimiter.length] :=
      List.getElem?_eq_getElem found.2
    rw [if_pos found, List.head?_drop]
    simp only [openingEq, Option.bind_some, found.1, true_and, Option.some.injEq]
    by_cases opens : rest[delimiter.length] = Byte.openParen
    · rw [if_pos opens, if_pos opens, take?_of_le (Nat.le_of_lt found.2), ← delimiterEq,
        drop?_of_le (by omega), bodyEq]
      rfl
    · rw [if_neg opens, if_neg opens]
      rfl
  · rw [if_neg found]
    have notOpens : ¬ (delimiter.length ≤ Lexeme.maxRawDelimiter ∧
        (rest.drop delimiter.length).head? = some Byte.openParen) := by
      rintro ⟨short, opens⟩
      rw [List.head?_drop] at opens
      exact found ⟨short, (List.getElem?_eq_some_iff.mp opens).1⟩
    rw [if_neg notOpens]
    rfl

theorem rawString?_eq (grammar : Grammar) (inside : place ≤ text.length) :
    rawString? grammar text place = some (Lexeme.rawString? grammar (text.drop place)) := by
  have prefixLe := Lexeme.prefixLength_le grammar (text.drop place)
  have lengthEq : (text.drop place).length = text.length - place := List.length_drop
  simp only [rawString?, Lexeme.rawString?, drop?_of_le inside, drop?_of_le prefixLe,
    Option.bind_eq_bind, Option.bind_some]
  generalize Lexeme.prefixLength grammar (text.drop place) = opening at *
  split
  · rename_i opens
    have opensLe := (List.isPrefixOf_iff_prefix.mp (Bool.and_eq_true_iff.mp opens).2).length_le
    simp only [List.length_cons, List.length_nil, List.length_drop] at opensLe
    have behindLe : place + opening + 2 ≤ text.length := by omega
    rw [rawTail?_eq behindLe, List.drop_drop, ← Nat.add_assoc]
    rfl
  · rfl

theorem prefixedQuoted?_eq (grammar : Grammar) (inside : place ≤ text.length) :
    prefixedQuoted? grammar text place =
      some (Lexeme.prefixedQuoted? grammar (text.drop place)) := by
  simp only [prefixedQuoted?, Lexeme.prefixedQuoted?, drop?_of_le inside, Option.bind_eq_bind,
    Option.bind_some, List.drop_drop]
  generalize Lexeme.prefixLength grammar (text.drop place) = opening
  split
  · rfl
  · by_cases behindLt : place + opening < text.length
    · rw [List.getElem?_eq_getElem behindLt]
      simp only [quoted?_eq behindLt, Option.bind_some]
      rfl
    · have outside := Nat.le_of_not_lt behindLt
      rw [List.getElem?_eq_none outside, List.drop_eq_nil_of_le outside]
      rfl

/-! ## Words -/

/-- The kind of a word does not depend on the blanks behind it. -/
theorem wordKind_dropWhile_isBlank (grammar : Grammar) (word after : Bytes) :
    Lexeme.wordKind grammar word (after.dropWhile Byte.isBlank) =
      Lexeme.wordKind grammar word after := by
  simp only [Lexeme.wordKind, Lexeme.unlistedKind, List.dropWhile_idempotent]

theorem bareWord?_eq (grammar : Grammar) (inside : place ≤ text.length) :
    bareWord? grammar text place = some (Lexeme.bareWord grammar (text.drop place)) := by
  have lengthEq : (text.drop place).length = text.length - place := List.length_drop
  have wordLe := (List.takeWhile_prefix Byte.isWord (l := text.drop place)).length_le
  have wordEq := List.prefix_iff_eq_take.mp
    (List.takeWhile_prefix Byte.isWord (l := text.drop place))
  have afterEq := List.dropWhile_eq_drop Byte.isWord (text.drop place)
  unfold bareWord? Lexeme.bareWord
  generalize (text.drop place).takeWhile Byte.isWord = word at *
  have blanksLe := (List.takeWhile_prefix Byte.isBlank
    (l := text.drop (place + word.length))).length_le
  have nextEq := List.dropWhile_eq_drop Byte.isBlank (text.drop (place + word.length))
  rw [List.length_drop] at blanksLe
  rw [List.drop_drop] at afterEq nextEq
  have wordInside : place + word.length ≤ text.length := by omega
  have blanksInside : place + word.length +
      ((text.drop (place + word.length)).takeWhile Byte.isBlank).length ≤ text.length := by
    omega
  simp only [slice?_of_le (Nat.le_add_right place word.length) wordInside,
    drop?_of_le blanksInside, Option.bind_eq_bind, Option.bind_some]
  rw [← nextEq, wordKind_dropWhile_isBlank, afterEq, List.drop_take, Nat.add_sub_cancel_left,
    ← wordEq]
  rfl

theorem word?_eq (grammar : Grammar) (inside : place < text.length) :
    word? grammar text place text[place] = some (Lexeme.word? grammar (text.drop place)) := by
  have placeLe := Nat.le_of_lt inside
  have headEq : (text.drop place).head?.any Byte.isWordStart = Byte.isWordStart text[place] := by
    rw [List.drop_eq_getElem_cons inside]
    rfl
  simp only [word?, Lexeme.word?, headEq, rawString?_eq grammar placeLe,
    prefixedQuoted?_eq grammar placeLe, bareWord?_eq grammar placeLe]
  split
  · cases Lexeme.rawString? grammar (text.drop place) with
    | some literal => rfl
    | none => cases Lexeme.prefixedQuoted? grammar (text.drop place) <;> rfl
  · rfl

/-! ## The scanner -/

theorem orElse_some (first second : Option Lexeme) :
    orElse (some first) (some second) = some (first.or second) := by
  cases first <;> rfl

theorem read?_eq (grammar : Grammar) (inside : place < text.length) :
    read? grammar text place =
      some (Lexeme.read grammar (text.take place).reverse (text.drop place)) := by
  have placeLe := Nat.le_of_lt inside
  simp only [read?, operator?, Lexeme.read, List.getElem?_eq_getElem inside, drop?_of_le placeLe,
    Option.bind_eq_bind, Option.bind_some, lineJoin?_eq inside, lineComment?_eq grammar placeLe,
    blockComment?_eq grammar placeLe, directive?_eq grammar inside, header?_eq grammar inside,
    quoted?_eq inside, word?_eq grammar inside, Option.pure_def, orElse_some, Option.or_assoc]
  cases Option.or _ _ <;> rfl

theorem lexeme?_eq (lexer : Lexer) (inside : place < text.length) :
    lexeme? lexer text place = some (lexer.lexemeAt text place) := by
  cases lexer with
  | plain => rw [lexeme?, drop?_of_le (Nat.le_of_lt inside)]; rfl
  | table grammar => exact read?_eq grammar inside

/-- The scanner with checked access never fails, and finds the tokens of the
lexer. -/
theorem tokensFrom?_eq (lexer : Lexer) (text : Bytes) (place : Nat) :
    tokensFrom? lexer text place = some (lexer.tokensFrom text place) := by
  refine lexer.tokensFrom_induction (motive := fun place tokens =>
    tokensFrom? lexer text place = some tokens) ?_ ?_ place
  · intro place outside
    rw [tokensFrom?, if_neg (Nat.not_lt.mpr outside)]
  · intro place inside ih
    have lengthPos := (lexer.lexemeAt_fits inside).length_pos
    rw [tokensFrom?, if_pos inside, lexeme?_eq lexer inside]
    simp only [Option.bind_eq_bind, Option.bind_some, if_pos lengthPos]
    rw [show place + (lexer.lexemeAt text place).length = (lexer.tokenAt text place).stop from rfl,
      ih]
    rfl

end Highlight.Cursor

namespace Highlight.Lexer

/-- From every offset on, the tokens of a text lie side by side up to its end,
whatever the bytes and whatever the table; past the end there are none.  No
access of the scanner is out of range, and no place is without a lexeme of at
least one byte. -/
theorem tokensFrom_tiles (lexer : Lexer) (text : Bytes) (start : Nat) :
    (start ≤ text.length → Token.Tiles start (lexer.tokensFrom text start) text.length) ∧
      (text.length ≤ start → lexer.tokensFrom text start = []) ∧
      Cursor.tokensFrom? lexer text start = some (lexer.tokensFrom text start) ∧
      ∀ before rest : Bytes, rest ≠ [] → (lexer.lexeme before rest).length ≠ 0 := by
  refine ⟨lexer.tokensFrom_tiles_of_le, lexer.tokensFrom_of_le,
    Cursor.tokensFrom?_eq lexer text start, ?_⟩
  intro before rest nonempty
  exact Nat.ne_of_gt (lexer.lexeme_fits before nonempty).length_pos

end Highlight.Lexer
