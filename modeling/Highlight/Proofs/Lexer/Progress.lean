import Highlight.Lexer.Basic
import Highlight.Proofs.List
import Highlight.Proofs.Text.Byte

/-!
# Every lexeme covers something that is there

Each rule of a lexer gives a lexeme of at least one byte that does not reach
past the end of the text, whatever the bytes and whatever the table.  The rules
are taken one by one, and `Lexeme.read_induction` puts them together: what
holds of every rule's lexeme holds of the lexeme that is read.
-/

namespace Highlight

namespace Lexeme

/-- The lexeme covers at least one byte and only bytes of `rest`. -/
structure Fits (rest : Bytes) (found : Lexeme) : Prop where
  length_pos : 0 < found.length
  length_le : found.length ≤ rest.length

/-! ## Space and line breaks -/

theorem spaceLength_le (rest : Bytes) : spaceLength rest ≤ rest.length := by
  induction rest with
  | nil => simp [spaceLength]
  | cons b rest ih =>
      simp only [spaceLength, List.length_cons]
      split
      · omega
      · split <;> omega

theorem space?_fits {rest : Bytes} {found : Lexeme} (foundEq : space? rest = some found) :
    found.Fits rest := by
  cases rest with
  | nil => simp [space?] at foundEq
  | cons b rest =>
      simp only [space?, Option.ite_none_right_eq_some, Option.some.injEq] at foundEq
      obtain ⟨isSpace, rfl⟩ := foundEq
      refine ⟨?_, spaceLength_le _⟩
      simp only [Byte.isSpace, Bool.or_eq_true, beq_iff_eq] at isSpace
      rcases isSpace with rfl | inline
      · simp [spaceLength]
      · simp only [spaceLength, inline, if_true]
        split <;> omega

theorem lineBreakLength?_le {rest : Bytes} {length : Nat}
    (lengthEq : Bytes.lineBreakLength? rest = some length) : length ≤ rest.length := by
  cases rest with
  | nil => simp [Bytes.lineBreakLength?] at lengthEq
  | cons b rest =>
      simp only [Bytes.lineBreakLength?] at lengthEq
      split at lengthEq
      · simp only [Option.some.injEq] at lengthEq
        simp [← lengthEq]
      · simp only [Option.ite_none_right_eq_some, Option.some.injEq] at lengthEq
        obtain ⟨⟨_, newlineNext⟩, rfl⟩ := lengthEq
        cases rest with
        | nil => simp at newlineNext
        | cons _ _ => simp

theorem lineJoin?_fits {rest : Bytes} {found : Lexeme} (foundEq : lineJoin? rest = some found) :
    found.Fits rest := by
  cases rest with
  | nil => simp [lineJoin?] at foundEq
  | cons b rest =>
      simp only [lineJoin?, Option.ite_none_right_eq_some, Option.map_eq_some_iff] at foundEq
      obtain ⟨_, length, lengthEq, rfl⟩ := foundEq
      have := lineBreakLength?_le lengthEq
      exact ⟨by dsimp only; omega, by simp only [List.length_cons]; omega⟩

/-! ## Comments -/

theorem lineCommentTail_le (before rest : Bytes) :
    lineCommentTail before rest ≤ rest.length := by
  induction rest generalizing before with
  | nil => simp [lineCommentTail]
  | cons b rest ih =>
      have := ih (b :: before)
      simp only [lineCommentTail, List.length_cons]
      split <;> omega

/-- The bytes behind a marker together with the marker are all bytes. -/
theorem length_eq_of_isPrefixOf {marker rest : Bytes} (isPrefix : marker.isPrefixOf rest = true) :
    marker.length + (rest.drop marker.length).length = rest.length := by
  have := (List.isPrefixOf_iff_prefix.mp isPrefix).length_le
  simp only [List.length_drop]
  omega

theorem length_pos_of_not_isEmpty {marker : Bytes} (nonempty : (!marker.isEmpty) = true) :
    0 < marker.length := by
  cases marker with
  | nil => simp at nonempty
  | cons _ _ => simp

theorem lineComment?_fits {grammar : Grammar} {before rest : Bytes} {found : Lexeme}
    (foundEq : lineComment? grammar before rest = some found) : found.Fits rest := by
  simp only [lineComment?, Option.bind_eq_some_iff, lineCommentWith?,
    Option.ite_none_right_eq_some, Bool.and_eq_true, Option.some.injEq] at foundEq
  obtain ⟨marker, _, ⟨nonempty, isPrefix⟩, rfl⟩ := foundEq
  have markerPos := length_pos_of_not_isEmpty nonempty
  have lengthEq := length_eq_of_isPrefixOf isPrefix
  have tailLe := lineCommentTail_le ((Utf8.bytes marker).reverse ++ before)
    (rest.drop (Utf8.bytes marker).length)
  exact ⟨by dsimp only; omega, by dsimp only; omega⟩

@[simp]
theorem blockCommentTail_nil (closing : Bytes) : blockCommentTail closing [] = 0 := by
  cases closing <;> simp [blockCommentTail, Bytes.find?]

/-- A block comment ends with the closing marker, or goes on by one byte. -/
theorem blockCommentTail_cons (closing : Bytes) (b : UInt8) (rest : Bytes) :
    blockCommentTail closing (b :: rest) =
      if closing.isPrefixOf (b :: rest) then closing.length
      else 1 + blockCommentTail closing rest := by
  simp only [blockCommentTail, Bytes.find?]
  by_cases isPrefix : closing.isPrefixOf (b :: rest) = true
  · simp [isPrefix]
  · simp only [isPrefix, if_false, Bool.false_eq_true]
    cases Bytes.find? closing rest with
    | none => simp [Nat.add_comm]
    | some offset => simp only [Option.map_some]; omega

theorem blockCommentTail_le (closing rest : Bytes) :
    blockCommentTail closing rest ≤ rest.length := by
  induction rest with
  | nil => simp
  | cons b rest ih =>
      rw [blockCommentTail_cons]
      split
      · rename_i isPrefix
        exact (List.isPrefixOf_iff_prefix.mp isPrefix).length_le
      · simp only [List.length_cons]
        omega

theorem blockComment?_fits {grammar : Grammar} {rest : Bytes} {found : Lexeme}
    (foundEq : blockComment? grammar rest = some found) : found.Fits rest := by
  simp only [blockComment?, Option.bind_eq_some_iff, blockCommentWith?,
    Option.ite_none_right_eq_some, Bool.and_eq_true, Option.some.injEq] at foundEq
  obtain ⟨markers, _, ⟨nonempty, isPrefix⟩, rfl⟩ := foundEq
  have openingPos := length_pos_of_not_isEmpty nonempty
  have lengthEq := length_eq_of_isPrefixOf isPrefix
  have tailLe := blockCommentTail_le (Utf8.bytes markers.closing)
    (rest.drop (Utf8.bytes markers.opening).length)
  exact ⟨by dsimp only; omega, by dsimp only; omega⟩

/-! ## Directives and header names -/

theorem directiveTail_le (rest : Bytes) : directiveTail rest ≤ rest.length := by
  have splitEq := List.length_takeWhile_add_dropWhile Byte.isBlank rest
  have wordLe := (List.takeWhile_prefix Byte.isWord (l := rest.dropWhile Byte.isBlank)).length_le
  simp only [directiveTail]
  split <;> omega

theorem directive?_fits {grammar : Grammar} {before rest : Bytes} {found : Lexeme}
    (foundEq : directive? grammar before rest = some found) : found.Fits rest := by
  cases rest with
  | nil => simp [directive?] at foundEq
  | cons b rest =>
      simp only [directive?, Option.ite_none_right_eq_some, Option.some.injEq] at foundEq
      obtain ⟨_, rfl⟩ := foundEq
      have := directiveTail_le rest
      exact ⟨by dsimp only; omega, by simp only [List.length_cons]; omega⟩

theorem headerTail_le (rest : Bytes) : headerTail rest ≤ rest.length := by
  induction rest with
  | nil => simp [headerTail]
  | cons b rest ih =>
      simp only [headerTail, List.length_cons]
      split
      · omega
      · split <;> omega

theorem header?_fits {grammar : Grammar} {before rest : Bytes} {found : Lexeme}
    (foundEq : header? grammar before rest = some found) : found.Fits rest := by
  cases rest with
  | nil => simp [header?] at foundEq
  | cons b rest =>
      simp only [header?, Option.ite_none_right_eq_some, Option.some.injEq] at foundEq
      obtain ⟨_, rfl⟩ := foundEq
      have := headerTail_le rest
      exact ⟨by dsimp only; omega, by simp only [List.length_cons]; omega⟩

/-! ## Quoted literals -/

@[simp]
theorem quotedTail_nil (quote : UInt8) : quotedTail quote [] = 0 := by
  simp [quotedTail]

theorem quotedTail_escape (quote : UInt8) {escaped : UInt8}
    (notReturn : escaped ≠ Byte.carriageReturn) (rest : Bytes) :
    quotedTail quote (Byte.backslash :: escaped :: rest) = 2 + quotedTail quote rest := by
  rw [quotedTail.eq_def]
  simp [notReturn]

theorem quotedTail_escapedReturn (quote : UInt8) {next : UInt8} (notNewline : next ≠ Byte.newline)
    (rest : Bytes) :
    quotedTail quote (Byte.backslash :: Byte.carriageReturn :: next :: rest) =
      2 + quotedTail quote (next :: rest) := by
  rw [quotedTail.eq_def]
  simp [notNewline]

theorem quotedTail_escapedBreak (quote : UInt8) (rest : Bytes) :
    quotedTail quote (Byte.backslash :: Byte.carriageReturn :: Byte.newline :: rest) =
      3 + quotedTail quote rest := by
  rw [quotedTail.eq_def]
  simp

/-- A backslash in a literal takes the line break behind it along, or one byte
if there is one. -/
theorem quotedTail_backslash (quote : UInt8) (rest : Bytes) :
    quotedTail quote (Byte.backslash :: rest) =
      min (1 + (Bytes.lineBreakLength? rest).getD 1) (1 + rest.length) +
        quotedTail quote (rest.drop ((Bytes.lineBreakLength? rest).getD 1)) := by
  rcases rest with _ | ⟨escaped, rest⟩
  · simp [quotedTail, Bytes.lineBreakLength?]
  · by_cases carriageReturn : escaped = Byte.carriageReturn
    · subst escaped
      rcases rest with _ | ⟨next, rest⟩
      · simp [quotedTail, Bytes.lineBreakLength?]
      · by_cases newline : next = Byte.newline
        · subst next
          rw [quotedTail_escapedBreak]
          simp [Bytes.lineBreakLength?]
          omega
        · rw [quotedTail_escapedReturn quote newline]
          simp [Bytes.lineBreakLength?, newline]
          omega
    · rw [quotedTail_escape quote carriageReturn]
      by_cases newline : escaped = Byte.newline
      · simp [Bytes.lineBreakLength?, newline]
        omega
      · simp [Bytes.lineBreakLength?, newline, carriageReturn]
        omega

theorem quotedTail_cons {quote b : UInt8} (notBackslash : b ≠ Byte.backslash) (rest : Bytes) :
    quotedTail quote (b :: rest) =
      if b = Byte.newline then 0 else if b = quote then 1 else 1 + quotedTail quote rest := by
  rw [quotedTail.eq_def]
  simp only [notBackslash, if_false]

theorem quotedTail_le (quote : UInt8) (rest : Bytes) : quotedTail quote rest ≤ rest.length := by
  fun_induction quotedTail quote rest <;> simp only [List.length_cons, List.length_nil] at * <;>
    omega

theorem quoted?_fits {rest : Bytes} {found : Lexeme} (foundEq : quoted? rest = some found) :
    found.Fits rest := by
  cases rest with
  | nil => simp [quoted?] at foundEq
  | cons b rest =>
      simp only [quoted?, Option.map_eq_some_iff] at foundEq
      obtain ⟨_, _, rfl⟩ := foundEq
      have := quotedTail_le b rest
      exact ⟨by dsimp only; omega, by simp only [List.length_cons]; omega⟩

/-- The bytes that end a raw string with the given delimiter. -/
def rawClosing (delimiter : Bytes) : Bytes :=
  Byte.closeParen :: (delimiter ++ [Byte.doubleQuote])

/-- Behind its opening parenthesis a raw string runs like a block comment. -/
theorem rawTail?_eq (rest : Bytes) :
    rawTail? rest =
      if (rest.takeWhile isRawDelimiter).length ≤ maxRawDelimiter ∧
          (rest.dropWhile isRawDelimiter).head? = some Byte.openParen then
        some ((rest.takeWhile isRawDelimiter).length + 1 +
          blockCommentTail (rawClosing (rest.takeWhile isRawDelimiter))
            ((rest.dropWhile isRawDelimiter).drop 1))
      else none := by
  simp only [rawTail?]
  split
  · rename_i opens
    have splitEq := List.length_takeWhile_add_dropWhile isRawDelimiter rest
    have afterPos : 0 < (rest.dropWhile isRawDelimiter).length := by
      cases afterEq : rest.dropWhile isRawDelimiter with
      | nil => simp [afterEq] at opens
      | cons _ _ => simp
    simp only [blockCommentTail, rawClosing]
    cases Bytes.find? _ ((rest.dropWhile isRawDelimiter).drop 1) with
    | none => simp only [List.length_drop, Option.some.injEq]; omega
    | some offset => simp only [Option.some.injEq]; omega
  · rfl

theorem rawTail?_le {rest : Bytes} {length : Nat} (lengthEq : rawTail? rest = some length) :
    length ≤ rest.length := by
  rw [rawTail?_eq, Option.ite_none_right_eq_some, Option.some.injEq] at lengthEq
  obtain ⟨⟨_, opens⟩, rfl⟩ := lengthEq
  have splitEq := List.length_takeWhile_add_dropWhile isRawDelimiter rest
  have tailLe := blockCommentTail_le (rawClosing (rest.takeWhile isRawDelimiter))
    ((rest.dropWhile isRawDelimiter).drop 1)
  cases afterEq : rest.dropWhile isRawDelimiter with
  | nil => simp [afterEq] at opens
  | cons _ after =>
      simp only [afterEq, List.length_cons, List.drop_succ_cons, List.drop_zero] at *
      omega

/-! ## Numerals -/

theorem digitsLength_le (isDigit : UInt8 → Bool) (separators seen : Bool) (rest : Bytes) :
    digitsLength isDigit separators seen rest ≤ rest.length := by
  fun_induction digitsLength isDigit separators seen rest <;>
    simp only [List.length_cons, List.length_nil] at * <;> omega

theorem fractionLength_le (isDigit : UInt8 → Bool) (separators : Bool) (rest : Bytes) :
    fractionLength isDigit separators rest ≤ rest.length := by
  cases rest with
  | nil => simp [fractionLength]
  | cons b rest =>
      have := digitsLength_le isDigit separators false rest
      simp only [fractionLength, List.length_cons]
      split <;> omega

theorem signLength_le (rest : Bytes) : signLength rest ≤ rest.length := by
  cases rest with
  | nil => simp [signLength]
  | cons b rest =>
      simp only [signLength, List.length_cons]
      split <;> omega

theorem exponentLength_le (isMark : UInt8 → Bool) (separators : Bool) (rest : Bytes) :
    exponentLength isMark separators rest ≤ rest.length := by
  cases rest with
  | nil => simp [exponentLength]
  | cons b rest =>
      have signLe := signLength_le rest
      have digitsLe := digitsLength_le Byte.isDigit separators false (rest.drop (signLength rest))
      simp only [List.length_drop] at digitsLe
      simp only [exponentLength, List.length_cons]
      split <;> omega

theorem realLength_le (isDigit isMark : UInt8 → Bool) (separators : Bool) (rest : Bytes) :
    realLength isDigit isMark separators rest ≤ rest.length := by
  simp only [realLength]
  have wholeLe := digitsLength_le isDigit separators false rest
  generalize digitsLength isDigit separators false rest = whole at *
  have fractionLe := fractionLength_le isDigit separators (rest.drop whole)
  generalize fractionLength isDigit separators (rest.drop whole) = fraction at *
  have exponentLe := exponentLength_le isMark separators (rest.drop (whole + fraction))
  simp only [List.length_drop] at *
  omega

/-- A mark of the base stands behind the zero that it follows. -/
theorem two_le_length_of_start {rest : Bytes} {p : UInt8 → Bool}
    (starts : (rest.head? == some 0x30 && (rest.drop 1).head?.any p) = true) :
    2 ≤ rest.length := by
  rcases rest with _ | ⟨_, _ | ⟨_, _⟩⟩ <;> simp at starts ⊢

theorem numeralBody_le (separators : Bool) (rest : Bytes) :
    numeralBody separators rest ≤ rest.length := by
  simp only [numeralBody]
  split
  · rename_i hexadecimal
    have := two_le_length_of_start hexadecimal
    have := realLength_le Byte.isHexDigit isHexMark separators (rest.drop 2)
    simp only [List.length_drop] at *
    omega
  · split
    · rename_i binary
      have := two_le_length_of_start binary
      have := digitsLength_le Byte.isBinaryDigit separators false (rest.drop 2)
      simp only [List.length_drop] at *
      omega
    · exact realLength_le _ _ _ _

theorem numeralLength_le (separators : Bool) (rest : Bytes) :
    numeralLength separators rest ≤ rest.length := by
  have bodyLe := numeralBody_le separators rest
  have suffixLe := (List.takeWhile_prefix Byte.isWord
    (l := rest.drop (numeralBody separators rest))).length_le
  simp only [numeralLength, List.length_drop] at *
  omega

/-- A numeral has a digit or a point in front of one. -/
theorem numeralBody_pos (separators : Bool) {rest : Bytes} (starts : isNumeralStart rest = true) :
    0 < numeralBody separators rest := by
  cases rest with
  | nil => simp [isNumeralStart] at starts
  | cons b rest =>
      simp only [numeralBody]
      split
      · omega
      · split
        · omega
        · simp only [isNumeralStart, Bool.or_eq_true, Bool.and_eq_true, beq_iff_eq] at starts
          rcases starts with digit | ⟨rfl, _⟩
          · simp only [realLength, digitsLength, digit, if_true]
            omega
          · have notDigit : Byte.isDigit Byte.point = false := by decide
            have pointFirst :
                digitsLength Byte.isDigit separators false (Byte.point :: rest) = 0 := by
              simp [digitsLength, notDigit]
            simp only [realLength, pointFirst, List.drop_zero, fractionLength, if_true]
            omega

theorem numeral?_fits {grammar : Grammar} {rest : Bytes} {found : Lexeme}
    (foundEq : numeral? grammar rest = some found) : found.Fits rest := by
  simp only [numeral?, Option.ite_none_right_eq_some, Option.some.injEq] at foundEq
  obtain ⟨starts, rfl⟩ := foundEq
  have bodyPos := numeralBody_pos grammar.digitSeparators starts
  refine ⟨?_, numeralLength_le _ _⟩
  simp only [numeralLength]
  omega

/-! ## Words and prefixed literals -/

/-- The longest match is one of the texts, it is not empty, and it stands at
the front. -/
theorem longestMatch?_eq_some {texts : List String} {rest : Bytes} {length : Nat}
    (lengthEq : Grammar.longestMatch? texts rest = some length) :
    ∃ text ∈ texts, Utf8.bytes text ≠ [] ∧ Utf8.bytes text <+: rest ∧
      (Utf8.bytes text).length = length := by
  have member := List.max?_mem lengthEq
  simp only [List.mem_map, List.mem_filter, Bool.and_eq_true, Bool.not_eq_true',
    List.isEmpty_eq_false_iff, List.isPrefixOf_iff_prefix] at member
  obtain ⟨_, ⟨⟨text, textMem, rfl⟩, nonempty, isPrefix⟩, lengthEq⟩ := member
  exact ⟨text, textMem, nonempty, isPrefix, lengthEq⟩

/-- A text that stands at the front is matched, or a longer one is. -/
theorem exists_longestMatch? {texts : List String} {text : String} {rest : Bytes}
    (listed : text ∈ texts) (nonempty : Utf8.bytes text ≠ []) (stands : Utf8.bytes text <+: rest) :
    ∃ length, Grammar.longestMatch? texts rest = some length ∧
      (Utf8.bytes text).length ≤ length := by
  have member : (Utf8.bytes text).length ∈ ((texts.map Utf8.bytes).filter
      fun text => !text.isEmpty && text.isPrefixOf rest).map List.length := by
    refine List.mem_map_of_mem (List.mem_filter.mpr ⟨List.mem_map_of_mem listed, ?_⟩)
    simp [nonempty, stands]
  rw [Grammar.longestMatch?]
  cases maxEq : (((texts.map Utf8.bytes).filter
      fun text => !text.isEmpty && text.isPrefixOf rest).map List.length).max? with
  | none =>
      rw [List.max?_eq_none_iff.mp maxEq] at member
      cases member
  | some length => exact ⟨length, rfl, (List.max?_eq_some_iff.mp maxEq).2 _ member⟩

theorem prefixLength_le (grammar : Grammar) (rest : Bytes) :
    prefixLength grammar rest ≤ rest.length := by
  simp only [prefixLength, Grammar.stringPrefixLength?]
  cases lengthEq : Grammar.longestMatch? grammar.stringPrefixes rest with
  | none => simp
  | some length =>
      obtain ⟨text, _, _, isPrefix, rfl⟩ := longestMatch?_eq_some lengthEq
      exact isPrefix.length_le

theorem rawString?_fits {grammar : Grammar} {rest : Bytes} {found : Lexeme}
    (foundEq : rawString? grammar rest = some found) : found.Fits rest := by
  simp only [rawString?, Option.ite_none_right_eq_some, Bool.and_eq_true,
    Option.map_eq_some_iff] at foundEq
  obtain ⟨⟨_, opens⟩, tail, tailEq, rfl⟩ := foundEq
  have opensLe := (List.isPrefixOf_iff_prefix.mp opens).length_le
  have tailLe := rawTail?_le tailEq
  simp only [List.length_drop, List.length_cons, List.length_nil] at *
  exact ⟨by dsimp only; omega, by dsimp only; omega⟩

theorem prefixedQuoted?_fits {grammar : Grammar} {rest : Bytes} {found : Lexeme}
    (foundEq : prefixedQuoted? grammar rest = some found) : found.Fits rest := by
  simp only [prefixedQuoted?, Option.ite_none_left_eq_some, Option.map_eq_some_iff] at foundEq
  obtain ⟨prefixNe, literal, literalEq, rfl⟩ := foundEq
  have literalLe := (quoted?_fits literalEq).length_le
  have prefixLe := prefixLength_le grammar rest
  simp only [List.length_drop] at literalLe
  exact ⟨by dsimp only; omega, by dsimp only; omega⟩

/-- Whatever starts a word also goes on in one. -/
theorem isWord_of_isWordStart {b : UInt8} (starts : Byte.isWordStart b = true) :
    Byte.isWord b = true := by
  simp only [Byte.isWordStart, Byte.isWord, Byte.isAlphanumeric, Bool.or_eq_true] at *
  rcases starts with letter | underscore
  · exact Or.inl (Or.inl letter)
  · exact Or.inr underscore

theorem bareWord_fits (grammar : Grammar) {rest : Bytes}
    (starts : rest.head?.any Byte.isWordStart = true) : (bareWord grammar rest).Fits rest := by
  cases rest with
  | nil => simp at starts
  | cons b rest =>
      have isWord : Byte.isWord b = true := isWord_of_isWordStart (by simpa using starts)
      refine ⟨?_, (List.takeWhile_prefix _).length_le⟩
      simp [bareWord, isWord]

/-- Whatever starts like a word is a raw string, a prefixed literal or the word. -/
theorem word?_cases {grammar : Grammar} {rest : Bytes} {found : Lexeme}
    (foundEq : word? grammar rest = some found) :
    rest.head?.any Byte.isWordStart = true ∧
      (rawString? grammar rest = some found ∨ prefixedQuoted? grammar rest = some found ∨
        found = bareWord grammar rest) := by
  rw [word?, Option.ite_none_right_eq_some, Option.some.injEq] at foundEq
  obtain ⟨starts, rfl⟩ := foundEq
  refine ⟨starts, ?_⟩
  cases rawString? grammar rest with
  | some literal => exact Or.inl rfl
  | none =>
      cases prefixedQuoted? grammar rest with
      | some literal => exact Or.inr (Or.inl rfl)
      | none => exact Or.inr (Or.inr rfl)

theorem word?_fits {grammar : Grammar} {rest : Bytes} {found : Lexeme}
    (foundEq : word? grammar rest = some found) : found.Fits rest := by
  obtain ⟨starts, rawEq | prefixedEq | rfl⟩ := word?_cases foundEq
  · exact rawString?_fits rawEq
  · exact prefixedQuoted?_fits prefixedEq
  · exact bareWord_fits grammar starts

/-! ## Punctuation -/

theorem bracket?_fits {rest : Bytes} {found : Lexeme} (foundEq : bracket? rest = some found) :
    found.Fits rest := by
  cases rest with
  | nil => simp [bracket?] at foundEq
  | cons b rest =>
      simp only [bracket?] at foundEq
      split at foundEq
      · simp only [Option.some.injEq] at foundEq
        subst found
        exact ⟨by simp, by simp⟩
      · simp only [Option.ite_none_right_eq_some, Option.some.injEq] at foundEq
        obtain ⟨_, rfl⟩ := foundEq
        exact ⟨by simp, by simp⟩

theorem operator?_fits {grammar : Grammar} {rest : Bytes} {found : Lexeme}
    (foundEq : operator? grammar rest = some found) : found.Fits rest := by
  simp only [operator?, Grammar.operatorLength?, Option.map_eq_some_iff] at foundEq
  obtain ⟨length, lengthEq, rfl⟩ := foundEq
  obtain ⟨text, _, nonempty, isPrefix, rfl⟩ := longestMatch?_eq_some lengthEq
  exact ⟨List.length_pos_iff.mpr nonempty, isPrefix.length_le⟩

theorem unknown_fits {rest : Bytes} (nonempty : rest ≠ []) : (unknown rest).Fits rest := by
  cases rest with
  | nil => exact absurd rfl nonempty
  | cons b rest =>
      have takeLe := (List.takeWhile_prefix Byte.isContinuation
        (l := rest.take (expectedContinuation b))).length_le
      simp only [List.length_take] at takeLe
      refine ⟨?_, ?_⟩ <;> simp only [unknown, characterLength, List.length_cons] <;> omega

/-! ## All rules together -/

/-- What holds of the lexeme of every rule, and of the error where neither a numeral
nor a word starts, holds of the lexeme that is read. -/
theorem read_induction {grammar : Grammar} {before rest : Bytes} {motive : Lexeme → Prop}
    (ofSpace : ∀ found, space? rest = some found → motive found)
    (ofLineJoin : ∀ found, lineJoin? rest = some found → motive found)
    (ofLineComment : ∀ found, lineComment? grammar before rest = some found → motive found)
    (ofBlockComment : ∀ found, blockComment? grammar rest = some found → motive found)
    (ofDirective : ∀ found, directive? grammar before rest = some found → motive found)
    (ofHeader : ∀ found, header? grammar before rest = some found → motive found)
    (ofQuoted : ∀ found, quoted? rest = some found → motive found)
    (ofNumeral : ∀ found, numeral? grammar rest = some found → motive found)
    (ofWord : ∀ found, word? grammar rest = some found → motive found)
    (ofBracket : ∀ found, bracket? rest = some found → motive found)
    (ofOperator : ∀ found, operator? grammar rest = some found → motive found)
    (ofUnknown : numeral? grammar rest = none → word? grammar rest = none →
      motive (unknown rest)) :
    motive (read grammar before rest) := by
  unfold read
  cases chosenEq : Option.or _ (operator? grammar rest) with
  | none =>
      simp only [Option.or_eq_none_iff] at chosenEq
      obtain ⟨⟨⟨⟨_, noNumeral⟩, noWord⟩, _⟩, _⟩ := chosenEq
      exact ofUnknown noNumeral noWord
  | some found =>
      simp only [Option.or_eq_some_iff] at chosenEq
      simp only [Option.getD_some]
      grind

theorem read_fits (grammar : Grammar) (before : Bytes) {rest : Bytes} (nonempty : rest ≠ []) :
    (read grammar before rest).Fits rest :=
  read_induction (fun _ => space?_fits) (fun _ => lineJoin?_fits) (fun _ => lineComment?_fits)
    (fun _ => blockComment?_fits) (fun _ => directive?_fits) (fun _ => header?_fits)
    (fun _ => quoted?_fits) (fun _ => numeral?_fits) (fun _ => word?_fits)
    (fun _ => bracket?_fits) (fun _ => operator?_fits) (fun _ _ => unknown_fits nonempty)

theorem line_fits {rest : Bytes} (nonempty : rest ≠ []) : (line rest).Fits rest := by
  have lengthLe : ∀ bytes : Bytes, lineLength bytes ≤ bytes.length := by
    intro bytes
    induction bytes with
    | nil => simp [lineLength]
    | cons b bytes ih =>
        simp only [lineLength, List.length_cons]
        split <;> omega
  refine ⟨?_, lengthLe rest⟩
  cases rest with
  | nil => exact absurd rfl nonempty
  | cons b rest =>
      simp only [line, lineLength]
      split <;> omega

end Lexeme

namespace Lexer

/-- The lexeme at a place covers at least one byte and only bytes that are
there. -/
theorem lexeme_fits (lexer : Lexer) (before : Bytes) {rest : Bytes} (nonempty : rest ≠ []) :
    (lexer.lexeme before rest).Fits rest := by
  cases lexer with
  | plain => exact Lexeme.line_fits nonempty
  | table grammar => exact Lexeme.read_fits grammar before nonempty

/-- The guard against a lexeme without bytes is never needed. -/
theorem next_eq_lexeme (lexer : Lexer) (before : Bytes) {rest : Bytes} (nonempty : rest ≠ []) :
    lexer.next before rest = lexer.lexeme before rest := by
  have lengthPos := (lexer.lexeme_fits before nonempty).length_pos
  simp only [next]
  rw [if_neg (Nat.ne_of_gt lengthPos)]

end Lexer

end Highlight
