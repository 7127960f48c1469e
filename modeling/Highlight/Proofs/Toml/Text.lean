import Highlight.Toml.Printer
import Highlight.Toml.Text
import Mathlib.Tactic.SplitIfs

/-!
# Reading written TOML strings and keys

Whichever of the four sorts of strings the writer takes, the reader gives the text
back and stops behind its last quote.  What follows must not be a quote: up to two
more quotes would belong to a multi-line string, and one more would make an empty
string the start of one.  Keys are read back as well.
-/

namespace Highlight.Toml

/-! ## Escapes -/

/-- An escape for a character, from behind the backslash. -/
def Escapes (escape : List Char) (char : Char) : Prop :=
  ∀ rest, readEscape (escape ++ rest) = some (char, rest)

theorem escapes_letter {letter char : Char} (notCode : letter ≠ 'u') (notLong : letter ≠ 'U')
    (meant : escape? letter = some char) : Escapes [letter] char := by
  intro rest
  simp [readEscape, notCode, notLong, meant]

theorem number?_codeDigits {n : Nat} (lt : n < 0x80) :
    Hex.number? ['0', '0', Nat.digitChar (n / 16), (Nat.digitChar (n % 16)).toUpper] = some n := by
  have all : ∀ n < 0x80, Hex.number?
      ['0', '0', Nat.digitChar (n / 16), (Nat.digitChar (n % 16)).toUpper] = some n := by decide
  exact all n lt

theorem escapes_codeDigits {char : Char} (coded : needsEscape char = true) :
    Escapes (['u', '0', '0'] ++ codeDigits char) char := by
  have lt : char.toNat < 0x80 := by
    simp only [needsEscape, Bool.and_eq_true, Bool.or_eq_true, decide_eq_true_eq, beq_iff_eq]
      at coded
    omega
  have valid : Nat.isValidChar char.toNat := char.valid
  have read : codedChar? ['0', '0', Nat.digitChar (char.toNat / 16),
      (Nat.digitChar (char.toNat % 16)).toUpper] = some char := by
    rw [codedChar?, number?_codeDigits lt]
    simp [valid]
  intro rest
  simp [readEscape, codeDigits, read]

/-- Newlines apart, a character that needs no escape may stand wherever a comment may. -/
theorem isCommentChar_of_not_needsEscape {char : Char} (notCoded : needsEscape char = false) :
    char = '\n' ∨ isCommentChar char = true := by
  by_cases tab : char.toNat = 0x09
  · have same : char = '\t' := Char.toNat_inj.mp tab
    exact .inr (by simp [isCommentChar, same])
  by_cases newline : char.toNat = 0x0A
  · exact .inl (Char.toNat_inj.mp newline)
  · have printable : 0x20 ≤ char.toNat ∧ char.toNat ≠ 0x7F := by
      simpa [needsEscape, tab, newline] using notCoded
    exact .inr (by simp [isCommentChar, printable])

/-- Characters are escaped, or stand for themselves. -/
theorem writeChar_cases (char : Char) :
    (∃ escape, writeChar char = '\\' :: escape ∧ Escapes escape char) ∨
      (writeChar char = [char] ∧ char ≠ '\\' ∧ (char = '\n' ∨ isCommentChar char = true)) := by
  have letter {name meant : Char} (notCode : name ≠ 'u') (notLong : name ≠ 'U')
      (escaped : escape? name = some meant) (same : char = meant) :
      ∃ escape, ['\\', name] = '\\' :: escape ∧ Escapes escape char := by
    rw [same]
    exact ⟨[name], rfl, escapes_letter notCode notLong escaped⟩
  unfold writeChar
  split_ifs with backslash back tab form carriage coded
  · exact .inl (letter (by decide) (by decide) (by decide) backslash)
  · exact .inl (letter (by decide) (by decide) (by decide) back)
  · exact .inl (letter (by decide) (by decide) (by decide) tab)
  · exact .inl (letter (by decide) (by decide) (by decide) form)
  · exact .inl (letter (by decide) (by decide) (by decide) carriage)
  · exact .inl ⟨['u', '0', '0'] ++ codeDigits char, rfl, escapes_codeDigits coded⟩
  · have allowed := isCommentChar_of_not_needsEscape (Bool.eq_false_iff.mpr coded)
    exact .inr ⟨rfl, backslash, allowed⟩

/-! ## Basic strings -/

/-- The characters of an escape are passed over. -/
theorem readBasic_pending (escape rest : List Char) :
    readBasic escape.length (escape ++ rest) = readBasic 0 rest := by
  induction escape with
  | nil => rfl
  | cons char escape ih => rw [List.length_cons, List.cons_append, readBasic, ih]

theorem readBasic_escape {escape : List Char} {char : Char} (escapes : Escapes escape char)
    (rest : List Char) :
    readBasic 0 ('\\' :: (escape ++ rest)) = before char (readBasic 0 rest) := by
  rw [readBasic]
  simp [escapes rest, readBasic_pending]

theorem readBasic_plain {char : Char} (notQuote : char ≠ '"') (notEscape : char ≠ '\\')
    (allowed : isCommentChar char = true) (rest : List Char) :
    readBasic 0 (char :: rest) = before char (readBasic 0 rest) := by
  rw [readBasic]
  simp [notQuote, notEscape, allowed]

theorem basicBody_cons (char : Char) (chars : List Char) :
    basicBody (char :: chars) =
      (if char = '"' then ['\\', '"']
        else if char = '\n' then ['\\', 'n']
        else writeChar char) ++ basicBody chars :=
  List.flatMap_cons

/-- The body of a basic string is read through its closing quote. -/
theorem readBasic_basicBody (chars rest : List Char) :
    readBasic 0 (basicBody chars ++ '"' :: rest) = some (chars, rest) := by
  induction chars with
  | nil => simp [basicBody, readBasic]
  | cons char chars ih =>
      have step {escape : List Char} (escapes : Escapes escape char) :
          readBasic 0 ('\\' :: (escape ++ (basicBody chars ++ '"' :: rest))) =
            some (char :: chars, rest) := by
        rw [readBasic_escape escapes, ih]
        rfl
      rw [basicBody_cons, List.append_assoc]
      split
      · rename_i same
        subst same
        exact step (escapes_letter (by decide) (by decide) (by decide))
      split
      · rename_i same
        subst same
        exact step (escapes_letter (by decide) (by decide) (by decide))
      · rename_i notQuote notNewline
        rcases writeChar_cases char with ⟨escape, written, escapes⟩ | ⟨written, notEscape, allowed⟩
        · rw [written]
          exact step escapes
        · rw [written, List.singleton_append,
            readBasic_plain notQuote notEscape (allowed.resolve_left notNewline), ih]
          rfl

/-! ## Literal strings -/

/-- The body of a literal string is read through its closing quote. -/
theorem readLiteral_append {chars : List Char} (rest : List Char)
    (allowed : ∀ char ∈ chars, char ≠ '\'' ∧ isCommentChar char = true) :
    readLiteral (chars ++ '\'' :: rest) = some (chars, rest) := by
  induction chars with
  | nil => simp [readLiteral]
  | cons char chars ih =>
      rw [List.forall_mem_cons] at allowed
      rcases allowed with ⟨⟨notQuote, allowed⟩, others⟩
      rw [List.cons_append, readLiteral, if_neg notQuote, if_pos allowed, ih others]
      rfl

/-! ## Multi-line strings -/

/-- Quotes that stand before the closing ones belong to the body. -/
theorem closing_append {quote : Char} {rest : List Char} (notQuote : rest.head? ≠ some quote) :
    closing quote rest = ([], rest) ∧ closing quote (quote :: rest) = ([quote], rest) ∧
      closing quote (quote :: quote :: rest) = ([quote, quote], rest) := by
  cases rest with
  | nil => simp [closing]
  | cons char rest =>
      have differs : char ≠ quote := by simpa using notQuote
      simp [closing, differs]

/-- No closing quotes start in a body that neither ends here nor has two quotes here. -/
theorem isPrefixOf_append_eq_false {quote : Char} {body : List Char} (notEnd : body ≠ [])
    (notLast : body ≠ [quote]) (notTwo : [quote, quote].isPrefixOf body = false)
    (tail : List Char) : [quote, quote].isPrefixOf (body ++ tail) = false := by
  match body with
  | [] => exact absurd rfl notEnd
  | [char] =>
      have differs : quote ≠ char := by simpa [eq_comm] using notLast
      simp [List.isPrefixOf, differs]
  | first :: second :: body => simpa [List.isPrefixOf] using notTwo

theorem readLongLiteral_quote {rest : List Char}
    (notClosing : ['\'', '\''].isPrefixOf rest = false) :
    readLongLiteral ('\'' :: rest) = before '\'' (readLongLiteral rest) := by
  rw [readLongLiteral]
  simp [notClosing]

theorem readLongLiteral_plain {char : Char} (notQuote : char ≠ '\'')
    (allowed : char = '\n' ∨ isCommentChar char = true) (rest : List Char) :
    readLongLiteral (char :: rest) = before char (readLongLiteral rest) := by
  have notReturn : char ≠ '\r' := by
    rintro rfl
    simp [isCommentChar] at allowed
  rw [readLongLiteral]
  simp [notQuote, notReturn, allowed]

/-- The body of a multi-line literal string is read through its closing quotes. -/
theorem readLongLiteral_append {chars rest : List Char} (notQuote : rest.head? ≠ some '\'')
    (allowed : ∀ char ∈ chars, char = '\n' ∨ isCommentChar char = true)
    (noRun : hasRun 3 '\'' chars = false) :
    readLongLiteral (chars ++ '\'' :: '\'' :: '\'' :: rest) = some (chars, rest) := by
  rcases closing_append notQuote with ⟨closed, closedOne, closedTwo⟩
  induction chars with
  | nil => simp [readLongLiteral, closed]
  | cons char chars ih =>
      rw [List.forall_mem_cons] at allowed
      rw [hasRun, Bool.or_eq_false_iff] at noRun
      rcases allowed with ⟨allowed, others⟩
      rcases noRun with ⟨noRun, noLaterRun⟩
      by_cases same : char = '\''
      · subst same
        by_cases atEnd : chars = []
        · simp [atEnd, readLongLiteral, closedOne]
        by_cases oneLeft : chars = ['\'']
        · simp [oneLeft, readLongLiteral, closedTwo]
        · have notTwo : ['\'', '\''].isPrefixOf chars = false := by
            simpa [List.replicate] using noRun
          rw [List.cons_append, readLongLiteral_quote (isPrefixOf_append_eq_false atEnd oneLeft
            notTwo _), ih others noLaterRun]
          rfl
      · rw [List.cons_append, readLongLiteral_plain same allowed, ih others noLaterRun]
        rfl

theorem readLongBasic_pending (escape rest : List Char) :
    readLongBasic false escape.length (escape ++ rest) = readLongBasic false 0 rest := by
  induction escape with
  | nil => rfl
  | cons char escape ih => rw [List.length_cons, List.cons_append, readLongBasic, ih]

/-- A backslash that starts an escape does not end its line. -/
theorem endsLine_eq_false {chars rest : List Char} {char : Char}
    (read : readEscape chars = some (char, rest)) : endsLine chars = false := by
  cases chars with
  | nil => cases read
  | cons letter chars =>
      have ne {other : Char} (refused : ∀ chars, readEscape (other :: chars) = none) :
          letter ≠ other := by
        rintro rfl
        rw [refused] at read
        cases read
      have notSpace : letter ≠ ' ' := ne fun _ => by simp [readEscape, escape?]
      have notTab : letter ≠ '\t' := ne fun _ => by simp [readEscape, escape?]
      have notNewline : letter ≠ '\n' := ne fun _ => by simp [readEscape, escape?]
      have notReturn : letter ≠ '\r' := ne fun _ => by simp [readEscape, escape?]
      have unchanged : skipBlanks (letter :: chars) = letter :: chars := by
        simp [skipBlanks, isBlank, notSpace, notTab]
      rw [endsLine, unchanged, lineBreak?]
      · rfl
      · rintro rest
        simp [notNewline]
      · rintro rest
        simp [notReturn]

theorem readLongBasic_escape {escape : List Char} {char : Char} (escapes : Escapes escape char)
    (rest : List Char) :
    readLongBasic false 0 ('\\' :: (escape ++ rest)) =
      before char (readLongBasic false 0 rest) := by
  rw [readLongBasic]
  simp [escapes rest, endsLine_eq_false (escapes rest), readLongBasic_pending]

theorem readLongBasic_quote {rest : List Char} (notClosing : ['"', '"'].isPrefixOf rest = false) :
    readLongBasic false 0 ('"' :: rest) = before '"' (readLongBasic false 0 rest) := by
  rw [readLongBasic]
  simp [notClosing]

theorem readLongBasic_plain {char : Char} (notQuote : char ≠ '"') (notEscape : char ≠ '\\')
    (allowed : char = '\n' ∨ isCommentChar char = true) (rest : List Char) :
    readLongBasic false 0 (char :: rest) = before char (readLongBasic false 0 rest) := by
  have notReturn : char ≠ '\r' := by
    rintro rfl
    simp [isCommentChar] at allowed
  rw [readLongBasic]
  simp [notQuote, notEscape, notReturn, allowed]

theorem longBasicBody_cons_of_ne {char : Char} (notQuote : char ≠ '"') (quotes : Nat)
    (chars : List Char) :
    longBasicBody quotes (char :: chars) = writeChar char ++ longBasicBody 0 chars := by
  rw [longBasicBody, if_neg notQuote]
  split
  · rename_i newline
    subst newline
    rfl
  · rfl

/-- After two quotes, and before any other character, no quote is written. -/
theorem exists_longBasicBody_eq_cons {char : Char} {quotes : Nat} (chars : List Char)
    (escaped : char = '"' → quotes = 2) :
    ∃ first body, longBasicBody quotes (char :: chars) = first :: body ∧ first ≠ '"' := by
  by_cases same : char = '"'
  · rw [longBasicBody, if_pos same, if_pos (escaped same)]
    exact ⟨'\\', _, rfl, by decide⟩
  · rw [longBasicBody_cons_of_ne same]
    rcases writeChar_cases char with ⟨escape, written, -⟩ | ⟨written, -⟩
    · rw [written]
      exact ⟨'\\', _, rfl, by decide⟩
    · rw [written]
      exact ⟨char, _, rfl, same⟩

/-- Behind a quote that is written, no closing quotes start in the body. -/
theorem isPrefixOf_longBasicBody {chars : List Char} {quotes : Nat} (tail : List Char)
    (notEnd : chars ≠ []) (notLast : chars = ['"'] → quotes ≠ 0) (room : quotes < 2) :
    ['"', '"'].isPrefixOf (longBasicBody (quotes + 1) chars ++ tail) = false := by
  rcases List.exists_cons_of_ne_nil notEnd with ⟨next, chars, rfl⟩
  by_cases second : next = '"' ∧ quotes = 0
  · rcases second with ⟨rfl, rfl⟩
    have more : chars ≠ [] := by
      rintro rfl
      exact notLast rfl rfl
    rcases List.exists_cons_of_ne_nil more with ⟨third, chars, rfl⟩
    rcases exists_longBasicBody_eq_cons chars (fun _ : third = '"' => rfl) with
      ⟨first, body, written, notQuote⟩
    rw [longBasicBody, if_pos rfl, if_neg (by decide), written]
    simp [List.isPrefixOf, notQuote.symm]
  · rcases exists_longBasicBody_eq_cons chars (fun same : next = '"' => show quotes + 1 = 2 by
      have := not_and.mp second same
      omega) with ⟨first, body, written, notQuote⟩
    rw [written]
    simp [List.isPrefixOf, notQuote.symm]

/-- The body of a multi-line basic string is read through its closing quotes. -/
theorem readLongBasic_longBasicBody {chars rest : List Char} {quotes : Nat}
    (notQuote : rest.head? ≠ some '"') (few : quotes ≤ 2) :
    readLongBasic false 0 (longBasicBody quotes chars ++ '"' :: '"' :: '"' :: rest) =
      some (chars, rest) := by
  rcases closing_append notQuote with ⟨closed, closedOne, closedTwo⟩
  induction chars generalizing quotes with
  | nil => simp [longBasicBody, readLongBasic, closed]
  | cons char chars ih =>
      by_cases same : char = '"'
      · subst same
        rw [longBasicBody, if_pos rfl]
        split
        · have escapes : Escapes ['"'] '"' := escapes_letter (by decide) (by decide) (by decide)
          have read := readLongBasic_escape escapes
            (longBasicBody 0 chars ++ '"' :: '"' :: '"' :: rest)
          rw [ih (Nat.zero_le 2)] at read
          exact read
        · rename_i room
          by_cases atEnd : chars = []
          · simp [atEnd, longBasicBody, readLongBasic, closedOne]
          by_cases twoLeft : chars = ['"'] ∧ quotes = 0
          · simp [twoLeft, longBasicBody, readLongBasic, closedTwo]
          · have open_ := isPrefixOf_longBasicBody ('"' :: '"' :: '"' :: rest) atEnd
              (not_and.mp twoLeft) (Nat.lt_of_le_of_ne few room)
            rw [List.cons_append, readLongBasic_quote open_, ih (by omega)]
            rfl
      · rw [longBasicBody_cons_of_ne same, List.append_assoc]
        rcases writeChar_cases char with ⟨escape, written, escapes⟩ | ⟨written, notEscape, allowed⟩
        · rw [written, List.cons_append, readLongBasic_escape escapes, ih (Nat.zero_le 2)]
          rfl
        · rw [written, List.singleton_append, readLongBasic_plain same notEscape allowed,
            ih (Nat.zero_le 2)]
          rfl

/-! ## Strings of any sort -/

theorem readString_basic {chars : List Char} (notLong : ['"', '"'].isPrefixOf chars = false) :
    readString ('"' :: chars) =
      (readBasic 0 chars).map fun (body, after) => (String.ofList body, after) := by
  simp [readString, List.isPrefixOf, notLong]

theorem readString_literal {chars : List Char} (notLong : ['\'', '\''].isPrefixOf chars = false) :
    readString ('\'' :: chars) =
      (readLiteral chars).map fun (body, after) => (String.ofList body, after) := by
  simp [readString, List.isPrefixOf, notLong]

theorem readString_longBasic (chars : List Char) :
    readString ('"' :: '"' :: '"' :: chars) =
      (readLongBasic false 0 (dropFirstBreak chars)).map
        fun (body, after) => (String.ofList body, after) := by
  simp [readString, List.isPrefixOf]

theorem readString_longLiteral (chars : List Char) :
    readString ('\'' :: '\'' :: '\'' :: chars) =
      (readLongLiteral (dropFirstBreak chars)).map
        fun (body, after) => (String.ofList body, after) := by
  simp [readString, List.isPrefixOf]

theorem dropFirstBreak_cons {char : Char} (notNewline : char ≠ '\n') (notReturn : char ≠ '\r')
    (rest : List Char) : dropFirstBreak (char :: rest) = char :: rest := by
  rw [dropFirstBreak, lineBreak?]
  · rfl
  · simp [notNewline]
  · simp [notReturn]

/-- A line break in front of a body that holds one is the only thing dropped. -/
theorem dropFirstBreak_long {chars body : List Char}
    (noBreak : '\n' ∉ chars → ∃ first rest, body = first :: rest ∧ first ≠ '\n' ∧ first ≠ '\r') :
    dropFirstBreak ((if chars.contains '\n' then ['\n'] else []) ++ body) = body := by
  by_cases broken : '\n' ∈ chars
  · rw [if_pos (List.contains_iff_mem.mpr broken)]
    rfl
  · rw [if_neg (by simpa using broken)]
    rcases noBreak broken with ⟨first, rest, rfl, notNewline, notReturn⟩
    exact dropFirstBreak_cons notNewline notReturn rest

variable {rest : List Char}

theorem isPrefixOf_empty {quote : Char} (notQuote : rest.head? ≠ some quote) :
    [quote, quote].isPrefixOf (quote :: rest) = false := by
  cases rest with
  | nil => simp [List.isPrefixOf]
  | cons char rest =>
      have differs : quote ≠ char := by simpa [eq_comm] using notQuote
      simp [List.isPrefixOf, differs]

theorem readString_append_basic (notQuote : rest.head? ≠ some '"') (chars : List Char) :
    readString (basic chars ++ rest) = some (String.ofList chars, rest) := by
  have notLong : ['"', '"'].isPrefixOf (basicBody chars ++ '"' :: rest) = false := by
    cases chars with
    | nil => exact isPrefixOf_empty notQuote
    | cons char chars =>
        rw [basicBody_cons]
        split
        · simp [List.isPrefixOf]
        split
        · simp [List.isPrefixOf]
        · rename_i notQuote _
          rcases writeChar_cases char with ⟨escape, written, -⟩ | ⟨written, -⟩
          · simp [written, List.isPrefixOf]
          · simp [written, List.isPrefixOf, Ne.symm notQuote]
  rw [basic, List.cons_append, List.append_assoc, List.singleton_append, readString_basic notLong,
    readBasic_basicBody]
  rfl

theorem readString_append_literal (notQuote : rest.head? ≠ some '\'') {chars : List Char}
    (allowed : ∀ char ∈ chars, char ≠ '\'' ∧ isCommentChar char = true) :
    readString (literal chars ++ rest) = some (String.ofList chars, rest) := by
  have notLong : ['\'', '\''].isPrefixOf (chars ++ '\'' :: rest) = false := by
    cases chars with
    | nil => exact isPrefixOf_empty notQuote
    | cons char chars =>
        rw [List.forall_mem_cons] at allowed
        simp [List.isPrefixOf, Ne.symm allowed.1.1]
  rw [literal, List.cons_append, List.append_assoc, List.singleton_append,
    readString_literal notLong, readLiteral_append rest allowed]
  rfl

theorem long_append (quote : Char) (chars body : List Char) :
    long quote chars body ++ rest = quote :: quote :: quote ::
      ((if chars.contains '\n' then ['\n'] else []) ++
        (body ++ quote :: quote :: quote :: rest)) := by
  simp [long]

theorem readString_append_longBasic (notQuote : rest.head? ≠ some '"') (chars : List Char) :
    readString (long '"' chars (longBasicBody 0 chars) ++ rest) =
      some (String.ofList chars, rest) := by
  rw [long_append, readString_longBasic, dropFirstBreak_long,
    readLongBasic_longBasicBody notQuote (Nat.zero_le 2)]
  · rfl
  · intro noBreak
    cases chars with
    | nil => exact ⟨'"', _, rfl, by decide, by decide⟩
    | cons char chars =>
        by_cases same : char = '"'
        · subst same
          exact ⟨'"', _, rfl, by decide, by decide⟩
        · rw [longBasicBody_cons_of_ne same]
          rcases writeChar_cases char with ⟨escape, written, -⟩ | ⟨written, -, allowed⟩
          · rw [written]
            exact ⟨'\\', _, rfl, by decide, by decide⟩
          · rw [written]
            refine ⟨char, _, rfl, ?_, ?_⟩
            · rintro rfl
              exact noBreak List.mem_cons_self
            · rintro rfl
              simp [isCommentChar] at allowed

theorem readString_append_longLiteral (notQuote : rest.head? ≠ some '\'') {chars : List Char}
    (allowed : ∀ char ∈ chars, char = '\n' ∨ isCommentChar char = true)
    (noRun : hasRun 3 '\'' chars = false) :
    readString (long '\'' chars chars ++ rest) = some (String.ofList chars, rest) := by
  rw [long_append, readString_longLiteral, dropFirstBreak_long,
    readLongLiteral_append notQuote allowed noRun]
  · rfl
  · intro noBreak
    cases chars with
    | nil => exact ⟨'\'', _, rfl, by decide, by decide⟩
    | cons char chars =>
        refine ⟨char, _, rfl, ?_, ?_⟩
        · rintro rfl
          exact noBreak List.mem_cons_self
        · rintro rfl
          rw [List.forall_mem_cons] at allowed
          simp [isCommentChar] at allowed

/-- In a text without characters to escape and without line breaks, all may stand where a
comment may. -/
theorem isCommentChar_of_unbroken {chars : List Char}
    (notCoded : ∀ char ∈ chars, needsEscape char = false) (unbroken : '\n' ∉ chars) :
    ∀ char ∈ chars, isCommentChar char = true := by
  intro char among
  apply (isCommentChar_of_not_needsEscape (notCoded char among)).resolve_left
  rintro rfl
  exact unbroken among

/-- A written text is read back if no quote follows. -/
theorem readString_writeString (text : String) (notDouble : rest.head? ≠ some '"')
    (notSingle : rest.head? ≠ some '\'') :
    readString (writeString text ++ rest) = some (text, rest) := by
  have back : String.ofList text.toList = text := String.ofList_toList
  unfold writeString
  simp only
  split_ifs with _ oneLine _ manyLines
  · rw [readString_append_basic notDouble, back]
  · simp only [Bool.and_eq_true, Bool.not_eq_true', List.any_eq_false, Bool.not_eq_true,
      List.contains_eq_mem, decide_eq_false_iff_not] at oneLine
    rcases oneLine with ⟨⟨notCoded, noQuote⟩, unbroken⟩
    have allowed : ∀ char ∈ text.toList, char ≠ '\'' ∧ isCommentChar char = true :=
      fun char among => ⟨fun same => noQuote (same ▸ among),
        isCommentChar_of_unbroken notCoded unbroken char among⟩
    rw [readString_append_literal notSingle allowed, back]
  · rw [readString_append_longBasic notDouble, back]
  · simp only [Bool.and_eq_true, Bool.not_eq_true', List.any_eq_false, Bool.not_eq_true]
      at manyLines
    rcases manyLines with ⟨notCoded, noRun⟩
    have allowed : ∀ char ∈ text.toList, char = '\n' ∨ isCommentChar char = true :=
      fun char among => isCommentChar_of_not_needsEscape (notCoded char among)
    rw [readString_append_longLiteral notSingle allowed noRun, back]
  · rw [readString_append_longBasic notDouble, back]
  · rw [readString_append_basic notDouble, back]

/-! ## Keys -/

/-- The three ways to write a key. -/
theorem writeKey_cases (key : String) :
    (writeKey key = key.toList ∧ key.toList ≠ [] ∧
        ∀ char ∈ key.toList, isBareKeyChar char = true) ∨
      writeKey key = basic key.toList ∨
      (writeKey key = literal key.toList ∧
        ∀ char ∈ key.toList, char ≠ '\'' ∧ isCommentChar char = true) := by
  unfold writeKey
  simp only
  split_ifs with bare _ plain
  · simp only [Bool.and_eq_true, Bool.not_eq_true', List.isEmpty_eq_false_iff, List.all_eq_true]
      at bare
    exact .inl ⟨rfl, bare⟩
  · exact .inr (.inl rfl)
  · simp only [Bool.and_eq_true, Bool.not_eq_true', List.any_eq_false, Bool.not_eq_true,
      Bool.or_eq_false_iff, beq_eq_false_iff_ne, List.contains_eq_mem, decide_eq_false_iff_not]
      at plain
    rcases plain with ⟨notCoded, noQuote⟩
    refine .inr (.inr ⟨rfl, fun char among => ⟨fun same => noQuote (same ▸ among), ?_⟩⟩)
    exact isCommentChar_of_unbroken (fun char among => (notCoded char among).1)
      (fun among => (notCoded '\n' among).2 rfl) char among
  · exact .inr (.inl rfl)

theorem skipBlanks_cons {char : Char} (notBlank : isBlank char = false) (rest : List Char) :
    skipBlanks (char :: rest) = char :: rest := by
  simp [skipBlanks, notBlank]

/-- Characters that a class tells apart are different. -/
theorem ne_of_passes {passes : Char → Bool} {char other : Char} (holds : passes char = true)
    (fails : passes other = false) : char ≠ other := by
  rintro rfl
  rw [holds] at fails
  cases fails

theorem isBlank_eq_false {char : Char} (bare : isBareKeyChar char = true) :
    isBlank char = false := by
  rw [isBlank, Bool.or_eq_false_iff, beq_eq_false_iff_ne, beq_eq_false_iff_ne]
  exact ⟨ne_of_passes bare (by decide), ne_of_passes bare (by decide)⟩

/-- A key without quotes is read up to the first character that is not its own. -/
theorem readKey_bare {chars : List Char} (nonempty : chars ≠ [])
    (bare : ∀ char ∈ chars, isBareKeyChar char = true)
    (notBare : ∀ char ∈ rest.head?, isBareKeyChar char = false) :
    readKey (chars ++ rest) = some (String.ofList chars, rest) := by
  have stops : rest.takeWhile isBareKeyChar = [] ∧ rest.dropWhile isBareKeyChar = rest := by
    cases rest with
    | nil => exact ⟨rfl, rfl⟩
    | cons char rest => simp [notBare char rfl]
  rcases List.exists_cons_of_ne_nil nonempty with ⟨char, others, rfl⟩
  have first := bare char List.mem_cons_self
  have notDouble : char ≠ '"' := ne_of_passes first (by decide)
  have notSingle : char ≠ '\'' := ne_of_passes first (by decide)
  rw [readKey.eq_def]
  simp only [List.cons_append, if_neg notDouble, if_neg notSingle]
  rw [← List.cons_append, List.takeWhile_append_of_pos bare, List.dropWhile_append_of_pos bare,
    stops.1, stops.2, List.append_nil]
  rfl

/-- A written key is read back if what follows cannot belong to a key. -/
theorem readKey_writeKey (key : String)
    (notBare : ∀ char ∈ rest.head?, isBareKeyChar char = false) :
    readKey (writeKey key ++ rest) = some (key, rest) := by
  have back : String.ofList key.toList = key := String.ofList_toList
  rcases writeKey_cases key with ⟨written, nonempty, bare⟩ | written | ⟨written, allowed⟩
  · rw [written, readKey_bare nonempty bare notBare, back]
  · rw [written, basic, List.cons_append, List.append_assoc, List.singleton_append, readKey,
      if_pos rfl, readBasic_basicBody]
    simp only [Option.map_some, back]
  · rw [written, literal, List.cons_append, List.append_assoc, List.singleton_append, readKey,
      if_neg (by decide), if_pos rfl, readLiteral_append rest allowed]
    simp only [Option.map_some, back]

/-- No blank stands in front of a written key. -/
theorem skipBlanks_writeKey (key : String) (rest : List Char) :
    skipBlanks (writeKey key ++ rest) = writeKey key ++ rest := by
  rcases writeKey_cases key with ⟨written, nonempty, bare⟩ | written | ⟨written, -⟩
  · rcases List.exists_cons_of_ne_nil nonempty with ⟨char, others, same⟩
    have first := bare char (same ▸ List.mem_cons_self)
    rw [written, same]
    exact skipBlanks_cons (isBlank_eq_false first) _
  · rw [written]
    rfl
  · rw [written]
    rfl

end Highlight.Toml
