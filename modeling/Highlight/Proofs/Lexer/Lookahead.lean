import Highlight.Proofs.Lexer.Progress

/-!
# Looking ahead ends at the end of the line

A lexeme that ends within its line is found without a look at the next one.
Most rules treat a newline like the end of the text; comments and literals may
run across it, but then they do so whatever follows.  The latter is
`AgreeWithin`: two lengths are the same, or both reach beyond the line.

This fails for tables with a newline in a marker at the front of a lexeme, so
`Grammar.NewlineFree` excludes them.
-/

namespace Highlight

/-- No marker that may stand at the front of a lexeme holds a newline.  The
marker that closes a block comment may. -/
structure Grammar.NewlineFree (grammar : Grammar) : Prop where
  lineComment : ∀ marker ∈ grammar.lineComment, Byte.newline ∉ Utf8.bytes marker
  blockComment : ∀ markers ∈ grammar.blockComment, Byte.newline ∉ Utf8.bytes markers.opening
  operators : ∀ text ∈ grammar.operators, Byte.newline ∉ Utf8.bytes text
  stringPrefixes : ∀ text ∈ grammar.stringPrefixes, Byte.newline ∉ Utf8.bytes text

instance (grammar : Grammar) : Decidable grammar.NewlineFree :=
  decidable_of_iff
    ((∀ marker ∈ grammar.lineComment, Byte.newline ∉ Utf8.bytes marker) ∧
      (∀ markers ∈ grammar.blockComment, Byte.newline ∉ Utf8.bytes markers.opening) ∧
      (∀ text ∈ grammar.operators, Byte.newline ∉ Utf8.bytes text) ∧
      ∀ text ∈ grammar.stringPrefixes, Byte.newline ∉ Utf8.bytes text)
    ⟨fun ⟨lineComment, blockComment, operators, stringPrefixes⟩ =>
      ⟨lineComment, blockComment, operators, stringPrefixes⟩,
    fun ⟨lineComment, blockComment, operators, stringPrefixes⟩ =>
      ⟨lineComment, blockComment, operators, stringPrefixes⟩⟩

/-- A lexer whose table, if it has one, is free of newlines. -/
def Lexer.NewlineFree : Lexer → Prop
  | .plain => True
  | .table grammar => grammar.NewlineFree

theorem Lexer.newlineFree_ofLanguage (language : Language) : (ofLanguage language).NewlineFree := by
  cases language with
  | plainText => trivial
  | c => exact (by decide : Grammar.c.NewlineFree)
  | cpp => exact (by decide : Grammar.cpp.NewlineFree)

/-! ## Newlines and lists of bytes -/

namespace Bytes

variable (body after : Bytes)

/-- A run of a class without the newline ends before it. -/
theorem takeWhile_newline {p : UInt8 → Bool} (stops : p Byte.newline = false) :
    (body ++ Byte.newline :: after).takeWhile p = body.takeWhile p := by
  induction body with
  | nil => simp [stops]
  | cons b body ih => rw [List.cons_append, List.takeWhile_cons, ih, List.takeWhile_cons]

theorem dropWhile_newline {p : UInt8 → Bool} (stops : p Byte.newline = false) :
    (body ++ Byte.newline :: after).dropWhile p = body.dropWhile p ++ Byte.newline :: after := by
  induction body with
  | nil => simp [stops]
  | cons b body ih =>
      rw [List.cons_append, List.dropWhile_cons, ih, List.dropWhile_cons]
      split
      · rfl
      · rfl

theorem head?_any_newline {p : UInt8 → Bool} (stops : p Byte.newline = false) :
    (body ++ Byte.newline :: after).head?.any p = body.head?.any p := by
  cases body with
  | nil => simp [stops]
  | cons b body => rfl

theorem head?_newline_eq_some {b : UInt8} (notNewline : Byte.newline ≠ b) :
    (body ++ Byte.newline :: after).head? = some b ↔ body.head? = some b := by
  cases body with
  | nil => simp [notNewline]
  | cons _ _ => simp

variable {body} in
theorem drop_newline {count : Nat} (inside : count ≤ body.length) :
    (body ++ Byte.newline :: after).drop count = body.drop count ++ Byte.newline :: after :=
  List.drop_append_of_le_length inside

/-- A marker without a newline stands in front of the newline or not at all. -/
theorem isPrefixOf_newline {marker : Bytes} (newlineFree : Byte.newline ∉ marker) :
    marker.isPrefixOf (body ++ Byte.newline :: after) = marker.isPrefixOf body := by
  induction marker generalizing body with
  | nil => simp
  | cons b marker ih =>
      obtain ⟨notNewline, restFree⟩ := List.ne_and_not_mem_of_not_mem_cons newlineFree
      cases body with
      | nil =>
          rw [List.nil_append, List.isPrefixOf_cons_cons, beq_false_of_ne notNewline.symm]
          rfl
      | cons c body =>
          rw [List.cons_append, List.isPrefixOf_cons_cons, ih body restFree,
            List.isPrefixOf_cons_cons]

end Bytes

open Bytes

theorem Grammar.longestMatch?_newline {texts : List String}
    (newlineFree : ∀ text ∈ texts, Byte.newline ∉ Utf8.bytes text) (body after : Bytes) :
    longestMatch? texts (body ++ Byte.newline :: after) = longestMatch? texts body := by
  unfold longestMatch?
  congr 2
  refine List.filter_congr fun bytes member => ?_
  obtain ⟨text, textMember, rfl⟩ := List.mem_map.mp member
  rw [isPrefixOf_newline body after (newlineFree text textMember)]

/-! ## Rules for which a newline is the end of the text -/

namespace Lexeme

variable (body after : Bytes)

theorem digitsLength_newline {isDigit : UInt8 → Bool} (stops : isDigit Byte.newline = false)
    (separators seen : Bool) :
    digitsLength isDigit separators seen (body ++ Byte.newline :: after) =
      digitsLength isDigit separators seen body := by
  induction body generalizing seen with
  | nil =>
      have notApostrophe : (Byte.newline == Byte.apostrophe) = false := by decide
      simp [digitsLength, stops, notApostrophe]
  | cons b body ih =>
      rw [List.cons_append, digitsLength, digitsLength, ih, head?_any_newline body after stops]

theorem fractionLength_newline {isDigit : UInt8 → Bool} (stops : isDigit Byte.newline = false)
    (separators : Bool) :
    fractionLength isDigit separators (body ++ Byte.newline :: after) =
      fractionLength isDigit separators body := by
  cases body with
  | nil => rfl
  | cons b body =>
      rw [List.cons_append, fractionLength, fractionLength, digitsLength_newline body after stops]

theorem signLength_newline : signLength (body ++ Byte.newline :: after) = signLength body := by
  cases body with
  | nil => rfl
  | cons b body => rfl

theorem exponentLength_newline {isMark : UInt8 → Bool} (stops : isMark Byte.newline = false)
    (separators : Bool) :
    exponentLength isMark separators (body ++ Byte.newline :: after) =
      exponentLength isMark separators body := by
  cases body with
  | nil => simp [exponentLength, stops]
  | cons b body =>
      simp only [List.cons_append, exponentLength, signLength_newline,
        drop_newline after (signLength_le body), head?_any_newline _ _ Byte.isDigit_newline,
        digitsLength_newline _ _ Byte.isDigit_newline]

theorem realLength_newline {isDigit isMark : UInt8 → Bool}
    (digitStops : isDigit Byte.newline = false) (markStops : isMark Byte.newline = false)
    (separators : Bool) :
    realLength isDigit isMark separators (body ++ Byte.newline :: after) =
      realLength isDigit isMark separators body := by
  have wholeLe := digitsLength_le isDigit separators false body
  have fractionLe := fractionLength_le isDigit separators
    (body.drop (digitsLength isDigit separators false body))
  rw [List.length_drop] at fractionLe
  simp only [realLength, digitsLength_newline _ _ digitStops, drop_newline after wholeLe,
    fractionLength_newline _ _ digitStops]
  rw [drop_newline after (by omega), exponentLength_newline _ _ markStops]

/-- The mark of a base stands before the newline or not at all. -/
theorem baseMark_newline {p : UInt8 → Bool} (stops : p Byte.newline = false) :
    ((body ++ Byte.newline :: after).head? == some 0x30 &&
        ((body ++ Byte.newline :: after).drop 1).head?.any p) =
      (body.head? == some 0x30 && (body.drop 1).head?.any p) := by
  rcases body with _ | ⟨_, _ | ⟨_, _⟩⟩
  · rfl
  · simp [stops]
  · rfl

theorem numeralBody_newline (separators : Bool) :
    numeralBody separators (body ++ Byte.newline :: after) = numeralBody separators body := by
  have hexEq : isHexStart (body ++ Byte.newline :: after) = isHexStart body :=
    baseMark_newline body after rfl
  have binaryEq : isBinaryStart (body ++ Byte.newline :: after) = isBinaryStart body :=
    baseMark_newline body after rfl
  rw [numeralBody, numeralBody, hexEq, binaryEq]
  by_cases hexadecimal : isHexStart body = true
  · rw [if_pos hexadecimal, if_pos hexadecimal,
      drop_newline after (two_le_length_of_start hexadecimal),
      realLength_newline _ _ Byte.isHexDigit_newline rfl]
  · rw [if_neg hexadecimal, if_neg hexadecimal]
    by_cases binary : isBinaryStart body = true
    · rw [if_pos binary, if_pos binary, drop_newline after (two_le_length_of_start binary),
        digitsLength_newline _ _ Byte.isBinaryDigit_newline]
    · rw [if_neg binary, if_neg binary, realLength_newline _ _ Byte.isDigit_newline rfl]

theorem isNumeralStart_newline :
    isNumeralStart (body ++ Byte.newline :: after) = isNumeralStart body := by
  cases body with
  | nil => rfl
  | cons b body =>
      rw [List.cons_append, isNumeralStart, head?_any_newline _ _ Byte.isDigit_newline,
        isNumeralStart]

theorem numeral?_newline (grammar : Grammar) :
    numeral? grammar (body ++ Byte.newline :: after) = numeral? grammar body := by
  simp only [numeral?, numeralLength, isNumeralStart_newline, numeralBody_newline,
    drop_newline after (numeralBody_le _ body), takeWhile_newline _ _ Byte.isWord_newline]

theorem directiveTail_newline :
    directiveTail (body ++ Byte.newline :: after) = directiveTail body := by
  simp only [directiveTail, dropWhile_newline _ _ Byte.isBlank_newline,
    takeWhile_newline _ _ Byte.isBlank_newline, head?_any_newline _ _ Byte.isWordStart_newline,
    takeWhile_newline _ _ Byte.isWord_newline]

theorem directive?_newline (grammar : Grammar) (before : Bytes) :
    directive? grammar before (body ++ Byte.newline :: after) = directive? grammar before body := by
  cases body with
  | nil =>
      have notHash : (Byte.newline == Byte.hash) = false := by decide
      simp [directive?, notHash]
  | cons b body => rw [List.cons_append, directive?, directiveTail_newline, directive?]

theorem headerTail_newline : headerTail (body ++ Byte.newline :: after) = headerTail body := by
  induction body with
  | nil => rfl
  | cons b body ih => rw [List.cons_append, headerTail, ih, headerTail]

theorem header?_newline (grammar : Grammar) (before : Bytes) :
    header? grammar before (body ++ Byte.newline :: after) = header? grammar before body := by
  cases body with
  | nil =>
      have notLess : (Byte.newline == Byte.lessThan) = false := by decide
      simp [header?, notLess]
  | cons b body => rw [List.cons_append, header?, headerTail_newline, header?]

theorem unlistedKind_newline (grammar : Grammar) (word : Bytes) :
    unlistedKind grammar word (body ++ Byte.newline :: after) = unlistedKind grammar word body := by
  have openNe : Byte.newline ≠ Byte.openParen := by decide
  have scopeFree : Byte.newline ∉ scopeOperator := by decide
  simp only [unlistedKind, dropWhile_newline _ _ Byte.isBlank_newline,
    head?_newline_eq_some _ _ openNe, isPrefixOf_newline _ _ scopeFree]

theorem bareWord_newline (grammar : Grammar) :
    bareWord grammar (body ++ Byte.newline :: after) = bareWord grammar body := by
  simp only [bareWord, wordKind, takeWhile_newline _ _ Byte.isWord_newline,
    dropWhile_newline _ _ Byte.isWord_newline, unlistedKind_newline]

theorem bracket?_newline : bracket? (body ++ Byte.newline :: after) = bracket? body := by
  cases body with
  | nil => rfl
  | cons b body => rfl

theorem characterLength_newline :
    characterLength (body ++ Byte.newline :: after) = characterLength body := by
  cases body with
  | nil => rfl
  | cons b body =>
      rw [List.cons_append, characterLength, characterLength, List.take_append]
      congr 2
      cases expectedContinuation b - body.length with
      | zero => simp
      | succ count =>
          rw [List.take_succ_cons, takeWhile_newline _ _ Byte.isContinuation_newline]

/-! ## Rules that may run across a newline -/

end Lexeme

/-- Two lengths are the same, or both are beyond the limit. -/
def AgreeWithin (limit left right : Nat) : Prop :=
  left = right ∨ limit < left ∧ limit < right

namespace AgreeWithin

variable {limit left right : Nat}

theorem refl (limit length : Nat) : AgreeWithin limit length length :=
  Or.inl rfl

theorem add (agree : AgreeWithin limit left right) (count : Nat) :
    AgreeWithin (count + limit) (count + left) (count + right) := by
  rcases agree with rfl | ⟨leftBeyond, rightBeyond⟩
  · exact refl _ _
  · exact Or.inr ⟨Nat.add_lt_add_left leftBeyond count, Nat.add_lt_add_left rightBeyond count⟩

/-- What agrees behind some bytes of a line agrees together with them. -/
theorem of_drop {body : Bytes} {count : Nat} (inside : count ≤ body.length)
    (agree : AgreeWithin (body.drop count).length left right) :
    AgreeWithin body.length (count + left) (count + right) := by
  have agree := agree.add count
  rwa [List.length_drop, Nat.add_sub_cancel' inside] at agree

end AgreeWithin

namespace Lexeme

variable (body left right : Bytes)

theorem lineCommentTail_agree (before : Bytes) :
    AgreeWithin body.length (lineCommentTail before (body ++ Byte.newline :: left))
      (lineCommentTail before (body ++ Byte.newline :: right)) := by
  induction body generalizing before with
  | nil =>
      rw [List.nil_append, List.nil_append, lineCommentTail, lineCommentTail]
      split
      · exact .refl _ _
      · exact Or.inr ⟨Nat.add_pos_left Nat.one_pos _, Nat.add_pos_left Nat.one_pos _⟩
  | cons b body ih =>
      rw [List.cons_append, List.cons_append, lineCommentTail, lineCommentTail]
      split
      · exact .refl _ _
      · rw [List.length_cons, Nat.add_comm body.length 1]
        exact (ih (b :: before)).add 1

/-- A block comment that is closed holds its closing marker, and one that is not
takes everything. -/
theorem min_le_blockCommentTail (closing rest : Bytes) :
    min closing.length rest.length ≤ blockCommentTail closing rest := by
  unfold blockCommentTail
  cases find? closing rest with
  | none => exact Nat.min_le_right _ _
  | some offset => exact Nat.le_trans (Nat.min_le_left _ _) (Nat.le_add_left _ _)

/-- Without room for its closing marker a block comment runs across the
newline. -/
theorem lt_blockCommentTail {body closing : Bytes} (long : body.length < closing.length)
    (after : Bytes) : body.length < blockCommentTail closing (body ++ Byte.newline :: after) := by
  have minLe := min_le_blockCommentTail closing (body ++ Byte.newline :: after)
  rw [List.length_append, List.length_cons] at minLe
  omega

theorem blockCommentTail_agree (closing : Bytes) :
    AgreeWithin body.length (blockCommentTail closing (body ++ Byte.newline :: left))
      (blockCommentTail closing (body ++ Byte.newline :: right)) := by
  induction body with
  | nil =>
      cases closing with
      | nil => exact Or.inl rfl
      | cons c closing =>
          have long : ([] : Bytes).length < (c :: closing).length := Nat.zero_lt_succ _
          exact Or.inr ⟨lt_blockCommentTail long left, lt_blockCommentTail long right⟩
  | cons b body ih =>
      by_cases long : (b :: body).length < closing.length
      · exact Or.inr ⟨lt_blockCommentTail long left, lt_blockCommentTail long right⟩
      · -- A marker that fits in before the newline is found in both or in none.
        have prefixEq (after : Bytes) : closing.isPrefixOf (b :: (body ++ Byte.newline :: after)) =
            closing.isPrefixOf (b :: body) := by
          have grows : b :: body <+: b :: (body ++ Byte.newline :: after) :=
            List.prefix_append (b :: body) _
          rw [Bool.eq_iff_iff, List.isPrefixOf_iff_prefix, List.isPrefixOf_iff_prefix]
          constructor
          · intro closes
            exact List.prefix_of_prefix_length_le closes grows (Nat.le_of_not_lt long)
          · intro closes
            exact closes.trans grows
        rw [List.cons_append, List.cons_append, blockCommentTail_cons, blockCommentTail_cons,
          prefixEq, prefixEq]
        split
        · exact .refl _ _
        · rw [List.length_cons, Nat.add_comm body.length 1]
          exact ih.add 1

theorem quotedTail_agree (quote : UInt8) :
    AgreeWithin body.length (quotedTail quote (body ++ Byte.newline :: left))
      (quotedTail quote (body ++ Byte.newline :: right)) := by
  fun_induction quotedTail quote body with
  | case1 =>
      simp only [List.nil_append, quotedTail_cons Byte.newline_ne_backslash, if_true]
      exact .refl _ _
  | case2 =>
      -- The newline itself is escaped.
      simp only [List.cons_append, List.nil_append,
        quotedTail_escape quote Byte.newline_ne_carriageReturn]
      exact Or.inr ⟨Nat.lt_add_right _ (by decide), Nat.lt_add_right _ (by decide)⟩
  | case3 =>
      -- The newline is escaped together with its carriage return.
      simp only [List.cons_append, List.nil_append, quotedTail_escapedBreak]
      exact Or.inr ⟨Nat.lt_add_right _ (by decide), Nat.lt_add_right _ (by decide)⟩
  | case4 rest ih =>
      simp only [List.cons_append, quotedTail_escapedBreak, List.length_cons]
      rw [Nat.add_assoc, Nat.add_assoc, Nat.add_comm]
      exact ih.add 3
  | case5 next rest notNewline ih =>
      simp only [List.cons_append, quotedTail_escapedReturn quote notNewline]
      rw [List.length_cons, List.length_cons, Nat.add_assoc, Nat.add_comm]
      exact ih.add 2
  | case6 escaped rest notReturn ih =>
      simp only [List.cons_append, quotedTail_escape quote notReturn, List.length_cons]
      rw [Nat.add_assoc, Nat.add_comm]
      exact ih.add 2
  | case7 rest notBackslash =>
      simp only [List.cons_append, quotedTail_cons notBackslash, if_true]
      exact .refl _ _
  | case8 rest notBackslash notNewline =>
      simp only [List.cons_append, quotedTail_cons notBackslash, if_neg notNewline, if_true]
      exact .refl _ _
  | case9 b rest notBackslash notNewline notQuote ih =>
      simp only [List.cons_append, quotedTail_cons notBackslash, if_neg notNewline,
        if_neg notQuote, List.length_cons]
      rw [Nat.add_comm rest.length]
      exact ih.add 1

theorem spaceLength_congr : spaceLength (body ++ Byte.newline :: left) =
    spaceLength (body ++ Byte.newline :: right) := by
  induction body with
  | nil => rfl
  | cons b body ih =>
      rw [List.cons_append, List.cons_append, spaceLength, spaceLength, ih]

theorem lineLength_congr : lineLength (body ++ Byte.newline :: left) =
    lineLength (body ++ Byte.newline :: right) := by
  induction body with
  | nil => rfl
  | cons b body ih => rw [List.cons_append, List.cons_append, lineLength, lineLength, ih]

/-! ## Lexemes that agree -/

/-- Two lexemes are of one kind, and their lengths are the same or beyond the
limit. -/
structure Agree (limit : Nat) (left right : Lexeme) : Prop where
  kind : left.kind = right.kind
  length : AgreeWithin limit left.length right.length

theorem Agree.refl (limit : Nat) (found : Lexeme) : Agree limit found found :=
  ⟨rfl, .refl _ _⟩

/-- Lexemes that agree are equal if one of them ends within the limit. -/
theorem Agree.eq_of_length_le {limit : Nat} {left right : Lexeme} (agree : Agree limit left right)
    (inside : left.length ≤ limit) : right = left := by
  rcases agree with ⟨kindEq, lengthEq | ⟨leftBeyond, _⟩⟩
  · cases left with
    | mk kind length =>
        subst kindEq lengthEq
        rfl
  · exact absurd inside (Nat.not_le_of_gt leftBeyond)

/-- The outcomes of a rule in two texts: nothing in both, or lexemes that
agree. -/
def AgreeOn (limit : Nat) : (left right : Option Lexeme) → Prop :=
  Option.Rel (Agree limit)

namespace AgreeOn

variable {limit : Nat} {left right : Option Lexeme}

theorem of_eq (equal : left = right) : AgreeOn limit left right := by
  subst right
  cases left with
  | none => exact .none
  | some found => exact .some (Agree.refl limit found)

/-- Rules that agree still do so with a further rule tried behind them. -/
theorem or (agree : AgreeOn limit left right) {nextLeft nextRight : Option Lexeme}
    (next : AgreeOn limit nextLeft nextRight) :
    AgreeOn limit (left.or nextLeft) (right.or nextRight) := by
  cases agree with
  | none => exact next
  | some agree => exact .some agree

theorem getD (agree : AgreeOn limit left right) {found other : Lexeme}
    (next : Agree limit found other) : Agree limit (left.getD found) (right.getD other) := by
  cases agree with
  | none => exact next
  | some agree => exact agree

end AgreeOn

theorem space?_agree : AgreeOn body.length (space? (body ++ Byte.newline :: left))
    (space? (body ++ Byte.newline :: right)) := by
  apply AgreeOn.of_eq
  cases body with
  | nil => rfl
  | cons b body =>
      have lengthEq := spaceLength_congr (b :: body) left right
      rw [List.cons_append, List.cons_append] at lengthEq ⊢
      rw [space?, space?, lengthEq]

theorem lineJoin?_agree : AgreeOn body.length (lineJoin? (body ++ Byte.newline :: left))
    (lineJoin? (body ++ Byte.newline :: right)) := by
  apply AgreeOn.of_eq
  rcases body with _ | ⟨_, _ | ⟨_, _ | ⟨_, _⟩⟩⟩
  all_goals rfl

variable {grammar : Grammar}

theorem lineComment?_agree (newlineFree : grammar.NewlineFree) (before : Bytes) :
    AgreeOn body.length (lineComment? grammar before (body ++ Byte.newline :: left))
      (lineComment? grammar before (body ++ Byte.newline :: right)) := by
  cases markerEq : grammar.lineComment with
  | none =>
      rw [lineComment?, lineComment?, markerEq]
      exact .none
  | some marker =>
      have markerFree := newlineFree.lineComment marker markerEq
      simp only [lineComment?, markerEq, Option.bind_some, lineCommentWith?,
        isPrefixOf_newline _ _ markerFree]
      split
      · rename_i opens
        have inside := (List.isPrefixOf_iff_prefix.mp (Bool.and_eq_true_iff.mp opens).2).length_le
        rw [drop_newline left inside, drop_newline right inside]
        exact .some ⟨rfl, .of_drop inside (lineCommentTail_agree _ _ _ _)⟩
      · exact .none

theorem blockComment?_agree (newlineFree : grammar.NewlineFree) :
    AgreeOn body.length (blockComment? grammar (body ++ Byte.newline :: left))
      (blockComment? grammar (body ++ Byte.newline :: right)) := by
  cases markersEq : grammar.blockComment with
  | none =>
      rw [blockComment?, blockComment?, markersEq]
      exact .none
  | some markers =>
      have openingFree := newlineFree.blockComment markers markersEq
      simp only [blockComment?, markersEq, Option.bind_some, blockCommentWith?,
        isPrefixOf_newline _ _ openingFree]
      split
      · rename_i opens
        have inside := (List.isPrefixOf_iff_prefix.mp (Bool.and_eq_true_iff.mp opens).2).length_le
        rw [drop_newline left inside, drop_newline right inside]
        exact .some ⟨rfl, .of_drop inside (blockCommentTail_agree _ _ _ _)⟩
      · exact .none

theorem quoted?_agree : AgreeOn body.length (quoted? (body ++ Byte.newline :: left))
    (quoted? (body ++ Byte.newline :: right)) := by
  cases body with
  | nil => exact .none
  | cons b body =>
      rw [List.cons_append, List.cons_append, quoted?, quoted?, List.length_cons,
        Nat.add_comm body.length]
      cases quoteKind? b with
      | none => exact .none
      | some kind => exact .some ⟨rfl, (quotedTail_agree body left right b).add 1⟩

/-! ## Words -/

theorem prefixLength_newline (newlineFree : grammar.NewlineFree) (after : Bytes) :
    prefixLength grammar (body ++ Byte.newline :: after) = prefixLength grammar body := by
  rw [prefixLength, Grammar.stringPrefixLength?,
    Grammar.longestMatch?_newline newlineFree.stringPrefixes]
  rfl

@[simp]
theorem isRawDelimiter_newline : isRawDelimiter Byte.newline = false := by decide

theorem rawTail?_agree : Option.Rel (AgreeWithin body.length)
    (rawTail? (body ++ Byte.newline :: left)) (rawTail? (body ++ Byte.newline :: right)) := by
  have openNe : Byte.newline ≠ Byte.openParen := by decide
  simp only [rawTail?_eq, takeWhile_newline _ _ isRawDelimiter_newline,
    dropWhile_newline _ _ isRawDelimiter_newline, head?_newline_eq_some _ _ openNe]
  split
  · rename_i opens
    have splitEq := List.length_takeWhile_add_dropWhile isRawDelimiter body
    have inside : 1 ≤ (body.dropWhile isRawDelimiter).length := by
      cases afterEq : body.dropWhile isRawDelimiter with
      | nil => simp [afterEq] at opens
      | cons _ _ => simp
    rw [drop_newline left inside, drop_newline right inside]
    have agree := (blockCommentTail_agree ((body.dropWhile isRawDelimiter).drop 1) left right
      (rawClosing (body.takeWhile isRawDelimiter))).add
        ((body.takeWhile isRawDelimiter).length + 1)
    rw [List.length_drop, Nat.add_assoc, Nat.add_sub_cancel' inside, splitEq] at agree
    exact .some agree
  · exact .none

theorem rawString?_agree (newlineFree : grammar.NewlineFree) :
    AgreeOn body.length (rawString? grammar (body ++ Byte.newline :: left))
      (rawString? grammar (body ++ Byte.newline :: right)) := by
  have quoteFree : Byte.newline ∉ [0x52, Byte.doubleQuote] := by decide
  have prefixInside := prefixLength_le grammar body
  simp only [rawString?, prefixLength_newline body newlineFree, drop_newline _ prefixInside,
    isPrefixOf_newline _ _ quoteFree]
  split
  · rename_i opens
    have opensLe := (List.isPrefixOf_iff_prefix.mp (Bool.and_eq_true_iff.mp opens).2).length_le
    have inside : prefixLength grammar body + 2 ≤ body.length := by
      rw [List.length_drop] at opensLe
      exact Nat.add_le_of_le_sub' prefixInside opensLe
    rw [drop_newline left inside, drop_newline right inside]
    have agree := rawTail?_agree (body.drop (prefixLength grammar body + 2)) left right
    revert agree
    generalize rawTail? _ = leftTail
    generalize rawTail? _ = rightTail
    intro agree
    cases agree with
    | none => exact .none
    | some agree => exact .some ⟨rfl, .of_drop inside agree⟩
  · exact .none

theorem prefixedQuoted?_agree (newlineFree : grammar.NewlineFree) :
    AgreeOn body.length (prefixedQuoted? grammar (body ++ Byte.newline :: left))
      (prefixedQuoted? grammar (body ++ Byte.newline :: right)) := by
  have inside := prefixLength_le grammar body
  simp only [prefixedQuoted?, prefixLength_newline body newlineFree, drop_newline _ inside]
  split
  · exact .none
  · have agree := quoted?_agree (body.drop (prefixLength grammar body)) left right
    revert agree
    generalize quoted? _ = leftFound
    generalize quoted? _ = rightFound
    intro agree
    cases agree with
    | none => exact .none
    | some agree => exact .some ⟨agree.kind, .of_drop inside agree.length⟩

theorem word?_agree (newlineFree : grammar.NewlineFree) :
    AgreeOn body.length (word? grammar (body ++ Byte.newline :: left))
      (word? grammar (body ++ Byte.newline :: right)) := by
  simp only [word?, head?_any_newline _ _ Byte.isWordStart_newline, bareWord_newline]
  split
  · exact .some (((rawString?_agree body left right newlineFree).or
      (prefixedQuoted?_agree body left right newlineFree)).getD (.refl _ _))
  · exact .none

/-! ## All rules together -/

theorem operator?_newline (newlineFree : grammar.NewlineFree) (after : Bytes) :
    operator? grammar (body ++ Byte.newline :: after) = operator? grammar body := by
  rw [operator?, Grammar.operatorLength?, Grammar.longestMatch?_newline newlineFree.operators]
  rfl

/-- The lexemes at the front of two texts that have the first line in common
agree within that line. -/
theorem read_agree (newlineFree : grammar.NewlineFree) (before : Bytes) :
    Agree body.length (read grammar before (body ++ Byte.newline :: left))
      (read grammar before (body ++ Byte.newline :: right)) := by
  unfold read
  simp only [directive?_newline, header?_newline, numeral?_newline, bracket?_newline,
    operator?_newline _ newlineFree, unknown, characterLength_newline]
  refine AgreeOn.getD ?_ (.refl _ _)
  exact (space?_agree body left right).or (lineJoin?_agree body left right)
    |>.or (lineComment?_agree body left right newlineFree before)
    |>.or (blockComment?_agree body left right newlineFree)
    |>.or (.of_eq rfl)
    |>.or (.of_eq rfl)
    |>.or (quoted?_agree body left right)
    |>.or (.of_eq rfl)
    |>.or (word?_agree body left right newlineFree)
    |>.or (.of_eq rfl)
    |>.or (.of_eq rfl)

end Lexeme

namespace Lexer

theorem lexeme_agree {lexer : Lexer} (newlineFree : lexer.NewlineFree)
    (before body left right : Bytes) :
    Lexeme.Agree body.length (lexer.lexeme before (body ++ Byte.newline :: left))
      (lexer.lexeme before (body ++ Byte.newline :: right)) := by
  cases lexer with
  | plain =>
      rw [lexeme, lexeme, Lexeme.line, Lexeme.line, Lexeme.lineLength_congr body left right]
      exact .refl _ _
  | table grammar => exact Lexeme.read_agree body left right newlineFree before

/-- A lexeme that ends within its line is the same whatever comes after the
line. -/
theorem lexeme_eq_of_length_le {lexer : Lexer} (newlineFree : lexer.NewlineFree)
    {before body left : Bytes}
    (inside : (lexer.lexeme before (body ++ Byte.newline :: left)).length ≤ body.length)
    (right : Bytes) :
    lexer.lexeme before (body ++ Byte.newline :: right) =
      lexer.lexeme before (body ++ Byte.newline :: left) :=
  (lexeme_agree newlineFree before body left right).eq_of_length_le inside

end Lexer

end Highlight
