import Highlight.Proofs.Toml.Text
import Highlight.Toml.Parser

/-!
# Reading written TOML lines

The lines that are written for headers and values are read as the statements that
they stand for.  `Lines` is the judgement for that, and lines that follow each other
are read one after the other.
-/

namespace Highlight.Toml

/-! ## Trivia -/

theorem skipTrivia_cons {char : Char} (notNewline : char ≠ '\n') (notReturn : char ≠ '\r')
    (notBlank : isBlank char = false) (notComment : char ≠ '#') (rest : List Char) :
    skipTrivia false (char :: rest) = some (char :: rest) := by
  simp [skipTrivia, notNewline, notReturn, notBlank, notComment]

theorem skipTrivia_newline (rest : List Char) :
    skipTrivia false ('\n' :: rest) = skipTrivia false rest := by
  simp [skipTrivia]

theorem skipTrivia_space (rest : List Char) :
    skipTrivia false (' ' :: rest) = skipTrivia false rest := by
  simp [skipTrivia, isBlank]

/-! ## Values -/

variable {rest : List Char}

/-- A written text starts with a quote. -/
theorem exists_writeString_eq_cons (text : String) :
    ∃ quote body, writeString text = quote :: body ∧ (quote = '"' ∨ quote = '\'') := by
  unfold writeString
  simp only
  split_ifs
  · exact ⟨'"', _, rfl, .inl rfl⟩
  · exact ⟨'\'', _, rfl, .inr rfl⟩
  · exact ⟨'"', _, rfl, .inl rfl⟩
  · exact ⟨'\'', _, rfl, .inr rfl⟩
  · exact ⟨'"', _, rfl, .inl rfl⟩
  · exact ⟨'"', _, rfl, .inl rfl⟩

theorem readValue_scalar {char : Char} (notArray : char ≠ '[') (notTable : char ≠ '\x7b')
    (depth : Nat) (rest : List Char) :
    readValue depth (char :: rest) = readScalar (char :: rest) := by
  cases depth with
  | zero => simp [readValue, notArray, notTable]
  | succ depth =>
      rw [readValue]
      · simp [notArray]
      · simp [notTable]

theorem readValue_writeString (depth : Nat) (text : String) (notDouble : rest.head? ≠ some '"')
    (notSingle : rest.head? ≠ some '\'') :
    readValue depth (writeString text ++ rest) = some (.string text, rest) := by
  have read := readString_writeString text notDouble notSingle
  rcases exists_writeString_eq_cons text with ⟨quote, body, written, quoted⟩
  rw [written, List.cons_append] at read ⊢
  have notArray : quote ≠ '[' := by
    rintro rfl
    simp at quoted
  have notTable : quote ≠ '\x7b' := by
    rintro rfl
    simp at quoted
  rw [readValue_scalar notArray notTable, readScalar]
  simp only [quoted, if_true, read]
  rfl

theorem readValue_writeBoolean (depth : Nat) (value : Bool) (rest : List Char) :
    readValue depth (writeBoolean value ++ rest) = some (.boolean value, rest) := by
  cases value with
  | false => exact (readValue_scalar (by decide) (by decide) depth _).trans rfl
  | true => exact (readValue_scalar (by decide) (by decide) depth _).trans rfl

/-- The lines of an array's elements. -/
def elementLines (texts : List String) : List Char :=
  texts.flatMap fun text => "    ".toList ++ writeString text ++ ",\n".toList

theorem elementLines_cons (text : String) (texts : List String) :
    elementLines (text :: texts) = ' ' :: ' ' :: ' ' :: ' ' ::
      (writeString text ++ ',' :: '\n' :: elementLines texts) := by
  simp [elementLines]

theorem length_le_length_elementLines (texts : List String) :
    texts.length ≤ (elementLines texts).length := by
  induction texts with
  | nil => exact Nat.zero_le _
  | cons text texts ih =>
      rw [elementLines_cons]
      simp only [List.length_cons, List.length_append]
      omega

theorem skipTrivia_writeString (text : String) (rest : List Char) :
    skipTrivia false (writeString text ++ rest) = some (writeString text ++ rest) ∧
      (writeString text ++ rest).head? ≠ some ']' := by
  rcases exists_writeString_eq_cons text with ⟨quote, body, written, quoted⟩
  rw [written, List.cons_append]
  rcases quoted with rfl | rfl
  · exact ⟨skipTrivia_cons (by decide) (by decide) (by decide) (by decide) _, by simp⟩
  · exact ⟨skipTrivia_cons (by decide) (by decide) (by decide) (by decide) _, by simp⟩

theorem readElements_close (read : ValueReader) (fuel : Nat) (rest : List Char) :
    readElements read (fuel + 1) (']' :: rest) = some ([], rest) := by
  rw [readElements, skipTrivia_cons (by decide) (by decide) (by decide) (by decide)]
  rfl

/-- Trivia in front of an element makes no difference. -/
theorem readElements_congr {chars others : List Char}
    (same : skipTrivia false chars = skipTrivia false others) (read : ValueReader) (fuel : Nat) :
    readElements read fuel chars = readElements read fuel others := by
  cases fuel with
  | zero => rfl
  | succ fuel => rw [readElements, readElements, same]

/-- The first element of an array is read, and then a bracket or a comma is needed. -/
theorem readElements_writeString (depth fuel : Nat) (text : String) {char : Char}
    (rest : List Char) (sign : char = ']' ∨ char = ',') :
    readElements (readValue depth) (fuel + 1) (writeString text ++ char :: rest) =
      if char = ']' then some ([.string text], rest)
      else (readElements (readValue depth) fuel rest).map
        fun (values, after) => (.string text :: values, after) := by
  rcases skipTrivia_writeString text (char :: rest) with ⟨skipped, notClosed⟩
  have read : readValue depth (writeString text ++ char :: rest) =
      some (.string text, char :: rest) := by
    apply readValue_writeString
    · rcases sign with rfl | rfl <;> simp
    · rcases sign with rfl | rfl <;> simp
  have stays : skipTrivia false (char :: rest) = some (char :: rest) := by
    rcases sign with rfl | rfl
    · exact skipTrivia_cons (by decide) (by decide) (by decide) (by decide) rest
    · exact skipTrivia_cons (by decide) (by decide) (by decide) (by decide) rest
  rw [readElements, skipped]
  simp only [bind, Option.bind, notClosed, if_false, read, stays]
  rcases sign with rfl | rfl
  · rfl
  · simp only [if_neg (show ',' ≠ ']' by decide)]
    cases readElements (readValue depth) fuel rest <;> rfl

/-- The elements of an array that take a line each are read through its bracket. -/
theorem readElements_elementLines (depth : Nat) (texts : List String) (rest : List Char)
    {fuel : Nat} (enough : texts.length < fuel) :
    readElements (readValue depth) fuel ('\n' :: (elementLines texts ++ ']' :: rest)) =
      some (texts.map .string, rest) := by
  rw [readElements_congr (skipTrivia_newline _)]
  induction texts generalizing fuel with
  | nil =>
      cases fuel with
      | zero => cases enough
      | succ fuel => exact readElements_close _ fuel rest
  | cons text texts ih =>
      cases fuel with
      | zero => cases enough
      | succ fuel =>
          have indented (chars : List Char) : skipTrivia false (' ' :: ' ' :: ' ' :: ' ' :: chars) =
              skipTrivia false chars := by
            simp only [skipTrivia_space]
          rw [elementLines_cons]
          simp only [List.cons_append, List.append_assoc]
          rw [readElements_congr (indented _),
            readElements_writeString depth fuel text _ (.inr rfl), if_neg (by decide),
            readElements_congr (skipTrivia_newline _), ih (Nat.lt_of_succ_lt_succ enough)]
          rfl

theorem writeStrings_cons_cons (first second : String) (texts : List String) :
    writeStrings (first :: second :: texts) =
      '[' :: '\n' :: (elementLines (first :: second :: texts) ++ [']']) := rfl

/-- A written array of texts is read back, wherever one level is left. -/
theorem readValue_writeStrings (depth : Nat) (texts : List String) (rest : List Char) :
    readValue (depth + 1) (writeStrings texts ++ rest) =
      some (.array (texts.map .string), rest) := by
  match texts with
  | [] =>
      rw [writeStrings, List.cons_append, List.singleton_append, readValue, readArray,
        readElements_close]
      rfl
  | [text] =>
      rw [writeStrings, List.cons_append, List.append_assoc, List.singleton_append, readValue,
        readArray, readElements_writeString depth _ text rest (.inl rfl), if_pos rfl]
      rfl
  | first :: second :: texts =>
      have shorter := length_le_length_elementLines (first :: second :: texts)
      rw [writeStrings_cons_cons, List.cons_append, List.cons_append, List.append_assoc,
        List.singleton_append, readValue, readArray, readElements_elementLines]
      · rfl
      · simp only [List.length_cons, List.length_append] at shorter ⊢
        omega

/-! ## Lines -/

/-- A value on the right of its key.  It starts without a blank, and it is read through
to the end of its line. -/
structure Written (written : List Char) (value : Toml) : Prop where
  skipBlanks_eq : ∀ rest, skipBlanks (written ++ rest) = written ++ rest
  readValue_eq : ∀ rest,
    readValue (depthLimit - 1) (written ++ '\n' :: rest) = some (value, '\n' :: rest)

theorem written_writeString (text : String) : Written (writeString text) (.string text) := by
  constructor
  · intro rest
    rcases exists_writeString_eq_cons text with ⟨quote, body, written, rfl | rfl⟩
    · rw [written]
      exact skipBlanks_cons (by decide) _
    · rw [written]
      exact skipBlanks_cons (by decide) _
  · intro rest
    exact readValue_writeString _ text (by simp) (by simp)

theorem written_writeBoolean (value : Bool) : Written (writeBoolean value) (.boolean value) := by
  constructor
  · intro rest
    cases value <;> exact skipBlanks_cons (by decide) _
  · intro rest
    exact readValue_writeBoolean _ value _

theorem written_writeStrings (texts : List String) :
    Written (writeStrings texts) (.array (texts.map .string)) := by
  constructor
  · intro rest
    have bracket : ∃ body, writeStrings texts = '[' :: body := by
      unfold writeStrings
      split
      · exact ⟨_, rfl⟩
      · exact ⟨_, rfl⟩
      · exact ⟨_, rfl⟩
    rcases bracket with ⟨body, written⟩
    rw [written]
    exact skipBlanks_cons (by decide) _
  · intro rest
    exact readValue_writeStrings (depthLimit - 2) texts _

/-- Lines that are read as the given statements, whatever follows.  One unit of fuel is
used for each statement. -/
structure Lines (chars : List Char) (statements : List Statement) : Prop where
  length_le : statements.length ≤ chars.length
  readStatements_eq : ∀ (fuel : Nat) (rest : List Char),
    readStatements (fuel + statements.length) (chars ++ rest) =
      (readStatements fuel rest).map (statements ++ ·)

theorem Lines.nil : Lines [] [] where
  length_le := Nat.le_refl 0
  readStatements_eq fuel rest := by simp

theorem Lines.append {chars others : List Char} {statements more : List Statement}
    (first : Lines chars statements) (second : Lines others more) :
    Lines (chars ++ others) (statements ++ more) where
  length_le := by
    rw [List.length_append, List.length_append]
    exact Nat.add_le_add first.length_le second.length_le
  readStatements_eq fuel rest := by
    rw [List.length_append, Nat.add_comm statements.length, ← Nat.add_assoc, List.append_assoc,
      first.readStatements_eq, second.readStatements_eq, Option.map_map]
    simp [Function.comp_def, List.append_assoc]

/-- A text that consists of lines is read as their statements. -/
theorem Lines.readStatements {chars : List Char} {statements : List Statement}
    (lines : Lines chars statements) :
    readStatements (chars.length + 1) chars = some statements := by
  have short := lines.length_le
  have fuel : chars.length + 1 = (chars.length - statements.length + 1) + statements.length := by
    omega
  have read := lines.readStatements_eq (chars.length - statements.length + 1) []
  rw [← fuel, List.append_nil] at read
  rw [read]
  simp [Toml.readStatements, skipTrivia]

theorem endLine?_newline (rest : List Char) : endLine? ('\n' :: rest) = some rest := by
  rw [endLine?, skipBlanks_cons (by decide)]
  rfl

/-- What is read up to the end of a line makes up one statement. -/
theorem Lines.single {chars : List Char} {statement : Statement} (nonempty : chars ≠ [])
    (read : ∀ rest, ∃ char others, skipTrivia false (chars ++ rest) = some (char :: others) ∧
      readStatement (char :: others) = some (statement, '\n' :: rest)) :
    Lines chars [statement] where
  length_le := List.length_pos_iff.mpr nonempty
  readStatements_eq fuel rest := by
    rcases read rest with ⟨char, others, skipped, read⟩
    rw [List.length_singleton, Toml.readStatements, skipped]
    simp only [bind, Option.bind, read, endLine?_newline]
    cases Toml.readStatements fuel rest <;> rfl

/-! ## Entries and headers -/

/-- Whether a written key can start with a character. -/
def isKeyStart (char : Char) : Bool :=
  isBareKeyChar char || char == '"' || char == '\''

theorem isBlank_eq_false_of_isKeyStart {char : Char} (starts : isKeyStart char = true) :
    isBlank char = false := by
  have notSpace := ne_of_passes starts (show isKeyStart ' ' = false by decide)
  have notTab := ne_of_passes starts (show isKeyStart '\t' = false by decide)
  simp [isBlank, notSpace, notTab]

/-- How a written key starts. -/
theorem exists_writeKey_eq_cons (key : String) :
    ∃ char others, writeKey key = char :: others ∧ isKeyStart char = true := by
  rcases writeKey_cases key with ⟨written, nonempty, bare⟩ | written | ⟨written, -⟩
  · rcases List.exists_cons_of_ne_nil nonempty with ⟨char, others, same⟩
    refine ⟨char, others, written.trans same, ?_⟩
    simp [isKeyStart, bare char (same ▸ List.mem_cons_self)]
  · exact ⟨'"', _, written, by decide⟩
  · exact ⟨'\'', _, written, by decide⟩

/-- The last key of a path ends in front of another sign. -/
theorem readDotted_last {chars after : List Char} {key : String} {sign : Char}
    (read : readKey (skipBlanks chars) = some (key, after))
    (stops : skipBlanks after = sign :: rest) (notDot : sign ≠ '.') (fuel : Nat) :
    readDotted (fuel + 1) chars = some ([key], sign :: rest) := by
  rw [readDotted, read]
  simp only [bind, Option.bind, stops]
  simp [notDot]

theorem readDotted_dot {chars after : List Char} {key : String}
    (read : readKey (skipBlanks chars) = some (key, '.' :: after)) (fuel : Nat) :
    readDotted (fuel + 1) chars =
      (readDotted fuel after).map fun (keys, after) => (key :: keys, after) := by
  rw [readDotted, read]
  simp only [bind, Option.bind, skipBlanks_cons (show isBlank '.' = false by decide)]
  cases readDotted fuel after <;> rfl

theorem readKey_skipBlanks_writeKey (key : String) {sign : Char}
    (notBare : isBareKeyChar sign = false) (rest : List Char) :
    readKey (skipBlanks (writeKey key ++ sign :: rest)) = some (key, sign :: rest) := by
  rw [skipBlanks_writeKey, readKey_writeKey]
  rintro char ⟨⟩
  exact notBare

/-- A path that is not too long is read as its keys. -/
theorem readPath_eq {chars : List Char} {keys : List String}
    (read : readDotted (chars.length + 1) chars = some (keys, rest))
    (short : keys.length < depthLimit) : readPath chars = some (keys, rest) := by
  rw [readPath, read]
  simp [short]

variable {written : List Char}

theorem readAssignment_writeKey (key : String) {value : Toml} (valued : Written written value)
    (rest : List Char) :
    readAssignment (readValue (depthLimit - 1))
        (writeKey key ++ ' ' :: '=' :: ' ' :: (written ++ '\n' :: rest)) =
      some (([key], value), '\n' :: rest) := by
  have path : readPath (writeKey key ++ ' ' :: '=' :: ' ' :: (written ++ '\n' :: rest)) =
      some ([key], '=' :: ' ' :: (written ++ '\n' :: rest)) := by
    apply readPath_eq
    · exact readDotted_last (readKey_skipBlanks_writeKey key (by decide) _) rfl (by decide) _
    · simp [depthLimit]
  have unspaced : skipBlanks (' ' :: (written ++ '\n' :: rest)) = written ++ '\n' :: rest :=
    (List.dropWhile_cons_of_pos rfl).trans (valued.skipBlanks_eq _)
  rw [readAssignment, path]
  simp only [bind, Option.bind, expect, if_true, unspaced, valued.readValue_eq]
  rfl

/-- A line that gives a key its value is read as that. -/
theorem Lines.entry (key : String) {value : Toml} (valued : Written written value) :
    Lines (writeKey key ++ " = ".toList ++ written ++ ['\n']) [.assign [key] value] := by
  have line (rest : List Char) : writeKey key ++ " = ".toList ++ written ++ ['\n'] ++ rest =
      writeKey key ++ ' ' :: '=' :: ' ' :: (written ++ '\n' :: rest) := by
    simp
  rcases exists_writeKey_eq_cons key with ⟨char, others, same, starts⟩
  apply Lines.single
  · simp
  · intro rest
    have read := readAssignment_writeKey key valued rest
    rw [same] at read
    refine ⟨char, others ++ ' ' :: '=' :: ' ' :: (written ++ '\n' :: rest), ?_, ?_⟩
    · rw [line, same]
      exact skipTrivia_cons (ne_of_passes starts (by decide))
        (ne_of_passes starts (by decide)) (isBlank_eq_false_of_isKeyStart starts)
        (ne_of_passes starts (by decide)) _
    · rw [readStatement]
      · rw [← List.cons_append, read]
        rfl
      · simp [ne_of_passes starts (show isKeyStart '[' = false by decide)]

theorem writePath_cons (key next : String) (path : List String) :
    writePath (key :: next :: path) = writeKey key ++ '.' :: writePath (next :: path) := rfl

/-- A written path is no shorter than its keys are many. -/
theorem length_le_length_writePath (path : List String) :
    path.length ≤ (writePath path).length := by
  induction path with
  | nil => exact Nat.zero_le _
  | cons key path ih =>
      cases path with
      | nil =>
          rcases exists_writeKey_eq_cons key with ⟨char, others, same, -⟩
          simp [writePath, same]
      | cons next path =>
          rw [writePath_cons, List.length_append]
          simp only [List.length_cons] at ih ⊢
          omega

/-- A path is read up to the bracket behind it. -/
theorem readDotted_writePath {path : List String} (nonempty : path ≠ []) {fuel : Nat}
    (enough : path.length ≤ fuel) (rest : List Char) :
    readDotted fuel (writePath path ++ ']' :: rest) = some (path, ']' :: rest) := by
  induction path generalizing fuel with
  | nil => exact absurd rfl nonempty
  | cons key path ih =>
      cases fuel with
      | zero => cases enough
      | succ fuel =>
          cases path with
          | nil =>
              exact readDotted_last (readKey_skipBlanks_writeKey key (by decide) rest) rfl
                (by decide) fuel
          | cons next path =>
              rw [writePath_cons, List.append_assoc, List.cons_append,
                readDotted_dot (readKey_skipBlanks_writeKey key (by decide) _),
                ih (List.cons_ne_nil _ _) (Nat.le_of_succ_le_succ enough)]
              rfl

/-- A header is read as its path. -/
theorem Lines.header {path : List String} (nonempty : path ≠ [])
    (short : path.length < depthLimit) :
    Lines ("\n[".toList ++ writePath path ++ "]\n".toList) [.table path] := by
  have line (rest : List Char) : "\n[".toList ++ writePath path ++ "]\n".toList ++ rest =
      '\n' :: '[' :: (writePath path ++ ']' :: '\n' :: rest) := by
    simp
  have read (rest : List Char) :
      readPath (writePath path ++ ']' :: rest) = some (path, ']' :: rest) := by
    have longer := length_le_length_writePath path
    apply readPath_eq
    · apply readDotted_writePath nonempty
      rw [List.length_append]
      omega
    · exact short
  have single : ∃ char others, writePath path = char :: others ∧ isKeyStart char = true := by
    rcases List.exists_cons_of_ne_nil nonempty with ⟨key, others, rfl⟩
    rcases exists_writeKey_eq_cons key with ⟨char, body, same, starts⟩
    cases others with
    | nil => exact ⟨char, body, same, starts⟩
    | cons next others =>
        rw [writePath_cons, same]
        exact ⟨char, _, rfl, starts⟩
  apply Lines.single
  · simp
  · intro rest
    refine ⟨'[', writePath path ++ ']' :: '\n' :: rest, ?_, ?_⟩
    · rw [line, skipTrivia_newline]
      exact skipTrivia_cons (by decide) (by decide) (by decide) (by decide) _
    · rcases single with ⟨char, others, same, starts⟩
      have notNested := ne_of_passes starts (show isKeyStart '[' = false by decide)
      rw [readStatement, readHeader]
      · rw [read]
        rfl
      · simp [same, notNested]

end Highlight.Toml
