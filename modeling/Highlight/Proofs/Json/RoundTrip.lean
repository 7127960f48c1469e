import Highlight.Json.Parser
import Highlight.Json.Printer
import Mathlib.Tactic.SplitIfs

/-!
# Reading written JSON

A value that is made of texts, truth values and objects is read back from its text.
The reader takes from the front what the writer has put there, whatever follows, so
the statements are about a written value in front of other characters.  Numbers,
arrays and strings without a text are not considered here.

The reader's fuel bounds the number of its calls.  Each call for a value inside an
object is paid for by the characters around that value.
-/

namespace Highlight.Json

/-! ## Space -/

theorem skipSpace_append {space : List Char} (blank : ∀ char ∈ space, isSpace char = true)
    (chars : List Char) : skipSpace (space ++ chars) = skipSpace chars :=
  List.dropWhile_append_of_pos blank

theorem skipSpace_cons {char : Char} (notSpace : isSpace char = false) (chars : List Char) :
    skipSpace (char :: chars) = char :: chars := by
  simp [skipSpace, notSpace]

theorem isSpace_newLine (level : Nat) : ∀ char ∈ newLine level, isSpace char = true := by
  intro char member
  rcases List.mem_cons.mp member with rfl | member
  · rfl
  · rw [List.eq_of_mem_replicate member]
    rfl

/-! ## Strings -/

theorem number?_digits {n : Nat} (lt : n < 0x20) :
    Hex.number? ['0', '0', Nat.digitChar (n / 16), Nat.digitChar (n % 16)] = some n := by
  have all : ∀ n < 0x20,
      Hex.number? ['0', '0', Nat.digitChar (n / 16), Nat.digitChar (n % 16)] = some n := by decide
  exact all n lt

/-- Puts a code in front of those read. -/
def withUnit (unit : Nat) (read : Option (List Nat × List Char)) :
    Option (List Nat × List Char) :=
  read.map fun (units, after) => (unit :: units, after)

theorem stringUnits_quote (rest : List Char) : stringUnits ('"' :: rest) = some ([], rest) := by
  rw [stringUnits.eq_def]
  rfl

theorem stringUnits_letter {letter meant : Char} (notCode : letter ≠ 'u')
    (escaped : escape? letter = some meant) (rest : List Char) :
    stringUnits ('\\' :: letter :: rest) = withUnit meant.toNat (stringUnits rest) := by
  rw [stringUnits.eq_def]
  cases read : stringUnits rest with
  | none => simp [notCode, escaped, read, withUnit]
  | some found => simp [notCode, escaped, read, withUnit]

theorem stringUnits_code {a b c d : Char} {unit : Nat}
    (coded : Hex.number? [a, b, c, d] = some unit) (rest : List Char) :
    stringUnits ('\\' :: 'u' :: a :: b :: c :: d :: rest) =
      withUnit unit (stringUnits rest) := by
  rw [stringUnits.eq_def]
  cases read : stringUnits rest with
  | none => simp [coded, read, withUnit]
  | some found => simp [coded, read, withUnit]

theorem stringUnits_plain {char : Char} (notQuote : char ≠ '"') (notEscape : char ≠ '\\')
    (printable : ¬ char.toNat < 0x20) (rest : List Char) :
    stringUnits (char :: rest) = withUnit char.toNat (stringUnits rest) := by
  rw [stringUnits.eq_def]
  cases read : stringUnits rest with
  | none => simp [notQuote, notEscape, printable, read, withUnit]
  | some found => simp [notQuote, notEscape, printable, read, withUnit]

/-- A written character is read as its code. -/
theorem stringUnits_writeChar (char : Char) (rest : List Char) :
    stringUnits (writeChar char ++ rest) = withUnit char.toNat (stringUnits rest) := by
  have letter {name meant : Char} (notCode : name ≠ 'u') (escaped : escape? name = some meant)
      (same : char = meant) : stringUnits (['\\', name] ++ rest) =
        withUnit char.toNat (stringUnits rest) := by
    rw [same]
    exact stringUnits_letter notCode escaped rest
  unfold writeChar
  split_ifs with quote backslash back form newline carriage tab control
  · exact letter (by decide) (by decide) quote
  · exact letter (by decide) (by decide) backslash
  · exact letter (by decide) (by decide) back
  · exact letter (by decide) (by decide) form
  · exact letter (by decide) (by decide) newline
  · exact letter (by decide) (by decide) carriage
  · exact letter (by decide) (by decide) tab
  · exact stringUnits_code (number?_digits control) rest
  · exact stringUnits_plain quote backslash control rest

/-- Every character is spelled by its code, as no character is half of a pair. -/
theorem spell?_map_toNat (chars : List Char) : spell? (chars.map Char.toNat) = some chars := by
  induction chars with
  | nil => rfl
  | cons char chars ih =>
      have valid : char.toNat < 0xD800 ∨ 0xDFFF < char.toNat ∧ char.toNat < 0x110000 := char.valid
      have notLeading : isLeading char.toNat = false := by
        simp only [isLeading, Bool.and_eq_false_iff, decide_eq_false_iff_not]
        omega
      have notTrailing : isTrailing char.toNat = false := by
        simp only [isTrailing, Bool.and_eq_false_iff, decide_eq_false_iff_not]
        omega
      rw [List.map_cons, spell?.eq_def]
      simp [notLeading, notTrailing, ih]

theorem stringUnits_flatMap_writeChar (chars rest : List Char) :
    stringUnits (chars.flatMap writeChar ++ '"' :: rest) = some (chars.map Char.toNat, rest) := by
  induction chars with
  | nil => exact stringUnits_quote rest
  | cons char chars ih =>
      rw [List.flatMap_cons, List.append_assoc, stringUnits_writeChar, ih]
      rfl

/-- The characters of a written text after its first quote. -/
def closeString (text : String) : List Char :=
  text.toList.flatMap writeChar ++ ['"']

theorem writeString_some (text : String) :
    writeString (some text) = '"' :: closeString text := rfl

/-- A written text is read back, from behind its first quote. -/
theorem readString_closeString (text : String) (rest : List Char) :
    readString (closeString text ++ rest) = some (some text, rest) := by
  rw [readString, closeString, List.append_assoc, List.singleton_append,
    stringUnits_flatMap_writeChar]
  simp [spell?_map_toNat]

/-! ## Values -/

/-- A value made of texts, truth values and objects. -/
inductive Plain : Json → Prop
  | boolean (value : Bool) : Plain (.boolean value)
  | string (text : String) : Plain (.string (some text))
  | object {members : List (Option String × Json)}
      (keys : ∀ member ∈ members, member.1.isSome = true)
      (values : ∀ member ∈ members, Plain member.2) : Plain (.object members)

theorem plain_object_nil : Plain (.object []) :=
  .object (fun _ among => absurd among List.not_mem_nil)
    (fun _ among => absurd among List.not_mem_nil)

theorem plain_object_cons {key : String} {value : Json} {members : List (Option String × Json)}
    (first : Plain value) (others : Plain (.object members)) :
    Plain (.object ((some key, value) :: members)) := by
  cases others with
  | object keys values =>
      apply Plain.object
      · rw [List.forall_mem_cons]
        exact ⟨rfl, keys⟩
      · rw [List.forall_mem_cons]
        exact ⟨first, values⟩

/-- Space in front of a value makes no difference. -/
theorem readValue_append_space {space : List Char} (blank : ∀ char ∈ space, isSpace char = true)
    (fuel : Nat) (chars : List Char) : readValue fuel (space ++ chars) = readValue fuel chars := by
  cases fuel with
  | zero => rfl
  | succ fuel => simp only [readValue, skipSpace_append blank]

theorem readValue_boolean (fuel : Nat) (value : Bool) (level : Nat) (rest : List Char) :
    readValue (fuel + 1) (write level (.boolean value) ++ rest) = some (.boolean value, rest) := by
  cases value with
  | false =>
    rw [readValue, write]
    rfl
  | true =>
    rw [readValue, write]
    rfl

theorem write_string (level : Nat) (text : String) :
    write level (.string (some text)) = writeString (some text) := by
  rw [write]

theorem readValue_quote (fuel : Nat) (rest : List Char) :
    readValue (fuel + 1) ('"' :: rest) =
      (readString rest).map fun (text, after) => (.string text, after) := by
  rw [readValue, skipSpace_cons (by decide)]
  rfl

theorem readValue_string (fuel : Nat) (text : String) (level : Nat) (rest : List Char) :
    readValue (fuel + 1) (write level (.string (some text)) ++ rest) =
      some (.string (some text), rest) := by
  rw [write_string, writeString_some, List.cons_append, readValue_quote, readString_closeString]
  rfl

theorem readValue_braces (fuel : Nat) (rest : List Char) :
    readValue (fuel + 1) ('\x7b' :: '\x7d' :: rest) = some (.object [], rest) := by
  have closing : skipSpace ('\x7d' :: rest) = '\x7d' :: rest := skipSpace_cons (by decide) rest
  rw [readValue, skipSpace_cons (by decide)]
  simp only [closing]

/-- The members of an object are read from behind its brace. -/
theorem readValue_brace {chars rest : List Char} (quoted : skipSpace chars = '"' :: rest)
    (fuel : Nat) : readValue (fuel + 1) ('\x7b' :: chars) =
      (readMembers fuel chars).map fun (members, after) => (.object members, after) := by
  rw [readValue, skipSpace_cons (by decide)]
  simp only [quoted]
  rfl


/-! ## Objects -/

/-- A member of an object on a line of its own. -/
def writeMember (level : Nat) (member : Option String × Json) : List Char :=
  newLine level ++ writeString member.1 ++ ": ".toList ++ write level member.2

theorem writeMembers_cons (level : Nat) (member : Option String × Json)
    (rest : List (Option String × Json)) :
    writeMembers level (member :: rest) =
      ',' :: (writeMember level member ++ writeMembers level rest) := by
  rcases member with ⟨key, value⟩
  rw [writeMembers, writeMember]
  simp only [List.cons_append, List.append_assoc]

theorem write_object_cons (level : Nat) (member : Option String × Json)
    (rest : List (Option String × Json)) :
    write level (.object (member :: rest)) =
      '\x7b' :: (writeMember (level + 1) member ++ (writeMembers (level + 1) rest ++
        (newLine level ++ ['\x7d']))) := by
  rcases member with ⟨key, value⟩
  rw [write, writeMember]
  simp only [List.cons_append, List.append_assoc]

/-- How a member starts, once the space in front of it is gone. -/
theorem skipSpace_writeMember (level : Nat) (key : String) (value : Json) (rest : List Char) :
    skipSpace (writeMember level (some key, value) ++ rest) =
      '"' :: (closeString key ++ (':' :: ' ' :: (write level value ++ rest))) := by
  rw [writeMember, List.append_assoc, List.append_assoc, List.append_assoc,
    skipSpace_append (isSpace_newLine level), writeString_some, List.cons_append,
    skipSpace_cons (by decide)]
  rfl

variable {fuel level : Nat} {key : String} {value : Json}

/-- A member is read, and then a brace or a comma is needed. -/
theorem readMembers_writeMember {after rest : List Char} {sign : Char}
    (read : readValue fuel (write level value ++ after) = some (value, after))
    (follows : skipSpace after = sign :: rest) (known : sign = '\x7d' ∨ sign = ',') :
    readMembers (fuel + 1) (writeMember level (some key, value) ++ after) =
      if sign = '\x7d' then some ([(some key, value)], rest)
      else (readMembers fuel rest).map fun (members, after) =>
        ((some key, value) :: members, after) := by
  have blank : ∀ char ∈ [' '], isSpace char = true := by simp [isSpace]
  have spaced : readValue fuel (' ' :: (write level value ++ after)) = some (value, after) :=
    (readValue_append_space blank fuel _).trans read
  rw [readMembers]
  simp only [skipSpace_writeMember]
  simp only [bind, Option.bind, readString_closeString]
  rw [skipSpace_cons (by decide)]
  simp only [spaced, follows]
  rcases known with rfl | rfl
  · rfl
  · simp only [if_neg (show ',' ≠ '\x7d' by decide)]
    cases readMembers fuel rest <;> rfl

/-- With twice as much fuel as its text is long, the value is read back from that text,
whatever follows. -/
def ReadsBack (level : Nat) (value : Json) : Prop :=
  ∀ (fuel : Nat) (after : List Char), 2 * (write level value).length ≤ fuel →
    readValue fuel (write level value ++ after) = some (value, after)

theorem length_write_lt (level : Nat) (member : Option String × Json) :
    (write level member.2).length < (writeMember level member).length := by
  simp only [writeMember, newLine, List.length_append, List.length_cons]
  omega

/-- The members of a written object are read back from behind its brace. -/
theorem readMembers_writeMembers (outer : Nat) (after : List Char)
    {member : Option String × Json} {rest : List (Option String × Json)}
    (keys : ∀ other ∈ member :: rest, other.1.isSome = true)
    (values : ∀ other ∈ member :: rest, ReadsBack level other.2)
    (enough : 2 * (writeMember level member ++ writeMembers level rest).length ≤ fuel) :
    readMembers fuel (writeMember level member ++ (writeMembers level rest ++
      (newLine outer ++ '\x7d' :: after))) = some (member :: rest, after) := by
  -- One call is made for each member, and the line break in front of it pays for it.
  induction rest generalizing fuel member with
  | nil =>
      rcases member with ⟨_ | key, value⟩
      · simp at keys
      have longer := length_write_lt level (some key, value)
      rw [List.length_append] at enough
      cases fuel with
      | zero => omega
      | succ fuel =>
          have read := values _ List.mem_cons_self fuel (newLine outer ++ '\x7d' :: after)
            (by omega)
          have closes : skipSpace (newLine outer ++ '\x7d' :: after) = '\x7d' :: after :=
            (skipSpace_append (isSpace_newLine outer) _).trans (skipSpace_cons (by decide) _)
          rw [writeMembers, List.nil_append, readMembers_writeMember read closes (.inl rfl),
            if_pos rfl]
  | cons next rest ih =>
      rcases member with ⟨_ | key, value⟩
      · simp at keys
      have longer := length_write_lt level (some key, value)
      rw [writeMembers_cons] at enough ⊢
      rw [List.length_append, List.length_cons] at enough
      cases fuel with
      | zero => omega
      | succ fuel =>
          have read := values _ List.mem_cons_self fuel (',' :: (writeMember level next ++
            (writeMembers level rest ++ (newLine outer ++ '\x7d' :: after)))) (by omega)
          rw [List.cons_append, List.append_assoc,
            readMembers_writeMember read (skipSpace_cons (by decide) _) (.inr rfl),
            if_neg (by decide), ih (fun other among => keys other (List.mem_cons_of_mem _ among))
            (fun other among => values other (List.mem_cons_of_mem _ among)) (by omega)]
          rfl

/-- A value that is made of texts, truth values and objects is read back. -/
theorem readsBack_of_plain {value : Json} (plain : Plain value) (level : Nat) :
    ReadsBack level value := by
  induction plain generalizing level with
  | boolean value =>
      intro fuel after enough
      cases fuel with
      | zero => cases value <;> simp [write] at enough
      | succ fuel => exact readValue_boolean fuel value level after
  | string text =>
      intro fuel after enough
      cases fuel with
      | zero => simp [write_string, writeString_some] at enough
      | succ fuel => exact readValue_string fuel text level after
  | @object members keys values ih =>
      intro fuel after enough
      cases members with
      | nil =>
          cases fuel with
          | zero => simp [write] at enough
          | succ fuel =>
              rw [write]
              exact readValue_braces fuel after
      | cons member rest =>
          rw [write_object_cons] at enough ⊢
          cases fuel with
          | zero => simp at enough
          | succ fuel =>
              rcases member with ⟨_ | key, value⟩
              · simp at keys
              have fits : 2 * (writeMember (level + 1) (some key, value) ++
                  writeMembers (level + 1) rest).length ≤ fuel := by
                simp only [List.length_cons, List.length_append] at enough ⊢
                omega
              have read := readMembers_writeMembers level after keys
                (fun other among => ih other among (level + 1)) fits
              simp only [List.cons_append, List.append_assoc, List.nil_append]
              rw [readValue_brace (skipSpace_writeMember (level + 1) key value _), read]
              rfl

/-- The text of a value that is made of texts, truth values and objects is read as that
value. -/
theorem parse?_toText {value : Json} (plain : Plain value) : parse? value.toText = some value := by
  have read := readsBack_of_plain plain 0 (2 * value.toText.length + 2) [] (by
    rw [toText, String.length_ofList]
    omega)
  rw [List.append_nil] at read
  rw [parse?, toText, String.toList_ofList]
  rw [toText] at read
  rw [read]
  rfl

end Highlight.Json
