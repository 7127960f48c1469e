import Highlight.Proofs.Color.Digits
import Highlight.Proofs.Files
import Highlight.Proofs.Format
import Highlight.Theme.File

/-!
# Saved themes

What is written of a theme is enough to read it back: the digits of its colours, the
backgrounds that are there and the styles of all kinds that have one.  No default of
the reader takes the place of anything that was written.  A theme file can be read
wherever it can be saved.
-/

namespace Highlight

namespace Hex

theorem digit?_digitChar : ∀ n < 16, digit? (Nat.digitChar n) = some n := by
  decide

end Hex

namespace Color

theorem byte_toNat (value : UInt8) : byte (value.toNat / 16) (value.toNat % 16) = value := by
  have whole : value.toNat / 16 * 16 + value.toNat % 16 = value.toNat := Nat.div_add_mod' _ _
  rw [byte, whole, UInt8.ofNat_toNat]

theorem mapM_digit?_byteDigits (value : UInt8) :
    (byteDigits value).mapM Hex.digit? = some [value.toNat / 16, value.toNat % 16] := by
  have high : value.toNat / 16 < 16 := by
    have := value.toNat_lt
    omega
  have low : value.toNat % 16 < 16 := Nat.mod_lt _ (by decide)
  simp [byteDigits, Hex.digit?_digitChar _ high, Hex.digit?_digitChar _ low]

/-- A written colour is read back. -/
theorem ofText?_toText (color : Color) : ofText? color.toText = some color := by
  have digits : (dropHash color.toText.toList).mapM Hex.digit? =
      some [color.red.toNat / 16, color.red.toNat % 16, color.green.toNat / 16,
        color.green.toNat % 16, color.blue.toNat / 16, color.blue.toNat % 16] := by
    rw [toText, String.toList_ofList]
    simp [dropHash, List.mapM_append, mapM_digit?_byteDigits]
  rw [ofText?_eq, digits, Option.bind_some, ofDigits?]
  simp only [byte_toNat]

theorem ofJson?_toJson (color : Color) : ofJson? color.toJson = some color :=
  ofText?_toText color

/-- No written colour is taken for one that is missing. -/
theorem nullable_toJson (color : Color) :
    Json.nullable ofJson? color.toJson = some (some color) := by
  simp only [toJson, Json.nullable]
  rw [← toJson, ofJson?_toJson]
  rfl

theorem plain_toJson (color : Color) : Json.Plain color.toJson :=
  .string color.toText

end Color

namespace Style

/-- A written style is read back, without a background if it has none. -/
theorem ofJson?_toJson (style : Style) : ofJson? style.toJson = some style := by
  rcases style with ⟨foreground, background, bold, italic, underline⟩
  cases background with
  | none =>
      simp [toJson, ofJson?, Json.record?, fieldNames, Json.member?, List.lookup_cons, Json.fieldOr,
        Json.boolean?, Color.ofJson?_toJson]
  | some color =>
      simp [toJson, ofJson?, Json.record?, fieldNames, Json.member?, List.lookup_cons, Json.fieldOr,
        Json.boolean?, Color.ofJson?_toJson, Color.nullable_toJson]

theorem plain_toJson (style : Style) : Json.Plain style.toJson := by
  have flags : Json.Plain (.object [(some "bold", .boolean style.bold),
      (some "italic", .boolean style.italic), (some "underline", .boolean style.underline)]) := by
    repeat apply Json.plain_object_cons (.boolean _)
    exact Json.plain_object_nil
  rw [toJson]
  cases style.background with
  | none => exact Json.plain_object_cons style.foreground.plain_toJson flags
  | some color =>
      apply Json.plain_object_cons style.foreground.plain_toJson
      exact Json.plain_object_cons color.plain_toJson flags

end Style

namespace TokenKind

theorem ofKey?_key (kind : TokenKind) : ofKey? kind.key = some kind := by
  cases kind <;> rfl

end TokenKind

namespace StyleTable

/-- Reading the styles of some kinds puts them in front of those that are there. -/
theorem ofMembers?_filterMap (table styles : StyleTable) (kinds : List TokenKind) :
    ofMembers? table ((kinds.filterMap fun kind => (styles kind).map (kind, ·)).map
        fun (kind, style) => (some kind.key, style.toJson)) =
      some fun kind => if kind ∈ kinds then (styles kind).or (table kind) else table kind := by
  induction kinds generalizing table with
  | nil => simp [ofMembers?]
  | cons kind kinds ih =>
      cases found : styles kind with
      | none =>
          rw [List.filterMap_cons_none (by simp [found]), ih]
          congr 1
          funext other
          by_cases same : other = kind
          · subst same
            simp [found]
          · simp [same]
      | some style =>
          rw [List.filterMap_cons_some (by rw [found]; rfl), List.map_cons, ofMembers?]
          simp [TokenKind.ofKey?_key, Style.ofJson?_toJson, ih, insert]
          funext other
          by_cases same : other = kind
          · subst same
            simp [found]
          · simp [same]

/-- A written table of styles is read back. -/
theorem ofJson?_toJson (table : StyleTable) : ofJson? table.toJson = some table := by
  rw [toJson, ofJson?, entries, ofMembers?_filterMap]
  simp [TokenKind.mem_all, empty]

theorem plain_toJson (table : StyleTable) : Json.Plain table.toJson := by
  rw [toJson]
  induction table.entries with
  | nil => exact Json.plain_object_nil
  | cons entry _ ih => exact Json.plain_object_cons entry.2.plain_toJson ih

end StyleTable

namespace Theme

/-- A written theme is read back. -/
theorem ofJson?_toJson (theme : Theme) : ofJson? theme.toJson = some theme := by
  rcases theme with ⟨name, isDark, defaultStyle, styles⟩
  simp [toJson, ofJson?, Json.record?, fieldNames, Json.member?, List.lookup_cons, Json.fieldOr,
    Json.boolean?, Json.string?, Style.ofJson?_toJson, StyleTable.ofJson?_toJson]

theorem plain_toJson (theme : Theme) : Json.Plain theme.toJson := by
  apply Json.plain_object_cons (.string _)
  apply Json.plain_object_cons (.boolean _)
  apply Json.plain_object_cons theme.defaultStyle.plain_toJson
  exact Json.plain_object_cons theme.styles.plain_toJson Json.plain_object_nil

/-! ## Theme files -/

section

variable (codec : Codec Json.Plain id) (theme : Theme)

theorem parseAs_printAs : parseAs codec.toFormat (theme.printAs codec.toFormat) = .ok theme := by
  have read : (codec.parse? (codec.print theme.toJson)).bind ofJson? = some theme := by
    rw [codec.parse?_print theme.plain_toJson, id, Option.bind_some, ofJson?_toJson]
  simp only [parseAs, printAs, read]

/-- A theme is read from its text and loaded from where it was saved, in every format that
reads back what it prints. -/
theorem loadAs_saveAs :
    parseAs codec.toFormat (theme.printAs codec.toFormat) = .ok theme ∧
      ∀ (files saved : Files) (path : String), theme.saveAs codec.toFormat files path = .ok saved →
        loadAs codec.toFormat saved path = .ok theme := by
  constructor
  · exact theme.parseAs_printAs codec
  · intro files saved path written
    simp only [loadAs, Files.readText_of_mapError_save written, parseAs_printAs]

end

/-- The text of a theme is accepted and read as that theme, and a theme that is saved
is loaded from where it was saved. -/
theorem load_save (theme : Theme) :
    parse theme.toText = .ok theme ∧
      ∀ (files saved : Files) (path : String), theme.save files path = .ok saved →
        load saved path = .ok theme :=
  theme.loadAs_saveAs Json.codec

/-- A theme with a quote, a line break and a control character in its name is loaded from the
directory that was made for it. -/
theorem load_save_quoted :
    let theme : Theme := { dark with name := "\"Mid\"\n\x01" }
    ∃ saved, theme.save .empty "themes/mid.json" = .ok saved ∧
      load saved "themes/mid.json" = .ok theme := by
  intro theme
  have accepted : (theme.save .empty "themes/mid.json").isOk = true := by
    decide +kernel
  cases written : theme.save .empty "themes/mid.json" with
  | error problem =>
      rw [written] at accepted
      cases accepted
  | ok saved => exact ⟨saved, rfl, (load_save theme).2 .empty saved _ written⟩

end Theme

end Highlight
