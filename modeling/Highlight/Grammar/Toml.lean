import Highlight.Grammar.Override
import Highlight.Toml.Value

/-!
# Grammars and overrides as TOML

What a description leaves out comes from the base table.
-/

namespace Highlight

namespace Override

/-- The fields of an override, in order. -/
def fieldNames : List String :=
  ["extensions", "keywords", "control", "types", "constants", "null_literals"]

/-- Reads an override. -/
def ofToml? (value : Toml) : Option Override := do
  let field ← Toml.record? fieldNames value
  let extensions ← Toml.fieldOr (field "extensions") [] Toml.strings?
  let keywords ← Toml.fieldOr (field "keywords") [] Toml.strings?
  let control ← Toml.fieldOr (field "control") [] Toml.strings?
  let types ← Toml.fieldOr (field "types") [] Toml.strings?
  let constants ← Toml.fieldOr (field "constants") [] Toml.strings?
  let nullLiterals ← Toml.fieldOr (field "null_literals") [] Toml.strings?
  return { extensions, keywords, control, types, constants, nullLiterals }

end Override

namespace WordSet

/-- Reads a set of words. -/
def ofToml? (value : Toml) : Option WordSet :=
  value.strings?.map ofList

end WordSet

namespace BlockComment

/-- The fields of block comment markers, in order. -/
def fieldNames : List String :=
  ["start", "end"]

/-- Reads block comment markers. -/
def ofToml? (value : Toml) : Option BlockComment := do
  let field ← Toml.record? fieldNames value
  let opening ← (field "start").bind Toml.string?
  let closing ← (field "end").bind Toml.string?
  return { opening, closing }

end BlockComment

namespace Grammar

/-- The fields of a grammar, in order. -/
def fieldNames : List String :=
  ["name", "extensions", "keywords", "control", "types", "constants", "null_literals",
    "line_comment", "block_comment", "operators", "string_prefixes", "preprocessor",
    "raw_strings", "digit_separators"]

/-- Reads a grammar. -/
def ofToml? (value : Toml) : Option Grammar := do
  let field ← Toml.record? fieldNames value
  let words (name : String) := Toml.fieldOr (field name) WordSet.empty WordSet.ofToml?
  let flag (name : String) := Toml.fieldOr (field name) false Toml.boolean?
  return {
    name := ← Toml.fieldOr (field "name") base.name Toml.string?
    extensions := ← Toml.fieldOr (field "extensions") base.extensions Toml.strings?
    keywords := ← words "keywords"
    control := ← words "control"
    types := ← words "types"
    constants := ← words "constants"
    nullLiterals := ← words "null_literals"
    lineComment :=
      ← Toml.fieldOr (field "line_comment") base.lineComment fun marker =>
        marker.string?.map some
    blockComment :=
      ← Toml.fieldOr (field "block_comment") base.blockComment fun markers =>
        (BlockComment.ofToml? markers).map some
    operators := ← Toml.fieldOr (field "operators") base.operators Toml.strings?
    stringPrefixes := ← Toml.fieldOr (field "string_prefixes") base.stringPrefixes Toml.strings?
    preprocessor := ← flag "preprocessor"
    rawStrings := ← flag "raw_strings"
    digitSeparators := ← flag "digit_separators" }

end Grammar

end Highlight
