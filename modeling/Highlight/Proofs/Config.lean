import Highlight.Config.File
import Highlight.Proofs.Files
import Highlight.Proofs.Format

/-!
# Saved settings

Settings are read back from the text that is written for them, in whatever order the
overrides stand there.  Every field is written, an absent theme file excepted, so no
default of the reader takes the place of anything.

Each part of the settings is compared with the values of its fields: what is written of
the part is read as these values, and the values are read as the part.
-/

namespace Highlight

open Toml

/-! ## Themes and rendering -/

namespace ThemeConfig

theorem ofToml?_fields (config : ThemeConfig) :
    ofToml? (.table config.fields.entries) = some config := by
  rcases config with ⟨name, path⟩
  cases path with
  | none => simp [ofToml?, fields, record?, List.lookup_cons, fieldOr, string?]
  | some path => simp [ofToml?, fields, record?, List.lookup_cons, fieldOr, string?]

theorem nodup_fields (config : ThemeConfig) : (config.fields.map Prod.fst).Nodup := by
  cases path : config.path with
  | none => simp [fields, path]
  | some path => simp [fields, path]

end ThemeConfig

namespace OutputFormat

theorem ofKey?_key (format : OutputFormat) : ofKey? format.key = some format := by
  cases format <;> rfl

end OutputFormat

namespace RenderConfig

theorem ofToml?_fields (config : RenderConfig) :
    ofToml? (.table config.fields.entries) = some config := by
  simp [ofToml?, fields, record?, List.lookup_cons, fieldOr, string?, boolean?,
    OutputFormat.ofToml?, OutputFormat.ofKey?_key]

theorem nodup_fields (config : RenderConfig) : (config.fields.map Prod.fst).Nodup := by
  simp [fields]

end RenderConfig

/-! ## Overrides -/

namespace Override

theorem ofToml?_fields (extra : Override) : ofToml? (.table extra.fields.entries) = some extra := by
  simp [ofToml?, fields, record?, List.lookup_cons, fieldOr, strings?_texts]

theorem nodup_fields (extra : Override) : (extra.fields.map Prod.fst).Nodup := by
  simp [fields]

end Override

namespace OverrideMap

/-- Overrides are added to those that are there, under other names. -/
theorem ofEntries?_children {order : List (String × Override)} {map : OverrideMap}
    (names : (order.map Prod.fst).Nodup)
    (fresh : ∀ entry ∈ map.entries, entry.1 ∉ order.map Prod.fst) :
    ∃ result, ofEntries? map (Fields.values (children order)) = some result ∧
      ∀ entry, entry ∈ result.entries ↔ entry ∈ map.entries ∨ entry ∈ order := by
  induction order generalizing map with
  | nil => exact ⟨map, rfl, by simp⟩
  | cons first order ih =>
      rcases first with ⟨name, extra⟩
      rw [List.map_cons, List.nodup_cons] at names
      have inserted (entry : String × Override) : entry ∈ (map.insert name extra).entries ↔
          entry = (name, extra) ∨ entry ∈ map.entries := by
        have apart (among : entry ∈ map.entries) : entry.1 ≠ name := by
          intro same
          exact fresh entry among (same ▸ List.mem_cons_self)
        rw [insert, Ordered.mem_insert_iff map.increasing, and_iff_left_of_imp apart]
      have stillFresh : ∀ entry ∈ (map.insert name extra).entries,
          entry.1 ∉ order.map Prod.fst := by
        intro entry among
        rcases (inserted entry).mp among with rfl | among
        · exact names.1
        · exact fun later => fresh entry among (List.mem_cons_of_mem _ later)
      rcases ih names.2 stillFresh with ⟨result, read, members⟩
      refine ⟨result, ?_, ?_⟩
      · rw [children, List.map_cons, Fields.values, List.map_cons, ofEntries?,
          Override.ofToml?_fields]
        exact read
      · intro entry
        rw [members, inserted, List.mem_cons, or_assoc, or_left_comm]

/-- In whatever order they stand, the overrides of a map are read as that map. -/
theorem ofToml?_children {map : OverrideMap} {order : List (String × Override)}
    (permuted : order.Perm map.entries) :
    ofToml? (.table (Fields.values (children order))) = some map := by
  have names : (order.map Prod.fst).Nodup :=
    (permuted.map Prod.fst).nodup_iff.mpr (Ordered.nodup_keys map.increasing)
  have fresh : ∀ entry ∈ empty.entries, entry.1 ∉ order.map Prod.fst :=
    fun _ among => absurd among List.not_mem_nil
  rcases ofEntries?_children names fresh with ⟨result, read, members⟩
  have entriesEq : result.entries = map.entries := by
    apply Ordered.eq_of_mem_iff result.increasing map.increasing
    intro entry
    rw [members, ← permuted.mem_iff]
    exact or_iff_right List.not_mem_nil
  rcases result with ⟨entries, increasing⟩
  rcases map with ⟨mapEntries, mapIncreasing⟩
  subst entriesEq
  exact read

theorem keys_children (order : List (String × Override)) :
    (children order).map Prod.fst = order.map Prod.fst := by
  rw [children, List.map_map]
  rfl

end OverrideMap

/-! ## Settings -/

namespace Config

variable (config : Config) (order : List (String × Override))

theorem distinct_layout (names : (order.map Prod.fst).Nodup) : (config.layout order).Distinct where
  topLevel := by simp [layout]
  names := OverrideMap.keys_children order ▸ names
  fields := by
    rw [layout, List.forall_mem_append, List.forall_mem_cons, List.forall_mem_singleton]
    refine ⟨⟨config.theme.nodup_fields, config.render.nodup_fields⟩, ?_⟩
    intro table among
    rcases List.mem_map.mp among with ⟨entry, -, rfl⟩
    exact entry.2.nodup_fields

theorem value_layout : (config.layout order).value =
    .table [("grammar_dirs", texts config.grammarDirectories),
      ("theme", .table config.theme.fields.entries),
      ("render", .table config.render.fields.entries),
      ("languages", .table (Fields.values (OverrideMap.children order)))] := rfl

/-- The table that is written for settings is read as these settings. -/
theorem ofToml?_value (permuted : order.Perm config.languages.entries) :
    ofToml? (config.layout order).value = some config := by
  simp [value_layout, ofToml?, record?, List.lookup_cons, fieldOr, strings?_texts,
    ThemeConfig.ofToml?_fields, RenderConfig.ofToml?_fields, OverrideMap.ofToml?_children permuted]

section

variable (codec : Codec Layout.Distinct Layout.value)

theorem parseAs_printAs (permuted : order.Perm config.languages.entries) :
    parseAs codec.toFormat (config.printAs codec.toFormat order) = .ok config := by
  have names : (order.map Prod.fst).Nodup :=
    (permuted.map Prod.fst).nodup_iff.mpr (Ordered.nodup_keys config.languages.increasing)
  have read : (codec.parse? (codec.print (config.layout order))).bind ofToml? = some config := by
    rw [codec.parse?_print (config.distinct_layout order names), Option.bind_some,
      ofToml?_value config order permuted]
  simp only [parseAs, printAs, read]

/-- Settings are read from their text and loaded from where they were saved, in every
format that reads back what it prints and in whatever order the overrides are written. -/
theorem loadAs_saveAs (permuted : order.Perm config.languages.entries) :
    parseAs codec.toFormat (config.printAs codec.toFormat order) = .ok config ∧
      ∀ (files saved : Files) (path : String),
        config.saveAs codec.toFormat order files path = .ok saved →
          loadAs codec.toFormat saved path = .ok config := by
  have read := config.parseAs_printAs order codec permuted
  constructor
  · exact read
  · intro files saved path written
    simp only [loadAs, Files.readText_of_mapError_save written, read]

end

/-- In whatever order the overrides are written, the text of some settings is accepted and read
as these settings, and settings that are saved are loaded from where they were saved. -/
theorem load_saveIn (permuted : order.Perm config.languages.entries) :
    parse (config.textIn order) = .ok config ∧
      ∀ (files saved : Files) (path : String), config.saveIn order files path = .ok saved →
        load saved path = .ok config :=
  config.loadAs_saveAs order Toml.codec permuted

/-- Settings with quotes, line breaks and an odd name among the overrides are loaded, though the
overrides are written in reverse. -/
theorem load_saveIn_reversed :
    let config : Config := {
      grammarDirectories := ["it's", "a \"b\"", "'\"\n"]
      theme := { path := some "C:\\dark.json" }
      languages :=
        (OverrideMap.empty.insert "c++ \"x\"" { keywords := ["co_await"] }).insert "rust" {} }
    ∃ saved, config.saveIn config.languages.entries.reverse .empty "tinge/config.toml" = .ok saved ∧
      load saved "tinge/config.toml" = .ok config := by
  intro config
  have accepted : (config.saveIn config.languages.entries.reverse .empty
      "tinge/config.toml").isOk = true := by
    decide +kernel
  cases written : config.saveIn config.languages.entries.reverse .empty "tinge/config.toml" with
  | error problem =>
      rw [written] at accepted
      cases accepted
  | ok saved =>
      exact ⟨saved, rfl, (load_saveIn config config.languages.entries.reverse
        (List.reverse_perm _)).2 .empty saved _ written⟩

end Config

end Highlight
