/-
# Settings

All settings in one document, in four sections: exports, layout, requests for suggestions, and the
store.  Sections and their members may be missing.
-/

import MappingCanvas.Archive.Store
import MappingCanvas.Canvas.Layout
import MappingCanvas.Compile.Export
import MappingCanvas.Suggestion.Request

namespace MappingCanvas

/-- All settings. -/
structure Settings where
  exporting : ExportOptions
  layout : Layout
  oracle : OracleOptions
  store : StoreConfig

namespace Settings

/-- The settings that are used when none are given. -/
def default : Settings := ⟨.default, .default, .default, .default⟩

/-- Settings as a document. -/
def toJson (s : Settings) : Json :=
  .object [("export", s.exporting.toJson), ("layout", s.layout.toJson),
    ("oracle", s.oracle.toJson), ("store", s.store.toJson)]

/-- Reads settings. -/
def decode : Decoder Settings :=
  ((Form.defaulted "export" ExportOptions.default ExportOptions.decode).and
    ((Form.defaulted "layout" Layout.default Layout.decode).and
      ((Form.defaulted "oracle" OracleOptions.default OracleOptions.decode).and
        (Form.defaulted "store" StoreConfig.default StoreConfig.decode)))
    |>.map fun (exporting, layout, oracle, store) =>
      (⟨exporting, layout, oracle, store⟩ : Settings)).decode

end Settings
end MappingCanvas
