/-
# The program

Each job reads whole files, and only after all of them have been read and understood it writes
its results.  So a job that fails on its input leaves no file behind.

An id and the time for new snapshots are given to the program, which thereby depends on its
arguments and the files alone.
-/

import MappingCanvas.Console.Arguments
import MappingCanvas.Files
import MappingCanvas.Restore.FromRules
import MappingCanvas.Restore.Staging
import MappingCanvas.Rule.Artifact
import MappingCanvas.Settings
import MappingCanvas.Suggestion.Sketch

namespace MappingCanvas
namespace Console

/-- What the program leaves behind besides files: its exit code and what it printed. -/
structure Report where
  exitCode : Nat
  output : List String
  errors : List String
  deriving DecidableEq

/-- The id and the time of a snapshot that is made. -/
structure Stamp where
  id : String
  now : Instant

/-- A job: it ends with the lines it prints, or with the reason why it failed. -/
abbrev JobT (m : Type → Type) (α : Type) := ExceptT String m α

section

variable {m : Type → Type} [Monad m]

/-- Goes on with a result, or fails with a reason. -/
def orFail {ε α : Type} (result : Except ε α) (reason : ε → String) : JobT m α :=
  match result with
  | .ok a => pure a
  | .error e => throw (reason e)

/-- A text between quotes. -/
def named (path : String) : String := "'" ++ path ++ "'"

variable [FileAccess m]

/-- The text of a file. -/
def readText (path : String) : JobT m String := do
  orFail (← FileAccess.readText (m := m) path) fun e =>
    "Failed to read " ++ named path ++ ": " ++ e.message

/-- What a file holds; `what` says in messages what it should be. -/
def readDocument {α : Type} (what : String) (read : Decoder α) (path : String) : JobT m α := do
  orFail (read.ofText (← readText path)) fun e =>
    "Failed to parse " ++ what ++ " " ++ named path ++ ": " ++ e.message

/-- Writes a document to a file. -/
def writeDocument (path : String) (j : Json) : JobT m Unit := do
  orFail (← FileAccess.writeText (m := m) path j.pretty) fun e =>
    "Failed to write " ++ named path ++ ": " ++ e.message

/-- The settings in a file. -/
def readSettings : Option String → JobT m Settings
  | none => pure .default
  | some path => do
    let text ← orFail (← FileAccess.readText (m := m) path) fun e =>
      "Could not read settings file " ++ named path ++ ": " ++ e.message
    orFail (Settings.decode.ofText text) fun e =>
      "Could not parse settings file " ++ named path ++ ": " ++ e.message

/-- The rule set in a file. -/
def readRules (path : String) : JobT m RuleSet :=
  readDocument "execution configuration" RuleSet.decode path

/-- Exports a canvas. -/
def runExport (settings : Settings) (stamp : Stamp)
    (canvasPath snapshotOut rulesOut name : String) (version : Option String) :
    JobT m (List String) := do
  let canvas ← readDocument "canvas" Canvas.decode canvasPath
  let exporter : Exporter :=
    ⟨settings.exporting, stamp.id, name, version, stamp.now, none, []⟩
  let (snapshot, rules, warnings) := exporter.exportAll canvas
  writeDocument snapshotOut snapshot.toJson
  writeDocument rulesOut rules.toJson
  let summary := "Exported " ++ Text.ofNat canvas.nodes.size ++ " nodes, " ++
    Text.ofNat snapshot.connections.length ++ " connections and " ++
    Text.ofNat rules.rules.length ++ " rules"
  return summary :: if warnings.isEmpty then []
    else ["", "--- Skipped ---"] ++ warnings.map fun w => "  -> " ++ w.message

/-- Writes a canvas that was restored. -/
def writeCanvas (canvas : Canvas) (out : String) : JobT m (List String) := do
  writeDocument out canvas.toJson
  return ["Rebuilt " ++ Text.ofNat canvas.nodes.size ++ " nodes and " ++
    Text.ofNat canvas.edges.size ++ " edges"]

/-- Restores a canvas from a snapshot, with the groupings of a rule set if there is one. -/
def runRestore (snapshotPath : String) (rulesPath : Option String) (out : String) :
    JobT m (List String) := do
  let groupings ← match rulesPath with
    | some path => do pure (← readRules path).groupings
    | none => pure []
  let snapshot ← readDocument "configuration" Snapshot.decode snapshotPath
  let canvas ← orFail (Restore.restore groupings snapshot) fun e => "Import failed: " ++ e.message
  writeCanvas canvas out

/-- Draws a canvas from a rule set and its own groupings; another rule set that is named is only
read. -/
def runRestoreRules (settings : Settings) (rulesPath : String) (groupingsPath : Option String)
    (out : String) : JobT m (List String) := do
  if let some path := groupingsPath then
    let _ ← readRules path
  let rules ← readRules rulesPath
  writeCanvas (Restore.fromRules rules.groupings settings.layout rules) out

/-- The line about a suggestion that drew nothing. -/
def skippedLine (s : Suggestion.Skipped) : String :=
  "  -> " ++ s.target.getD "<none>" ++ " (" ++ s.mappingType ++ "): " ++ s.reason

/-- Draws a canvas from the answer of an assistant. -/
def runSuggest (settings : Settings) (answerPath : String) (samplesPath : Option String)
    (out : String) : JobT m (List String) := do
  let suggestions ← orFail (Suggestion.parseAnswer (← readText answerPath)) fun e =>
    "Failed to read suggestions: " ++ e.message
  let samples ← match samplesPath with
    | some path => readDocument "samples" (.list .value) path
    | none => pure []
  let drawn := Suggestion.toCanvas samples settings.layout suggestions
  writeDocument out drawn.canvas.toJson
  let summary := "Created " ++ Text.ofNat drawn.canvas.nodes.size ++ " nodes and " ++
    Text.ofNat drawn.canvas.edges.size ++ " edges, skipped " ++
    Text.ofNat drawn.skipped.length ++ " suggestions"
  return summary :: drawn.skipped.map skippedLine

/-- Packs a rule set, if its rules are valid. -/
def runPack (rulesPath out : String) : JobT m (List String) := do
  let rules ← readRules rulesPath
  orFail rules.validate RuleError.message
  let artifact := Artifact.pack rules
  orFail (← artifact.save (m := m) out) ArtifactError.message
  return ["Packed " ++ Text.ofNat artifact.ruleCount.toNat ++ " rules into " ++ named out]

/-- Runs a job. -/
def runJob (settings : Settings) (stamp : Stamp) : Job → JobT m (List String)
  | .exportCanvas canvas snapshotOut rulesOut name version =>
    runExport settings stamp canvas snapshotOut rulesOut name version
  | .restore snapshot rules out => runRestore snapshot rules out
  | .restoreRules rules groupings out => runRestoreRules settings rules groupings out
  | .suggest answer samples out => runSuggest settings answer samples out
  | .pack rules out => runPack rules out

end

/-- The name and version of the program. -/
def versionText : String := "mapping-canvas 0.1.0"

/-- What the program says about itself. -/
def helpText : List String :=
  ["Compile, rebuild and bootstrap field-mapping canvases from JSON files",
    "",
    "Usage: mapping-canvas [--settings FILE] COMMAND",
    "",
    "Commands:",
    "  export CANVAS_PATH [--ui-out FILE] [--execution-out FILE] [--name NAME] [--version VERSION]",
    "  import CONFIG_PATH [--execution FILE] [--execution-only] [--out FILE]",
    "  suggest RESPONSE_PATH [--samples FILE] [--out FILE]",
    "  pack EXECUTION_PATH [--out FILE]"]

/-- Runs the program on the words of a command line. -/
def run {m : Type → Type} [Monad m] [FileAccess m] (stamp : Stamp) (words : List String) :
    m Report := do
  match parse words with
  | .error cause => return ⟨2, [], ["error: " ++ cause.message, ""] ++ helpText⟩
  | .ok .help => return ⟨0, helpText, []⟩
  | .ok .version => return ⟨0, [versionText], []⟩
  | .ok (.run settingsPath job) =>
    let work : JobT m (List String) := do runJob (← readSettings settingsPath) stamp job
    match ← work.run with
    | .ok lines => return ⟨0, lines, []⟩
    | .error reason => return ⟨1, [], ["", "Error: " ++ reason]⟩

end Console
end MappingCanvas
