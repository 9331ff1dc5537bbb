import DebugSweep.Clear.Files
import DebugSweep.Export.Tree
import DebugSweep.Server.Basic

/-! What each tool does with its arguments. -/
namespace DebugSweep.Site

abbrev Arguments := List (String × Value)

abbrev Reply := Except Fault Value × Site

def unfit (text : String) : Fault := .dispatch "INVALID_PARAMS" text

/-- An argument; a null value counts as one that is not there. -/
def argument? (args : Arguments) (name : String) : Option Value :=
  match Value.fieldIn? name args with
  | some .null => none
  | found => found

/-- An argument that has a value if it is not there at all. -/
def argumentOr (args : Arguments) (name : String) (fallback : Value) : Value :=
  (Value.fieldIn? name args).getD fallback

def oneOf (choices : List String) : String := String.intercalate ", " choices

def disabledKinds (args : Arguments) : Except Fault (List String) :=
  match (argumentOr args "disabled_types" (.list [])).texts? with
  | some names =>
      if names.all (fun name => (Lexis.Kind.ofName? name).isSome) then .ok names
      else .error (unfit "disabled_types must be a list of known statement types.")
  | none => .error (unfit "disabled_types must be a list of known statement types.")

def statusOf (r : ScanResult) : Value :=
  .record [("scanned_files", .ofNat r.scannedFiles), ("total_statements", .ofNat r.total),
    ("error_count", .ofNat r.errors.length), ("scan_time_ms", .int 0)]

def status (s : Site) : Value :=
  .record [("workspace_root", .text s.server.settings.workspaceRoot.text),
    ("cached_file_count", .ofNat s.server.engine.cache.size),
    ("bookmark_count", .ofNat s.server.bookmarks.ids.length),
    ("scanning", .bool s.server.engine.scanning),
    ("last_scan", (s.server.engine.last.map statusOf).getD .null),
    ("effective_config", s.server.engine.settings.toValue)]

def scanWorkspaceTool (s : Site) (now : String) (args : Arguments) : Reply :=
  match disabledKinds args with
  | .error fault => (.error fault, s)
  | .ok hidden =>
      let (result, s') := s.scanWorkspace now
      (result.map (fun r => (r.hide hidden).toValue), s')

def requestedFiles (s : Site) (args : Arguments) : Except Fault (List String × List String) := do
  match ((Value.fieldIn? "paths" args).getD .null).texts? with
  | none => throw (unfit "debug.scan_files paths must be a list of strings.")
  | some paths =>
      let hidden ← disabledKinds args
      let places ← paths.mapM (Path.inWorkspace s.disk.here s.server.settings.scan.roots)
      return (hidden, places.map AbsPath.text)

def scanFilesTool (s : Site) (now : String) (args : Arguments) : Reply :=
  match s.requestedFiles args with
  | .error fault => (.error fault, s)
  | .ok (hidden, paths) =>
      let (result, s') := s.scanFiles now paths
      (result.map (fun r => (r.hide hidden).toValue), s')

def languageOf (s : Site) (args : Arguments) : Except Fault String :=
  match argumentOr args "language" (.text s.server.settings.editor.language) with
  | .text name =>
      if Edit.languages.contains name then .ok name
      else .error (unfit ("debug.insert_dump language must be one of: " ++ oneOf Edit.languages ++ "."))
  | _ => .error (unfit ("debug.insert_dump language must be one of: " ++ oneOf Edit.languages ++ "."))

def indentOf (s : Site) (args : Arguments) : Except Fault Edit.IndentOptions := do
  let editor := s.server.settings.editor
  let tabSize ← match argumentOr args "tab_size" (.ofNat editor.tabSize) with
    | .int n => if n < 1 then throw (unfit "debug.insert_dump tab_size must be >= 1.") else pure n
    | _ => throw (unfit "debug.insert_dump tab_size must be >= 1.")
  match argumentOr args "insert_spaces" (.bool editor.insertSpaces) with
  | .bool insertSpaces => return { tabSize, insertSpaces }
  | _ => throw (unfit "debug.insert_dump insert_spaces must be a boolean.")

def asUnfit : Fault → Fault
  | .invalid cause => unfit cause.message
  | fault => fault

def insertDump (s : Site) (args : Arguments) : Except Fault Value := do
  match Value.fieldIn? "text" args with
  | some (.text source) =>
      let selection ← (Edit.Selection.ofValue (argumentOr args "selection" .null)).mapError asUnfit
      let language ← s.languageOf args
      let options ← s.indentOf args
      let document := Edit.Document.ofText source.toList
      let expression ← (Edit.expressionOf document selection).mapError asUnfit
      let statement := Edit.dumpStatement language expression
      let plan ← Edit.plan document selection options
      let edited ← Edit.apply document plan statement
      return .record [("expression", .text (String.ofList expression)),
        ("statement", .text (String.ofList statement)), ("plan", plan.toValue),
        ("inserted_text", .text (String.ofList (Edit.render plan statement))),
        ("text", .text (String.ofList edited.text))]
  | _ => throw (unfit "debug.insert_dump text must be a string.")

def clearTargets (s : Site) (args : Arguments) (findings : List Finding) :
    Except Fault (List Finding) := do
  let byId ← match argument? args "ids" with
    | none => pure findings
    | some value =>
        match value.texts? with
        | some ids => pure (findings.filter (fun f => ids.contains f.id))
        | none => throw (unfit "debug.clear ids must be a list of strings.")
  match argument? args "path" with
  | none => return byId
  | some (.text path) =>
      let target ← Path.inWorkspace s.disk.here s.server.settings.scan.roots path
      return byId.filter (fun f => (target.below? ⟨(Written.ofText f.filePath).names⟩).isSome)
  | some _ => throw (unfit "debug.clear path must be a string.")

def namesTargets (args : Arguments) : Bool :=
  (argument? args "ids").isSome || (argument? args "path").isSome ||
    (match Value.fieldIn? "all" args with
    | some (.bool true) => true
    | _ => false)

def clearFound (s : Site) (now : String) (findings : List Finding) : Reply :=
  let (cleared, d) := Clear.fromFiles s.disk findings s.server.bookmarks.ids
  let s' := s.withDisk d
  match cleared with
  | .error fault => (.error fault, s')
  | .ok report =>
      if report.filesChanged.isEmpty then (.ok report.toValue, s')
      else
        let (result, s'') := s'.scanWorkspace now
        (result.map (fun _ => report.toValue), s'')

def clearTool (s : Site) (now : String) (args : Arguments) : Reply :=
  if !namesTargets args then (.error (unfit "debug.clear needs one of ids, path or all=true."), s)
  else
    let (current, s') := s.currentFindings now
    match current >>= s'.clearTargets args with
    | .error fault => (.error fault, s')
    | .ok findings => s'.clearFound now findings

def bookmarkTool (s : Site) (args : Arguments) : Reply :=
  match Value.fieldIn? "id" args with
  | some (.text id) =>
      if id == "" then (.error (unfit "debug.bookmark id must be a non-empty string."), s)
      else
        let (set, bookmarks, d) := s.server.bookmarks.toggle s.disk id
        let s' := { s with server := { s.server with bookmarks } }
        (set.map (fun b => .record [("id", .text id), ("bookmarked", .bool b)]), s'.withDisk d)
  | _ => (.error (unfit "debug.bookmark id must be a non-empty string."), s)

def excludeRequest (s : Site) (args : Arguments) : Except Fault (String × Bool) := do
  match Value.fieldIn? "path" args with
  | some (.text path) =>
      let isDir ← match argumentOr args "kind" (.text "dir") with
        | .text "dir" => pure true
        | .text "file" => pure false
        | _ => throw (unfit "debug.exclude kind must be one of: dir, file.")
      match argumentOr args "add" (.bool true) with
      | .bool add =>
          let roots := s.server.settings.scan.roots
          let target ← Path.inWorkspace s.disk.here roots path
          match Path.excludePattern roots target isDir with
          | some pattern => return (pattern, add)
          | none => throw (unfit (Invalid.notBelowRoot target.text).message)
      | _ => throw (unfit "debug.exclude add must be a boolean.")
  | _ => throw (unfit "debug.exclude path must be a string.")

def excludeTool (s : Site) (now : String) (args : Arguments) : Reply :=
  match s.excludeRequest args with
  | .error fault => (.error fault, s)
  | .ok (pattern, add) =>
      let (changed, excludes, d) := s.server.excludes.update s.disk [pattern] add
      let s₁ := { s with server := { s.server with excludes } }.withDisk d
      match changed with
      | .error fault => (.error fault, s₁)
      | .ok changed =>
          let engine := s₁.server.engine.reload (s₁.server.settings.withExcludes excludes.patterns)
          let (result, s₂) := (s₁.withEngine engine s₁.source).scanWorkspace now
          (result.map (fun r =>
            .record [("pattern", .text pattern), ("excluded", .bool add), ("changed", .bool changed),
              ("patterns", Value.ofTexts excludes.patterns), ("total_statements", .ofNat r.total)]), s₂)

def exportRequest (args : Arguments) : Except Fault (String × Option (List String)) := do
  let wrong := unfit ("debug.export format must be one of: " ++ oneOf Export.formats ++ ".")
  match argumentOr args "format" (.text "md") with
  | .text format =>
      if !Export.formats.contains format then throw wrong
      match argument? args "fields" with
      | none => return (format, none)
      | some value =>
          match value.texts? with
          | some names => return (format, some names)
          | none => throw (unfit "debug.export fields must be a list of strings.")
  | _ => throw wrong

def exportTool (s : Site) (now : String) (args : Arguments) : Reply :=
  match exportRequest args with
  | .error fault => (.error fault, s)
  | .ok (format, names) =>
      let (current, s') := s.currentFindings now
      let rendered := do
        let content ← Export.render s'.disk.here s'.server.settings.rootTexts format names (← current)
        return Value.record [("format", .text format), ("content", .text content)]
      (rendered, s')

/-- Truth values count as zero and one. -/
def limitOf (args : Arguments) : Int :=
  let asked := match argumentOr args "limit" (.int 50) with
    | .int n => n
    | .bool b => if b then 1 else 0
    | _ => 50
  min (max asked 1) 200

def auditLogTool (s : Site) (args : Arguments) : Except Fault Value := do
  let textOf := fun name => (argumentOr args name .null).text?
  let entries ← Journal.read s.disk s.server.journal (textOf "since") (limitOf args) (textOf "tool")
  return .record [("entries", .list entries)]

def call (s : Site) (now : String) (args : Arguments) : Tool → Reply
  | .status => (.ok s.status, s)
  | .scanWorkspace => s.scanWorkspaceTool now args
  | .scanFiles => s.scanFilesTool now args
  | .insertDump => (s.insertDump args, s)
  | .clear => s.clearTool now args
  | .bookmark => s.bookmarkTool args
  | .bookmarks => (.ok (.record [("ids", Value.ofTexts s.server.bookmarks.sorted)]), s)
  | .exclude => s.excludeTool now args
  | .exportFindings => s.exportTool now args
  | .auditLog => (s.auditLogTool args, s)

end DebugSweep.Site
