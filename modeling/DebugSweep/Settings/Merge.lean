import DebugSweep.Number.Binary64
import DebugSweep.Settings.Basic

/-! Layers of settings: values of a configuration file over the built-in ones, and overrides over
both. Every value is checked before it is taken. -/
namespace DebugSweep.Settings
open Text

abbrev Fields := List (String × Value)

structure Overrides where
  dataDir : Option String := none
  maxFileBytes : Value := .null
  batchSize : Value := .null
  guardMode : Value := .null
  language : Value := .null

def refuse (cause : Invalid) : Except Fault α := .error (.invalid cause)

def sectionOf (payload : Fields) (key : String) : Except Fault Fields :=
  match Value.fieldIn? key payload with
  | none => .ok []
  | some (.record fields) => .ok fields
  | some _ => refuse (.sectionShape key)

def textsOf (value : Value) (name : String) : Except Fault (List String) :=
  match value with
  | .list _ =>
      match value.texts? with
      | some texts => .ok texts
      | none => refuse (.notTexts name)
  | _ => refuse (.notList name)

def scanTexts (fields : Fields) (name : String) (base : List String) : Except Fault (List String) :=
  match Value.fieldIn? name fields with
  | none => .ok base
  | some value => textsOf value ("scan." ++ name)

def valueOf (fields : Fields) (name : String) : Value := (Value.fieldIn? name fields).getD .null

/-- A whole number from one up to a cap. Truth values are no numbers. -/
def positiveInt (value : Value) (name : String) (base cap : Nat) : Except Fault Nat :=
  match value with
  | .null => .ok base
  | .int n =>
      if n < 1 then refuse (.notPositiveInt name)
      else if (cap : Int) < n then refuse (.aboveCap name cap)
      else .ok n.toNat
  | _ => refuse (.notPositiveInt name)

def positiveReal (value : Value) (name : String) (base : UInt64) : Except Fault UInt64 :=
  match value with
  | .null => .ok base
  | .int n =>
      if n ≤ 0 then refuse (.notPositiveNumber name)
      else
        match Binary64.ofInt? n with
        | some bits => .ok bits
        | none => .error .floatRange
  | .real bits => if Binary64.isPositive bits then .ok bits else refuse (.notPositiveNumber name)
  | _ => refuse (.notPositiveNumber name)

def truth (value : Value) (name : String) (base : Bool) : Except Fault Bool :=
  match value with
  | .null => .ok base
  | .bool b => .ok b
  | _ => refuse (.notBool name)

def choice (value : Value) (name base : String) (choices : List String) : Except Fault String :=
  match value with
  | .null => .ok base
  | .text s => if choices.contains s then .ok s else refuse (.notChoice name choices)
  | _ => refuse (.notChoice name choices)

def normalizeExtension (s : String) : String :=
  let plain := lower (stripText s)
  if plain == "" || plain.startsWith "." then plain else "." ++ plain

def mergeRoots (base : Settings) (fields : Fields) : Except Fault (List AbsPath) :=
  match Value.fieldIn? "roots" fields with
  | none => .ok base.scan.roots
  | some value => do
      let texts ← textsOf value "scan.roots"
      if texts.isEmpty then refuse .noRoots
      else texts.mapM (Path.resolve base.workspaceRoot)

def mergeScan (base : Settings) (fields : Fields) : Except Fault ScanSettings := do
  let roots ← mergeRoots base fields
  let includeExtensions ←
    match Value.fieldIn? "include_extensions" fields with
    | none => pure base.scan.includeExtensions
    | some value => (textsOf value "scan.include_extensions").map (·.map normalizeExtension)
  let excludeGlobs ← scanTexts fields "exclude_globs" base.scan.excludeGlobs
  let skipDirNames ← scanTexts fields "skip_dir_names" base.scan.skipDirNames
  return { roots, includeExtensions, excludeGlobs, skipDirNames }

def mergeLimits (base : Limits) (fields : Fields) : Except Fault Limits := do
  return {
    maxFileBytes := ← positiveInt (valueOf fields "max_file_bytes") "limits.max_file_bytes"
      base.maxFileBytes maxFileBytesCap
    batchSize := ← positiveInt (valueOf fields "batch_size") "limits.batch_size" base.batchSize
      batchSizeCap
    maxResponseBytes := ← positiveInt (valueOf fields "max_total_bytes_per_response")
      "limits.max_total_bytes_per_response" base.maxResponseBytes maxResponseBytesCap }

def mergeEditor (base : EditorSettings) (fields : Fields) : Except Fault EditorSettings := do
  return {
    tabSize := ← positiveInt (valueOf fields "tab_size") "editor.tab_size" base.tabSize tabSizeCap
    insertSpaces := ← truth (valueOf fields "insert_spaces") "editor.insert_spaces" base.insertSpaces
    language := ← choice (valueOf fields "language") "editor.language" base.language Edit.languages }

def mergeGuard (base : GuardSettings) (fields : Fields) : Except Fault GuardSettings := do
  return {
    enabled := ← truth (valueOf fields "enabled") "guard.enabled" base.enabled
    mode := ← choice (valueOf fields "mode") "guard.mode" base.mode guardModes }

def mergeWatch (base : WatchSettings) (fields : Fields) : Except Fault WatchSettings := do
  return {
    debounce := ← positiveReal (valueOf fields "debounce_seconds") "watch.debounce_seconds"
      base.debounce
    pollInterval := ← positiveReal (valueOf fields "poll_interval_seconds")
      "watch.poll_interval_seconds" base.pollInterval }

def mergeFile (base : Settings) (payload : Fields) : Except Fault Settings := do
  let scan ← sectionOf payload "scan"
  let limits ← sectionOf payload "limits"
  let editor ← sectionOf payload "editor"
  let guard ← sectionOf payload "guard"
  let watch ← sectionOf payload "watch"
  return { base with
    scan := ← mergeScan base scan
    limits := ← mergeLimits base.limits limits
    editor := ← mergeEditor base.editor editor
    guard := ← mergeGuard base.guard guard
    watch := ← mergeWatch base.watch watch }

def override (here : AbsPath) (base : Settings) (o : Overrides) : Except Fault Settings := do
  let maxFileBytes ← positiveInt o.maxFileBytes "overrides.max_file_bytes" base.limits.maxFileBytes
    maxFileBytesCap
  let batchSize ← positiveInt o.batchSize "overrides.batch_size" base.limits.batchSize batchSizeCap
  let mode ← choice o.guardMode "overrides.guard_mode" base.guard.mode guardModes
  let language ← choice o.language "overrides.language" base.editor.language Edit.languages
  let dataDir ←
    match o.dataDir with
    | some text => Path.resolve here text
    | none => pure base.dataDir
  return { base with
    dataDir
    limits := { base.limits with maxFileBytes, batchSize }
    guard := { base.guard with mode }
    editor := { base.editor with language } }

def merge (here : AbsPath) (base : Settings) (payload : Fields) (o : Overrides) :
    Except Fault Settings := do
  override here (← mergeFile base payload) o

end DebugSweep.Settings
